import Galdr.ExecutorTime
import Galdr.ExecutorOverrides
import Galdr.SpindleInterlock
import Galdr.HostStreaming
import Galdr.HostAcks
import Galdr.EmitSafety
import Galdr.EmittedText
import Galdr.ProgramWire
import Galdr.OverrideLink
import Galdr.IsolationRoundTrip
import Galdr.ImportAgreement
import Galdr.SessionFreshness
import Galdr.SimulatorAccounts
import Galdr.ProbeSafety
import Galdr.BlockLimits
import Galdr.PlannerSettling
import Galdr.ArcEndpoint
import Galdr.WedgeRuns
import Galdr.DriverHealth
import Galdr.TransmitFraming
import Galdr.ProbeAttribution
import Galdr.FeedIsolation
import Galdr.HardLimits
import Galdr.SetPosition
import Galdr.StreamLines
import Galdr.ModalOutputs
import Galdr.LineAnswers
import Galdr.StopBytes
import Galdr.GerberCopper
import Galdr.ResetLatch
import Galdr.RingNesting
import Galdr.CutoutBridges
import Galdr.CollectionGroups
import Galdr.CoordinateFields
import Galdr.WizardRuns
import Galdr.ApertureMacros
import Galdr.CutoutRegistration
import Galdr.ProjectRoundTrip
import Galdr.PositionDisplay
import Galdr.WireDriver
import Galdr.ArcRings
import Galdr.FlattenedCurves
import Galdr.RasterFill
