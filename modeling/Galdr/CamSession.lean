import Galdr.History
import Galdr.ObjectCollection

/-!
# The CAM session

A session drives the project: it opens sources, runs the CAM operations on them, and posts what
they make as jobs. A job keeps its program, the operation and the emission that made it, and
the dialect and the datum that it was posted with. What moves a source or the datum flags the
jobs that were made from it as stale, and a stale job is made anew from what it keeps.

What the CAM operations compute is a parameter, the engine: the parsers, the operations, and
the emitters. Each is a function of its arguments.
-/

namespace Galdr.Project

/-- What the session computes with. -/
structure Engine (K : Type) where
  /-- Regions of the plane. -/
  Region : Type
  /-- Open paths. -/
  Polylines : Type
  /-- Hits of a drill file. -/
  ExcellonImage : Type
  /-- Parameters of isolation. -/
  IsolationSpec : Type
  /-- Parameters of drilling. -/
  DrillSpec : Type
  /-- Parameters of painting. -/
  PaintSpec : Type
  /-- Parameters of non-copper clearing. -/
  NonCopperSpec : Type
  /-- Parameters of a cutout, but for its outline. -/
  CutoutParams : Type
  /-- Parameters of a panel. -/
  PanelizeSpec : Type
  /-- Mirror lines. -/
  MirrorLineSpec : Type
  /-- How a toolpath is emitted. -/
  IsolationJob : Type
  /-- How a drilling plan is emitted. -/
  DrillJob : Type
  /-- Toolpaths. -/
  Toolpaths : Type
  /-- A drilling plan. -/
  DrillPlan : Type
  /-- Rendered lines. -/
  Program : Type
  /-- The errors of the engine. -/
  Fault : Type
  /-- The copper of a Gerber source. -/
  parseGerber : String → Except Fault Region
  /-- The hits of an Excellon source. -/
  parseExcellon : String → Except Fault ExcellonImage
  /-- The shapes of an SVG source. -/
  importSvg : String → Except Fault (Region × Polylines)
  /-- The shapes of a DXF source. -/
  importDxf : String → Except Fault (Region × Polylines)
  /-- The cuts of a program. -/
  importGcode : String → Except Fault (Region × Polylines)
  /-- A region moved. -/
  transform : Region → Affine K → Region
  /-- Hits moved. -/
  placeHits : ExcellonImage → Affine K → ExcellonImage
  /-- The bounds of a region. -/
  bounds : Region → Option (K × K × K × K)
  /-- The isolation of a region. -/
  isolate : Region → IsolationSpec → Except Fault Toolpaths
  /-- The order of the hits. -/
  planDrilling : ExcellonImage → DrillSpec → Except Fault DrillPlan
  /-- The fill of a region. -/
  paint : Region → PaintSpec → Except Fault Toolpaths
  /-- The fill of what is not copper. -/
  clearNoncopper : Region → NonCopperSpec → Except Fault Toolpaths
  /-- The profile of a rectangle. -/
  cutoutRectangle : K × K → K × K → CutoutParams → Except Fault Toolpaths
  /-- The profile of a shape. -/
  cutoutGeometry : Region → CutoutParams → Except Fault Toolpaths
  /-- No paths. -/
  noPolylines : Polylines
  /-- Copies of a region side by side. -/
  panelize : Region → PanelizeSpec → Except Fault Region
  /-- A region mirrored. -/
  mirror : Region → MirrorLineSpec → Region
  /-- The diameter of the tool. -/
  isolationTool : IsolationSpec → K
  /-- The diameter of the tool. -/
  paintTool : PaintSpec → K
  /-- The diameter of the tool. -/
  nonCopperTool : NonCopperSpec → K
  /-- The diameter of the tool. -/
  cutoutTool : CutoutParams → K
  /-- The note of a tool. -/
  toolNote : K → String
  /-- The note of the tools of a plan. -/
  drillToolsNote : DrillPlan → Option String
  /-- There is a dialect of a name. -/
  registered : String → Bool
  /-- A program in a dialect, about an origin. -/
  emitIsolation : Toolpaths → IsolationJob → K × K × K → String → Option String → Program
  /-- A program in a dialect, about an origin. -/
  emitDrilling : DrillPlan → DrillJob → K × K × K → String → Option String → Program

section Model

variable {K : Type} (E : Engine K)

/-- The outline of a cutout. -/
inductive CutoutOutlineSpec
  /-- A rectangle between two corners. -/
  | rectangle (low high : K × K)
  /-- A shape. -/
  | geometry (region : E.Region)

/-- The parameters of a cutout. -/
structure CutoutSpec where
  /-- The outline, which the cutout owns. -/
  outline : CutoutOutlineSpec E
  /-- The others. -/
  params : E.CutoutParams

/-- An operation, with its parameters. -/
inductive CamOperation
  | isolation (spec : E.IsolationSpec)
  | drilling (spec : E.DrillSpec)
  | paint (spec : E.PaintSpec)
  | nonCopper (spec : E.NonCopperSpec)
  | cutout (spec : CutoutSpec E)

/-- How the toolpaths of a job are emitted. -/
inductive JobEmission
  | isolation (job : E.IsolationJob)
  | drill (job : E.DrillJob)

/-- A job. -/
structure CncJobObject where
  /-- The program. -/
  gcode : E.Program
  /-- The dialect that the program was posted in. -/
  dialect : String
  /-- The object that the job was made from. -/
  source : Option ObjectId
  /-- The operation that made it. -/
  operation : CamOperation E
  /-- The datum that it was posted with. -/
  origin : K × K
  /-- The job is out of date. -/
  stale : Bool
  /-- The emission that made it; jobs of an old project have none. -/
  emission : Option (JobEmission E)

/-- A job of a program that was just made. -/
def CncJobObject.fromProgram {E : Engine K} (program : E.Program) (dialect : String)
    (source : Option ObjectId) (operation : CamOperation E) (origin : K × K)
    (emission : Option (JobEmission E)) : CncJobObject E where
  gcode := program
  dialect := dialect
  source := source
  operation := operation
  origin := origin
  stale := false
  emission := emission

/-- What an object is. -/
inductive ObjectPayload
  /-- A Gerber source, and its copper. -/
  | gerber (source : String) (image : Option E.Region)
  /-- An Excellon source, and its hits. -/
  | excellon (source : String) (image : Option E.ExcellonImage)
  /-- Shapes. -/
  | geometry (polygons : E.Region) (polylines : E.Polylines)
  /-- A job. -/
  | cncJob (job : CncJobObject E)

/-- The kinds of objects. -/
inductive ObjectKind
  | gerber
  | excellon
  | geometry
  | cncJob
  deriving DecidableEq

/-- The kind of an object. -/
def ObjectPayload.kind {E : Engine K} : ObjectPayload E → ObjectKind
  | .gerber _ _ => .gerber
  | .excellon _ _ => .excellon
  | .geometry _ _ => .geometry
  | .cncJob _ => .cncJob

/-- The errors of a session. -/
inductive ScriptError
  /-- The collection refuses. -/
  | project (e : ProjectError)
  /-- The engine fails. -/
  | engine (e : E.Fault)
  /-- There is no object of an identifier. -/
  | unknownObject (id : ObjectId)
  /-- An object is of another kind. -/
  | wrongKind (id : ObjectId) (expected : String) (actual : ObjectKind)
  /-- There is no dialect of a name. -/
  | unknownDialect (name : String)
  /-- An argument is out of range. -/
  | invalidArgument (message : String)

/-- The objects of a session. -/
abbrev Objects : Type := ObjectCollection K (ObjectPayload E)

end Model

/-! ## The setup -/

/-- A point of a rectangle. -/
inductive DatumCorner
  | bottomLeft
  | bottomRight
  | topLeft
  | topRight
  | center
  deriving DecidableEq

/-- The face of the stock at zero. -/
inductive ZReference
  | top
  | bottom
  deriving DecidableEq

/-- The block of material. -/
structure Stock (K : Type) where
  /-- The least x. -/
  minX : K
  /-- The least y. -/
  minY : K
  /-- The width. -/
  sizeX : K
  /-- The height. -/
  sizeY : K
  /-- The thickness. -/
  thickness : K
  /-- The face at zero. -/
  zRef : ZReference
  /-- The corner at zero. -/
  datum : DatumCorner
  deriving DecidableEq

/-- The datum, and the stock that defines it. -/
structure WorkSetup (K : Type) where
  /-- The point that is at zero. -/
  origin : K × K × K
  /-- The stock. -/
  stock : Option (Stock K)
  deriving DecidableEq

/-- How the datum is chosen. -/
inductive JobOrigin (K : Type)
  /-- As the source has it. -/
  | native
  /-- A point of the bounds. -/
  | bounds (corner : DatumCorner)
  /-- A point. -/
  | absolute (x y : K)

section Setup

variable {K : Type} [Field K]

/-- The point of bounds. -/
def DatumCorner.resolve (corner : DatumCorner) (bounds : K × K × K × K) : K × K :=
  let (minX, minY, maxX, maxY) := bounds
  match corner with
  | .bottomLeft => (minX, minY)
  | .bottomRight => (maxX, minY)
  | .topLeft => (minX, maxY)
  | .topRight => (maxX, maxY)
  | .center => ((minX + maxX) / 2, (minY + maxY) / 2)

/-- The point that is chosen. -/
def JobOrigin.resolve (origin : JobOrigin K) (bounds : K × K × K × K) : K × K :=
  match origin with
  | .native => (0, 0)
  | .bounds corner => corner.resolve bounds
  | .absolute x y => (x, y)

namespace Stock

/-- The bounds of the stock. -/
def footprint (stock : Stock K) : K × K × K × K :=
  (stock.minX, stock.minY, stock.minX + stock.sizeX, stock.minY + stock.sizeY)

/-- The point that is at zero. -/
def origin (stock : Stock K) : K × K × K :=
  let (x, y) := stock.datum.resolve stock.footprint
  (x, y, match stock.zRef with | .top => 0 | .bottom => -stock.thickness)

/-- A stock of the bounds of a board. -/
def fit (bounds : K × K × K × K) (thickness : K) : Stock K where
  minX := bounds.1
  minY := bounds.2.1
  sizeX := bounds.2.2.1 - bounds.1
  sizeY := bounds.2.2.2 - bounds.2.1
  thickness := thickness
  zRef := .top
  datum := .bottomLeft

end Stock

namespace WorkSetup

/-- The frame of the source. -/
def default : WorkSetup K := ⟨(0, 0, 0), none⟩

/-- The setup of a stock. -/
def fromStock : Option (Stock K) → WorkSetup K
  | some stock => ⟨stock.origin, some stock⟩
  | none => default

/-- The setup of a point. -/
def point (x y : K) : WorkSetup K := ⟨(x, y, 0), none⟩

end WorkSetup

end Setup

/-! ## Programs -/

section Programs

variable {K : Type} {E : Engine K}

/-- A document: the objects and the setup. -/
abbrev Document (E : Engine K) : Type := Snapshot (Objects E) (WorkSetup K)

/-- The diameter of the one tool of an operation. -/
def CamOperation.toolDiameter : CamOperation E → Option K
  | .isolation spec => some (E.isolationTool spec)
  | .paint spec => some (E.paintTool spec)
  | .nonCopper spec => some (E.nonCopperTool spec)
  | .cutout spec => some (E.cutoutTool spec.params)
  | .drilling _ => none

/-- The note of the tool in the header. -/
def headerNote (operation : CamOperation E) : Option String := operation.toolDiameter.map E.toolNote

namespace Document

/-- The object of an identifier. -/
def object (doc : Document E) (id : ObjectId) :
    Except (ScriptError E) (Object K (ObjectPayload E)) :=
  match doc.collection.get id with
  | none => .error (.unknownObject id)
  | some object => .ok object

/-- The region of a source, as it was drawn. -/
def sourceRegion (doc : Document E) (id : ObjectId) : Except (ScriptError E) E.Region := do
  let object ← doc.object id
  match object.payload with
  | .gerber source image =>
    match image with
    | some copper => .ok copper
    | none => (E.parseGerber source).mapError .engine
  | .geometry polygons _ => .ok polygons
  | other => .error (.wrongKind id "a Gerber or Geometry object" other.kind)

variable [Field K] [LinearOrder K]

/-- The region of a source, where it lies on the stock. -/
def regionOf (doc : Document E) (id : ObjectId) : Except (ScriptError E) E.Region := do
  let object ← doc.object id
  let region ← doc.sourceRegion id
  .ok (if object.info.placement = .identity then region
    else E.transform region object.info.placement)

/-- The hits of a source, where they lie on the stock. -/
def excellonImageOf (doc : Document E) (id : ObjectId) :
    Except (ScriptError E) E.ExcellonImage := do
  let object ← doc.object id
  let image ← match object.payload with
    | .excellon source image =>
      match image with
      | some image => .ok image
      | none => (E.parseExcellon source).mapError .engine
    | other => .error (.wrongKind id "an Excellon object" other.kind)
  .ok (if object.info.placement = .identity then image
    else E.placeHits image object.info.placement)

omit [Field K] [LinearOrder K] in
/-- The dialect, if it is registered. -/
def post (dialect : String) : Except (ScriptError E) String :=
  if E.registered dialect then .ok dialect else .error (.unknownDialect dialect)

/-- The program of an isolation. -/
def isolationProgram (doc : Document E) (dialect : String) (source : ObjectId)
    (spec : E.IsolationSpec) (job : E.IsolationJob) (tool : Option String) :
    Except (ScriptError E) E.Program := do
  let region ← doc.regionOf source
  let toolpaths ← (E.isolate region spec).mapError .engine
  let dialect ← post dialect
  .ok (E.emitIsolation toolpaths job doc.setup.origin dialect tool)

/-- The program of a drilling. -/
def drillProgram (doc : Document E) (dialect : String) (source : ObjectId) (spec : E.DrillSpec)
    (job : E.DrillJob) : Except (ScriptError E) E.Program := do
  let image ← doc.excellonImageOf source
  let plan ← (E.planDrilling image spec).mapError .engine
  let dialect ← post dialect
  .ok (E.emitDrilling plan job doc.setup.origin dialect (E.drillToolsNote plan))

/-- The program of a fill. -/
def paintProgram (doc : Document E) (dialect : String) (source : ObjectId) (spec : E.PaintSpec)
    (job : E.IsolationJob) (tool : Option String) : Except (ScriptError E) E.Program := do
  let region ← doc.regionOf source
  let toolpaths ← (E.paint region spec).mapError .engine
  let dialect ← post dialect
  .ok (E.emitIsolation toolpaths job doc.setup.origin dialect tool)

/-- The program of a clearing. -/
def noncopperProgram (doc : Document E) (dialect : String) (source : ObjectId)
    (spec : E.NonCopperSpec) (job : E.IsolationJob) (tool : Option String) :
    Except (ScriptError E) E.Program := do
  let region ← doc.regionOf source
  let toolpaths ← (E.clearNoncopper region spec).mapError .engine
  let dialect ← post dialect
  .ok (E.emitIsolation toolpaths job doc.setup.origin dialect tool)

omit [Field K] [LinearOrder K] in
/-- The program of a cutout. -/
def cutoutProgram (doc : Document E) (dialect : String) (spec : CutoutSpec E)
    (job : E.IsolationJob) (tool : Option String) : Except (ScriptError E) E.Program := do
  let toolpaths ← (match spec.outline with
    | .rectangle low high => E.cutoutRectangle low high spec.params
    | .geometry region => E.cutoutGeometry region spec.params).mapError .engine
  let dialect ← post dialect
  .ok (E.emitIsolation toolpaths job doc.setup.origin dialect tool)

omit [Field K] [LinearOrder K] in
/-- The source of a job, which it needs. -/
def needSource (source : Option ObjectId) : Except (ScriptError E) ObjectId :=
  match source with
  | none => .error (.invalidArgument "this job's source is gone; cannot rebuild")
  | some id => .ok id

/-- The program of a job, from what it keeps. -/
def rebuildProgram (doc : Document E) (dialect : String) (operation : CamOperation E)
    (emission : JobEmission E) (source : Option ObjectId) : Except (ScriptError E) E.Program :=
  let tool := headerNote operation
  match operation, emission with
  | .isolation spec, .isolation job => do
    doc.isolationProgram dialect (← needSource source) spec job tool
  | .drilling spec, .drill job => do doc.drillProgram dialect (← needSource source) spec job
  | .paint spec, .isolation job => do doc.paintProgram dialect (← needSource source) spec job tool
  | .nonCopper spec, .isolation job => do
    doc.noncopperProgram dialect (← needSource source) spec job tool
  | .cutout spec, .isolation job => doc.cutoutProgram dialect spec job tool
  | _, _ => .error (.invalidArgument "this operation cannot be rebuilt")

end Document

end Programs

/-! ## The session -/

section Session

variable {K : Type}

/-- A session. -/
structure Session (E : Engine K) where
  /-- The document, with its history. -/
  history : History (Objects E) (WorkSetup K)
  /-- The dialect that programs are posted in. -/
  dialect : String

/-- `DEFAULT_HISTORY_LIMIT`. -/
def defaultHistoryLimit : ℕ := 64

/-- `DEFAULT_DIALECT`. -/
def defaultDialect : String := "grbl"

/-- `Session::IMPORT_GROUP`. -/
def importGroup : String := "Imported"

/-- The operations of a session. -/
inductive SessionOp (E : Engine K)
  | openGerberStr (name source : String)
  | openExcellonStr (name source : String)
  | importSvgStr (name source : String)
  | importDxfStr (name source : String)
  | importGcodeStr (name source : String)
  | rename (id : ObjectId) (newName : String)
  | setVisible (id : ObjectId) (visible : Bool)
  | delete (id : ObjectId)
  | reorder (id : ObjectId) (index : ℕ)
  | createGroup (name : String)
  | addToGroup (group : String) (id : ObjectId)
  | addToImportGroup (id : ObjectId)
  | setDialect (name : String)
  | setStock (stock : Option (Stock K)) (coalesce : Bool)
  | fitStockTo (reference : ObjectId) (thickness : K) (coalesce : Bool)
  | setDatumPoint (x y : K)
  | clearDatum
  | setDatum (origin : JobOrigin K) (reference : ObjectId)
  | setPlacement (id : ObjectId) (placement : Affine K)
  | translateObject (id : ObjectId) (dx dy : K)
  | moveGroup (anchor : ObjectId) (dx dy : K) (newEdit : Bool)
  | isolate (source : ObjectId) (spec : E.IsolationSpec) (job : E.IsolationJob)
  | drill (source : ObjectId) (spec : E.DrillSpec) (job : E.DrillJob)
  | paint (source : ObjectId) (spec : E.PaintSpec) (job : E.IsolationJob)
  | noncopper (source : ObjectId) (spec : E.NonCopperSpec) (job : E.IsolationJob)
  | cutout (spec : CutoutSpec E) (job : E.IsolationJob) (board : Option ObjectId)
  | panelize (source : ObjectId) (spec : E.PanelizeSpec)
  | mirror (source : ObjectId) (line : E.MirrorLineSpec)
  | transform (source : ObjectId) (map : Affine K)
  | rebuildJob (id : ObjectId)
  | undo
  | redo

namespace Session

variable {E : Engine K}

/-- The document. -/
abbrev doc (s : Session E) : Document E := s.history.present

/-- The objects. -/
abbrev collection (s : Session E) : Objects E := s.history.present.collection

/-- Change the objects, behind a snapshot. -/
def edit {R : Type} (s : Session E) (mutate : Objects E → R × Objects E) : R × Session E :=
  let (result, history) := s.history.edit mutate
  (result, { s with history := history })

/-- The name, or the first of `name-2`, `name-3` and so on that is free. -/
def uniqueName (s : Session E) (base : String) : String :=
  if (s.collection.byName base).isNone then base
  else
    let candidates := (List.range (s.collection.objects.length + 1)).map fun n =>
      base ++ "-" ++ toString (n + 2)
    (candidates.find? fun name => (s.collection.byName name).isNone).getD base

section Errors

/-- An object under a name, which must be free. -/
def add [Field K] (s : Session E) (name : String) (payload : ObjectPayload E) :
    Except (ScriptError E) ObjectId × Session E :=
  if (s.collection.byName name).isSome then (.error (.project (.duplicateName name)), s)
  else
    let (result, s) := s.edit fun c => c.add ⟨0, name, .identity, true⟩ payload
    (result.mapError .project, s)

/-- Rename an object. -/
def rename (s : Session E) (id : ObjectId) (newName : String) :
    Except (ScriptError E) Unit × Session E :=
  let (result, s) := s.edit fun c => c.rename id newName
  (result.mapError .project, s)

/-- Show an object, or hide it. -/
def setVisible (s : Session E) (id : ObjectId) (visible : Bool) :
    Except (ScriptError E) Unit × Session E :=
  match s.doc.object id with
  | .error e => (.error e, s)
  | .ok object =>
    if object.info.visible = visible then (.ok (), s)
    else
      let (_, s) := s.edit fun c =>
        ((), c.modifyId id (fun o => { o with info := { o.info with visible := visible } })
          fun _ => rfl)
      (.ok (), s)

/-- Delete an object. -/
def delete (s : Session E) (id : ObjectId) : Except (ScriptError E) Unit × Session E :=
  let (removed, s) := s.edit fun c => c.remove id
  if removed.isSome then (.ok (), s) else (.error (.unknownObject id), s)

/-- Move an object in the order. -/
def reorder (s : Session E) (id : ObjectId) (index : ℕ) :
    Except (ScriptError E) Unit × Session E :=
  let (result, s) := s.edit fun c => c.reorder id index
  (result.mapError .project, s)

/-- A new group. -/
def createGroup (s : Session E) (name : String) : Except (ScriptError E) Unit × Session E :=
  let (result, s) := s.edit fun c => c.createGroup name
  (result.mapError .project, s)

/-- An object into a group. -/
def addToGroup (s : Session E) (group : String) (id : ObjectId) :
    Except (ScriptError E) Unit × Session E :=
  let (result, s) := s.edit fun c => c.addToGroup group id
  (result.mapError .project, s)

/-- A source into the group of the imports, as part of the edit that opened it. -/
def addToImportGroup (s : Session E) (id : ObjectId) : Except (ScriptError E) Unit × Session E :=
  match s.doc.object id with
  | .error e => (.error e, s)
  | .ok _ =>
    let (_, history) := s.history.amend fun c =>
      let c := if c.hasGroup importGroup then c else (c.createGroup importGroup).2
      ((), (c.addToGroup importGroup id).2)
    (.ok (), { s with history := history })

/-- Choose the dialect. -/
def setDialect (s : Session E) (name : String) : Except (ScriptError E) Unit × Session E :=
  if E.registered name then (.ok (), { s with dialect := name })
  else (.error (.unknownDialect name), s)

end Errors

/-! ### Placement -/

/-- A job can be made anew. -/
def isRebuildable (job : CncJobObject E) : Bool := job.emission.isSome

/-- A job whose source moved: stale, and the outline of a cutout moves along. -/
def carryDependentJob [Field K] (job : CncJobObject E) (delta : Affine K) : CncJobObject E :=
  let operation := match job.operation with
    | .cutout spec =>
      .cutout { spec with outline := match spec.outline with
        | .rectangle low high => .rectangle (delta.apply low) (delta.apply high)
        | .geometry region => .geometry (E.transform region delta) }
    | other => other
  { job with operation := operation, stale := true }

/-- Change the jobs that were made from one of these objects and that can be made anew. -/
def withDependents (moved : ObjectId → Bool) (f : CncJobObject E → CncJobObject E)
    (o : Object K (ObjectPayload E)) : Object K (ObjectPayload E) :=
  match o.payload with
  | .cncJob job =>
    if job.source.any moved && isRebuildable job then { o with payload := .cncJob (f job) } else o
  | _ => o

theorem withDependents_info (moved : ObjectId → Bool) (f : CncJobObject E → CncJobObject E)
    (o : Object K (ObjectPayload E)) : (withDependents moved f o).info = o.info := by
  unfold withDependents
  split
  · split
    · rfl
    · rfl
  · rfl

/-- It is a job only if it was one. -/
theorem withDependents_payload (moved : ObjectId → Bool) (f : CncJobObject E → CncJobObject E)
    (o : Object K (ObjectPayload E)) :
    o.payload = (withDependents moved f o).payload
      ∨ o.payload.kind = .cncJob ∧ (withDependents moved f o).payload.kind = .cncJob := by
  unfold withDependents
  split
  · rename_i hjob
    split
    · exact .inr ⟨by rw [hjob]; rfl, rfl⟩
    · exact .inl rfl
  · exact .inl rfl

/-- A job is one whose source did not move, or that cannot be made anew; or it is changed. -/
theorem withDependents_job {moved : ObjectId → Bool} {f : CncJobObject E → CncJobObject E}
    {o : Object K (ObjectPayload E)} {job : CncJobObject E}
    (h : (withDependents moved f o).payload = .cncJob job) :
    o.payload = .cncJob job ∧ ¬ (job.source.any moved = true ∧ job.emission.isSome = true)
      ∨ ∃ old, o.payload = .cncJob old ∧ job = f old := by
  unfold withDependents at h
  cases hpayload : o.payload with
  | cncJob old =>
    rw [hpayload] at h
    dsimp only at h
    cases hboth : old.source.any moved && isRebuildable old with
    | true =>
      rw [hboth, if_pos rfl] at h
      exact .inr ⟨old, rfl, (ObjectPayload.cncJob.inj h).symm⟩
    | false =>
      rw [hboth, if_neg Bool.false_ne_true] at h
      obtain rfl := ObjectPayload.cncJob.inj (hpayload.symm.trans h)
      refine .inl ⟨rfl, fun hsome => ?_⟩
      rw [Bool.and_eq_false_iff] at hboth
      rcases hboth with hmoved | hemission
      · cases hmoved.symm.trans hsome.1
      · cases hemission.symm.trans hsome.2
  | _ =>
    rw [hpayload] at h
    cases hpayload.symm.trans h

/-- Flag every job that can be made anew. -/
def flagAllJobsStale (c : Objects E) : Objects E :=
  c.modify (fun o =>
    match o.payload with
    | .cncJob job =>
      if isRebuildable job then { o with payload := .cncJob { job with stale := true } } else o
    | _ => o) fun o => by
    split
    · split
      · rfl
      · rfl
    · rfl

section Setup

variable [Field K] [LinearOrder K]

omit [Field K] in
/-- A new setup flags every job. To set what is set does nothing. -/
def commitSetup (s : Session E) (setup : WorkSetup K) (coalesce : Bool) : Session E :=
  if s.doc.setup = setup then s
  else
    let (_, history) := s.history.commitSetup coalesce fun c _ => ((), flagAllJobsStale c, setup)
    { s with history := history }

/-- A stock, which sets the datum. -/
def setStock (s : Session E) (stock : Option (Stock K)) (coalesce : Bool) : Session E :=
  s.commitSetup (.fromStock stock) coalesce

/-- The bounds of an object. -/
def objectBounds (s : Session E) (id : ObjectId) : Except (ScriptError E) (K × K × K × K) :=
  match s.doc.regionOf id with
  | .error e => .error e
  | .ok region =>
    match E.bounds region with
    | none => .error (.invalidArgument "object has no geometry to bound")
    | some bounds => .ok bounds

/-- A stock of the bounds of an object. -/
def fitStockTo (s : Session E) (reference : ObjectId) (thickness : K) (coalesce : Bool) :
    Except (ScriptError E) Unit × Session E :=
  match s.objectBounds reference with
  | .error e => (.error e, s)
  | .ok bounds => (.ok (), s.setStock (some (.fit bounds thickness)) coalesce)

/-- The datum at a point. -/
def setDatumPoint (s : Session E) (x y : K) : Session E := s.commitSetup (.point x y) false

/-- The datum of the source. -/
def clearDatum (s : Session E) : Session E := s.setStock none false

/-- The datum at a point of the bounds of an object. -/
def setDatum (s : Session E) (origin : JobOrigin K) (reference : ObjectId) :
    Except (ScriptError E) Unit × Session E :=
  match s.objectBounds reference with
  | .error e => (.error e, s)
  | .ok bounds =>
    let (x, y) := origin.resolve bounds
    (.ok (), s.setDatumPoint x y)

/-- Place an object, and tell the jobs that were made from it. -/
def setObjectPlacement (c : Objects E) (id : ObjectId) (placement : Affine K) : Objects E :=
  let delta := (c.get id).bind fun o => o.info.placement.inverse.map fun inv => inv.andThen placement
  let placed := c.modifyId id (fun o => { o with info := { o.info with placement := placement } })
    fun _ => rfl
  match delta with
  | some delta =>
    placed.modify (withDependents (· = id) fun job => carryDependentJob job delta)
      fun o => by rw [withDependents_info]
  | none =>
    placed.modify (withDependents (· = id) fun job => { job with stale := true })
      fun o => by rw [withDependents_info]

/-- Place an object on the stock. A placement that changes nothing does nothing. -/
def setPlacement (s : Session E) (id : ObjectId) (placement : Affine K) :
    Except (ScriptError E) Unit × Session E :=
  match s.doc.object id with
  | .error e => (.error e, s)
  | .ok object =>
    if !placement.isRigid then
      (.error (.invalidArgument "a placement must be a rigid transform (translate/rotate only)"), s)
    else if object.info.placement = placement then (.ok (), s)
    else
      let (_, s) := s.edit fun c => ((), setObjectPlacement c id placement)
      (.ok (), s)

/-- Translate an object on the stock. -/
def translateObject (s : Session E) (id : ObjectId) (dx dy : K) :
    Except (ScriptError E) Unit × Session E :=
  match s.doc.object id with
  | .error e => (.error e, s)
  | .ok object => s.setPlacement id (object.info.placement.andThen (.translate dx dy))

omit [Field K] [LinearOrder K] in
/-- The objects that move with one. -/
def moveSet (s : Session E) (anchor : ObjectId) : List ObjectId :=
  match s.collection.groupOf anchor with
  | some group => group.members
  | none => [anchor]

omit [LinearOrder K] in
/-- Translate the members, and tell the jobs that were made from them. -/
def shiftMembers (c : Objects E) (members : List ObjectId) (shift : Affine K) : Objects E :=
  c.modify (fun o =>
    let o := if o.info.id ∈ members then
      { o with info := { o.info with placement := o.info.placement.andThen shift } } else o
    withDependents (· ∈ members) (fun job => carryDependentJob job shift) o) fun o => by
    rw [withDependents_info]
    split
    · rfl
    · rfl

omit [LinearOrder K] in
/-- Translate the group of an object. The first step of a drag is an edit, and the others are
part of it. -/
def moveGroup (s : Session E) (anchor : ObjectId) (dx dy : K) (newEdit : Bool) :
    Except (ScriptError E) Unit × Session E :=
  match s.doc.object anchor with
  | .error e => (.error e, s)
  | .ok _ =>
    let mutate := fun c => ((), shiftMembers c (s.moveSet anchor) (.translate dx dy))
    let (_, history) := if newEdit then s.history.edit mutate else s.history.amend mutate
    (.ok (), { s with history := history })

end Setup

/-! ### Sources and jobs -/

section Jobs

variable [Field K] [LinearOrder K]

omit [LinearOrder K] in
/-- Add what the engine makes of a source. -/
def addParsed {T : Type} (s : Session E) (name : String) (parsed : Except E.Fault T)
    (payload : T → ObjectPayload E) : Except (ScriptError E) ObjectId × Session E :=
  match parsed with
  | .error e => (.error (.engine e), s)
  | .ok value => s.add name (payload value)

omit [LinearOrder K] in
/-- Open a Gerber source. -/
def openGerberStr (s : Session E) (name source : String) :
    Except (ScriptError E) ObjectId × Session E :=
  s.addParsed name (E.parseGerber source) fun image => .gerber source (some image)

omit [LinearOrder K] in
/-- Open an Excellon source. -/
def openExcellonStr (s : Session E) (name source : String) :
    Except (ScriptError E) ObjectId × Session E :=
  s.addParsed name (E.parseExcellon source) fun image => .excellon source (some image)

omit [LinearOrder K] in
/-- Import an SVG source. -/
def importSvgStr (s : Session E) (name source : String) :
    Except (ScriptError E) ObjectId × Session E :=
  s.addParsed name (E.importSvg source) fun shapes => .geometry shapes.1 shapes.2

omit [LinearOrder K] in
/-- Import a DXF source. -/
def importDxfStr (s : Session E) (name source : String) :
    Except (ScriptError E) ObjectId × Session E :=
  s.addParsed name (E.importDxf source) fun shapes => .geometry shapes.1 shapes.2

omit [LinearOrder K] in
/-- Import a program. -/
def importGcodeStr (s : Session E) (name source : String) :
    Except (ScriptError E) ObjectId × Session E :=
  s.addParsed name (E.importGcode source) fun shapes => .geometry shapes.1 shapes.2

omit [LinearOrder K] in
/-- Store a program as a job. -/
def storeProgram (s : Session E) (program : E.Program) (source : Option ObjectId)
    (operation : CamOperation E) (baseName : String) (emission : Option (JobEmission E)) :
    Except (ScriptError E) ObjectId × Session E :=
  let origin := (s.doc.setup.origin.1, s.doc.setup.origin.2.1)
  s.add (s.uniqueName baseName)
    (.cncJob (.fromProgram program s.dialect source operation origin emission))

/-- Store what an operation makes of a source, under the name of the source and a suffix. -/
def storeDerived (s : Session E) (program : Except (ScriptError E) E.Program) (source : ObjectId)
    (operation : CamOperation E) (suffix : String) (emission : JobEmission E) :
    Except (ScriptError E) ObjectId × Session E :=
  match program with
  | .error e => (.error e, s)
  | .ok program =>
    match s.doc.object source with
    | .error e => (.error e, s)
    | .ok object =>
      s.storeProgram program (some source) operation (object.info.name ++ "-" ++ suffix)
        (some emission)

/-- Isolate a source. -/
def isolate (s : Session E) (source : ObjectId) (spec : E.IsolationSpec) (job : E.IsolationJob) :
    Except (ScriptError E) ObjectId × Session E :=
  s.storeDerived
    (s.doc.isolationProgram s.dialect source spec job (headerNote (.isolation spec : CamOperation E)))
    source (.isolation spec) "isolation" (.isolation job)

/-- Drill a source. -/
def drill (s : Session E) (source : ObjectId) (spec : E.DrillSpec) (job : E.DrillJob) :
    Except (ScriptError E) ObjectId × Session E :=
  s.storeDerived (s.doc.drillProgram s.dialect source spec job) source (.drilling spec) "drilling"
    (.drill job)

/-- Paint a source. -/
def paint (s : Session E) (source : ObjectId) (spec : E.PaintSpec) (job : E.IsolationJob) :
    Except (ScriptError E) ObjectId × Session E :=
  s.storeDerived
    (s.doc.paintProgram s.dialect source spec job (headerNote (.paint spec : CamOperation E)))
    source (.paint spec) "paint" (.isolation job)

/-- Clear around a source. -/
def noncopper (s : Session E) (source : ObjectId) (spec : E.NonCopperSpec) (job : E.IsolationJob) :
    Except (ScriptError E) ObjectId × Session E :=
  s.storeDerived
    (s.doc.noncopperProgram s.dialect source spec job
      (headerNote (.nonCopper spec : CamOperation E)))
    source (.nonCopper spec) "noncopper" (.isolation job)

omit [LinearOrder K] in
/-- Cut out an outline, which may go along with a board. -/
def cutout (s : Session E) (spec : CutoutSpec E) (job : E.IsolationJob) (board : Option ObjectId) :
    Except (ScriptError E) ObjectId × Session E :=
  match s.doc.cutoutProgram s.dialect spec job (headerNote (.cutout spec)) with
  | .error e => (.error e, s)
  | .ok program => s.storeProgram program board (.cutout spec) "cutout" (some (.isolation job))

omit [LinearOrder K] in
/-- Store a shape that is made of a source, under the name of the source and a suffix. -/
def storeGeometry (s : Session E) (polygons : Except (ScriptError E) E.Region)
    (source : ObjectId) (suffix : String) : Except (ScriptError E) ObjectId × Session E :=
  match polygons with
  | .error e => (.error e, s)
  | .ok polygons =>
    match s.doc.object source with
    | .error e => (.error e, s)
    | .ok object =>
      s.add (s.uniqueName (object.info.name ++ "-" ++ suffix)) (.geometry polygons E.noPolylines)

/-- A panel of a source. -/
def panelize (s : Session E) (source : ObjectId) (spec : E.PanelizeSpec) :
    Except (ScriptError E) ObjectId × Session E :=
  s.storeGeometry (do (E.panelize (← s.doc.regionOf source) spec).mapError .engine) source "panel"

/-- A source mirrored. -/
def mirror (s : Session E) (source : ObjectId) (line : E.MirrorLineSpec) :
    Except (ScriptError E) ObjectId × Session E :=
  s.storeGeometry (do .ok (E.mirror (← s.doc.regionOf source) line)) source "mirror"

/-- A source transformed. -/
def transform (s : Session E) (source : ObjectId) (map : Affine K) :
    Except (ScriptError E) ObjectId × Session E :=
  s.storeGeometry (do .ok (E.transform (← s.doc.regionOf source) map)) source "xform"

/-- Make a job anew. -/
def rebuildJob (s : Session E) (id : ObjectId) : Except (ScriptError E) Unit × Session E :=
  match s.doc.object id with
  | .error e => (.error e, s)
  | .ok object =>
    match object.payload with
    | .cncJob job =>
      match job.emission with
      | none => (.error (.invalidArgument
        "this job predates rebuild support and cannot be recalculated"), s)
      | some emission =>
        match s.doc.rebuildProgram s.dialect job.operation emission job.source with
        | .error e => (.error e, s)
        | .ok program =>
          let origin := (s.doc.setup.origin.1, s.doc.setup.origin.2.1)
          let cnc : CncJobObject E :=
            .fromProgram program s.dialect job.source job.operation origin (some emission)
          let (_, s) := s.edit fun c =>
            ((), c.modifyId id (fun o => { o with payload := .cncJob cnc }) fun _ => rfl)
          (.ok (), s)
    | other => (.error (.wrongKind id "a CNC job" other.kind), s)

end Jobs

/-! ### Runs -/

section Runs

variable [Field K] [LinearOrder K]

omit [LinearOrder K] in
/-- An empty session. -/
def new : Session E := ⟨.withDocument .new .default defaultHistoryLimit, defaultDialect⟩

/-- One operation. -/
def step (s : Session E) : SessionOp E → Except (ScriptError E) Unit × Session E
  | .openGerberStr name source => (s.openGerberStr name source).map (·.map fun _ => ()) id
  | .openExcellonStr name source => (s.openExcellonStr name source).map (·.map fun _ => ()) id
  | .importSvgStr name source => (s.importSvgStr name source).map (·.map fun _ => ()) id
  | .importDxfStr name source => (s.importDxfStr name source).map (·.map fun _ => ()) id
  | .importGcodeStr name source => (s.importGcodeStr name source).map (·.map fun _ => ()) id
  | .rename id newName => s.rename id newName
  | .setVisible id visible => s.setVisible id visible
  | .delete id => s.delete id
  | .reorder id index => s.reorder id index
  | .createGroup name => s.createGroup name
  | .addToGroup group id => s.addToGroup group id
  | .addToImportGroup id => s.addToImportGroup id
  | .setDialect name => s.setDialect name
  | .setStock stock coalesce => (.ok (), s.setStock stock coalesce)
  | .fitStockTo reference thickness coalesce => s.fitStockTo reference thickness coalesce
  | .setDatumPoint x y => (.ok (), s.setDatumPoint x y)
  | .clearDatum => (.ok (), s.clearDatum)
  | .setDatum origin reference => s.setDatum origin reference
  | .setPlacement id placement => s.setPlacement id placement
  | .translateObject id dx dy => s.translateObject id dx dy
  | .moveGroup anchor dx dy newEdit => s.moveGroup anchor dx dy newEdit
  | .isolate source spec job => (s.isolate source spec job).map (·.map fun _ => ()) id
  | .drill source spec job => (s.drill source spec job).map (·.map fun _ => ()) id
  | .paint source spec job => (s.paint source spec job).map (·.map fun _ => ()) id
  | .noncopper source spec job => (s.noncopper source spec job).map (·.map fun _ => ()) id
  | .cutout spec job board => (s.cutout spec job board).map (·.map fun _ => ()) id
  | .panelize source spec => (s.panelize source spec).map (·.map fun _ => ()) id
  | .mirror source line => (s.mirror source line).map (·.map fun _ => ()) id
  | .transform source map => (s.transform source map).map (·.map fun _ => ()) id
  | .rebuildJob id => s.rebuildJob id
  | .undo => (.ok (), { s with history := s.history.undo.2 })
  | .redo => (.ok (), { s with history := s.history.redo.2 })

/-- One operation after the other. -/
def run (s : Session E) (ops : List (SessionOp E)) : Session E :=
  ops.foldl (fun s op => (s.step op).2) s

end Runs

end Session

end Session

/-- An engine whose programs are their dialects. -/
def Engine.echo : Engine ℚ where
  Region := Unit
  Polylines := Unit
  ExcellonImage := Unit
  IsolationSpec := Unit
  DrillSpec := Unit
  PaintSpec := Unit
  NonCopperSpec := Unit
  CutoutParams := Unit
  PanelizeSpec := Unit
  MirrorLineSpec := Unit
  IsolationJob := Unit
  DrillJob := Unit
  Toolpaths := Unit
  DrillPlan := Unit
  Program := String
  Fault := Empty
  parseGerber _ := .ok ()
  parseExcellon _ := .ok ()
  importSvg _ := .ok ((), ())
  importDxf _ := .ok ((), ())
  importGcode _ := .ok ((), ())
  transform _ _ := ()
  placeHits _ _ := ()
  bounds _ := none
  isolate _ _ := .ok ()
  planDrilling _ _ := .ok ()
  paint _ _ := .ok ()
  clearNoncopper _ _ := .ok ()
  cutoutRectangle _ _ _ := .ok ()
  cutoutGeometry _ _ := .ok ()
  noPolylines := ()
  panelize _ _ := .ok ()
  mirror _ _ := ()
  isolationTool _ := 1 / 5
  paintTool _ := 1 / 5
  nonCopperTool _ := 1 / 5
  cutoutTool _ := 2
  toolNote _ := ""
  drillToolsNote _ := none
  registered name := name == "grbl" || name == "generic"
  emitIsolation _ _ _ dialect _ := dialect
  emitDrilling _ _ _ dialect _ := dialect

end Galdr.Project
