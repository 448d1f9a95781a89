import Galdr.Control
import Galdr.Runs
import Galdr.WordEffects

/-!
# The spindle and the coolant of a program

The consumer of the lines drives the spindle and the coolant from the modal state of the
parser, as soon as it has parsed a line. The motion of the line only goes into the queue of the
planner, and is executed later. The consumer remembers the direction and the coolant that it
drove last, and drives them again only when a line changes them. An alarm switches both off and
leaves what the consumer remembers as it is.

So the outputs are those of the line that was parsed last, and not those of the line whose
motion is executed. `Follows` says that there is no difference: a block is executed with the
outputs of its line, and an idle machine has the spindle direction of the parser, once a line
has named it. `Meets` is what a step must meet for that, and `follows` says that it is enough:
the outputs stay while motion is pending, and no line that needs an output finds it remembered
and switched off.

A block carries the outputs of its line, and the state remembers whether a line has named the
direction since the spindle was switched off. The code has neither; they are there for
`Follows`.
-/

namespace Galdr.Comms.Drive

variable {K : Type}

/-- The coolants as bits: mist, and flood. -/
def coolantMask (coolant : CoolantState) : UInt8 :=
  (if coolant.mist then 1 else 0) ||| (if coolant.flood then 2 else 0)

/-- What the coolant task reads from the bits. -/
def commandedCoolant (mask : UInt8) : CoolantState := ⟨mask &&& 1 != 0, mask &&& 2 != 0⟩

@[simp] theorem coolantMask_off : coolantMask .off = 0 := by decide

/-- What the tasks of the spindle and the coolant are told. -/
structure Outputs where
  /-- The spindle direction. -/
  direction : SpindleState
  /-- The programmed speed. -/
  rpm : ℕ
  /-- The coolant. -/
  coolant : UInt8
  deriving DecidableEq

namespace Outputs

/-- Everything is off. -/
def off : Outputs := ⟨.stop, 0, 0⟩

/-- The spindle is stopped, and the coolant is off. -/
def forceOff (o : Outputs) : Outputs := { o with direction := .stop, coolant := 0 }

end Outputs

/-- The consumer, the executor and what they share. -/
structure DriveState (K : Type) where
  /-- The control state. -/
  control : ControlState
  /-- The modal state of the parser. -/
  parser : ModalState K
  /-- The direction that was driven last. -/
  lastSpindleDir : SpindleState
  /-- The coolant that was driven last. -/
  lastCoolant : UInt8
  /-- What is commanded. -/
  commanded : Outputs
  /-- The outputs of the line whose block is executed. -/
  running : Option Outputs
  /-- The outputs of the lines whose blocks are queued. -/
  queue : List Outputs
  /-- A line has named the direction since the spindle was switched off. -/
  named : Bool

/-- The changes of the control state that touch nothing else here. -/
inductive ModeChange
  /-- `$X`. -/
  | unlock
  /-- `!`, and a pause of the program. -/
  | feedHold
  /-- `~`. -/
  | cycleStart
  /-- A manual tool change. -/
  | toolChange
  /-- A jog is over. -/
  | cancelJog
  /-- A homing cycle has succeeded. -/
  | homeComplete

/-- What may happen next. -/
inductive DriveEvent
  /-- A line of the program, and the number of blocks that its motion is cut into. -/
  | line (bytes : List UInt8) (blocks : ℕ)
  /-- A jog. -/
  | jog (blocks : ℕ)
  /-- The executor takes a block. -/
  | start
  /-- The executor is done with its block. -/
  | finish
  /-- The planner drops what is queued. -/
  | flush
  | mode (change : ModeChange)
  /-- `$SLP`. -/
  | sleep
  /-- `$C`. -/
  | toggleCheck (homingEnabled : Bool)
  | alarm (code : AlarmCode)
  /-- The pipeline is rebuilt, after an alarm that lost the position. -/
  | resetPipeline
  | softReset (wasInCycle homingEnabled : Bool)
  /-- `M30`, when the motion before it is over. -/
  | programEnd
  /-- The end of a graceful program stop. -/
  | programStop

namespace ModeChange

/-- What becomes of the control state. -/
def apply : ModeChange → ControlState → ControlState
  | unlock, c => c.unlock.1
  | feedHold, c => c.feedHold
  | cycleStart, c => c.cycleStart
  | toolChange, _ => .toolChange
  | cancelJog, c => c.cancelJog
  | homeComplete, c => c.homeComplete

end ModeChange

/-- A program line is planned in the mode. -/
def plans : ControlState → Bool
  | .normal | .hold _ | .tool => true
  | _ => false

/-- A program line is refused in the mode. -/
def gated : ControlState → Bool
  | .alarm _ | .sleep | .jog => true
  | _ => false

/-- The consumer raises the alarm in the mode: a trip or a fault in a mode with motion, a limit or
a probe on a line that it plans, and a homing cycle where it may begin. -/
def raises (c : ControlState) : AlarmCode → Bool
  | .hardLimit | .motorFault => c.hardLimitAlarmApplies
  | .softLimit | .probeFailInitial | .probeFailContact => plans c
  | .homingFail => plans c || c.homingAllowed
  | .abortDuringCycle | .homingRequired | .eStop => false

/-- The consumer's parser may be ahead of what it drove, and only a reset leaves the mode. -/
def dry : ControlState → Bool
  | .check => true
  | .alarm code => code.isLocked
  | _ => false

/-! ## The changes -/

namespace DriveState

/-- A block is queued or executed. -/
def Pending (s : DriveState K) : Prop := s.running ≠ none ∨ s.queue ≠ []

instance (s : DriveState K) : Decidable s.Pending := inferInstanceAs (Decidable (_ ∨ _))

theorem pending_of_running {s : DriveState K} {o : Outputs} (h : s.running = some o) : s.Pending :=
  .inl (Option.ne_none_iff_exists'.mpr ⟨o, h⟩)

theorem pending_of_mem {s : DriveState K} {o : Outputs} (h : o ∈ s.queue) : s.Pending :=
  .inr (List.ne_nil_of_mem h)

/-- Enter a mode. -/
def inMode (s : DriveState K) (c : ControlState) : DriveState K := { s with control := c }

/-- Queue the blocks of a line. -/
def enqueue (s : DriveState K) (blocks : ℕ) (o : Outputs) : DriveState K :=
  { s with queue := s.queue ++ List.replicate blocks o }

/-- The executor's block is over. -/
def finished (s : DriveState K) : DriveState K := { s with running := none }

/-- Nothing is queued. -/
def flushed (s : DriveState K) : DriveState K := { s with queue := [] }

/-- The executor takes a block. -/
def started (s : DriveState K) : DriveState K :=
  { s with running := s.queue.head?, queue := s.queue.tail }

/-- Switch the spindle and the coolant off. -/
def forceOff (s : DriveState K) : DriveState K :=
  { s with commanded := s.commanded.forceOff, named := false }

/-- Drive the spindle from the modal state. -/
def syncSpindleFromModal (s : DriveState K) (modal : ModalState K) : DriveState K :=
  if modal.spindle ≠ s.lastSpindleDir then
    { s with
      commanded := { s.commanded with direction := modal.spindle }
      lastSpindleDir := modal.spindle }
  else s

/-- Drive the coolant from the modal state. -/
def syncCoolantFromModal (s : DriveState K) (modal : ModalState K) : DriveState K :=
  if coolantMask modal.coolant ≠ s.lastCoolant then
    { s with
      commanded := { s.commanded with coolant := coolantMask modal.coolant }
      lastCoolant := coolantMask modal.coolant }
  else s

/-- The parser starts again, with the tool it has, and everything is off. -/
def restart [Zero K] (s : DriveState K) : DriveState K :=
  { s with
    parser := { ModalState.default with currentTool := s.parser.currentTool }
    lastSpindleDir := .stop
    lastCoolant := 0
    commanded := .off
    named := false }

/-! ## What is kept -/

/-- The spindle and the coolant follow the program. -/
structure Follows (s : DriveState K) : Prop where
  /-- A block is executed with the outputs in modal effect on its line. -/
  executed : ∀ o, s.running = some o → s.commanded = o
  /-- When the motion is over, the spindle turns as the parser says. -/
  drained : s.control = .normal → ¬s.Pending → s.named = true →
    s.commanded.direction = s.parser.spindle

/-- What `Follows` rests on: the blocks carry what is commanded, and outside the dry modes the
consumer remembers what the parser says, and the named direction is the one commanded. -/
structure Kept (s : DriveState K) : Prop where
  running : ∀ o, s.running = some o → o = s.commanded
  queued : ∀ o ∈ s.queue, o = s.commanded
  spindle : dry s.control = false → s.lastSpindleDir = s.parser.spindle
  coolant : dry s.control = false → s.lastCoolant = coolantMask s.parser.coolant
  direction : dry s.control = false → s.named = true → s.commanded.direction = s.parser.spindle

theorem Kept.toFollows {s : DriveState K} (h : s.Kept) : s.Follows where
  executed o ho := (h.running o ho).symm
  drained hcontrol _ := h.direction (by rw [hcontrol]; rfl)

/-- The parser and what is remembered are left. -/
theorem Kept.inMode {s : DriveState K} (h : s.Kept) {c : ControlState}
    (hdry : dry c = false → dry s.control = false) : (s.inMode c).Kept :=
  ⟨h.running, h.queued, fun hc => h.spindle (hdry hc), fun hc => h.coolant (hdry hc),
    fun hc => h.direction (hdry hc)⟩

theorem Kept.finished {s : DriveState K} (h : s.Kept) : s.finished.Kept :=
  { h with running := fun _ ho => by cases ho }

theorem Kept.flushed {s : DriveState K} (h : s.Kept) : s.flushed.Kept :=
  { h with queued := fun _ ho => by cases ho }

theorem Kept.started {s : DriveState K} (h : s.Kept) : s.started.Kept :=
  { h with
    running := fun o ho => h.queued o (List.mem_of_mem_head? ho)
    queued := fun o ho => h.queued o (List.mem_of_mem_tail ho) }

theorem Kept.enqueue {s : DriveState K} (h : s.Kept) {blocks : ℕ} {o : Outputs}
    (ho : 0 < blocks → o = s.commanded) : (s.enqueue blocks o).Kept :=
  { h with
    queued := fun o' ho' => by
      rcases List.mem_append.mp ho' with ho' | ho'
      · exact h.queued o' ho'
      · obtain ⟨hblocks, rfl⟩ := List.mem_replicate.mp ho'
        exact ho (Nat.pos_of_ne_zero hblocks) }

/-- Motion that is pending was commanded off already. -/
theorem Kept.forceOff {s : DriveState K} (h : s.Kept)
    (hoff : s.Pending → s.commanded.forceOff = s.commanded) : s.forceOff.Kept where
  running o ho := (h.running o ho).trans (hoff (pending_of_running ho)).symm
  queued o ho := (h.queued o ho).trans (hoff (pending_of_mem ho)).symm
  spindle := h.spindle
  coolant := h.coolant
  direction _ hnamed := by cases hnamed

/-- A restart leads into any mode, when what is executed and queued has everything off. -/
theorem kept_restart [Zero K] {s : DriveState K} (c : ControlState)
    (hrunning : ∀ o, s.running = some o → o = .off) (hqueued : ∀ o ∈ s.queue, o = .off) :
    (s.restart.inMode c).Kept where
  running := hrunning
  queued := hqueued
  spindle _ := rfl
  coolant _ := coolantMask_off.symm
  direction _ h := by cases h

/-- A restart that drops what is queued, when what is executed was commanded off already. -/
theorem Kept.restartFlushed [Zero K] {s : DriveState K} (h : s.Kept) (c : ControlState)
    (hoff : s.running ≠ none → s.commanded = .off) : (s.restart.flushed.inMode c).Kept :=
  (kept_restart (s := s.flushed) c
    (fun o ho => (h.running o ho).trans (hoff (Option.ne_none_iff_exists'.mpr ⟨o, ho⟩)))
    fun _ ho => by cases ho)

/-- A restart when the motion is over. -/
theorem kept_restart_of_drained [Zero K] {s : DriveState K} (c : ControlState)
    (h : ¬s.Pending) : (s.restart.inMode c).Kept :=
  kept_restart c (fun _ ho => absurd (pending_of_running ho) h)
    fun _ ho => absurd (pending_of_mem ho) h

/-! ## The steps -/

variable [Field K] [LinearOrder K] [FloorRing K]

/-- The speed of the modal state, as it is published. -/
def programmedRpm (modal : ModalState K) : ℕ := min ⌊max modal.spindleSpeed 0⌋.toNat 65535

/-- The outputs in modal effect. -/
def modalOutputs (modal : ModalState K) : Outputs :=
  ⟨modal.spindle, programmedRpm modal, coolantMask modal.coolant⟩

/-- The parser has accepted a line, and its speed is published. -/
def publish (s : DriveState K) (modal : ModalState K) : DriveState K :=
  { s with parser := modal, commanded := { s.commanded with rpm := programmedRpm modal } }

/-- Drive the outputs from the modal state, but not in check mode. -/
def driveModalOutputs (s : DriveState K) (modal : ModalState K) : DriveState K :=
  if s.control = .check then s.publish modal
  else ((s.publish modal).syncSpindleFromModal modal).syncCoolantFromModal modal

/-- A word of the line names the spindle direction. -/
def namesSpindle (bytes : List UInt8) : Bool :=
  (Lexer.words bytes : List (Except GcodeError (Word K))).any fun word =>
    match word with
    | .error _ => false
    | .ok word =>
      match effectOf word with
      | .ok (.spindle _) => true
      | _ => false

/-- An accepted line: the outputs, and then the motion, which check mode leaves out. -/
def accept (s : DriveState K) (bytes : List UInt8) (blocks : ℕ) (modal : ModalState K) :
    DriveState K :=
  let driven := s.driveModalOutputs modal
  if s.control = .check then driven
  else
    { driven.enqueue blocks (modalOutputs modal) with
      named := s.named || namesSpindle (K := K) bytes }

/-- A line of the program. -/
def planGcodeLine (s : DriveState K) (bytes : List UInt8) (blocks : ℕ) : DriveState K :=
  if gated s.control then s
  else
    match parseLine s.parser bytes with
    | (.error _, _) => s
    | (.ok _, modal) => s.accept bytes blocks modal

/-- A jog with blocks is executed in its own mode. -/
def handleJog (s : DriveState K) (blocks : ℕ) : DriveState K :=
  if blocks = 0 then s
  else (s.enqueue blocks (modalOutputs s.parser)).inMode s.control.beginJog

/-- The change of an event. -/
def step (s : DriveState K) : DriveEvent → DriveState K
  | .line bytes blocks => s.planGcodeLine bytes blocks
  | .jog blocks => s.handleJog blocks
  | .start => s.started
  | .finish => s.finished
  | .flush => s.flushed
  | .mode change => s.inMode (change.apply s.control)
  | .sleep => if s.control.enterSleep.2 then s.forceOff.inMode s.control.enterSleep.1 else s
  | .toggleCheck homingEnabled =>
    let (next, toggle) := s.control.toggleCheck homingEnabled
    match toggle with
    | .enabled => s.inMode next
    | .disabled => s.restart.flushed.inMode next
    | .rejected => s
  | .alarm code => s.forceOff.inMode (.alarm code)
  | .resetPipeline => s.restart.flushed
  | .softReset wasInCycle homingEnabled =>
    s.restart.flushed.finished.inMode (s.control.softReset wasInCycle homingEnabled)
  | .programEnd => s.restart
  | .programStop => s.restart.inMode s.control.programStop

/-- The event may happen. -/
def Enabled (s : DriveState K) : DriveEvent → Prop
  | .line _ _ | .finish | .flush | .sleep | .toggleCheck _ | .softReset _ _ => True
  | .jog _ => s.control.jogAllowed ∧ (s.control = .normal → ¬s.Pending)
  | .start => s.running = none ∧ s.queue ≠ []
  | .mode .toolChange => plans s.control
  | .mode _ => True
  | .alarm code => raises s.control code
  | .resetPipeline => ∃ code, s.control = .alarm code
  | .programEnd => plans s.control ∧ ¬s.Pending
  | .programStop => s.control.programStopQuiesces ∧ ¬s.Pending

instance (s : DriveState K) (event : DriveEvent) : Decidable (s.Enabled event) := by
  cases event with
  | mode change => cases change <;> (unfold Enabled; infer_instance)
  | resetPipeline =>
    unfold Enabled
    cases s.control with
    | alarm code => exact .isTrue ⟨code, rfl⟩
    | _ => exact .isFalse (fun ⟨_, h⟩ => by cases h)
  | _ => unfold Enabled; infer_instance

/-- At power on. -/
def powerOn (homingEnabled : Bool) : DriveState K :=
  ⟨.boot homingEnabled, .default, .stop, 0, .off, none, [], false⟩

/-- An accepted line leaves the outputs that motion is pending with, and finds what it needs as
it is remembered. -/
@[mk_iff] structure LineMeets (s : DriveState K) (bytes : List UInt8) (blocks : ℕ)
    (modal : ModalState K) : Prop where
  /-- Check mode publishes the speed alone. -/
  pending : s.Pending →
    if s.control = .check then programmedRpm modal = s.commanded.rpm
    else modalOutputs modal = s.commanded
  direction : s.control ≠ .check → namesSpindle (K := K) bytes = true ∨ 0 < blocks →
    s.lastSpindleDir = s.commanded.direction ∨ modal.spindle ≠ s.lastSpindleDir
  coolant : s.control ≠ .check → 0 < blocks →
    s.lastCoolant = s.commanded.coolant ∨ coolantMask modal.coolant ≠ s.lastCoolant

/-- What a step must meet: a line does, a jog is made with the outputs of the parser, and nothing
is switched off while motion is pending. -/
def Meets (s : DriveState K) : DriveEvent → Prop
  | .line bytes blocks => gated s.control = false → ∀ command modal,
      parseLine s.parser bytes = (.ok command, modal) → s.LineMeets bytes blocks modal
  | .jog blocks => 0 < blocks → s.commanded = modalOutputs s.parser
  | .alarm _ | .sleep => s.Pending → s.commanded.forceOff = s.commanded
  | .toggleCheck _ => s.control = .check → s.running ≠ none → s.commanded = .off
  | .resetPipeline => s.running ≠ none → s.commanded = .off
  | .start | .finish | .flush | .mode _ | .softReset _ _ | .programEnd | .programStop => True

instance (s : DriveState K) (bytes : List UInt8) (blocks : ℕ) (modal : ModalState K) :
    Decidable (s.LineMeets bytes blocks modal) :=
  decidable_of_iff' _ (lineMeets_iff s bytes blocks modal)

/-- What a line must meet is decided by parsing it. -/
theorem meets_line_iff (s : DriveState K) (bytes : List UInt8) (blocks : ℕ) :
    s.Meets (.line bytes blocks) ↔ (gated s.control = false →
      (parseLine s.parser bytes).1.isOk = true →
        s.LineMeets bytes blocks (parseLine s.parser bytes).2) := by
  refine imp_congr_right fun _ => ⟨fun h hok => ?_, fun h command modal hparse => ?_⟩
  · cases hresult : (parseLine s.parser bytes).1 with
    | error e => rw [hresult] at hok; cases hok
    | ok command => exact h command _ (Prod.ext hresult rfl)
  · rw [hparse] at h
    exact h rfl

instance (s : DriveState K) (event : DriveEvent) : Decidable (s.Meets event) := by
  cases event with
  | line bytes blocks => exact decidable_of_iff' _ (meets_line_iff s bytes blocks)
  | _ => unfold Meets; infer_instance

/-! ## What the steps keep -/

omit [LinearOrder K] [FloorRing K] in
theorem kept_powerOn (homingEnabled : Bool) : (powerOn homingEnabled : DriveState K).Kept where
  running _ h := by cases h
  queued _ h := by cases h
  spindle _ := rfl
  coolant _ := coolantMask_off.symm
  direction _ h := by cases h

/-- What is commanded after the outputs were driven. -/
def driven (s : DriveState K) (modal : ModalState K) : Outputs where
  direction := if modal.spindle ≠ s.lastSpindleDir then modal.spindle else s.commanded.direction
  rpm := programmedRpm modal
  coolant :=
    if coolantMask modal.coolant ≠ s.lastCoolant then coolantMask modal.coolant
    else s.commanded.coolant

/-- Outside check mode the consumer remembers the modal outputs. -/
theorem driveModalOutputs_of_ne_check {s : DriveState K} (h : s.control ≠ .check)
    (modal : ModalState K) :
    s.driveModalOutputs modal =
      { s with
        parser := modal
        lastSpindleDir := modal.spindle
        lastCoolant := coolantMask modal.coolant
        commanded := s.driven modal } := by
  unfold driveModalOutputs syncCoolantFromModal syncSpindleFromModal driven
  rw [if_neg h]
  by_cases hdir : modal.spindle = s.lastSpindleDir <;>
    by_cases hcool : coolantMask modal.coolant = s.lastCoolant <;> simp [publish, hdir, hcool]

/-- Outputs that are commanded already are commanded again. -/
theorem driven_of_eq {s : DriveState K} {modal : ModalState K}
    (h : modalOutputs modal = s.commanded) : s.driven modal = s.commanded := by
  unfold driven
  rw [← h]
  simp [modalOutputs]

/-- An output that is remembered as it is commanded becomes the modal one. -/
theorem driven_direction {s : DriveState K} {modal : ModalState K}
    (h : s.lastSpindleDir = s.commanded.direction ∨ modal.spindle ≠ s.lastSpindleDir) :
    (s.driven modal).direction = modal.spindle := by
  unfold driven
  by_cases hdir : modal.spindle = s.lastSpindleDir
  · have hlast := h.resolve_right (not_not.mpr hdir)
    simp [hdir, hlast]
  · simp [hdir]

theorem driven_coolant {s : DriveState K} {modal : ModalState K}
    (h : s.lastCoolant = s.commanded.coolant ∨ coolantMask modal.coolant ≠ s.lastCoolant) :
    (s.driven modal).coolant = coolantMask modal.coolant := by
  unfold driven
  by_cases hcool : coolantMask modal.coolant = s.lastCoolant
  · have hlast := h.resolve_right (not_not.mpr hcool)
    simp [hcool, hlast]
  · simp [hcool]

/-- A line in check mode publishes a speed. -/
theorem Kept.acceptDry {s : DriveState K} (h : s.Kept) (hcheck : s.control = .check)
    {bytes : List UInt8} {blocks : ℕ} {modal : ModalState K}
    (hline : s.LineMeets bytes blocks modal) : (s.accept bytes blocks modal).Kept := by
  have haccept : s.accept bytes blocks modal = s.publish modal := by
    unfold accept driveModalOutputs
    simp [hcheck]
  have hkeeps : s.Pending → (s.publish modal).commanded = s.commanded := fun hpending => by
    have hrpm := hline.pending hpending
    rw [if_pos hcheck] at hrpm
    unfold publish
    rw [hrpm]
  have hdry : dry (s.publish modal).control ≠ false := by
    unfold publish
    simp [hcheck, dry]
  rw [haccept]
  refine ⟨fun o ho => ?_, fun o ho => ?_, fun hc => absurd hc hdry, fun hc => absurd hc hdry,
    fun hc => absurd hc hdry⟩
  · exact (h.running o ho).trans (hkeeps (pending_of_running ho)).symm
  · exact (h.queued o ho).trans (hkeeps (pending_of_mem ho)).symm

/-- A line outside check mode drives the outputs, and queues its blocks. -/
theorem Kept.acceptDriven {s : DriveState K} (h : s.Kept) (hcheck : s.control ≠ .check)
    (hdry : dry s.control = false) {bytes : List UInt8} {blocks : ℕ} {modal : ModalState K}
    (hline : s.LineMeets bytes blocks modal) : (s.accept bytes blocks modal).Kept := by
  have hkeeps : s.Pending → s.driven modal = s.commanded := fun hpending => by
    have hmodal := hline.pending hpending
    rw [if_neg hcheck] at hmodal
    exact driven_of_eq hmodal
  have hblocks : 0 < blocks → modalOutputs modal = s.driven modal := fun hpos => by
    have hdir := driven_direction (hline.direction hcheck (.inr hpos))
    have hcool := driven_coolant (hline.coolant hcheck hpos)
    unfold modalOutputs
    rw [← hdir, ← hcool]
    rfl
  have haccept : s.accept bytes blocks modal =
      { s with
        parser := modal
        lastSpindleDir := modal.spindle
        lastCoolant := coolantMask modal.coolant
        commanded := s.driven modal
        queue := s.queue ++ List.replicate blocks (modalOutputs modal)
        named := s.named || namesSpindle (K := K) bytes } := by
    unfold accept
    rw [if_neg hcheck, driveModalOutputs_of_ne_check hcheck]
    rfl
  rw [haccept]
  refine ⟨fun o ho => ?_, fun o ho => ?_, fun _ => rfl, fun _ => rfl, fun _ hnamed => ?_⟩
  · exact (h.running o ho).trans (hkeeps (pending_of_running ho)).symm
  · rcases List.mem_append.mp ho with ho | ho
    · exact (h.queued o ho).trans (hkeeps (pending_of_mem ho)).symm
    · obtain ⟨hpos, rfl⟩ := List.mem_replicate.mp ho
      exact hblocks (Nat.pos_of_ne_zero hpos)
  · refine driven_direction ?_
    rcases Bool.or_eq_true_iff.mp hnamed with hbefore | hnames
    · exact .inl ((h.spindle hdry).trans (h.direction hdry hbefore).symm)
    · exact hline.direction hcheck (.inl hnames)

theorem Kept.planGcodeLine {s : DriveState K} (h : s.Kept) {bytes : List UInt8} {blocks : ℕ}
    (hmeets : s.Meets (.line bytes blocks)) : (s.planGcodeLine bytes blocks).Kept := by
  unfold DriveState.planGcodeLine
  by_cases hgated : gated s.control = true
  · rwa [if_pos hgated]
  rw [if_neg hgated]
  have hopen : gated s.control = false := by simpa using hgated
  cases hparse : parseLine s.parser bytes with
  | mk result modal =>
    cases result with
    | error e => exact h
    | ok command =>
      have hline := hmeets hopen command modal hparse
      by_cases hcheck : s.control = .check
      · exact h.acceptDry hcheck hline
      · have hdry : dry s.control = false := by
          cases hcontrol : s.control <;> simp_all [gated, dry]
        exact h.acceptDriven hcheck hdry hline

theorem Kept.handleJog {s : DriveState K} (h : s.Kept) {blocks : ℕ}
    (hallowed : s.control.jogAllowed = true) (hmeets : s.Meets (.jog blocks)) :
    (s.handleJog blocks).Kept := by
  unfold DriveState.handleJog
  by_cases hblocks : blocks = 0
  · rwa [if_pos hblocks]
  · rw [if_neg hblocks]
    refine (h.enqueue fun hpos => (hmeets hpos).symm).inMode fun _ => ?_
    show dry s.control = false
    cases hcontrol : s.control <;> simp_all [ControlState.jogAllowed, dry]

omit [Field K] [LinearOrder K] [FloorRing K] in
/-- A mode that touches nothing else is dry if and only if the mode before it was. -/
theorem dry_apply {s : DriveState K} {change : ModeChange} (h : s.Enabled (.mode change)) :
    dry (change.apply s.control) = dry s.control := by
  cases change with
  | unlock =>
    cases hcontrol : s.control with
    | alarm code => cases hlocked : code.isLocked <;> simp [ModeChange.apply, ControlState.unlock,
        hlocked, dry]
    | _ => rfl
  | toolChange =>
    have hplans : plans s.control = true := h
    cases hcontrol : s.control <;> simp_all [plans, dry, ModeChange.apply, ControlState.toolChange]
  | homeComplete =>
    cases hcontrol : s.control with
    | alarm code => cases code <;> rfl
    | _ => rfl
  | _ => cases hcontrol : s.control <;> rfl

/-- An alarm does not lead out of the dry modes. -/
theorem dry_of_raises {c : ControlState} {code : AlarmCode} (h : raises c code = true)
    (hdry : dry (.alarm code) = false) : dry c = false := by
  cases code <;> cases c <;>
    simp_all [raises, plans, dry, AlarmCode.isLocked, ControlState.homingAllowed]

/-- **A step that meets the condition keeps what `Follows` rests on.** -/
theorem Kept.step {s : DriveState K} (h : s.Kept) {event : DriveEvent}
    (henabled : s.Enabled event) (hmeets : s.Meets event) : (s.step event).Kept := by
  cases event with
  | line bytes blocks => exact h.planGcodeLine hmeets
  | jog blocks => exact h.handleJog henabled.1 hmeets
  | start => exact h.started
  | finish => exact h.finished
  | flush => exact h.flushed
  | mode change => exact h.inMode fun hdry => (dry_apply henabled).symm.trans hdry
  | sleep =>
    have hoff := h.forceOff hmeets
    show (if s.control.enterSleep.2 then s.forceOff.inMode s.control.enterSleep.1 else s).Kept
    cases hcontrol : s.control with
    | normal => exact hoff.inMode fun _ => congrArg dry hcontrol
    | _ => exact h
  | toggleCheck homingEnabled =>
    cases hcontrol : s.control with
    | normal =>
      have hstep : s.step (.toggleCheck homingEnabled) = s.inMode .check := by
        unfold DriveState.step
        simp [hcontrol, ControlState.toggleCheck]
      rw [hstep]
      exact h.inMode fun hdry => by cases hdry
    | check =>
      have hstep : s.step (.toggleCheck homingEnabled) =
          s.restart.flushed.inMode (.boot homingEnabled) := by
        unfold DriveState.step
        simp [hcontrol, ControlState.toggleCheck]
      rw [hstep]
      exact h.restartFlushed _ (hmeets hcontrol)
    | _ =>
      have hstep : s.step (.toggleCheck homingEnabled) = s := by
        unfold DriveState.step
        simp [hcontrol, ControlState.toggleCheck]
      rwa [hstep]
  | alarm code => exact (h.forceOff hmeets).inMode (dry_of_raises henabled)
  | resetPipeline => exact h.restartFlushed s.control hmeets
  | softReset wasInCycle homingEnabled =>
    exact (h.finished.restartFlushed _ fun hrunning => absurd rfl hrunning)
  | programEnd => exact kept_restart_of_drained s.control henabled.2
  | programStop => exact kept_restart_of_drained _ henabled.2

/-! ## The runs -/

/-- **In a run whose steps meet the condition, the spindle and the coolant follow the program in
every state.** -/
theorem follows (homingEnabled : Bool) {events : List DriveEvent}
    (hrun : Runs.Allowed step (fun s event => s.Enabled event ∧ s.Meets event)
      (powerOn homingEnabled : DriveState K) events) (n : ℕ) :
    ((events.take n).foldl step (powerOn homingEnabled : DriveState K)).Follows :=
  ((hrun.take n).invariant (fun _ _ h hstep => h.step hstep.1 hstep.2)
    (kept_powerOn homingEnabled)).toFollows

/-- `M3 S1000`. -/
def spindleOn : List UInt8 :=
  ['M'.toUInt8, '3'.toUInt8, 'S'.toUInt8, '1'.toUInt8, '0'.toUInt8, '0'.toUInt8, '0'.toUInt8]

/-- `G38.2 Z-1 F10`. -/
def probeDown : List UInt8 :=
  ['G'.toUInt8, '3'.toUInt8, '8'.toUInt8, '.'.toUInt8, '2'.toUInt8, 'Z'.toUInt8, '-'.toUInt8,
    '1'.toUInt8, 'F'.toUInt8, '1'.toUInt8, '0'.toUInt8]

/-- The spindle is started and stopped with a line between that moves. -/
def spindleCut : List DriveEvent :=
  [.line spindleOn 0,
    .line ['G'.toUInt8, '1'.toUInt8, 'X'.toUInt8, '1'.toUInt8, 'F'.toUInt8, '9'.toUInt8] 1,
    .start, .finish, .line ['M'.toUInt8, '5'.toUInt8] 0]

theorem follows_spindleCut :
    ((spindleCut.take 5).foldl step (powerOn false : DriveState ℚ)).Follows := by
  exact follows false (by decide +kernel) 5

/-- A probe that fails while the spindle turns, an unlock, and the spindle named again. -/
def spindleLost : List DriveEvent :=
  [.line spindleOn 0, .line probeDown 1, .start, .finish, .alarm .probeFailContact, .mode .unlock,
    .line spindleOn 0]

theorem not_follows :
    ¬∀ (homingEnabled : Bool) (events : List DriveEvent),
      Runs.Allowed step Enabled (powerOn homingEnabled : DriveState ℚ) events →
        (events.foldl step (powerOn homingEnabled : DriveState ℚ)).Follows := by
  intro hall
  have hrun : Runs.Allowed step Enabled (powerOn false : DriveState ℚ) spindleLost := by
    decide +kernel
  have hdrained := (hall false spindleLost hrun).drained
  have hlost : ¬(((spindleLost.foldl step (powerOn false : DriveState ℚ)).control = .normal →
      ¬(spindleLost.foldl step (powerOn false : DriveState ℚ)).Pending →
      (spindleLost.foldl step (powerOn false : DriveState ℚ)).named = true →
      (spindleLost.foldl step (powerOn false : DriveState ℚ)).commanded.direction =
        (spindleLost.foldl step (powerOn false : DriveState ℚ)).parser.spindle)) := by
    decide +kernel
  exact hlost hdrained

end DriveState

end Galdr.Comms.Drive
