import Galdr.ProbeLatch

/-!
# The shell that probes, and the machine behind a link

The shell holds the latch, the touch-off that waits for it, and one run of every wizard.
Whoever begins a touch gives up the runs of the others, arms the latch and sends the lines.
The lines wait for the machine in one queue, and what it answers waits for the host in
another. The machine answers each probe with one push, with a push and an alarm, or with an
error that means it was not carried out; `$#` repeats the last push. Alarms and errors may
come at any time.

What the wizards and the touch-off were told is recorded, with the touch they were told it
for.
-/

namespace Galdr.Host.Latch

open Eitri

/-! ## The runs -/

/-- Where a wizard runs. -/
inductive Slot
  | wizard
  | datum
  | mesh
  | sweep
  deriving DecidableEq, Repr

/-- The wizard of a slot. -/
abbrev Machine : Slot → Type
  | .wizard => RotaryCenterRun
  | .datum => DatumRun
  | .mesh => MeshProbeState
  | .sweep => SweepRun

instance instProbeWizardMachine : ∀ s, ProbeWizard (Machine s)
  | .wizard => inferInstanceAs (ProbeWizard RotaryCenterRun)
  | .datum => inferInstanceAs (ProbeWizard DatumRun)
  | .mesh => inferInstanceAs (ProbeWizard MeshProbeState)
  | .sweep => inferInstanceAs (ProbeWizard SweepRun)

/-- A run of a wizard. -/
structure Run (W : Type) where
  /-- The wizard. -/
  machine : W
  /-- The fallback of the touch in flight. -/
  touchFallback : Option TouchFallback
  /-- The last touch. -/
  touch : ℕ

/-- A touch-off of the spindle axis that waits for its contact. -/
structure PendingZeroZ where
  /-- The plate below the contact. -/
  plateThickness : ℚ
  /-- The fallback of the touch. -/
  fallback : TouchFallback
  /-- The touch. -/
  touch : ℕ

/-- How a run is opened. -/
inductive Opening
  | rotaryCenter (dowelDiameter indexAngle : ℚ) (params : RotaryProbeParams)
  | datum (target : DatumTarget) (probeDiameter : ℚ) (params : ProbeParams)
  | mesh (params : GridProbeParams) (probeOffset lower upper spacing : ℚ × ℚ)
  | flipVerify (angle : ℚ) (axis : Axis) (dir : Dir) (params : RotaryProbeParams)
  | runout (n : ℕ) (start : ℚ) (axis : Axis) (dir : Dir) (params : RotaryProbeParams)

namespace Opening

/-- The slot of the run. -/
def slot : Opening → Slot
  | rotaryCenter .. => .wizard
  | datum .. => .datum
  | mesh .. => .mesh
  | flipVerify .. | runout .. => .sweep

/-- The wizard, before its first touch. -/
def machine : (opening : Opening) → Machine opening.slot
  | rotaryCenter dowelDiameter indexAngle params =>
    ⟨⟨.enterDowel, dowelDiameter, indexAngle, none, none, none, .axisCenterline, none⟩, params⟩
  | datum target probeDiameter params => ⟨.new target probeDiameter, params⟩
  | mesh params probeOffset lower upper spacing =>
    .new (.fromSpacing lower upper spacing) params probeOffset
  | flipVerify angle axis dir params =>
    ⟨.flipVerify, .new [angle, angle + 180] axis dir, params, .inl rfl⟩
  | runout n start axis dir params =>
    ⟨.runout, .new (evenlySpacedAngles n start) axis dir, params, .inr rfl⟩

/-- Whether it is opened, with the input of the probe as it is: a finder and an acquisition
are not opened on a closed probe, and a runout wants two angles. -/
def admitted (opening : Opening) (asserted : Bool) : Bool :=
  match opening with
  | datum .. | mesh .. => !asserted
  | runout n .. => decide (2 ≤ n)
  | _ => true

/-- The other runs are given up: the centre finder leaves them until its first touch. -/
def cancels : Opening → Bool
  | rotaryCenter .. => false
  | _ => true

/-- No wizard begins with a touch in flight. -/
theorem isProbing_machine (opening : Opening) :
    ProbeWizard.isProbing opening.machine = false := by
  cases opening with
  | rotaryCenter => rfl
  | datum => rfl
  | mesh params probeOffset lower upper spacing =>
    show decide ((if _ then SweepStep.done else SweepStep.ready) = SweepStep.probing) = false
    split <;> rfl
  | flipVerify => rfl
  | runout n start axis dir params =>
    show decide ((if _ then SweepStep.done else SweepStep.ready) = SweepStep.probing) = false
    split <;> rfl

end Opening

/-! ## The link -/

/-- What waits for the machine. -/
inductive Order
  /-- A line that does not probe. -/
  | other
  /-- A probe of a touch, which is the last of it or not. -/
  | probe (touch : ℕ) (final : Bool)
  /-- `$#`. -/
  | poll
  deriving DecidableEq

/-- What waits for the host. -/
inductive Answer
  /-- A push, with its flag of contact. -/
  | push (reading : Reading) (contact : Bool)
  /-- An alarm or an error, and what it makes of a touch. -/
  | trouble (reason : List Char)
  deriving DecidableEq

/-- What the machine makes of a line. -/
inductive Finish
  /-- It is carried out; a probe makes contact there. -/
  | contact (position : List ℚ)
  /-- A probe makes no contact. -/
  | miss (position : List ℚ)
  /-- A probe makes no contact, and the machine locks. -/
  | alarm (position : List ℚ) (reason : List Char)
  /-- It is not carried out. -/
  | refused (reason : List Char)

/-- The line is a probe. -/
def isProbe : HostLine → Bool
  | .stroke .. | .plunge .. => true
  | _ => false

/-- The lines of a touch. -/
def orders (touch : ℕ) : List HostLine → List Order
  | [] => []
  | line :: rest =>
    (if isProbe line then .probe touch (rest.all fun later => !isProbe later) else .other)
      :: orders touch rest

/-- What the machine answers to a line, with the last push. -/
def answers (last : Reading × Bool) : Order → Finish → List Answer
  | _, .refused reason => [.trouble reason]
  | .other, _ => []
  | .probe touch final, .contact position => [.push ⟨position, touch, final⟩ true]
  | .probe touch final, .miss position => [.push ⟨position, touch, final⟩ false]
  | .probe touch final, .alarm position reason =>
    [.push ⟨position, touch, final⟩ false, .trouble reason]
  | .poll, _ => [.push last.1 last.2]

/-- The last push, after a line. -/
def lastPush (last : Reading × Bool) : Order → Finish → Reading × Bool
  | .probe touch final, .contact position => (⟨position, touch, final⟩, true)
  | .probe touch final, .miss position => (⟨position, touch, final⟩, false)
  | .probe touch final, .alarm position _ => (⟨position, touch, final⟩, false)
  | _, _ => last

/-! ## The shell -/

/-- The shell, the machine and the link between them, and what is recorded beside them. -/
structure Shell where
  /-- The latch. -/
  probeOp : Option ProbeOp
  /-- The touch-off that waits. -/
  pendingZeroZ : Option PendingZeroZ
  /-- The runs. -/
  runs : (s : Slot) → Option (Run (Machine s))
  /-- The lines on their way. -/
  toBoard : List Order
  /-- The answers on their way. -/
  toHost : List Answer
  /-- The last push, as `$#` repeats it. -/
  lastPush : Reading × Bool
  /-- The touches so far. -/
  touches : ℕ
  /-- The contacts a wizard or the touch-off was told, each with its touch. -/
  received : List (ℕ × Reading)
  /-- The zeros that the touch-off wrote. -/
  zeroed : List (List Char)

/-- What happens next. -/
inductive Event
  /-- A run is opened, with the input of the probe as it is. -/
  | start (opening : Opening) (asserted : Bool)
  /-- The next touch of a run. -/
  | touch (s : Slot) (now : ℕ)
  /-- A run is cancelled. -/
  | cancel (s : Slot)
  /-- The centre finder goes to the middle of its two sides. -/
  | moveToYc
  /-- A touch-off of the spindle axis. -/
  | probeZ (depth feed plateThickness : ℚ) (now : ℕ)
  /-- A line that does not probe. -/
  | line
  /-- The machine takes a line. -/
  | board (finish : Finish)
  /-- An alarm or an error of something else. -/
  | trouble (reason : List Char)
  /-- The host takes an answer. -/
  | host
  /-- The pump of a wizard, while the machine is at work or not. -/
  | pump (s : Slot) (now : ℕ) (busy : Bool)
  /-- The pump of the touch-off. -/
  | pumpZ (now : ℕ) (busy : Bool)

namespace Shell

/-- No run and nothing on its way. -/
def idle : Shell where
  probeOp := none
  pendingZeroZ := none
  runs := fun _ => none
  toBoard := []
  toHost := []
  lastPush := (⟨[0, 0, 0, 0], 0, false⟩, false)
  touches := 0
  received := []
  zeroed := []

/-- The run of a slot is replaced. -/
def setRun (y : Shell) (s : Slot) (run : Option (Run (Machine s))) : Shell :=
  { y with runs := Function.update y.runs s run }

/-- The touch-off waits, or it is over. -/
def setZeroZ (y : Shell) (pending : Option PendingZeroZ) : Shell :=
  { y with pendingZeroZ := pending }

/-- Lines are sent. -/
def send (y : Shell) (more : List Order) : Shell := { y with toBoard := y.toBoard ++ more }

/-- `cancel_probe_ops_except`, for a slot or for the touch-off. -/
def cancelExcept (y : Shell) (keep : Option Slot) : Shell :=
  { y with
    pendingZeroZ := if keep = none then y.pendingZeroZ else none
    runs := fun s => if keep = some s then y.runs s else none }

/-- The latch is armed and the lines of a touch are sent. -/
def arm (y : Shell) (kind : ProbeKind) (lines : List HostLine) : Shell :=
  { y with
    probeOp := some (.issued kind)
    touches := y.touches + 1
    toBoard := y.toBoard ++ orders (y.touches + 1) lines }

/-- A run is opened. -/
def start (y : Shell) (opening : Opening) (asserted : Bool) : Shell :=
  if opening.admitted asserted then
    (if opening.cancels then y.cancelExcept (some opening.slot) else y).setRun opening.slot
      (some ⟨opening.machine, none, y.touches⟩)
  else y

/-- The next touch of a run. -/
def touch (y : Shell) (s : Slot) (now : ℕ) : Shell :=
  match y.runs s with
  | none => y
  | some run =>
    if ProbeWizard.isProbing run.machine then y
    else
      match ProbeWizard.begin run.machine with
      | none => y
      | some (sequence, machine) =>
        ((y.cancelExcept (some s)).arm (ProbeWizard.probeKind run.machine) sequence.lines).setRun s
          (some ⟨machine, some (.issued now), y.touches + 1⟩)

/-- The centre finder goes to the middle of its two sides. -/
def moveToYc (y : Shell) : Shell :=
  match y.runs .wizard with
  | none => y
  | some run =>
    if run.machine.state.step = .moveToYc then
      match run.machine.moveToYcLines with
      | none => y
      | some lines =>
        (y.setRun .wizard (some { run with machine := run.machine.markMovedToYc })).send
          (lines.map fun _ => .other)
    else y

/-- A touch-off of the spindle axis. -/
def probeZ (y : Shell) (depth feed plateThickness : ℚ) (now : ℕ) : Shell :=
  { (y.cancelExcept none).arm .zeroZ (zeroZLines depth feed) with
    pendingZeroZ := some ⟨plateThickness, .issued now, y.touches + 1⟩ }

/-- The machine takes a line. -/
def board (y : Shell) (finish : Finish) : Shell :=
  match y.toBoard with
  | [] => y
  | order :: rest =>
    { y with
      toBoard := rest
      toHost := y.toHost ++ answers y.lastPush order finish
      lastPush := Latch.lastPush y.lastPush order finish }

/-- The outcome of a push. -/
def outcomeOf (reading : Reading) (contact : Bool) : Outcome :=
  if contact then .success reading else .failure "probe did not contact (flag :0)".toList

/-- The host takes an answer. -/
def host (y : Shell) : Shell :=
  match y.toHost with
  | [] => y
  | .push reading contact :: rest =>
    { y with
      toHost := rest
      probeOp := y.probeOp.map fun op => op.resolve (outcomeOf reading contact) }
  | .trouble reason :: rest =>
    { y with toHost := rest, probeOp := y.probeOp.map fun op => op.fail reason }

/-- What a run is told of an outcome. -/
def told (touch : ℕ) : Outcome → List (ℕ × Reading)
  | .success reading => [(touch, reading)]
  | .failure _ => []

/-- A run waits for its push, or for the answer to `$#`. -/
def awaitPush (y : Shell) (s : Slot) (run : Run (Machine s)) (op : ProbeOp) (now : ℕ)
    (busy : Bool) : Shell :=
  match run.touchFallback with
  | none => y
  | some fallback =>
    match (fallback.observe busy).action now busy with
    | .wait => y.setRun s (some { run with touchFallback := some (fallback.observe busy) })
    | .poll =>
      (y.setRun s (some { run with
        touchFallback := some ((fallback.observe busy).poll now) })).send [.poll]
    | .giveUp reason =>
      { y.setRun s (some ⟨ProbeWizard.abort run.machine reason, none, run.touch⟩) with
        probeOp := some (op.fail reason) }

/-- `pump_probe_wizard`. -/
def pump (y : Shell) (s : Slot) (now : ℕ) (busy : Bool) : Shell :=
  match y.runs s with
  | none => y
  | some run =>
    if ProbeWizard.isProbing run.machine then
      match y.probeOp with
      | none => y.setRun s (some { run with
          machine := ProbeWizard.abort run.machine "probe latch lost".toList })
      | some op =>
        if op.kind = ProbeWizard.probeKind run.machine then
          match op.resolved with
          | some outcome =>
            { y.setRun s (some ⟨ProbeWizard.onProbeResult run.machine outcome.seen, none,
                run.touch⟩) with
              probeOp := none
              received := y.received ++ told run.touch outcome }
          | none => y.awaitPush s run op now busy
        else y.setRun s (some { run with
          machine := ProbeWizard.abort run.machine "probe latch lost".toList })
    else y

/-- The touch-off waits for its push, or for the answer to `$#`. -/
def awaitZeroZ (y : Shell) (pending : PendingZeroZ) (op : ProbeOp) (now : ℕ) (busy : Bool) :
    Shell :=
  match (pending.fallback.observe busy).action now busy with
  | .wait => y.setZeroZ (some { pending with fallback := pending.fallback.observe busy })
  | .poll =>
    (y.setZeroZ (some { pending with
      fallback := (pending.fallback.observe busy).poll now })).send [.poll]
  | .giveUp reason => { y.setZeroZ none with probeOp := some (op.fail reason) }

/-- The zero is written from the contact. -/
def writeZero (y : Shell) (pending : PendingZeroZ) (reading : Reading) : Shell :=
  { (y.setZeroZ none).send
      ((zeroZLine reading.position pending.plateThickness).toList.map fun _ => .other) with
    received := y.received ++ [(pending.touch, reading)]
    zeroed := y.zeroed ++ (zeroZLine reading.position pending.plateThickness).toList }

/-- `pump_probe_z`. -/
def pumpZ (y : Shell) (now : ℕ) (busy : Bool) : Shell :=
  match y.pendingZeroZ with
  | none => y
  | some pending =>
    match y.probeOp with
    | none => y.setZeroZ none
    | some op =>
      if op.kind = .zeroZ then
        match op.last with
        | some (.success reading) => y.writeZero pending reading
        | some (.failure _) => y.setZeroZ none
        | none => y.awaitZeroZ pending op now busy
      else y.setZeroZ none

/-- A turn. -/
def step (y : Shell) : Event → Shell
  | .start opening asserted => y.start opening asserted
  | .touch s now => y.touch s now
  | .cancel s => y.setRun s none
  | .moveToYc => y.moveToYc
  | .probeZ depth feed plateThickness now => y.probeZ depth feed plateThickness now
  | .line => y.send [.other]
  | .board finish => y.board finish
  | .trouble reason => { y with toHost := y.toHost ++ [.trouble reason] }
  | .host => y.host
  | .pump s now busy => y.pump s now busy
  | .pumpZ now busy => y.pumpZ now busy

/-- A session. -/
def session (y : Shell) (events : List Event) : Shell := events.foldl step y

/-! ## Which touch a contact is told for -/

/-- A wizard is made of the contacts it was told: it is opened, begins touches, is told
contacts and failures, and gives up. -/
inductive Made : {s : Slot} → Machine s → List (ℕ × Reading) → Prop
  | opened (opening : Opening) : Made opening.machine []
  | begun {s : Slot} {machine machine' : Machine s} {l : List (ℕ × Reading)}
      {sequence : ProbeSequence} (h : Made machine l)
      (hbegin : ProbeWizard.begin machine = some (sequence, machine')) : Made machine' l
  | told {s : Slot} {machine : Machine s} {l : List (ℕ × Reading)} (h : Made machine l)
      (touch : ℕ) (reading : Reading) :
      Made (ProbeWizard.onProbeResult machine (.success reading.position)) (l ++ [(touch, reading)])
  | failed {s : Slot} {machine : Machine s} {l : List (ℕ × Reading)} (h : Made machine l)
      (reason : List Char) : Made (ProbeWizard.onProbeResult machine (.failure reason)) l
  | aborted {s : Slot} {machine : Machine s} {l : List (ℕ × Reading)} (h : Made machine l)
      (reason : List Char) : Made (ProbeWizard.abort machine reason) l
  | moved {machine : RotaryCenterRun} {l : List (ℕ × Reading)}
      (h : Made (s := Slot.wizard) machine l) : Made (s := Slot.wizard) machine.markMovedToYc l

/-- **Contacts are told for their own touch**, and are of its last probe; the wizards are made
of such contacts only, and so is every zero that the touch-off writes. -/
structure Attributed (y : Shell) : Prop where
  own : ∀ contact ∈ y.received, contact.2.touch = contact.1 ∧ contact.2.final = true
  made : ∀ s run, y.runs s = some run → ∃ l, l ⊆ y.received ∧ Made run.machine l
  zeroed : ∀ line ∈ y.zeroed, ∃ contact ∈ y.received, ∃ plateThickness,
    zeroZLine contact.2.position plateThickness = some line

/-- Nothing on its way is a push or will be answered with one. -/
def quiet (y : Shell) : Bool :=
  y.toBoard.all (· = .other) && y.toHost.all fun answer => match answer with
    | .push .. => false
    | .trouble _ => true

/-- A touch of the run is due, and none is in flight. -/
def due (y : Shell) (s : Slot) : Bool :=
  match y.runs s with
  | none => false
  | some run =>
    !ProbeWizard.isProbing run.machine && (ProbeWizard.begin run.machine).isSome

/-- A touch begins on a quiet link. -/
def plain (y : Shell) : Event → Bool
  | .touch s _ => !y.due s || y.quiet
  | .probeZ .. => y.quiet
  | _ => true

/-- Every touch of the session begins on a quiet link. -/
def plainSession (y : Shell) : List Event → Bool
  | [] => true
  | event :: rest => y.plain event && (y.step event).plainSession rest

end Shell

end Galdr.Host.Latch
