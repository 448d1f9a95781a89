import Galdr.ProbeShell

/-!
# Contacts are told for their own touch

A touch that begins on a quiet link finds its own contacts in its latch: nothing else on the
link is a push, so the pushes come in the order of its probes, and the one that resolves the
latch is of its last probe (`Expects`). Every other touch is behind that, and what the
fallback asks for is behind every probe.

A touch that begins while a push of an earlier one is on its way is told that push. It is
enough to cancel a touch in two stages and to begin it again at once, or to begin again
after a fast stage without contact, whose slow stage is still in the queue of the machine
(`not_attributed`).
-/

namespace Galdr.Host.Latch

/-! ## The link -/

/-- What is on the link: an answer, or a line that will be answered. -/
inductive Item
  | answer (answer : Answer)
  | order (order : Order)

/-- A touch finds its contacts on the link: as many as are still expected, in their order,
unless something goes wrong before. -/
def Expects (touch : ℕ) : ℕ → List Item → Prop
  | _, [] => False
  | n, .answer (.push reading true) :: rest =>
    reading.touch = touch ∧ (reading.final = true ↔ n = 1) ∧ (n ≠ 1 → Expects touch (n - 1) rest)
  | _, .answer _ :: _ => True
  | n, .order .other :: rest => Expects touch n rest
  | n, .order (.probe touch' final) :: rest =>
    touch' = touch ∧ (final = true ↔ n = 1) ∧ (n ≠ 1 → Expects touch (n - 1) rest)
  | _, .order .poll :: _ => False

/-- The item is no push, and will not be answered with one. -/
def Item.quiet : Item → Prop
  | .answer (.push ..) | .order (.probe ..) | .order .poll => False
  | _ => True

section Expects

variable {touch n : ℕ} {front rest : List Item}

/-- What is expected behind an item may be replaced by what is expected as well. -/
theorem Expects.cons_imp {item : Item} {l l' : List Item} (h : Expects touch n (item :: l))
    (himp : ∀ n, Expects touch n l → Expects touch n l') : Expects touch n (item :: l') := by
  match item with
  | .answer (.push reading true) => exact ⟨h.1, h.2.1, fun hn => himp _ (h.2.2 hn)⟩
  | .answer (.push reading false) => trivial
  | .answer (.trouble reason) => trivial
  | .order .other => exact himp _ h
  | .order (.probe touch' final) => exact ⟨h.1, h.2.1, fun hn => himp _ (h.2.2 hn)⟩
  | .order .poll => exact absurd h id

/-- What comes behind is not looked at. -/
theorem Expects.append (h : Expects touch n front) (more : List Item) :
    Expects touch n (front ++ more) := by
  induction front generalizing n with
  | nil => exact absurd h id
  | cons item front ih => exact h.cons_imp fun _ => ih

/-- Trouble does no harm, wherever it comes. -/
theorem Expects.insert (h : Expects touch n (front ++ rest)) (reason : List Char) :
    Expects touch n (front ++ .answer (.trouble reason) :: rest) := by
  induction front generalizing n with
  | nil => trivial
  | cons item front ih => exact h.cons_imp fun _ => ih

/-- What is quiet may be in front. -/
theorem Expects.behind (h : Expects touch n rest) (hquiet : ∀ item ∈ front, item.quiet) :
    Expects touch n (front ++ rest) := by
  induction front with
  | nil => exact h
  | cons item front ih =>
    have hitem := hquiet item List.mem_cons_self
    have hfront := ih fun item hmem => hquiet item (List.mem_cons_of_mem _ hmem)
    match item with
    | .answer (.push reading contact) => exact absurd hitem id
    | .answer (.trouble reason) => trivial
    | .order .other => exact hfront
    | .order (.probe touch' final) => exact absurd hitem id
    | .order .poll => exact absurd hitem id

/-- **The machine takes a line**: its answer is expected where the line was. -/
theorem Expects.answered {order : Order} (h : Expects touch n (front ++ .order order :: rest))
    (last : Reading × Bool) (finish : Finish) :
    Expects touch n (front ++ (answers last order finish).map .answer ++ rest) := by
  induction front generalizing n with
  | nil =>
    match order, finish with
    | .other, .refused reason => trivial
    | .other, .contact position => exact h
    | .other, .miss position => exact h
    | .other, .alarm position reason => exact h
    | .probe touch' final, .contact position => exact h
    | .probe touch' final, .miss position => trivial
    | .probe touch' final, .alarm position reason => trivial
    | .probe touch' final, .refused reason => trivial
    | .poll, finish => exact absurd h id
  | cons item front ih => exact h.cons_imp fun _ => ih

end Expects

/-- **The lines of a touch are what the touch expects.** -/
theorem expects_orders (touch : ℕ) {lines : List HostLine} {n : ℕ}
    (hcount : lines.countP isProbe = n) (hn : n ≠ 0) :
    Expects touch n ((orders touch lines).map .order) := by
  induction lines generalizing n with
  | nil => exact absurd hcount.symm hn
  | cons line rest ih =>
    unfold orders
    rw [List.map_cons]
    by_cases hline : isProbe line = true
    · rw [List.countP_cons_of_pos hline] at hcount
      rw [if_pos hline]
      have hrest : (rest.all fun later => !isProbe later) = true ↔ n = 1 := by
        rw [← hcount, Nat.add_eq_right, List.countP_eq_zero, List.all_eq_true]
        simp
      refine ⟨rfl, hrest, fun hne => ih (Nat.eq_sub_of_add_eq hcount) ?_⟩
      exact fun hzero => hne (by omega)
    · rw [List.countP_cons_of_neg hline] at hcount
      rw [if_neg hline]
      exact ih hcount hn

theorem countP_rotary (touch : RotaryTouch) (params : RotaryProbeParams) :
    (rotarySafeProbeLines touch params).countP isProbe = 1 := by
  unfold rotarySafeProbeLines
  split <;> rfl

theorem expectedPushes_ne_zero (kind : ProbeKind) : kind.expectedPushes ≠ 0 := by
  cases kind <;> decide

/-- **A touch makes as many contacts as its kind says.** -/
theorem countP_begin {s : Slot} {machine machine' : Machine s} {sequence : ProbeSequence}
    (h : ProbeWizard.begin machine = some (sequence, machine')) :
    sequence.lines.countP isProbe = (ProbeWizard.probeKind machine).expectedPushes := by
  cases s with
  | wizard =>
    obtain ⟨⟨touch, step⟩, -, heq⟩ := Option.map_eq_some_iff.1 h
    obtain ⟨rfl, -⟩ := Prod.mk.inj heq
    exact countP_rotary touch _
  | datum =>
    obtain ⟨touch, -, heq⟩ := Option.map_eq_some_iff.1 h
    obtain ⟨rfl, -⟩ := Prod.mk.inj heq
    rfl
  | mesh =>
    have hbegin : MeshProbeState.beginNextPoint machine = some (sequence, machine') := h
    unfold MeshProbeState.beginNextPoint at hbegin
    split_ifs at hbegin
    obtain ⟨node, -, heq⟩ := Option.map_eq_some_iff.1 hbegin
    obtain ⟨rfl, -⟩ := Prod.mk.inj heq
    rfl
  | sweep =>
    obtain ⟨⟨touch, sweep⟩, -, heq⟩ := Option.map_eq_some_iff.1 h
    obtain ⟨rfl, -⟩ := Prod.mk.inj heq
    rw [show (ProbeWizard.probeKind machine) = SweepRun.kind machine from rfl]
    rcases SweepRun.kind_eq machine with hkind | hkind <;> rw [hkind] <;>
      exact countP_rotary touch _

/-! ## What a session keeps -/

namespace Shell

/-- What is on the link, the next one first. -/
def wire (y : Shell) : List Item := y.toHost.map .answer ++ y.toBoard.map .order

/-- A latch awaits the contacts that are on the link, or is resolved by the last one of its
touch. -/
structure Sound (touch : ℕ) (wire : List Item) (op : ProbeOp) : Prop where
  expects : op.awaiting = true → Expects touch op.remaining wire
  remaining : op.awaiting = true →
    op.remaining ≠ 0 ∧ op.remaining ≤ op.kind.expectedPushes
  once : op.awaiting = true → op.last ≠ none → op.remaining < op.kind.expectedPushes
  own : op.awaiting = false → ∀ reading, op.last = some (.success reading) →
    reading.touch = touch ∧ reading.final = true

/-- What a session keeps: the latch is sound, and who waits for it waits for the last
touch. -/
structure Inv (y : Shell) : Prop where
  latch : ∀ op, y.probeOp = some op → Sound y.touches y.wire op
  run : ∀ s run, y.runs s = some run → ProbeWizard.isProbing run.machine = true →
    run.touch = y.touches
  pending : ∀ pending, y.pendingZeroZ = some pending → pending.touch = y.touches
  own : ∀ contact ∈ y.received, contact.2.touch = contact.1 ∧ contact.2.final = true

/-- A failure resolves a latch. -/
theorem Sound.fail {touch : ℕ} {wire wire' : List Item} {op : ProbeOp} (h : Sound touch wire op)
    (reason : List Char) : Sound touch wire' (op.fail reason) := by
  unfold ProbeOp.fail ProbeOp.resolve
  split_ifs with hawaiting
  · exact
      { expects := fun h => absurd h Bool.false_ne_true
        remaining := fun h => absurd h Bool.false_ne_true
        once := fun h => absurd h Bool.false_ne_true
        own := fun _ reading hlast => Outcome.noConfusion (Option.some.inj hlast) }
  · exact
      { expects := fun h => absurd h hawaiting
        remaining := fun h => absurd h hawaiting
        once := fun h => absurd h hawaiting
        own := h.own }

/-- **A push resolves a latch if it is of the last probe of the touch.** -/
theorem Sound.push {touch : ℕ} {rest : List Item} {op : ProbeOp} {reading : Reading}
    {contact : Bool} (h : Sound touch (.answer (.push reading contact) :: rest) op) :
    Sound touch rest (op.resolve (outcomeOf reading contact)) := by
  cases contact with
  | false => exact Sound.fail h _
  | true =>
    show Sound touch rest (op.resolve (.success reading))
    unfold ProbeOp.resolve
    split_ifs with hawaiting
    · obtain ⟨htouch, hfinal, hrest⟩ := h.expects hawaiting
      obtain ⟨hpos, hle⟩ := h.remaining hawaiting
      exact
        { expects := fun hmore => hrest fun hone => by simp [hone] at hmore
          remaining := fun hmore =>
            ⟨of_decide_eq_true hmore, (Nat.sub_le _ 1).trans hle⟩
          once := fun _ _ => (Nat.sub_lt (Nat.pos_of_ne_zero hpos) Nat.one_pos).trans_le hle
          own := fun hdone reading' hlast => by
            obtain rfl : reading = reading' := Outcome.success.inj (Option.some.inj hlast)
            have hzero : op.remaining - 1 = 0 := not_not.1 (of_decide_eq_false hdone)
            exact ⟨htouch, hfinal.2 (by omega)⟩ }
    · exact
        { expects := fun h => absurd h hawaiting
          remaining := fun h => absurd h hawaiting
          once := fun h => absurd h hawaiting
          own := h.own }

/-- A latch that was just armed on a quiet link is sound. -/
theorem sound_issued {touch : ℕ} {front : List Item} {kind : ProbeKind} {lines : List HostLine}
    (hquiet : ∀ item ∈ front, item.quiet) (hcount : lines.countP isProbe = kind.expectedPushes) :
    Sound touch (front ++ (orders touch lines).map .order) (.issued kind) where
  expects _ := (expects_orders touch hcount (expectedPushes_ne_zero kind)).behind hquiet
  remaining _ := ⟨expectedPushes_ne_zero kind, le_rfl⟩
  once _ hlast := absurd rfl hlast
  own hdone := Bool.noConfusion hdone

/-- The link may change if what is expected stays. -/
theorem Sound.mono {touch : ℕ} {wire wire' : List Item} {op : ProbeOp} (h : Sound touch wire op)
    (hwire : ∀ n, Expects touch n wire → Expects touch n wire') : Sound touch wire' op :=
  { h with expects := fun hawaiting => hwire _ (h.expects hawaiting) }

variable {y : Shell}

theorem wire_quiet (h : y.quiet = true) : ∀ item ∈ y.wire, item.quiet := by
  obtain ⟨hboard, hhost⟩ := Bool.and_eq_true_iff.1 h
  intro item hitem
  rcases List.mem_append.1 hitem with hitem | hitem
  · obtain ⟨answer, hanswer, rfl⟩ := List.mem_map.1 hitem
    have := List.all_eq_true.1 hhost answer hanswer
    cases answer with
    | push reading contact => exact absurd this Bool.false_ne_true
    | trouble reason => trivial
  · obtain ⟨order, horder, rfl⟩ := List.mem_map.1 hitem
    rw [of_decide_eq_true (List.all_eq_true.1 hboard order horder)]
    trivial

/-- **Nothing is told at first.** -/
theorem inv_idle : Inv idle where
  latch op h := absurd h (Option.some_ne_none op).symm
  run _ run h := absurd h (Option.some_ne_none run).symm
  pending pending h := absurd h (Option.some_ne_none pending).symm
  own _ h := absurd h List.not_mem_nil

namespace Inv

/-- A run that is replaced waits for the touch that the one before it waited for. -/
theorem setRun (h : Inv y) (s : Slot) {next : Option (Run (Machine s))}
    (hnext : ∀ run, next = some run → ProbeWizard.isProbing run.machine = true →
      run.touch = y.touches) : Inv (y.setRun s next) where
  latch := h.latch
  pending := h.pending
  own := h.own
  run s' run hrun hprobing := by
    have hrun' : Function.update y.runs s next s' = some run := hrun
    by_cases hs : s' = s
    · subst hs
      rw [Function.update_self] at hrun'
      exact hnext run hrun' hprobing
    · rw [Function.update_of_ne hs] at hrun'
      exact h.run s' run hrun' hprobing

theorem cancelExcept (h : Inv y) (keep : Option Slot) : Inv (y.cancelExcept keep) where
  latch := h.latch
  own := h.own
  run s run hrun hprobing := by
    have hrun' : (if keep = some s then y.runs s else none) = some run := hrun
    split_ifs at hrun'
    exact h.run s run hrun' hprobing
  pending pending hpending := by
    have hpending' : (if keep = none then y.pendingZeroZ else none) = some pending := hpending
    split_ifs at hpending'
    exact h.pending pending hpending'

/-- The link and the latch change together. -/
theorem relink (h : Inv y) {probeOp : Option ProbeOp} {toBoard : List Order}
    {toHost : List Answer} {last : Reading × Bool}
    (hlatch : ∀ op, probeOp = some op →
      Sound y.touches (toHost.map .answer ++ toBoard.map .order) op) :
    Inv { y with probeOp := probeOp, toBoard := toBoard, toHost := toHost, lastPush := last } where
  latch := hlatch
  run := h.run
  pending := h.pending
  own := h.own

/-- What is sent behind is answered behind. -/
theorem send (h : Inv y) (more : List Order) : Inv (y.send more) := by
  refine h.relink fun op hop => (h.latch op hop).mono fun n hn => ?_
  rw [List.map_append, ← List.append_assoc]
  exact hn.append _

/-- **A touch begins**: on a quiet link the latch is sound, and nobody else waits for it. -/
theorem arm (h : Inv y) {kind : ProbeKind} {lines : List HostLine} (hquiet : y.quiet = true)
    (hcount : lines.countP isProbe = kind.expectedPushes)
    (hruns : ∀ s run, y.runs s = some run → ProbeWizard.isProbing run.machine = false)
    (hpending : y.pendingZeroZ = none) : Inv (y.arm kind lines) where
  latch op hop := by
    obtain rfl : ProbeOp.issued kind = op := Option.some.inj hop
    unfold Shell.arm Shell.wire
    rw [List.map_append, ← List.append_assoc]
    exact sound_issued (wire_quiet hquiet) hcount
  run s run hrun hprobing :=
    absurd ((hruns s run hrun).symm.trans hprobing) Bool.false_ne_true
  pending pending h := absurd (hpending.symm.trans h) (Option.some_ne_none pending).symm
  own := h.own

theorem start (h : Inv y) (opening : Opening) (asserted : Bool) :
    Inv (y.start opening asserted) := by
  unfold Shell.start
  split_ifs
  · refine (h.cancelExcept _).setRun _ fun run hrun hprobing => ?_
    obtain rfl := Option.some.inj hrun
    exact absurd (opening.isProbing_machine.symm.trans hprobing) Bool.false_ne_true
  · refine h.setRun _ fun run hrun hprobing => ?_
    obtain rfl := Option.some.inj hrun
    exact absurd (opening.isProbing_machine.symm.trans hprobing) Bool.false_ne_true
  · exact h

theorem touch (h : Inv y) (s : Slot) (now : ℕ) (hquiet : y.due s = true → y.quiet = true) :
    Inv (y.touch s now) := by
  unfold Shell.due at hquiet
  unfold Shell.touch
  cases hrun : y.runs s with
  | none => exact h
  | some run =>
    rw [hrun] at hquiet
    dsimp only at hquiet ⊢
    split_ifs with hprobing
    · exact h
    · cases hbegin : ProbeWizard.begin run.machine with
      | none => exact h
      | some begun =>
        obtain ⟨sequence, machine⟩ := begun
        have hidle : ProbeWizard.isProbing run.machine = false := Bool.eq_false_iff.2 hprobing
        have hquiet' : y.quiet = true := hquiet (by rw [hidle, hbegin]; rfl)
        dsimp only
        refine ((h.cancelExcept (some s)).arm hquiet' (countP_begin hbegin) ?_ ?_).setRun s ?_
        · intro s' run' hrun'
          have hkept : (if some s = some s' then y.runs s' else none) = some run' := hrun'
          split_ifs at hkept with hs
          obtain rfl : s = s' := Option.some.inj hs
          obtain rfl : run = run' := Option.some.inj (hrun.symm.trans hkept)
          exact hidle
        · rfl
        · intro run' hrun' _
          obtain rfl := Option.some.inj hrun'
          rfl

theorem probeZ (h : Inv y) (depth feed plateThickness : ℚ) (now : ℕ) (hquiet : y.quiet = true) :
    Inv (y.probeZ depth feed plateThickness now) := by
  have harmed : Inv ({ y with pendingZeroZ := none, runs := fun _ => none } : Shell) :=
    { latch := h.latch
      run := fun _ run hrun => absurd hrun (Option.some_ne_none run).symm
      pending := fun pending hp => absurd hp (Option.some_ne_none pending).symm
      own := h.own }
  have hz : Inv (Shell.arm _ .zeroZ (zeroZLines depth feed)) := harmed.arm hquiet rfl
    (fun _ run hrun => absurd hrun (Option.some_ne_none run).symm) rfl
  exact
    { latch := hz.latch
      run := fun s run hrun => by
        have hnone : (if (none : Option Slot) = some s then y.runs s else none) = some run := hrun
        simp at hnone
      pending := fun pending hp => by
        obtain rfl := Option.some.inj hp
        rfl
      own := h.own }

theorem moveToYc (h : Inv y) : Inv y.moveToYc := by
  unfold Shell.moveToYc
  cases hrun : y.runs .wizard with
  | none => exact h
  | some run =>
    dsimp only
    split_ifs with hstep
    · cases run.machine.moveToYcLines with
      | none => exact h
      | some lines =>
        refine (h.setRun .wizard fun run' hrun' hprobing => ?_).send _
        obtain rfl := Option.some.inj hrun'
        have hmoved : run.machine.markMovedToYc.state.step = .movedToYc := by
          unfold RotaryCenterRun.markMovedToYc
          rw [if_pos hstep]
        have hidle : run.machine.markMovedToYc.state.isProbing = false := by
          unfold WizardState.isProbing
          rw [hmoved]
          rfl
        exact absurd (hidle.symm.trans hprobing) Bool.false_ne_true
    · exact h

theorem board (h : Inv y) (finish : Finish) : Inv (y.board finish) := by
  unfold Shell.board
  cases hqueue : y.toBoard with
  | nil => exact h
  | cons order rest =>
    dsimp only
    refine h.relink fun op hop => (h.latch op hop).mono fun n hn => ?_
    unfold Shell.wire at hn
    rw [hqueue, List.map_cons] at hn
    rw [List.map_append]
    exact hn.answered y.lastPush finish

theorem trouble (h : Inv y) (reason : List Char) :
    Inv { y with toHost := y.toHost ++ [.trouble reason] } := by
  refine h.relink fun op hop => (h.latch op hop).mono fun n hn => ?_
  rw [List.map_append, List.append_assoc]
  exact hn.insert reason

/-- **The host takes an answer.** -/
theorem host (h : Inv y) : Inv y.host := by
  unfold Shell.host
  cases hqueue : y.toHost with
  | nil => exact h
  | cons answer rest =>
    have hwire : y.wire
        = .answer answer :: (rest.map .answer ++ y.toBoard.map .order) := by
      unfold Shell.wire
      rw [hqueue, List.map_cons, List.cons_append]
    cases answer with
    | push reading contact =>
      refine h.relink fun op hop => ?_
      obtain ⟨op', hop', rfl⟩ := Option.map_eq_some_iff.1 hop
      have hsound := h.latch op' hop'
      rw [hwire] at hsound
      exact hsound.push
    | trouble reason =>
      refine h.relink fun op hop => ?_
      obtain ⟨op', hop', rfl⟩ := Option.map_eq_some_iff.1 hop
      exact (h.latch op' hop').fail reason

theorem keepRun (h : Inv y) (s : Slot) {run : Run (Machine s)} (htouch : run.touch = y.touches)
    (next : Run (Machine s)) (hnext : next.touch = run.touch) : Inv (y.setRun s (some next)) := by
  refine h.setRun s fun run' hrun' _ => ?_
  obtain rfl := Option.some.inj hrun'
  exact hnext.trans htouch

/-- A run that waits goes on waiting, or gives the touch up. -/
theorem awaitPush (h : Inv y) (s : Slot) {run : Run (Machine s)} (hrun : y.runs s = some run)
    (hprobing : ProbeWizard.isProbing run.machine = true) {op : ProbeOp}
    (hop : y.probeOp = some op) (now : ℕ) (busy : Bool) :
    Inv (y.awaitPush s run op now busy) := by
  have hkeep := h.keepRun s (h.run s run hrun hprobing)
  unfold Shell.awaitPush
  cases run.touchFallback with
  | none => exact h
  | some fallback =>
    dsimp only
    cases (fallback.observe busy).action now busy with
    | wait => exact hkeep { run with touchFallback := some (fallback.observe busy) } rfl
    | poll =>
      have hpolled := hkeep
        { run with touchFallback := some ((fallback.observe busy).poll now) } rfl
      exact hpolled.send _
    | giveUp reason =>
      have hgiven := hkeep ⟨ProbeWizard.abort run.machine reason, none, run.touch⟩ rfl
      refine hgiven.relink fun op' hop' => ?_
      obtain rfl := Option.some.inj hop'
      exact (h.latch op hop).fail reason

/-- **A wizard is told the outcome of its own touch.** -/
theorem pump (h : Inv y) (s : Slot) (now : ℕ) (busy : Bool) : Inv (y.pump s now busy) := by
  unfold Shell.pump
  cases hrun : y.runs s with
  | none => exact h
  | some run =>
    dsimp only
    split_ifs with hprobing
    swap
    · exact h
    have htouch : run.touch = y.touches := h.run s run hrun hprobing
    have hkeep := h.keepRun s htouch
    cases hop : y.probeOp with
    | none => exact hkeep _ rfl
    | some op =>
      dsimp only
      split_ifs with hkind
      swap
      · exact hkeep _ rfl
      cases hresolved : op.resolved with
      | none => exact h.awaitPush s hrun hprobing hop now busy
      | some outcome =>
        have hset := hkeep ⟨ProbeWizard.onProbeResult run.machine outcome.seen, none, run.touch⟩ rfl
        refine
          { latch := fun op' hop' => absurd hop' (Option.some_ne_none op').symm
            run := hset.run
            pending := hset.pending
            own := fun contact hcontact => ?_ }
        rcases List.mem_append.1 hcontact with hcontact | hcontact
        · exact h.own contact hcontact
        · cases outcome with
          | failure reason => exact absurd hcontact List.not_mem_nil
          | success reading =>
            obtain rfl := List.mem_singleton.1 hcontact
            unfold ProbeOp.resolved at hresolved
            split_ifs at hresolved with hawaiting
            obtain ⟨hown, hfinal⟩ :=
              (h.latch op hop).own (Bool.eq_false_iff.2 hawaiting) reading hresolved
            exact ⟨hown.trans htouch.symm, hfinal⟩

theorem setZeroZ (h : Inv y) {next : Option PendingZeroZ}
    (hnext : ∀ pending, next = some pending → pending.touch = y.touches) :
    Inv (y.setZeroZ next) where
  latch := h.latch
  run := h.run
  pending := hnext
  own := h.own

theorem endZeroZ (h : Inv y) : Inv (y.setZeroZ none) :=
  h.setZeroZ fun pending hp => absurd hp (Option.some_ne_none pending).symm

/-- The touch-off goes on waiting, or gives the touch up. -/
theorem awaitZeroZ (h : Inv y) {pending : PendingZeroZ} (htouch : pending.touch = y.touches)
    {op : ProbeOp} (hop : y.probeOp = some op) (now : ℕ) (busy : Bool) :
    Inv (y.awaitZeroZ pending op now busy) := by
  have hkeep (next : PendingZeroZ) (hnext : next.touch = pending.touch) :
      Inv (y.setZeroZ (some next)) := by
    refine h.setZeroZ fun pending' hp => ?_
    obtain rfl := Option.some.inj hp
    exact hnext.trans htouch
  unfold Shell.awaitZeroZ
  cases (pending.fallback.observe busy).action now busy with
  | wait => exact hkeep { pending with fallback := pending.fallback.observe busy } rfl
  | poll =>
    have hpolled := hkeep
      { pending with fallback := (pending.fallback.observe busy).poll now } rfl
    exact hpolled.send _
  | giveUp reason =>
    refine h.endZeroZ.relink fun op' hop' => ?_
    obtain rfl := Option.some.inj hop'
    exact (h.latch op hop).fail reason

/-- **The touch-off is told the outcome of its own touch.** -/
theorem pumpZ (h : Inv y) (now : ℕ) (busy : Bool) : Inv (y.pumpZ now busy) := by
  unfold Shell.pumpZ
  cases hpending : y.pendingZeroZ with
  | none => exact h
  | some pending =>
    have htouch : pending.touch = y.touches := h.pending pending hpending
    dsimp only
    cases hop : y.probeOp with
    | none => exact h.endZeroZ
    | some op =>
      dsimp only
      split_ifs with hkind
      swap
      · exact h.endZeroZ
      have hsound := h.latch op hop
      cases hlast : op.last with
      | none => exact h.awaitZeroZ htouch hop now busy
      | some outcome =>
        cases outcome with
        | failure reason => exact h.endZeroZ
        | success reading =>
          -- One contact is expected, so a latch that has one is resolved.
          have hresolved : op.awaiting = false := by
            refine Bool.eq_false_iff.2 fun hawaiting => ?_
            have hlt := hsound.once hawaiting (by rw [hlast]; exact Option.some_ne_none _)
            rw [hkind] at hlt
            exact (hsound.remaining hawaiting).1 (Nat.lt_one_iff.1 hlt)
          obtain ⟨hown, hfinal⟩ := hsound.own hresolved reading hlast
          have hsent := h.endZeroZ.send
            ((zeroZLine reading.position pending.plateThickness).toList.map fun _ => .other)
          refine
            { latch := hsent.latch
              run := hsent.run
              pending := hsent.pending
              own := fun contact hcontact => ?_ }
          rcases List.mem_append.1 hcontact with hcontact | hcontact
          · exact h.own contact hcontact
          · obtain rfl := List.mem_singleton.1 hcontact
            exact ⟨hown.trans htouch.symm, hfinal⟩

/-- **A plain turn keeps the invariant.** -/
theorem step (h : Inv y) {event : Event} (hplain : y.plain event = true) :
    Inv (y.step event) := by
  cases event with
  | start opening asserted => exact h.start opening asserted
  | touch s now =>
    refine h.touch s now fun hdue => ?_
    have hquiet : (!y.due s || y.quiet) = true := hplain
    rwa [hdue, Bool.not_true, Bool.false_or] at hquiet
  | cancel s => exact h.setRun s fun run hrun => absurd hrun (Option.some_ne_none run).symm
  | moveToYc => exact h.moveToYc
  | probeZ depth feed plateThickness now => exact h.probeZ depth feed plateThickness now hplain
  | line => exact h.send _
  | board finish => exact h.board finish
  | trouble reason => exact h.trouble reason
  | host => exact h.host
  | pump s now busy => exact h.pump s now busy
  | pumpZ now busy => exact h.pumpZ now busy

/-- **A session of plain turns keeps the invariant.** -/
theorem session (h : Inv y) {events : List Event} (hplain : y.plainSession events = true) :
    Inv (y.session events) := by
  induction events generalizing y with
  | nil => exact h
  | cons event rest ih =>
    obtain ⟨hfirst, hrest⟩ := Bool.and_eq_true_iff.1 hplain
    exact ih (h.step hfirst) hrest

end Inv

/-! ## What is recorded -/

/-- The wizards and the zeros are made of the contacts that are recorded. -/
structure Recorded (y : Shell) : Prop where
  made : ∀ s run, y.runs s = some run → ∃ l, l ⊆ y.received ∧ Made run.machine l
  zeroed : ∀ line ∈ y.zeroed, ∃ contact ∈ y.received, ∃ plateThickness,
    zeroZLine contact.2.position plateThickness = some line

theorem recorded_idle : Recorded idle where
  made _ run h := absurd h (Option.some_ne_none run).symm
  zeroed _ h := absurd h List.not_mem_nil

namespace Recorded

theorem setRun (h : Recorded y) (s : Slot) {next : Option (Run (Machine s))}
    (hnext : ∀ run, next = some run → ∃ l, l ⊆ y.received ∧ Made run.machine l) :
    Recorded (y.setRun s next) where
  zeroed := h.zeroed
  made s' run hrun := by
    have hrun' : Function.update y.runs s next s' = some run := hrun
    by_cases hs : s' = s
    · subst hs
      rw [Function.update_self] at hrun'
      exact hnext run hrun'
    · rw [Function.update_of_ne hs] at hrun'
      exact h.made s' run hrun'

theorem cancelExcept (h : Recorded y) (keep : Option Slot) : Recorded (y.cancelExcept keep) where
  zeroed := h.zeroed
  made s run hrun := by
    have hrun' : (if keep = some s then y.runs s else none) = some run := hrun
    split_ifs at hrun'
    exact h.made s run hrun'

/-- One run is replaced by one that is made of what was recorded. -/
theorem setMade (h : Recorded y) (s : Slot) (next : Run (Machine s)) {l : List (ℕ × Reading)}
    (hl : l ⊆ y.received) (hmade : Made next.machine l) : Recorded (y.setRun s (some next)) :=
  h.setRun s fun run hrun => by
    obtain rfl := Option.some.inj hrun
    exact ⟨l, hl, hmade⟩

/-- More contacts are recorded. -/
theorem record (h : Recorded y) (more : List (ℕ × Reading)) :
    Recorded { y with received := y.received ++ more } where
  made s run hrun :=
    (h.made s run hrun).imp fun _ hl => ⟨fun _ hc => List.mem_append_left _ (hl.1 hc), hl.2⟩
  zeroed line hline :=
    (h.zeroed line hline).imp fun _ hc => ⟨List.mem_append_left _ hc.1, hc.2⟩

/-- A run that was told an outcome is made of one contact more, or of as many. -/
theorem tell (h : Recorded y) {s : Slot} {run : Run (Machine s)} (hrun : y.runs s = some run)
    (outcome : Outcome) :
    ∃ l, l ⊆ y.received ++ Shell.told run.touch outcome
      ∧ Made (ProbeWizard.onProbeResult run.machine outcome.seen) l := by
  obtain ⟨l, hl, hmade⟩ := h.made s run hrun
  cases outcome with
  | success reading =>
    refine ⟨l ++ [(run.touch, reading)], fun contact hcontact => ?_, hmade.told run.touch reading⟩
    rcases List.mem_append.1 hcontact with hcontact | hcontact
    · exact List.mem_append_left _ (hl hcontact)
    · exact List.mem_append_right _ hcontact
  | failure reason =>
    exact ⟨l, fun _ hcontact => List.mem_append_left _ (hl hcontact), hmade.failed reason⟩

theorem awaitPush (h : Recorded y) (s : Slot) {run : Run (Machine s)}
    (hrun : y.runs s = some run) (op : ProbeOp) (now : ℕ) (busy : Bool) :
    Recorded (y.awaitPush s run op now busy) := by
  obtain ⟨l, hl, hmade⟩ := h.made s run hrun
  unfold Shell.awaitPush
  cases run.touchFallback with
  | none => exact h
  | some fallback =>
    dsimp only
    cases (fallback.observe busy).action now busy with
    | wait =>
      exact h.setMade s { run with touchFallback := some (fallback.observe busy) } hl hmade
    | poll =>
      have hpolled := h.setMade s
        { run with touchFallback := some ((fallback.observe busy).poll now) } hl hmade
      exact { hpolled with }
    | giveUp reason =>
      have hgiven := h.setMade s ⟨ProbeWizard.abort run.machine reason, none, run.touch⟩ hl
        (hmade.aborted reason)
      exact { hgiven with }

theorem pump (h : Recorded y) (s : Slot) (now : ℕ) (busy : Bool) :
    Recorded (y.pump s now busy) := by
  unfold Shell.pump
  cases hrun : y.runs s with
  | none => exact h
  | some run =>
    obtain ⟨l, hl, hmade⟩ := h.made s run hrun
    have hlost := h.setMade s
      { run with machine := ProbeWizard.abort run.machine "probe latch lost".toList } hl
      (hmade.aborted _)
    dsimp only
    split_ifs with hprobing
    swap
    · exact h
    cases y.probeOp with
    | none => exact hlost
    | some op =>
      dsimp only
      split_ifs with hkind
      swap
      · exact hlost
      cases op.resolved with
      | none => exact h.awaitPush s hrun op now busy
      | some outcome =>
        obtain ⟨l', hl', hmade'⟩ := h.tell hrun outcome
        have hset := (h.record (Shell.told run.touch outcome)).setMade s
          ⟨ProbeWizard.onProbeResult run.machine outcome.seen, none, run.touch⟩ hl' hmade'
        exact { hset with }

theorem pumpZ (h : Recorded y) (now : ℕ) (busy : Bool) : Recorded (y.pumpZ now busy) := by
  unfold Shell.pumpZ
  cases y.pendingZeroZ with
  | none => exact h
  | some pending =>
    dsimp only
    cases y.probeOp with
    | none => exact { h with }
    | some op =>
      dsimp only
      split_ifs with hkind
      swap
      · exact { h with }
      cases op.last with
      | none =>
        unfold Shell.awaitZeroZ
        dsimp only
        cases (pending.fallback.observe busy).action now busy <;> exact { h with }
      | some outcome =>
        cases outcome with
        | failure reason => exact { h with }
        | success reading =>
          have hmore := h.record [(pending.touch, reading)]
          refine { made := hmore.made, zeroed := fun line hline => ?_ }
          rcases List.mem_append.1 hline with hline | hline
          · exact hmore.zeroed line hline
          · exact ⟨(pending.touch, reading), List.mem_append_right _ List.mem_cons_self,
              pending.plateThickness, Option.mem_toList.1 hline⟩

/-- **Every turn records what it is told.** -/
theorem step (h : Recorded y) (event : Event) : Recorded (y.step event) := by
  cases event with
  | start opening asserted =>
    unfold Shell.step Shell.start
    dsimp only
    split_ifs
    · exact (h.cancelExcept _).setMade _ ⟨_, none, _⟩ (List.nil_subset _) (.opened opening)
    · exact h.setMade _ ⟨_, none, _⟩ (List.nil_subset _) (.opened opening)
    · exact h
  | touch s now =>
    unfold Shell.step Shell.touch
    dsimp only
    cases hrun : y.runs s with
    | none => exact h
    | some run =>
      obtain ⟨l, hl, hmade⟩ := h.made s run hrun
      dsimp only
      split_ifs with hprobing
      · exact h
      · cases hbegin : ProbeWizard.begin run.machine with
        | none => exact h
        | some begun =>
          have harmed : Recorded ((y.cancelExcept (some s)).arm
              (ProbeWizard.probeKind run.machine) begun.1.lines) :=
            { h.cancelExcept (some s) with }
          exact harmed.setMade s ⟨_, _, _⟩ hl (hmade.begun hbegin)
  | cancel s => exact h.setRun s fun run hrun => absurd hrun (Option.some_ne_none run).symm
  | moveToYc =>
    unfold Shell.step Shell.moveToYc
    dsimp only
    cases hrun : y.runs .wizard with
    | none => exact h
    | some run =>
      obtain ⟨l, hl, hmade⟩ := h.made .wizard run hrun
      dsimp only
      split_ifs with hstep
      · cases run.machine.moveToYcLines with
        | none => exact h
        | some lines =>
          have hmoved := h.setMade .wizard
            { run with machine := run.machine.markMovedToYc } hl hmade.moved
          exact { hmoved with }
      · exact h
  | probeZ depth feed plateThickness now => exact { h.cancelExcept none with }
  | line => exact { h with }
  | board finish =>
    unfold Shell.step Shell.board
    dsimp only
    cases y.toBoard with
    | nil => exact h
    | cons order rest => exact { h with }
  | trouble reason => exact { h with }
  | host =>
    unfold Shell.step Shell.host
    dsimp only
    cases y.toHost with
    | nil => exact h
    | cons answer rest => cases answer <;> exact { h with }
  | pump s now busy => exact h.pump s now busy
  | pumpZ now busy => exact h.pumpZ now busy

theorem session (h : Recorded y) (events : List Event) : Recorded (y.session events) := by
  induction events generalizing y with
  | nil => exact h
  | cons event rest ih => exact ih (h.step event)

end Recorded

/-! ## The law -/

/-- **Contacts are told for their own touch, in every session whose touches begin on a quiet
link.** -/
theorem attributed_session {events : List Event} (hplain : idle.plainSession events = true) :
    (idle.session events).Attributed where
  own := (inv_idle.session hplain).own
  made := (recorded_idle.session events).made
  zeroed := (recorded_idle.session events).zeroed

/-- The tuning of a touch in two stages. -/
def benchParams : ProbeParams where
  probeDistance := 10
  latchDistance := 2
  probeFeed := 200
  latchFeed := 50
  probeDistance_pos := by norm_num
  latchDistance_pos := by norm_num
  one_le_probeFeed := by norm_num
  one_le_latchFeed := by norm_num

/-- A finder of an edge is opened and begins its touch. -/
def edgeTouch : List Event :=
  [.start (.datum (.edge .x .pos) 2 benchParams) false, .touch .datum 0]

/-- The machine carries out the five lines of a touch, whose probes make contact there. -/
def carriedOut (fast slow : ℚ) : List Event :=
  [.board (.contact []), .board (.contact [fast, 0, 0, 0]), .board (.contact []),
    .board (.contact [slow, 0, 0, 0]), .board (.contact [])]

/-- A touch that is carried out and told. -/
def toldTouch : List Event :=
  edgeTouch ++ carriedOut 3 4 ++ [.host, .host, .pump .datum 1 true]

theorem toldTouch_attributed :
    (idle.session toldTouch).Attributed
      ∧ (idle.session toldTouch).received = [(1, ⟨[4, 0, 0, 0], 1, true⟩)] :=
  ⟨attributed_session (by decide +kernel), by decide +kernel⟩

/-- A touch that is cancelled and begun again before the machine has carried it out. -/
def restartedTouch : List Event :=
  edgeTouch ++ [.cancel .datum] ++ edgeTouch ++ carriedOut 3 4
    ++ [.host, .host, .pump .datum 1 true]

/-- **A touch that is begun again at once is told the contact of the one before.** -/
theorem not_attributed : ¬∀ events : List Event, (idle.session events).Attributed := by
  intro h
  have hown := (h restartedTouch).own (2, ⟨[4, 0, 0, 0], 1, true⟩) (by decide +kernel)
  exact absurd hown.1 (by decide)

end Shell

end Galdr.Host.Latch
