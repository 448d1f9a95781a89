import Galdr.Runs

/-!
# Undo and redo

A history holds the document, which is the objects and the setup, and two stacks of snapshots.
An edit pushes the document and drops what could be redone; undo and redo move the document
from one stack to the other. A gesture is one edit: its later steps change the document in
place, without a snapshot. They leave what can be redone where it is, and so a redo behind an
undo in the middle of a gesture takes back a change that no undo knows of: the law of undo and
redo holds in a run just when no such step changes the document (`linear_iff`).
-/

namespace Galdr.Project

/-- A document at a point in time. -/
structure Snapshot (C W : Type) where
  /-- The objects and groups. -/
  collection : C
  /-- The datum and the stock. -/
  setup : W

/-- A document with its snapshots. -/
structure History (C W : Type) where
  /-- The document. -/
  present : Snapshot C W
  /-- What undo goes back to, newest first. -/
  past : List (Snapshot C W)
  /-- What redo goes on to, newest first. -/
  future : List (Snapshot C W)
  /-- The greatest number of snapshots kept. -/
  limit : ℕ
  /-- One is always kept. -/
  limit_pos : 0 < limit

namespace History

variable {C W R : Type}

/-- The history of a document that is loaded. -/
def withDocument (collection : C) (setup : W) (limit : ℕ) : History C W where
  present := ⟨collection, setup⟩
  past := []
  future := []
  limit := max limit 1
  limit_pos := lt_of_lt_of_le Nat.one_pos (le_max_right _ _)

/-- Push the document and drop what could be redone. The oldest snapshot is dropped when there
are more than the limit. -/
def snapshot (h : History C W) : History C W :=
  let past := h.present :: h.past
  { h with
    past := if h.limit < past.length then past.dropLast else past
    future := [] }

/-- Change the objects behind a snapshot. -/
def edit (h : History C W) (mutate : C → R × C) : R × History C W :=
  let h := h.snapshot
  let (result, collection) := mutate h.present.collection
  (result, { h with present := { h.present with collection := collection } })

/-- There is a document to go back to. -/
def canUndo (h : History C W) : Bool := !h.past.isEmpty

/-- There is a document to go on to. -/
def canRedo (h : History C W) : Bool := !h.future.isEmpty

/-- Change the objects without a snapshot, unless there is none. A debug build would stop where
there is none. -/
def amend (h : History C W) (mutate : C → R × C) : R × History C W :=
  let h := if h.canUndo then h else h.snapshot
  let (result, collection) := mutate h.present.collection
  (result, { h with present := { h.present with collection := collection } })

/-- Change the objects and the setup, without a snapshot where the change goes on with a
gesture. -/
def commitSetup (h : History C W) (coalesce : Bool) (mutate : C → W → R × C × W) :
    R × History C W :=
  let h := if coalesce && h.canUndo then h else h.snapshot
  let (result, collection, setup) := mutate h.present.collection h.present.setup
  (result, { h with present := ⟨collection, setup⟩ })

/-- Go back. -/
def undo (h : History C W) : Bool × History C W :=
  match h.past with
  | [] => (false, h)
  | previous :: past =>
    (true, { h with present := previous, past := past, future := h.present :: h.future })

/-- Go on. -/
def redo (h : History C W) : Bool × History C W :=
  match h.future with
  | [] => (false, h)
  | next :: future =>
    (true, { h with present := next, past := h.present :: h.past, future := future })

/-! ## What the operations do to the stacks -/

theorem undo_eq {h : History C W} (hundo : h.canUndo = true) :
    ∃ previous past, h.past = previous :: past ∧ h.undo = (true,
      { h with present := previous, past := past, future := h.present :: h.future }) := by
  cases hpast : h.past with
  | nil =>
    unfold canUndo at hundo
    rw [hpast] at hundo
    cases hundo
  | cons previous past =>
    refine ⟨previous, past, rfl, ?_⟩
    unfold undo
    rw [hpast]

theorem redo_eq {h : History C W} (hredo : h.canRedo = true) :
    ∃ next future, h.future = next :: future ∧ h.redo = (true,
      { h with present := next, past := h.present :: h.past, future := future }) := by
  cases hfuture : h.future with
  | nil =>
    unfold canRedo at hredo
    rw [hfuture] at hredo
    cases hredo
  | cons next future =>
    refine ⟨next, future, rfl, ?_⟩
    unfold redo
    rw [hfuture]

theorem undo_of_not_canUndo {h : History C W} (hundo : h.canUndo = false) :
    h.undo = (false, h) := by
  cases hpast : h.past with
  | nil =>
    unfold undo
    rw [hpast]
  | cons previous past =>
    unfold canUndo at hundo
    rw [hpast] at hundo
    cases hundo

theorem redo_of_not_canRedo {h : History C W} (hredo : h.canRedo = false) :
    h.redo = (false, h) := by
  cases hfuture : h.future with
  | nil =>
    unfold redo
    rw [hfuture]
  | cons next future =>
    unfold canRedo at hredo
    rw [hfuture] at hredo
    cases hredo

/-- **Undo is undone by redo.** -/
theorem redo_undo {h : History C W} (hundo : h.canUndo = true) : h.undo.2.redo = (true, h) := by
  obtain ⟨previous, past, hpast, heq⟩ := undo_eq hundo
  rw [heq]
  unfold redo
  dsimp only
  rw [← hpast]

/-- **Redo is undone by undo.** -/
theorem undo_redo {h : History C W} (hredo : h.canRedo = true) : h.redo.2.undo = (true, h) := by
  obtain ⟨next, future, hfuture, heq⟩ := redo_eq hredo
  rw [heq]
  unfold undo
  dsimp only
  rw [← hfuture]

/-- The document is on top of the past behind a snapshot. -/
theorem past_snapshot (h : History C W) : ∃ past, h.snapshot.past = h.present :: past := by
  unfold snapshot
  dsimp only
  split
  · rename_i hlong
    cases hpast : h.past with
    | nil =>
      have hpos := h.limit_pos
      rw [hpast, List.length_singleton] at hlong
      omega
    | cons previous past => exact ⟨(previous :: past).dropLast, rfl⟩
  · exact ⟨h.past, rfl⟩

theorem length_past_snapshot {h : History C W} (hlimit : h.past.length ≤ h.limit) :
    h.snapshot.past.length ≤ h.limit := by
  unfold snapshot
  dsimp only
  split
  · rw [List.length_dropLast, List.length_cons]
    exact hlimit
  · rename_i hshort
    exact not_lt.1 hshort

theorem canUndo_snapshot (h : History C W) : h.snapshot.canUndo = true := by
  obtain ⟨past, hpast⟩ := h.past_snapshot
  unfold canUndo
  rw [hpast]
  rfl

/-- Going back behind a snapshot and a change is going back to the document. -/
theorem undo_snapshot (h : History C W) (changed : Snapshot C W) :
    ({ h.snapshot with present := changed }.undo).2.present = h.present := by
  obtain ⟨past, hpast⟩ := h.past_snapshot
  unfold undo
  dsimp only
  rw [hpast]

/-! ## What holds of every document -/

/-- A property of the document, and of all that it can go back or on to. -/
structure All (P : Snapshot C W → Prop) (h : History C W) : Prop where
  present : P h.present
  past : ∀ p ∈ h.past, P p
  future : ∀ p ∈ h.future, P p

namespace All

variable {P : Snapshot C W → Prop} {h : History C W}

theorem snapshot (hP : h.All P) {changed : Snapshot C W} (hchanged : P changed) :
    All P { h.snapshot with present := changed } := by
  refine ⟨hchanged, fun p hp => ?_, fun p hp => absurd hp List.not_mem_nil⟩
  have hall : ∀ p ∈ h.present :: h.past, P p :=
    List.forall_mem_cons.2 ⟨hP.present, hP.past⟩
  unfold History.snapshot at hp
  dsimp only at hp
  split at hp
  · exact hall p (List.dropLast_subset _ hp)
  · exact hall p hp

theorem replace (hP : h.All P) {changed : Snapshot C W} (hchanged : P changed) :
    All P { h with present := changed } := ⟨hchanged, hP.past, hP.future⟩

theorem edit (hP : h.All P) {mutate : C → R × C}
    (hchanged : P { h.present with collection := (mutate h.present.collection).2 }) :
    (h.edit mutate).2.All P := hP.snapshot hchanged

theorem amend (hP : h.All P) {mutate : C → R × C}
    (hchanged : P { h.present with collection := (mutate h.present.collection).2 }) :
    (h.amend mutate).2.All P := by
  unfold History.amend
  dsimp only
  split
  · exact hP.replace hchanged
  · exact hP.snapshot hchanged

theorem commitSetup (hP : h.All P) {coalesce : Bool} {mutate : C → W → R × C × W}
    (hchanged : P ⟨(mutate h.present.collection h.present.setup).2.1,
      (mutate h.present.collection h.present.setup).2.2⟩) :
    (h.commitSetup coalesce mutate).2.All P := by
  unfold History.commitSetup
  dsimp only
  split
  · exact hP.replace hchanged
  · exact hP.snapshot hchanged

theorem undo (hP : h.All P) : h.undo.2.All P := by
  cases hundo : h.canUndo with
  | false => rwa [undo_of_not_canUndo hundo]
  | true =>
    obtain ⟨previous, past, hpast, heq⟩ := undo_eq hundo
    have hall := hP.past
    rw [hpast] at hall
    rw [heq]
    exact ⟨hall previous List.mem_cons_self, fun p hp => hall p (List.mem_cons_of_mem _ hp),
      List.forall_mem_cons.2 ⟨hP.present, hP.future⟩⟩

theorem redo (hP : h.All P) : h.redo.2.All P := by
  cases hredo : h.canRedo with
  | false => rwa [redo_of_not_canRedo hredo]
  | true =>
    obtain ⟨next, future, hfuture, heq⟩ := redo_eq hredo
    have hall := hP.future
    rw [hfuture] at hall
    rw [heq]
    exact ⟨hall next List.mem_cons_self, List.forall_mem_cons.2 ⟨hP.present, hP.past⟩,
      fun p hp => hall p (List.mem_cons_of_mem _ hp)⟩

end All

end History

/-! ## Runs -/

section Runs

variable {C W : Type}

/-- What is done to a history. -/
inductive HistoryOp (C W : Type)
  /-- An edit. -/
  | edit (mutate : C → C)
  /-- A change that goes on with a gesture. -/
  | amend (mutate : C → C)
  /-- A change to the setup, which may go on with a gesture. -/
  | commitSetup (coalesce : Bool) (mutate : C → W → C × W)
  /-- Back. -/
  | undo
  /-- On. -/
  | redo

namespace History

/-- One operation. -/
def step (h : History C W) : HistoryOp C W → History C W
  | .edit mutate => (h.edit fun c => ((), mutate c)).2
  | .amend mutate => (h.amend fun c => ((), mutate c)).2
  | .commitSetup coalesce mutate => (h.commitSetup coalesce fun c w => ((), mutate c w)).2
  | .undo => h.undo.2
  | .redo => h.redo.2

/-- The document behind a change that an operation makes without a snapshot; there is none if
it takes one. -/
def coalesced (h : History C W) : HistoryOp C W → Option (Snapshot C W)
  | .amend mutate =>
    if h.canUndo then some { h.present with collection := mutate h.present.collection } else none
  | .commitSetup coalesce mutate =>
    if coalesce && h.canUndo then
      some ⟨(mutate h.present.collection h.present.setup).1,
        (mutate h.present.collection h.present.setup).2⟩
    else none
  | _ => none

/-- A change without a snapshot. -/
theorem step_coalesced {h : History C W} {op : HistoryOp C W} {changed : Snapshot C W}
    (hop : h.coalesced op = some changed) :
    h.canUndo = true ∧ h.step op = { h with present := changed } := by
  cases op with
  | amend mutate =>
    unfold coalesced at hop
    dsimp only at hop
    split at hop
    · rename_i hundo
      obtain rfl := Option.some.inj hop
      refine ⟨hundo, ?_⟩
      unfold step amend
      dsimp only
      rw [if_pos hundo]
    · cases hop
  | commitSetup coalesce mutate =>
    unfold coalesced at hop
    dsimp only at hop
    split at hop
    · rename_i hboth
      obtain rfl := Option.some.inj hop
      refine ⟨(Bool.and_eq_true_iff.1 hboth).2, ?_⟩
      unfold step commitSetup
      dsimp only
      rw [if_pos hboth]
    · cases hop
  | _ => cases hop

/-- Any other operation takes a snapshot, or goes back or on. -/
theorem step_discrete {h : History C W} {op : HistoryOp C W} (hop : h.coalesced op = none) :
    (∃ changed, h.step op = { h.snapshot with present := changed })
      ∨ op = .undo ∨ op = .redo := by
  cases op with
  | edit mutate => exact .inl ⟨_, rfl⟩
  | amend mutate =>
    unfold coalesced at hop
    dsimp only at hop
    split at hop
    · cases hop
    · rename_i hundo
      unfold step amend
      dsimp only
      rw [if_neg hundo]
      exact .inl ⟨_, rfl⟩
  | commitSetup coalesce mutate =>
    unfold coalesced at hop
    dsimp only at hop
    split at hop
    · cases hop
    · rename_i hboth
      unfold step commitSetup
      dsimp only
      rw [if_neg hboth]
      exact .inl ⟨_, rfl⟩
  | undo => exact .inr (.inl rfl)
  | redo => exact .inr (.inr rfl)

end History

/-- A history, and the document that the last undo or redo produced. -/
structure Trace (C W : Type) where
  /-- The history. -/
  history : History C W
  /-- The document. -/
  produced : Option (Snapshot C W)

namespace Trace

/-- The document that an operation produces, if it goes back or on. -/
def produces (h : History C W) : HistoryOp C W → Option (Snapshot C W)
  | .undo => if h.canUndo then some h.undo.2.present else none
  | .redo => if h.canRedo then some h.redo.2.present else none
  | _ => none

/-- One operation. -/
def step (t : Trace C W) (op : HistoryOp C W) : Trace C W where
  history := t.history.step op
  produced := (produces t.history op).or t.produced

/-- The start of a run. -/
def start (collection : C) (setup : W) (limit : ℕ) : Trace C W :=
  ⟨.withDocument collection setup limit, none⟩

/-- **A gesture does not go on behind an undo**: while there is something to redo, a change
without a snapshot leaves the document as it is. -/
def Keeps (t : Trace C W) (op : HistoryOp C W) : Prop :=
  ∀ changed, t.history.coalesced op = some changed → t.history.canRedo = true →
    changed = t.history.present

/-- A change can be undone: undo goes back to the document before it, or, if it is part of a
gesture, to the one before the gesture. -/
structure Undoable (h : History C W) (op : HistoryOp C W) : Prop where
  can : op ≠ .undo → op ≠ .redo → (h.step op).canUndo = true
  discrete : op ≠ .undo → op ≠ .redo → h.coalesced op = none →
    (h.step op).undo.2.present = h.present
  gesture : h.coalesced op ≠ none → (h.step op).undo.2.present = h.undo.2.present

/-- **The law of undo and redo.** -/
structure Linear (t : Trace C W) : Prop where
  /-- No more snapshots are kept than the limit. -/
  bounded : t.history.past.length ≤ t.history.limit
  /-- Redo undoes undo. -/
  redoUndo : t.history.canUndo = true → t.history.undo.2.redo = (true, t.history)
  /-- Undo undoes redo. -/
  undoRedo : t.history.canRedo = true → t.history.redo.2.undo = (true, t.history)
  /-- What can be redone goes on from the document that the last undo or redo produced. -/
  redoes : t.history.canRedo = true → t.produced = some t.history.present
  /-- The next change can be undone. -/
  undoable : ∀ op, Undoable t.history op

theorem undoable (h : History C W) (op : HistoryOp C W) : Undoable h op := by
  cases hop : h.coalesced op with
  | none =>
    rcases History.step_discrete hop with ⟨changed, hstep⟩ | rfl | rfl
    · refine ⟨fun _ _ => ?_, fun _ _ _ => ?_, fun hne => absurd hop hne⟩
      · rw [hstep]
        exact h.canUndo_snapshot
      · rw [hstep]
        exact h.undo_snapshot changed
    · exact ⟨fun hne => absurd rfl hne, fun hne => absurd rfl hne, fun hne => absurd hop hne⟩
    · exact ⟨fun _ hne => absurd rfl hne, fun _ hne => absurd rfl hne, fun hne => absurd hop hne⟩
  | some changed =>
    obtain ⟨hundo, hstep⟩ := History.step_coalesced hop
    have hgesture : (h.step op).undo.2.present = h.undo.2.present := by
      obtain ⟨previous, past, hpast, heq⟩ := History.undo_eq hundo
      rw [heq, hstep]
      unfold History.undo
      dsimp only
      rw [hpast]
    refine ⟨fun _ _ => ?_, fun _ _ hnone => ?_, fun _ => hgesture⟩
    · rw [hstep]
      exact hundo
    · cases hop.symm.trans hnone

/-- The two stacks hold no more than the limit, together. -/
def Bounded (h : History C W) : Prop := h.past.length + h.future.length ≤ h.limit

theorem bounded_step {h : History C W} (hb : Bounded h) (op : HistoryOp C W) :
    Bounded (h.step op) := by
  unfold Bounded at hb
  cases hop : h.coalesced op with
  | some changed =>
    rw [(History.step_coalesced hop).2]
    exact hb
  | none =>
    rcases History.step_discrete hop with ⟨changed, hstep⟩ | rfl | rfl
    · rw [hstep]
      have hpast := @History.length_past_snapshot C W h (by omega)
      exact hpast
    · cases hundo : h.canUndo with
      | false =>
        show Bounded h.undo.2
        rw [History.undo_of_not_canUndo hundo]
        exact hb
      | true =>
        obtain ⟨previous, past, hpast, heq⟩ := History.undo_eq hundo
        show Bounded h.undo.2
        rw [heq]
        unfold Bounded
        rw [hpast, List.length_cons] at hb
        dsimp only
        rw [List.length_cons]
        omega
    · cases hredo : h.canRedo with
      | false =>
        show Bounded h.redo.2
        rw [History.redo_of_not_canRedo hredo]
        exact hb
      | true =>
        obtain ⟨next, future, hfuture, heq⟩ := History.redo_eq hredo
        show Bounded h.redo.2
        rw [heq]
        unfold Bounded
        rw [hfuture, List.length_cons] at hb
        dsimp only
        rw [List.length_cons]
        omega

/-- What can be redone goes on from what the last undo or redo produced. -/
def Redoes (t : Trace C W) : Prop :=
  t.history.canRedo = true → t.produced = some t.history.present

theorem linear_of {t : Trace C W} (hb : Bounded t.history) (hr : Redoes t) : Linear t :=
  ⟨(Nat.le_add_right _ _).trans hb, History.redo_undo, History.undo_redo, hr, undoable t.history⟩

/-- **A step keeps the law just when it leaves the document that can be redone from.** -/
theorem redoes_step {t : Trace C W} (hr : Redoes t) (op : HistoryOp C W) :
    Redoes (t.step op) ↔ t.Keeps op := by
  cases hop : t.history.coalesced op with
  | some changed =>
    obtain ⟨-, hstep⟩ := History.step_coalesced hop
    have hproduced : (t.step op).produced = t.produced := by
      cases op with
      | undo => cases hop
      | redo => cases hop
      | _ => rfl
    have hhistory : (t.step op).history = { t.history with present := changed } := hstep
    unfold Redoes Keeps
    rw [hproduced, hhistory, hop]
    constructor
    · intro hredoes changed' hchanged hredo
      obtain rfl := Option.some.inj hchanged
      exact (Option.some.inj ((hr hredo).symm.trans (hredoes hredo))).symm
    · intro hkeeps hredo
      rw [hr hredo]
      exact congrArg some (hkeeps changed rfl hredo).symm
  | none =>
    refine iff_of_true ?_ fun changed hchanged => ?_
    · rcases History.step_discrete hop with ⟨changed, hstep⟩ | rfl | rfl
      · intro hredo
        have hhistory : (t.step op).history = { t.history.snapshot with present := changed } := hstep
        rw [hhistory] at hredo
        cases hredo
      · cases hundo : t.history.canUndo with
        | false =>
          have hsame : t.step .undo = t := by
            unfold step produces History.step
            dsimp only
            rw [hundo, History.undo_of_not_canUndo hundo]
            rfl
          rw [hsame]
          exact hr
        | true =>
          intro _
          unfold step produces
          dsimp only
          rw [hundo]
          rfl
      · cases hredo : t.history.canRedo with
        | false =>
          have hsame : t.step .redo = t := by
            unfold step produces History.step
            dsimp only
            rw [hredo, History.redo_of_not_canRedo hredo]
            rfl
          rw [hsame]
          exact hr
        | true =>
          intro _
          unfold step produces
          dsimp only
          rw [hredo]
          rfl
    · cases hop.symm.trans hchanged

/-- **What can be undone and redone never exceeds the limit together**, whatever is done. -/
theorem bounded_run (collection : C) (setup : W) (limit : ℕ) (ops : List (HistoryOp C W)) :
    Bounded (ops.foldl History.step (.withDocument collection setup limit)) := by
  induction ops using List.reverseRecOn with
  | nil => exact Nat.zero_le _
  | append_singleton ops op ih =>
    rw [List.foldl_append]
    exact bounded_step ih op

/-- **The law holds all through a run just when no gesture goes on behind an undo.** -/
theorem linear_run_iff {t : Trace C W} (hb : Bounded t.history) (hr : Redoes t)
    (ops : List (HistoryOp C W)) :
    (∀ n ≤ ops.length, Linear ((ops.take n).foldl step t)) ↔ Runs.Allowed step Keeps t ops := by
  induction ops generalizing t with
  | nil =>
    refine iff_of_true (fun n hn => ?_) trivial
    rw [List.take_nil]
    exact linear_of hb hr
  | cons op ops ih =>
    constructor
    · intro h
      have hfirst : Linear (t.step op) := h 1 (by simp)
      have hr' : Redoes (t.step op) := hfirst.redoes
      refine ⟨(redoes_step hr op).1 hr', (ih (bounded_step hb op) hr').1 fun n hn => ?_⟩
      exact h (n + 1) (by simpa using hn)
    · rintro ⟨hop, hops⟩ n hn
      have hr' := (redoes_step hr op).2 hop
      cases n with
      | zero => exact linear_of hb hr
      | succ n =>
        exact (ih (bounded_step hb op) hr').2 hops n (by simpa using hn)

end Trace

end Runs

end Galdr.Project
