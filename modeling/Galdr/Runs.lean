import Mathlib

/-!
# Runs of operations

A run folds a list of operations over a state. A *guard* says which operations
are allowed in which states, and a run is allowed when every operation is, in
the state it meets. An invariant that allowed operations keep holds in every
state an allowed run reaches.
-/

namespace Runs

variable {S Op : Type}

/-- Every operation of the list is allowed in the state it meets. -/
def Allowed (step : S → Op → S) (guard : S → Op → Prop) : S → List Op → Prop
  | _, [] => True
  | s, op :: ops => guard s op ∧ Allowed step guard (step s op) ops

variable {step : S → Op → S} {guard : S → Op → Prop}

/-- A guard that can be decided makes a run one that can be. -/
instance Allowed.decidable [∀ s op, Decidable (guard s op)] :
    (s : S) → (ops : List Op) → Decidable (Allowed step guard s ops)
  | _, [] => inferInstanceAs (Decidable True)
  | s, op :: ops =>
    have := Allowed.decidable (step s op) ops
    inferInstanceAs (Decidable (guard s op ∧ Allowed step guard (step s op) ops))

/-- What allowed operations keep, allowed runs keep. -/
theorem Allowed.invariant {Inv : S → Prop}
    (hstep : ∀ s op, Inv s → guard s op → Inv (step s op)) {s : S} {ops : List Op}
    (hallowed : Allowed step guard s ops) (hs : Inv s) : Inv (ops.foldl step s) := by
  induction ops generalizing s with
  | nil => exact hs
  | cons op ops ih =>
    obtain ⟨hop, hrest⟩ := hallowed
    exact ih hrest (hstep s op hs hop)

theorem allowed_append (s : S) (ops ops' : List Op) :
    Allowed step guard s (ops ++ ops')
      ↔ Allowed step guard s ops ∧ Allowed step guard (ops.foldl step s) ops' := by
  induction ops generalizing s with
  | nil => simp [Allowed]
  | cons op ops ih => simp [Allowed, ih, and_assoc]

/-- A run two guards allow is allowed by both at once. -/
theorem Allowed.and {guard' : S → Op → Prop} {s : S} {ops : List Op}
    (h : Allowed step guard s ops) (h' : Allowed step guard' s ops) :
    Allowed step (fun s op => guard s op ∧ guard' s op) s ops := by
  induction ops generalizing s with
  | nil => trivial
  | cons op ops ih => exact ⟨⟨h.1, h'.1⟩, ih h.2 h'.2⟩

/-- A prefix of an allowed run is allowed, so that the invariant holds in every
state on the way. -/
theorem Allowed.take {s : S} {ops : List Op} (h : Allowed step guard s ops) (n : ℕ) :
    Allowed step guard s (ops.take n) := by
  rw [← List.take_append_drop n ops, allowed_append] at h
  exact h.1

/-- Where the allowed operations are exactly those that keep the invariant, the allowed runs are
exactly those in which it always holds. -/
theorem allowed_iff_forall_take {Inv : S → Prop}
    (hstep : ∀ s op, Inv s → (Inv (step s op) ↔ guard s op)) {s : S} (hs : Inv s)
    (ops : List Op) :
    Allowed step guard s ops ↔ ∀ n, Inv ((ops.take n).foldl step s) := by
  constructor
  · intro hallowed n
    exact (hallowed.take n).invariant (fun s op hs hop => (hstep s op hs).mpr hop) hs
  · intro hall
    induction ops generalizing s with
    | nil => trivial
    | cons op ops ih =>
      have hnext : Inv (step s op) := hall 1
      exact ⟨(hstep s op hs).mp hnext, ih hnext fun n => hall (n + 1)⟩

end Runs
