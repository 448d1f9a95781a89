import Mathlib

/-!
# A queue of bounded capacity

A double-ended queue that never holds more than its capacity, as the list of
its elements, oldest first, with the bound carried as a field. Pushing onto a
full queue is refused, and a function that keeps the length may be applied to
the whole contents.
-/

namespace Galdr

/-- A double-ended queue of at most `capacity` elements. -/
structure Deque (T : Type) (capacity : ℕ) where
  /-- The elements, oldest first. -/
  toList : List T
  /-- They fit. -/
  length_le : toList.length ≤ capacity

namespace Deque

variable {T : Type} {capacity : ℕ}

@[ext] theorem ext {q r : Deque T capacity} (h : q.toList = r.toList) : q = r := by
  cases q
  cases r
  simpa using h

instance [DecidableEq T] : DecidableEq (Deque T capacity) := fun q r =>
  decidable_of_iff (q.toList = r.toList) ⟨ext, fun h => h ▸ rfl⟩

/-- The empty queue. -/
def new : Deque T capacity := ⟨[], Nat.zero_le _⟩

/-- The number of elements. -/
def len (q : Deque T capacity) : ℕ := q.toList.length

/-- The queue holds nothing. -/
def isEmpty (q : Deque T capacity) : Bool := q.toList.isEmpty

/-- The oldest element. -/
def front (q : Deque T capacity) : Option T := q.toList.head?

/-- The newest element. -/
def back (q : Deque T capacity) : Option T := q.toList.getLast?

/-- The queue with an element appended, or nothing when it is full. -/
def pushBack (q : Deque T capacity) (t : T) : Option (Deque T capacity) :=
  if h : q.toList.length < capacity then
    some ⟨q.toList ++ [t], by simpa using h⟩
  else none

/-- The oldest element and the rest. -/
def popFront (q : Deque T capacity) : Option (T × Deque T capacity) :=
  match q with
  | ⟨[], _⟩ => none
  | ⟨t :: rest, h⟩ => some (t, ⟨rest, (Nat.le_succ _).trans h⟩)

/-- The queue without the trailing elements that satisfy a predicate. -/
def dropBackWhile (q : Deque T capacity) (p : T → Bool) : Deque T capacity :=
  ⟨q.toList.rdropWhile p, (List.rdropWhile_prefix p _).length_le.trans q.length_le⟩

/-- The contents rewritten in place by a function that keeps their number. -/
def rewrite (q : Deque T capacity) (f : List T → List T)
    (hf : ∀ l, (f l).length = l.length) : Deque T capacity :=
  ⟨f q.toList, (hf q.toList).le.trans q.length_le⟩

theorem isEmpty_iff (q : Deque T capacity) : q.isEmpty = true ↔ q.toList = [] :=
  List.isEmpty_iff

/-- A push succeeds exactly where there is room, and appends. -/
theorem pushBack_eq_some_iff (q r : Deque T capacity) (t : T) :
    q.pushBack t = some r
      ↔ q.toList.length < capacity ∧ r.toList = q.toList ++ [t] := by
  unfold pushBack
  split
  · rename_i h
    simp only [Option.some.injEq, h, true_and]
    constructor
    · rintro rfl
      rfl
    · exact fun hr => ext hr.symm
  · rename_i h
    simp [h]

theorem pushBack_eq_none_iff (q : Deque T capacity) (t : T) :
    q.pushBack t = none ↔ capacity ≤ q.toList.length := by
  unfold pushBack
  split
  · rename_i h
    simp [h]
  · rename_i h
    simpa using h

/-- A pop takes the first element. -/
theorem popFront_eq_some_iff (q r : Deque T capacity) (t : T) :
    q.popFront = some (t, r) ↔ q.toList = t :: r.toList := by
  obtain ⟨l, hl⟩ := q
  cases l with
  | nil => simp [popFront]
  | cons s rest =>
    simp only [popFront, Option.some.injEq, Prod.mk.injEq, List.cons.injEq]
    exact and_congr_right fun _ => ⟨fun h => h ▸ rfl, fun h => ext h⟩

theorem popFront_eq_none_iff (q : Deque T capacity) :
    q.popFront = none ↔ q.toList = [] := by
  obtain ⟨l, hl⟩ := q
  cases l with
  | nil => simp [popFront]
  | cons s rest => simp [popFront]

end Deque

end Galdr
