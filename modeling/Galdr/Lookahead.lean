import Mathlib

/-!
# Look-ahead over a path of segments

A path is a list of segments, oldest first. A segment has a *cap*, the
greatest squared speed it may be entered at, and a *gain*, the greatest change
of squared speed over its length. Assigning entries to the segments is
*feasible* when every entry is between rest and its cap, no segment changes
speed by more than its gain, and the path ends at rest (`Feasible`).

Two sweeps find the entries. The reverse sweep lowers each entry to what can
still be shed before the next one; the forward sweep lowers it to what can be
gained since the previous one. The first segment may be *committed*: its entry
has been promised and neither sweep may touch it. The result is feasible
exactly when the promise can be kept (`solve_feasible`), and promises made
from a feasible path can always be kept, also after the path has grown at its
end (`Feasible.solvable_tail`, `Solvable.append`).
-/

namespace Lookahead

variable {K : Type} [AddCommGroup K] [LinearOrder K] [IsOrderedAddMonoid K]

/-- A segment of a path, in squared speeds. -/
structure Segment (K : Type) where
  /-- The greatest entry the segment admits. -/
  cap : K
  /-- The greatest change of squared speed over the segment. -/
  gain : K
  /-- The planned entry. -/
  entry : K

/-- What of a segment the sweeps never change. -/
def Segment.shape (s : Segment K) : K × K := (s.cap, s.gain)

/-- The entry of a path: that of its first segment, or rest when the path is
empty. -/
def entryOf : List (Segment K) → K
  | [] => 0
  | s :: _ => s.entry

/-- The greatest entry from which a path can still end at rest. -/
def reach : List (Segment K) → K
  | [] => 0
  | s :: rest => min s.cap (reach rest + s.gain)

/-- The part of the reverse sweep behind the committed segment: every entry
becomes the lesser of its cap and what can be shed before the next entry. -/
def lower : List (Segment K) → List (Segment K)
  | [] => []
  | s :: rest =>
    { s with entry := min s.cap (entryOf (lower rest) + s.gain) } :: lower rest

/-- The reverse sweep, which leaves a committed first segment as it is. -/
def reverseSweep (committed : Bool) : List (Segment K) → List (Segment K)
  | [] => []
  | s :: rest => if committed then s :: lower rest else lower (s :: rest)

/-- The forward sweep under a bound on the first entry. -/
def limitFrom : K → List (Segment K) → List (Segment K)
  | _, [] => []
  | bound, s :: rest =>
    { s with entry := min s.entry bound }
      :: limitFrom (min s.entry bound + s.gain) rest

/-- The forward sweep: the first entry stands, and every other one is lowered
to what the segment before it can gain. -/
def forwardSweep : List (Segment K) → List (Segment K)
  | [] => []
  | s :: rest => s :: limitFrom (s.entry + s.gain) rest

/-- Both sweeps, reverse then forward. -/
def solve (committed : Bool) (q : List (Segment K)) : List (Segment K) :=
  forwardSweep (reverseSweep committed q)

/-- Every entry is between rest and its cap, every segment can make the change
of speed asked of it, and the last one ends at rest. -/
def Feasible : List (Segment K) → Prop
  | [] => True
  | s :: rest =>
    (0 ≤ s.entry ∧ s.entry ≤ s.cap) ∧ |entryOf rest - s.entry| ≤ s.gain
      ∧ Feasible rest

/-- Caps and gains are not negative: what a path of real moves provides. -/
def Admissible (q : List (Segment K)) : Prop :=
  ∀ s ∈ q, 0 ≤ s.cap ∧ 0 ≤ s.gain

/-- The path is admissible and a committed entry can be kept. -/
structure Solvable (committed : Bool) (q : List (Segment K)) : Prop where
  /-- Caps and gains are not negative. -/
  admissible : Admissible q
  /-- The path can end at rest from the entry it was promised. -/
  kept : committed = true → 0 ≤ entryOf q ∧ entryOf q ≤ reach q

/-! ## What a path can be entered at -/

omit [IsOrderedAddMonoid K] in
theorem Admissible.tail {s : Segment K} {q : List (Segment K)}
    (h : Admissible (s :: q)) : Admissible q :=
  fun t ht => h t (List.mem_cons_of_mem s ht)

theorem reach_nonneg {q : List (Segment K)} (h : Admissible q) : 0 ≤ reach q := by
  induction q with
  | nil => exact le_rfl
  | cons s rest ih =>
    obtain ⟨hcap, hgain⟩ := h s List.mem_cons_self
    exact le_min hcap (add_nonneg (ih h.tail) hgain)

/-- **A longer path can be entered faster.** Appending segments only adds room
to stop. -/
theorem reach_le_append {q r : List (Segment K)} (h : Admissible (q ++ r)) :
    reach q ≤ reach (q ++ r) := by
  induction q with
  | nil => exact reach_nonneg h
  | cons s rest ih =>
    have hrest : reach rest ≤ reach (rest ++ r) := ih h.tail
    exact min_le_min_left _ (add_le_add_left hrest s.gain)

omit [IsOrderedAddMonoid K] in
theorem admissible_of_shape {q r : List (Segment K)}
    (h : q.map Segment.shape = r.map Segment.shape) (hq : Admissible q) :
    Admissible r := by
  intro t ht
  have hmem : t.shape ∈ q.map Segment.shape := h ▸ List.mem_map_of_mem ht
  obtain ⟨s, hs, hst⟩ := List.mem_map.1 hmem
  obtain ⟨hcap, hgain⟩ := hq s hs
  simp only [Segment.shape, Prod.mk.injEq] at hst
  exact ⟨hst.1 ▸ hcap, hst.2 ▸ hgain⟩

/-! ## The sweeps change entries only -/

omit [IsOrderedAddMonoid K] in
theorem shape_lower (q : List (Segment K)) :
    (lower q).map Segment.shape = q.map Segment.shape := by
  induction q with
  | nil => rfl
  | cons s rest ih =>
    simp only [lower, List.map_cons, ih]
    rfl

omit [IsOrderedAddMonoid K] in
theorem shape_reverseSweep (committed : Bool) (q : List (Segment K)) :
    (reverseSweep committed q).map Segment.shape = q.map Segment.shape := by
  cases q with
  | nil => rfl
  | cons s rest =>
    cases committed with
    | false => exact shape_lower (s :: rest)
    | true => exact congrArg (s.shape :: ·) (shape_lower rest)

omit [IsOrderedAddMonoid K] in
theorem shape_limitFrom (bound : K) (q : List (Segment K)) :
    (limitFrom bound q).map Segment.shape = q.map Segment.shape := by
  induction q generalizing bound with
  | nil => rfl
  | cons s rest ih =>
    simp only [limitFrom, List.map_cons, ih]
    rfl

omit [IsOrderedAddMonoid K] in
theorem shape_solve (committed : Bool) (q : List (Segment K)) :
    (solve committed q).map Segment.shape = q.map Segment.shape := by
  rw [← shape_reverseSweep committed q]
  unfold solve
  cases reverseSweep committed q with
  | nil => rfl
  | cons s rest => exact congrArg (s.shape :: ·) (shape_limitFrom _ rest)

/-! ## The sweeps are feasible -/

omit [IsOrderedAddMonoid K] in
theorem entryOf_lower (q : List (Segment K)) : entryOf (lower q) = reach q := by
  induction q with
  | nil => rfl
  | cons s rest ih =>
    show min s.cap (entryOf (lower rest) + s.gain) = reach (s :: rest)
    rw [ih]
    rfl

omit [IsOrderedAddMonoid K] in
theorem entryOf_limitFrom_lower {bound : K} (hb : 0 ≤ bound)
    (q : List (Segment K)) :
    entryOf (limitFrom bound (lower q)) = min (reach q) bound := by
  cases q with
  | nil => exact (min_eq_left hb).symm
  | cons s rest =>
    rw [← entryOf_lower]
    rfl

/-- A change of speed between two entries is within a gain when neither exceeds
the other by more. -/
theorem abs_change_le {next here gain : K} (hup : next ≤ here + gain)
    (hdown : here ≤ next + gain) : |next - here| ≤ gain := by
  rw [abs_sub_le_iff]
  exact ⟨sub_le_iff_le_add'.2 hup, sub_le_iff_le_add'.2 hdown⟩

/-- A segment whose entry can shed into `next` keeps its change within the gain
when the next entry is `next` cut to what the segment can gain. -/
theorem abs_cut_change_le {next here gain : K} (hgain : 0 ≤ gain)
    (hdown : here ≤ next + gain) : |min next (here + gain) - here| ≤ gain := by
  refine abs_change_le (min_le_right _ _) ?_
  rcases le_total next (here + gain) with h | h
  · rw [min_eq_left h]
    exact hdown
  · rw [min_eq_right h]
    exact (le_add_of_nonneg_right hgain).trans (le_add_of_nonneg_right hgain)

/-- A change within the gain leaves the earlier entry within reach of the
later one. -/
theorem le_add_of_abs_change {next here gain : K} (h : |next - here| ≤ gain) :
    here ≤ next + gain :=
  sub_le_iff_le_add'.1 (abs_sub_le_iff.1 h).2

/-- The forward sweep over a lowered path is feasible: lowering made every
entry reachable backwards, and the bound only ever lowers by what the segment
before can gain. -/
theorem feasible_limitFrom_lower {q : List (Segment K)} (h : Admissible q)
    {bound : K} (hb : 0 ≤ bound) : Feasible (limitFrom bound (lower q)) := by
  induction q generalizing bound with
  | nil => trivial
  | cons s rest ih =>
    obtain ⟨hcap, hgain⟩ := h s List.mem_cons_self
    have hreach := reach_nonneg h.tail
    have hentry : entryOf (lower rest) = reach rest := entryOf_lower rest
    -- `e` is the entry of `s` after both sweeps.
    set e := min (min s.cap (reach rest + s.gain)) bound with he
    have he0 : 0 ≤ e := le_min (le_min hcap (add_nonneg hreach hgain)) hb
    have hbound : 0 ≤ e + s.gain := add_nonneg he0 hgain
    have hnext := entryOf_limitFrom_lower hbound rest
    have hshed : e ≤ reach rest + s.gain :=
      (min_le_left _ _).trans (min_le_right _ _)
    simp only [lower, limitFrom, Feasible, hentry, ← he]
    refine ⟨⟨he0, (min_le_left _ _).trans (min_le_left _ _)⟩, ?_, ih h.tail hbound⟩
    rw [hnext]
    exact abs_cut_change_le hgain hshed

/-- **The two sweeps solve every solvable path.** -/
theorem solve_feasible {committed : Bool} {q : List (Segment K)}
    (h : Solvable committed q) : Feasible (solve committed q) := by
  cases q with
  | nil => trivial
  | cons s rest =>
    obtain ⟨hcap, hgain⟩ := h.admissible s List.mem_cons_self
    have hrest := h.admissible.tail
    have hreach := reach_nonneg hrest
    -- Whatever entry the first segment keeps, its successor is bounded by it.
    have key : ∀ e : K, 0 ≤ e → e ≤ s.cap → e ≤ reach rest + s.gain →
        Feasible ({ s with entry := e } :: limitFrom (e + s.gain) (lower rest)) := by
      intro e he0 hecap hshed
      have hbound : 0 ≤ e + s.gain := add_nonneg he0 hgain
      refine ⟨⟨he0, hecap⟩, ?_, feasible_limitFrom_lower hrest hbound⟩
      rw [entryOf_limitFrom_lower hbound]
      exact abs_cut_change_le hgain hshed
    cases committed with
    | true =>
      obtain ⟨he0, hereach⟩ := h.kept rfl
      exact key s.entry he0 (hereach.trans (min_le_left _ _))
        (hereach.trans (min_le_right _ _))
    | false =>
      have hsolve := key (min s.cap (reach rest + s.gain))
        (le_min hcap (add_nonneg hreach hgain)) (min_le_left _ _) (min_le_right _ _)
      simpa only [solve, reverseSweep, lower, forwardSweep, entryOf_lower,
        Bool.false_eq_true, if_false] using hsolve

/-! ## Feasible paths make promises that can be kept -/

omit [IsOrderedAddMonoid K] in
theorem Feasible.tail {s : Segment K} {q : List (Segment K)}
    (h : Feasible (s :: q)) : Feasible q := h.2.2

omit [IsOrderedAddMonoid K] in
theorem Feasible.entry_nonneg {q : List (Segment K)} (h : Feasible q) :
    0 ≤ entryOf q := by
  cases q with
  | nil => exact le_rfl
  | cons s rest => exact h.1.1

/-- **No feasible entry exceeds the reach**, so the reverse sweep finds the
greatest one. -/
theorem Feasible.entry_le_reach {q : List (Segment K)} (h : Feasible q) :
    entryOf q ≤ reach q := by
  induction q with
  | nil => exact le_rfl
  | cons s rest ih =>
    obtain ⟨⟨_, hcap⟩, hchange, hrest⟩ := h
    refine le_min hcap ?_
    calc s.entry ≤ entryOf rest + s.gain := le_add_of_abs_change hchange
      _ ≤ reach rest + s.gain := add_le_add_left (ih hrest) s.gain

/-- The entry of a feasible path may be promised. -/
theorem Feasible.solvable {q : List (Segment K)} (h : Feasible q)
    (ha : Admissible q) (committed : Bool) : Solvable committed q :=
  ⟨ha, fun _ => ⟨h.entry_nonneg, h.entry_le_reach⟩⟩

/-- A promise survives segments appended behind it, where an empty path that
was promised anything was promised rest. -/
theorem Solvable.append {committed : Bool} {q : List (Segment K)}
    (h : Solvable committed q) {s : Segment K} (hcap : 0 ≤ s.cap)
    (hgain : 0 ≤ s.gain) (hrest : committed = true → q = [] → s.entry = 0) :
    Solvable committed (q ++ [s]) := by
  have ha : Admissible (q ++ [s]) := by
    intro t ht
    rcases List.mem_append.1 ht with ht | ht
    · exact h.admissible t ht
    · rw [List.mem_singleton.1 ht]
      exact ⟨hcap, hgain⟩
  refine ⟨ha, fun hc => ?_⟩
  cases q with
  | nil =>
    have hs : s.entry = 0 := hrest hc rfl
    simp only [List.nil_append, entryOf, hs]
    exact ⟨le_rfl, reach_nonneg ha⟩
  | cons t rest =>
    obtain ⟨h0, hle⟩ := h.kept hc
    exact ⟨h0, hle.trans (reach_le_append ha)⟩

/-- The sweeps keep a path solvable. -/
theorem Solvable.solve {committed : Bool} {q : List (Segment K)}
    (h : Solvable committed q) (c : Bool) : Solvable c (solve committed q) :=
  (solve_feasible h).solvable
    (admissible_of_shape (shape_solve committed q).symm h.admissible) c

/-! ## The sweeps keep entries within their bounds -/

/-- Every entry is between rest and its cap. -/
def Bounded (q : List (Segment K)) : Prop := ∀ s ∈ q, 0 ≤ s.entry ∧ s.entry ≤ s.cap

theorem bounded_lower {q : List (Segment K)} (h : Admissible q) : Bounded (lower q) := by
  induction q with
  | nil => exact fun s hs => absurd hs List.not_mem_nil
  | cons t rest ih =>
    intro s hs
    obtain ⟨hcap, hgain⟩ := h t List.mem_cons_self
    rcases List.mem_cons.1 hs with rfl | hs
    · show 0 ≤ min t.cap (entryOf (lower rest) + t.gain) ∧ min t.cap _ ≤ t.cap
      rw [entryOf_lower]
      exact ⟨le_min hcap (add_nonneg (reach_nonneg h.tail) hgain), min_le_left _ _⟩
    · exact ih h.tail s hs

theorem Bounded.limitFrom {q : List (Segment K)} (hq : Bounded q) (h : Admissible q)
    {bound : K} (hb : 0 ≤ bound) : Bounded (limitFrom bound q) := by
  induction q generalizing bound with
  | nil => exact fun s hs => absurd hs List.not_mem_nil
  | cons t rest ih =>
    intro s hs
    obtain ⟨hcap, hgain⟩ := h t List.mem_cons_self
    obtain ⟨h0, hle⟩ := hq t List.mem_cons_self
    have hcut : 0 ≤ min t.entry bound := le_min h0 hb
    rcases List.mem_cons.1 hs with rfl | hs
    · exact ⟨hcut, (min_le_left _ _).trans hle⟩
    · exact ih (fun u hu => hq u (List.mem_cons_of_mem t hu)) h.tail
        (add_nonneg hcut hgain) s hs

/-- **The sweeps keep the bounds**, whether or not the path can be solved. -/
theorem Bounded.solve {q : List (Segment K)} (hq : Bounded q) (h : Admissible q)
    (committed : Bool) : Bounded (solve committed q) := by
  cases q with
  | nil => exact hq
  | cons t rest =>
    obtain ⟨_, hgain⟩ := h t List.mem_cons_self
    have hcons : ∀ u : Segment K, u.gain = t.gain → (0 ≤ u.entry ∧ u.entry ≤ u.cap) →
        Bounded (u :: Lookahead.limitFrom (u.entry + u.gain) (lower rest)) := by
      intro u hu hbound s hs
      rcases List.mem_cons.1 hs with rfl | hs
      · exact hbound
      · refine (bounded_lower h.tail).limitFrom
          (admissible_of_shape (shape_lower rest).symm h.tail) ?_ s hs
        rw [hu]
        exact add_nonneg hbound.1 hgain
    cases committed with
    | true => exact hcons t rfl (hq t List.mem_cons_self)
    | false =>
      exact hcons { t with entry := min t.cap (entryOf (lower rest) + t.gain) } rfl
        (bounded_lower h _ List.mem_cons_self)

/-! ## Feasibility of a list -/

/-- **Feasibility, read off the list.** Every entry is within its bounds, every
change of speed between neighbours is within the gain of the earlier one, and
the last segment can stop within its own length. -/
theorem feasible_iff (q : List (Segment K)) :
    Feasible q ↔ (∀ s ∈ q, 0 ≤ s.entry ∧ s.entry ≤ s.cap)
      ∧ q.IsChain (fun s t => |t.entry - s.entry| ≤ s.gain)
      ∧ (∀ s ∈ q.getLast?, s.entry ≤ s.gain) := by
  induction q with
  | nil => simp [Feasible]
  | cons s rest ih =>
    cases rest with
    | nil =>
      simp only [Feasible, entryOf, List.mem_singleton, forall_eq, zero_sub, abs_neg,
        List.isChain_singleton, List.getLast?_singleton, Option.mem_def,
        Option.some.injEq, forall_eq', true_and, and_true]
      refine and_congr_right fun h => ?_
      rw [abs_of_nonneg h.1]
    | cons t rest =>
      have hlast : (s :: t :: rest).getLast? = (t :: rest).getLast? := by
        simp [List.getLast?_cons_cons]
      simp only [Feasible, entryOf] at ih ⊢
      rw [List.forall_mem_cons, List.isChain_cons_cons, hlast, ih]
      tauto

end Lookahead
