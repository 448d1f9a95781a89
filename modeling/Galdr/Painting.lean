import Mathlib

/-!
# Painting in order

Coats are laid one over the other: a dark one covers, a clear one uncovers. A point is covered
at the end if the last coat that reaches it is dark (`mem_painted_iff`). Coats of one kind that
come together may be laid as one (`mem_paintOver_uniform`), and whether a point is covered at the
end depends on no other point (`mem_paintOver_congr`).

A chain of sets around a point has as many levels as it has sets: of the numbers of sets around
each of them, each below the number of all occurs once (`image_above_eq_range`). The innermost
of them is the one that no other of them is one level deeper than (`exists_innermost_iff`).
-/

namespace Galdr.Painting

variable {X : Type*}

/-- One coat over what was painted. -/
def coat (covered : Set X) (c : Bool × Set X) : Set X :=
  if c.1 then covered ∪ c.2 else covered \ c.2

/-- Coats over what was painted. -/
def paintOver (covered : Set X) (coats : List (Bool × Set X)) : Set X := coats.foldl coat covered

/-- What coats paint. -/
def painted (coats : List (Bool × Set X)) : Set X := paintOver ∅ coats

variable {covered : Set X} {c : Bool × Set X} {coats : List (Bool × Set X)} {x : X} {dark : Bool}

theorem mem_coat_of_mem (h : x ∈ c.2) : x ∈ coat covered c ↔ c.1 = true := by
  unfold coat
  split
  · simp_all
  · simp_all

theorem mem_coat_of_notMem (h : x ∉ c.2) : x ∈ coat covered c ↔ x ∈ covered := by
  unfold coat
  split <;> simp [h]

@[simp] theorem painted_nil : painted ([] : List (Bool × Set X)) = ∅ := rfl

@[simp] theorem painted_concat : painted (coats ++ [c]) = coat (painted coats) c :=
  List.foldl_append

/-- A list that ends with `c`, split at one of its elements: the last one, or one before. -/
theorem concat_eq_split {A : Type*} {l before after : List A} {a e : A}
    (h : l ++ [a] = before ++ e :: after) :
    (after = [] ∧ l = before ∧ a = e) ∨ ∃ rest, after = rest ++ [a] ∧ l = before ++ e :: rest := by
  rcases after.eq_nil_or_concat' with rfl | ⟨rest, d, rfl⟩
  · obtain ⟨rfl, hlast⟩ := List.append_inj' h rfl
    exact .inl ⟨rfl, rfl, List.head_eq_of_cons_eq hlast⟩
  · rw [← List.cons_append, ← List.append_assoc] at h
    obtain ⟨rfl, hlast⟩ := List.append_inj' h rfl
    exact .inr ⟨rest, by rw [List.head_eq_of_cons_eq hlast], rfl⟩

/-- **A point is covered if the last coat that reaches it is dark.** -/
theorem mem_painted_iff :
    x ∈ painted coats ↔ ∃ before s after,
      coats = before ++ (true, s) :: after ∧ x ∈ s ∧ ∀ d ∈ after, x ∉ d.2 := by
  induction coats using List.reverseRecOn with
  | nil => simp
  | append_singleton coats c ih =>
    rw [painted_concat]
    by_cases hc : x ∈ c.2
    · rw [mem_coat_of_mem hc]
      constructor
      · intro hdark
        exact ⟨coats, c.2, [], by rw [← hdark], hc, fun d hd => absurd hd List.not_mem_nil⟩
      · rintro ⟨before, s, after, hsplit, -, hafter⟩
        rcases concat_eq_split hsplit with ⟨-, -, rfl⟩ | ⟨rest, rfl, -⟩
        · rfl
        · exact absurd hc (hafter c (List.mem_append_right rest List.mem_cons_self))
    · rw [mem_coat_of_notMem hc, ih]
      constructor
      · rintro ⟨before, s, after, rfl, hs, hafter⟩
        refine ⟨before, s, after ++ [c], by simp, hs, fun d hd => ?_⟩
        rcases List.mem_append.mp hd with hd | hd
        · exact hafter d hd
        · rwa [List.mem_singleton.mp hd]
      · rintro ⟨before, s, after, hsplit, hs, hafter⟩
        rcases concat_eq_split hsplit with ⟨-, -, rfl⟩ | ⟨rest, rfl, rfl⟩
        · exact absurd hs hc
        · exact ⟨before, s, rest, rfl, hs, fun e he => hafter e (List.mem_append_left _ he)⟩

/-- **Coats of one kind** reach together what each of them reaches. -/
theorem mem_paintOver_uniform (sets : List (Set X)) :
    x ∈ paintOver covered (sets.map (dark, ·)) ↔ x ∈ coat covered (dark, ⋃ s ∈ sets, s) := by
  induction sets generalizing covered with
  | nil => cases dark <;> simp [paintOver, coat]
  | cons s sets ih =>
    have hrest : x ∈ paintOver covered ((s :: sets).map (dark, ·))
        ↔ x ∈ coat (coat covered (dark, s)) (dark, ⋃ s ∈ sets, s) := ih
    rw [hrest]
    cases dark <;> simp [coat, and_assoc, or_assoc]

theorem painted_append (more : List (Bool × Set X)) :
    painted (coats ++ more) = paintOver (painted coats) more := List.foldl_append

theorem mem_coat_congr {covered' : Set X} (h : x ∈ covered ↔ x ∈ covered') :
    x ∈ coat covered c ↔ x ∈ coat covered' c := by
  by_cases hc : x ∈ c.2
  · rw [mem_coat_of_mem hc, mem_coat_of_mem hc]
  · rw [mem_coat_of_notMem hc, mem_coat_of_notMem hc, h]

/-- Whether a point is covered at the end depends on no other point. -/
theorem mem_paintOver_congr {covered' : Set X} (coats : List (Bool × Set X))
    (h : x ∈ covered ↔ x ∈ covered') : x ∈ paintOver covered coats ↔ x ∈ paintOver covered' coats := by
  induction coats generalizing covered covered' with
  | nil => exact h
  | cons c coats ih => exact ih (mem_coat_congr h)

/-! ## Chains around a point -/

section Chain

variable {ι : Type*} {chain : Finset ι} {s : ι → Set X}
  [DecidableRel fun k m => s k ⊂ s m]

/-- The sets of a chain that are around one of its sets. -/
def above (s : ι → Set X) [DecidableRel fun k m => s k ⊂ s m] (chain : Finset ι) (k : ι) :
    Finset ι := chain.filter fun m => s k ⊂ s m

theorem card_above_lt (k : ι) (hk : k ∈ chain) : (above s chain k).card < chain.card := by
  refine Finset.card_lt_card ⟨Finset.filter_subset _ _, fun h => ?_⟩
  have hself := Finset.mem_filter.mp (h hk)
  exact hself.2.2 subset_rfl

theorem card_above_lt_of_ssubset {k m : ι} (hm : m ∈ chain) (h : s k ⊂ s m) :
    (above s chain m).card < (above s chain k).card := by
  refine Finset.card_lt_card ⟨fun j hj => ?_, fun hsub => ?_⟩
  · obtain ⟨hmem, hj⟩ := Finset.mem_filter.mp hj
    exact Finset.mem_filter.mpr ⟨hmem, h.trans hj⟩
  · have hself := Finset.mem_filter.mp (hsub (Finset.mem_filter.mpr ⟨hm, h⟩))
    exact hself.2.2 subset_rfl

variable (hchain : ∀ k ∈ chain, ∀ m ∈ chain, k ≠ m → s k ⊂ s m ∨ s m ⊂ s k)
include hchain

/-- **Each level of a chain has one set.** -/
theorem image_above_eq_range :
    chain.image (fun k => (above s chain k).card) = Finset.range chain.card := by
  have hinj : Set.InjOn (fun k => (above s chain k).card) chain := by
    intro k hk m hm heq
    by_contra hne
    rcases hchain k hk m hm hne with h | h
    · exact absurd heq (card_above_lt_of_ssubset hm h).ne'
    · exact absurd heq (card_above_lt_of_ssubset hk h).ne
  refine Finset.eq_of_subset_of_card_le (fun n hn => ?_) ?_
  · obtain ⟨k, hk, rfl⟩ := Finset.mem_image.mp hn
    exact Finset.mem_range.mpr (card_above_lt k hk)
  · rw [Finset.card_range, Finset.card_image_of_injOn hinj]

/-- **The innermost set** is at an even level if the chain is odd. -/
theorem exists_innermost_iff :
    (∃ k ∈ chain, (above s chain k).card % 2 = 0 ∧
        ∀ m ∈ chain, (above s chain m).card ≠ (above s chain k).card + 1)
      ↔ chain.card % 2 = 1 := by
  have hlevels (n : ℕ) : (∃ k ∈ chain, (above s chain k).card = n) ↔ n < chain.card := by
    rw [← Finset.mem_range, ← image_above_eq_range hchain, Finset.mem_image]
  constructor
  · rintro ⟨k, hk, heven, hlast⟩
    have hlt := card_above_lt (s := s) k hk
    have hnot : ¬(above s chain k).card + 1 < chain.card := fun h => by
      obtain ⟨m, hm, hcard⟩ := (hlevels _).mpr h
      exact hlast m hm hcard
    omega
  · intro hodd
    obtain ⟨k, hk, hcard⟩ := (hlevels (chain.card - 1)).mpr (by omega)
    refine ⟨k, hk, by omega, fun m hm heq => ?_⟩
    have hlt := card_above_lt (s := s) m hm
    omega

end Chain

end Galdr.Painting
