import Mathlib

/-!
# Cuts around a circle

Places around a circle are numbers up to whole turns. Two numbers are as far apart as the nearest
of their turns are (`circularDistance_lt_iff`), and an arc between two marks lies within an
interval around a centre or beside it, as long as the ends of the interval are marks
(`Unmarked.inside`).

A walk over marks around a circle, of which some pairs are gaps, leaves the runs between the gaps
(`walk_spec`): each run is made of kept pairs, every kept pair is in a run, and one run ends before
the next one begins.
-/

namespace Galdr.Circular

/-! ## Places around a circle -/

section Places

variable {K : Type*} [Field K] [LinearOrder K] [IsStrictOrderedRing K] [FloorRing K]
  {a b c h p s u : K}

/-- `rem_euclid`: a number less whole turns. -/
def wrap (s p : K) : K := Int.fract (s / p) * p

/-- How far apart two places are, the shorter way around. -/
def circularDistance (a b p : K) : K := min (wrap (a - b) p) (p - wrap (a - b) p)

theorem wrap_nonneg (hp : 0 < p) : 0 ≤ wrap s p := mul_nonneg (Int.fract_nonneg _) hp.le

theorem wrap_lt (hp : 0 < p) : wrap s p < p := mul_lt_of_lt_one_left hp (Int.fract_lt_one _)

omit [IsStrictOrderedRing K] in
theorem wrap_eq (hp : 0 < p) (s : K) : wrap s p = s - ⌊s / p⌋ * p := by
  unfold wrap Int.fract
  rw [sub_mul, div_mul_cancel₀ _ hp.ne']

theorem wrap_eq_self (hs : 0 ≤ s) (h : s < p) : wrap s p = s := by
  have hp : 0 < p := hs.trans_lt h
  unfold wrap
  rw [Int.fract_eq_self.mpr ⟨div_nonneg hs hp.le, (div_lt_one hp).mpr h⟩, div_mul_cancel₀ _ hp.ne']

theorem wrap_add_mul (hp : 0 < p) (s : K) (k : ℤ) : wrap (s + k * p) p = wrap s p := by
  unfold wrap
  rw [add_div, mul_div_cancel_right₀ _ hp.ne', Int.fract_add_intCast]

/-- The shorter way around is the way to the nearest turn. -/
theorem exists_circularDistance_eq (hp : 0 < p) (a b : K) :
    ∃ k : ℤ, circularDistance a b p = |a - b - k * p| := by
  unfold circularDistance
  rcases min_choice (wrap (a - b) p) (p - wrap (a - b) p) with heq | heq
  · refine ⟨⌊(a - b) / p⌋, ?_⟩
    rw [heq, ← wrap_eq hp, abs_of_nonneg (wrap_nonneg hp)]
  · refine ⟨⌊(a - b) / p⌋ + 1, ?_⟩
    have hturn : a - b - ((⌊(a - b) / p⌋ + 1 : ℤ) : K) * p = -(p - wrap (a - b) p) := by
      rw [wrap_eq hp]
      push_cast
      ring
    rw [heq, hturn, abs_neg, abs_of_pos (sub_pos.mpr (wrap_lt hp))]

/-- No turn is nearer. -/
theorem circularDistance_le (hp : 0 < p) (a b : K) (k : ℤ) :
    circularDistance a b p ≤ |a - b - k * p| := by
  have hwrap : wrap (a - b) p = wrap (a - b - k * p) p := by
    have hturn := wrap_add_mul hp (a - b - k * p) k
    rw [sub_add_cancel] at hturn
    exact hturn
  unfold circularDistance
  rw [hwrap]
  generalize a - b - k * p = x
  rcases le_or_gt 0 x with hx | hx
  · refine (min_le_left _ _).trans ?_
    rw [abs_of_nonneg hx, wrap_eq hp]
    have hfloor : (0 : K) ≤ ⌊x / p⌋ := Int.cast_nonneg (Int.floor_nonneg.mpr (div_nonneg hx hp.le))
    exact sub_le_self _ (mul_nonneg hfloor hp.le)
  · refine (min_le_right _ _).trans ?_
    rw [abs_of_neg hx, wrap_eq hp]
    have hfloor : ⌊x / p⌋ ≤ -1 := by
      have hlt : ⌊x / p⌋ < 0 := Int.floor_lt.mpr (by
        rw [Int.cast_zero]
        exact div_neg_of_neg_of_pos hx hp)
      omega
    have hcast : ((⌊x / p⌋ : ℤ) : K) ≤ -1 := by exact_mod_cast hfloor
    nlinarith

theorem circularDistance_lt_iff (hp : 0 < p) :
    circularDistance a b p < h ↔ ∃ k : ℤ, |a - b - k * p| < h := by
  constructor
  · intro hlt
    obtain ⟨k, hk⟩ := exists_circularDistance_eq hp a b
    exact ⟨k, hk ▸ hlt⟩
  · rintro ⟨k, hk⟩
    exact (circularDistance_le hp a b k).trans_lt hk

theorem circularDistance_le_iff (hp : 0 < p) :
    circularDistance a b p ≤ h ↔ ∃ k : ℤ, |a - b - k * p| ≤ h := by
  constructor
  · intro hle
    obtain ⟨k, hk⟩ := exists_circularDistance_eq hp a b
    exact ⟨k, hk ▸ hle⟩
  · rintro ⟨k, hk⟩
    exact (circularDistance_le hp a b k).trans hk

/-- Turns do not count. -/
theorem circularDistance_add_mul (hp : 0 < p) (a b : K) (k : ℤ) :
    circularDistance (a + k * p) b p = circularDistance a b p := by
  have hturn : a + k * p - b = a - b + k * p := by ring
  unfold circularDistance
  rw [hturn, wrap_add_mul hp]

theorem circularDistance_wrap (hp : 0 < p) (a b : K) :
    circularDistance (wrap a p) b p = circularDistance a b p := by
  have hturn : wrap a p = a + ((-⌊a / p⌋ : ℤ) : K) * p := by
    rw [wrap_eq hp]
    push_cast
    ring
  rw [hturn, circularDistance_add_mul hp]

/-- Places within one turn: the way between them, or the way around. -/
theorem circularDistance_of_lt (h : |a - b| < p) :
    circularDistance a b p = min |a - b| (p - |a - b|) := by
  have hp : 0 < p := (abs_nonneg _).trans_lt h
  unfold circularDistance
  rcases le_or_gt 0 (a - b) with hle | hlt
  · rw [abs_of_nonneg hle] at h ⊢
    rw [wrap_eq_self hle h]
  · rw [abs_of_neg hlt] at h ⊢
    have hwrap := wrap_add_mul hp (a - b) 1
    rw [Int.cast_one, one_mul, wrap_eq_self (by linarith) (by linarith)] at hwrap
    rw [← hwrap, min_comm]
    congr 1 <;> ring

/-! ### Arcs between marks -/

/-- No turn of a place is strictly between two numbers. -/
def Unmarked (p a b s : K) : Prop := ∀ k : ℤ, ¬(a < s + k * p ∧ s + k * p < b)

/-- **An arc without the ends of an interval** lies within the interval, or beside it. -/
theorem Unmarked.inside (hp : 0 < p) (hlow : Unmarked p a b (c - h)) (hhigh : Unmarked p a b (c + h))
    (hu : a < u ∧ u < b) (hnear : circularDistance u c p ≤ h) {v : K} (hv : a ≤ v ∧ v ≤ b) :
    ∃ k : ℤ, c + k * p - h ≤ v ∧ v ≤ c + k * p + h := by
  obtain ⟨k, hk⟩ := (circularDistance_le_iff hp).mp hnear
  obtain ⟨hleft, hright⟩ := abs_le.mp hk
  refine ⟨k, ?_, ?_⟩
  · by_contra hlt
    exact hlow k ⟨by linarith, by linarith⟩
  · by_contra hlt
    exact hhigh k ⟨by linarith, by linarith⟩

omit [IsStrictOrderedRing K] in
theorem Unmarked.of_wrap (hp : 0 < p) (h : Unmarked p a b (wrap s p)) : Unmarked p a b s := by
  intro k hk
  have hturn : s + k * p = wrap s p + ((⌊s / p⌋ + k : ℤ) : K) * p := by
    rw [wrap_eq hp]
    push_cast
    ring
  exact h _ (hturn ▸ hk)

/-- **The middle decides.** If an arc is beside an interval at its middle, it is beside it. -/
theorem Unmarked.beside (hp : 0 < p) (hlow : Unmarked p a b (c - h))
    (hhigh : Unmarked p a b (c + h)) {ε : K} (hlong : ε + ε < b - a)
    (hmid : h - ε ≤ circularDistance (a + (b - a) / 2) c p) {v : K} (hv : a ≤ v ∧ v ≤ b) :
    h ≤ circularDistance v c p := by
  by_contra hlt
  obtain ⟨k, hk⟩ := (circularDistance_lt_iff hp).mp (not_le.mp hlt)
  obtain ⟨hleft, hright⟩ := abs_lt.mp hk
  have hin : c + k * p - h ≤ a ∧ b ≤ c + k * p + h := by
    constructor
    · by_contra hout
      exact hlow k ⟨by linarith, by linarith⟩
    · by_contra hout
      exact hhigh k ⟨by linarith, by linarith⟩
  refine hmid.not_gt ((circularDistance_le hp _ c k).trans_lt (abs_lt.mpr ⟨?_, ?_⟩))
  · linarith
  · linarith

end Places

/-! ## Walks over marks -/

section Walks

variable {A : Type*} {gap : A → A → Bool} {before rest l run : List A} {x y : A}

/-- The pairs of neighbours of a list. -/
def pairs : List A → List (A × A)
  | a :: b :: rest => (a, b) :: pairs (b :: rest)
  | _ => []

/-- The runs of a walk over neighbours: a gap ends a run, and a run has two elements or more. -/
def walk (gap : A → A → Bool) : List (A × A) → List A → List (List A)
  | [], current => if 2 ≤ current.length then [current] else []
  | (a, b) :: rest, current =>
    if gap a b then
      if 2 ≤ current.length then current :: walk gap rest [] else walk gap rest []
    else walk gap rest ((if current.isEmpty then [a] else current) ++ [b])

/-- What a walk has of a run before a mark. -/
def underWay (before : List A) (x : A) : List A := if before.isEmpty then [] else before ++ [x]

theorem pairs_append (before : List A) (x y : A) (rest : List A) :
    pairs (before ++ x :: y :: rest) = pairs (before ++ [x]) ++ (x, y) :: pairs (y :: rest) := by
  induction before with
  | nil => rfl
  | cons a before ih =>
    cases before with
    | nil => rfl
    | cons b before => exact congrArg ((a, b) :: ·) ih

theorem mem_of_mem_pairs {a b : A} (h : (a, b) ∈ pairs l) : a ∈ l ∧ b ∈ l := by
  induction l with
  | nil => cases h
  | cons c rest ih =>
    cases rest with
    | nil => cases h
    | cons d rest =>
      rcases List.mem_cons.mp h with heq | h
      · obtain ⟨rfl, rfl⟩ := Prod.mk.inj heq
        exact ⟨List.mem_cons_self, List.mem_cons_of_mem _ List.mem_cons_self⟩
      · exact ⟨List.mem_cons_of_mem _ (ih h).1, List.mem_cons_of_mem _ (ih h).2⟩

theorem isChain_iff_pairs {r : A → A → Prop} : l.IsChain r ↔ ∀ e ∈ pairs l, r e.1 e.2 := by
  induction l with
  | nil => simp [pairs]
  | cons a rest ih =>
    cases rest with
    | nil => simp [pairs]
    | cons b rest =>
      show _ ↔ ∀ e ∈ (a, b) :: pairs (b :: rest), r e.1 e.2
      rw [List.isChain_cons_cons, ih, List.forall_mem_cons]

/-- The pairs of a part are pairs of the whole. -/
theorem pairs_subset_of_part (h : run <:+: l) : pairs run ⊆ pairs l := by
  have hcons : ∀ (a : A) (l : List A), pairs l ⊆ pairs (a :: l) := by
    intro a l
    cases l with
    | nil => exact List.nil_subset _
    | cons b l => exact List.subset_cons_self _ _
  have happend : ∀ l l' : List A, pairs l ⊆ pairs (l ++ l') := by
    intro l l'
    induction l with
    | nil => exact List.nil_subset _
    | cons a l ih =>
      cases l with
      | nil => exact List.nil_subset _
      | cons b l => exact List.cons_subset_cons _ ih
  have hprepend : ∀ l l' : List A, pairs l ⊆ pairs (l' ++ l) := by
    intro l l'
    induction l' with
    | nil => exact List.Subset.refl _
    | cons a l' ih => exact List.Subset.trans ih (hcons a _)
  obtain ⟨s, t, rfl⟩ := h
  exact List.Subset.trans (hprepend run s) (happend (s ++ run) t)

/-- A gap is walked over: the run before it is done. -/
theorem walk_gap (h : gap x y = true) :
    walk gap (pairs (x :: y :: rest)) (underWay before x)
      = (if before.isEmpty then [] else [before ++ [x]])
        ++ walk gap (pairs (y :: rest)) (underWay [] y) := by
  show walk gap ((x, y) :: pairs (y :: rest)) _ = _
  conv_lhs => unfold walk
  rw [if_pos h]
  cases before with
  | nil => rfl
  | cons a before =>
    show (if 2 ≤ (a :: before ++ [x]).length then _ else _) = _
    rw [if_pos (by simp)]
    rfl

/-- A kept pair is walked over: the run goes on. -/
theorem walk_kept (h : gap x y = false) :
    walk gap (pairs (x :: y :: rest)) (underWay before x)
      = walk gap (pairs (y :: rest)) (underWay (before ++ [x]) y) := by
  show walk gap ((x, y) :: pairs (y :: rest)) _ = _
  conv_lhs => unfold walk
  rw [h, if_neg Bool.false_ne_true]
  congr 1
  cases before with
  | nil => rfl
  | cons a before => rfl

theorem walk_end : walk gap (pairs [x]) (underWay before x)
    = if before.isEmpty then [] else [before ++ [x]] := by
  cases before with
  | nil => rfl
  | cons a before =>
    show (if 2 ≤ (a :: before ++ [x]).length then [a :: before ++ [x]] else []) = _
    rw [if_pos (by simp)]
    rfl

/-- What the runs of a list are: parts of it in their order, made of kept pairs, and with every
kept pair. -/
structure Cuts (gap : A → A → Bool) (l : List A) (runs : List (List A)) : Prop where
  /-- One run comes after the other. -/
  sublist : runs.flatten.Sublist l
  /-- A run is a part of the list. -/
  part_of_mem : ∀ run ∈ runs, run <:+: l
  /-- It goes somewhere. -/
  two_le : ∀ run ∈ runs, 2 ≤ run.length
  /-- It has no gap. -/
  kept : ∀ run ∈ runs, ∀ e ∈ pairs run, gap e.1 e.2 = false
  /-- What is not a gap is kept. -/
  covers : ∀ e ∈ pairs l, gap e.1 e.2 = false → ∃ run ∈ runs, e ∈ pairs run

/-- A run that is done. -/
theorem Cuts.single (h : ∀ e ∈ pairs (before ++ [x]), gap e.1 e.2 = false) :
    Cuts gap (before ++ [x]) (if before.isEmpty then [] else [before ++ [x]]) := by
  cases before with
  | nil => exact ⟨by simp, by simp, by simp, by simp, by simp [pairs]⟩
  | cons a before =>
    refine ⟨?_, ?_, ?_, ?_, ?_⟩
    · simp
    · simp
    · simp
    · simpa using h
    · intro e he _
      exact ⟨_, List.mem_singleton_self _, he⟩

/-- Runs before a gap, and runs after it. -/
theorem Cuts.append {runs runs' : List (List A)} (h : gap x y = true)
    (hbefore : Cuts gap (before ++ [x]) runs) (hafter : Cuts gap (y :: rest) runs') :
    Cuts gap (before ++ x :: y :: rest) (runs ++ runs') := by
  have hsplit : before ++ x :: y :: rest = (before ++ [x]) ++ (y :: rest) := by simp
  refine ⟨?_, ?_, ?_, ?_, ?_⟩
  · rw [List.flatten_append, hsplit]
    exact hbefore.sublist.append hafter.sublist
  · intro run hrun
    rw [hsplit]
    rcases List.mem_append.mp hrun with hrun | hrun
    · exact (hbefore.part_of_mem run hrun).trans (List.prefix_append _ _).isInfix
    · exact (hafter.part_of_mem run hrun).trans (List.suffix_append _ _).isInfix
  · intro run hrun
    exact (List.mem_append.mp hrun).elim (hbefore.two_le run) (hafter.two_le run)
  · intro run hrun
    exact (List.mem_append.mp hrun).elim (hbefore.kept run) (hafter.kept run)
  · intro e he hkept
    rw [pairs_append] at he
    rcases List.mem_append.mp he with he | he
    · obtain ⟨run, hrun, hmem⟩ := hbefore.covers e he hkept
      exact ⟨run, List.mem_append_left _ hrun, hmem⟩
    · rcases List.mem_cons.mp he with rfl | he
      · rw [h] at hkept
        cases hkept
      · obtain ⟨run, hrun, hmem⟩ := hafter.covers e he hkept
        exact ⟨run, List.mem_append_right _ hrun, hmem⟩

theorem walk_cuts (h : ∀ e ∈ pairs (before ++ [x]), gap e.1 e.2 = false) :
    Cuts gap (before ++ x :: rest) (walk gap (pairs (x :: rest)) (underWay before x)) := by
  induction rest generalizing before x with
  | nil =>
    rw [walk_end]
    exact Cuts.single h
  | cons y rest ih =>
    cases hgap : gap x y with
    | true =>
      rw [walk_gap hgap]
      exact (Cuts.single h).append hgap (@ih [] y (by simp [pairs]))
    | false =>
      rw [walk_kept hgap, List.append_cons before x (y :: rest)]
      refine ih ?_
      rw [List.append_assoc]
      show ∀ e ∈ pairs (before ++ x :: y :: []), _
      rw [pairs_append]
      intro e he
      rcases List.mem_append.mp he with he | he
      · exact h e he
      · obtain rfl := List.mem_singleton.mp he
        exact hgap

/-- **The runs of a walk** are the parts of the list between its gaps. -/
theorem walk_spec (gap : A → A → Bool) (l : List A) : Cuts gap l (walk gap (pairs l) []) := by
  cases l with
  | nil => exact ⟨by simp [pairs, walk], by simp [pairs, walk], by simp [pairs, walk],
      by simp [pairs, walk], by simp [pairs]⟩
  | cons x rest => exact @walk_cuts A gap [] rest x (by simp [pairs])

theorem pairs_map {C : Type*} (f : A → C) (l : List A) :
    pairs (l.map f) = (pairs l).map (Prod.map f f) := by
  induction l with
  | nil => rfl
  | cons a l ih =>
    cases l with
    | nil => rfl
    | cons b l => exact congrArg ((f a, f b) :: ·) ih

/-- A walk over images is the image of a walk. -/
theorem walk_map {C : Type*} (f : A → C) (gap : C → C → Bool) (es : List (A × A))
    (current : List A) :
    walk gap (es.map (Prod.map f f)) (current.map f)
      = (walk (fun a b => gap (f a) (f b)) es current).map (List.map f) := by
  induction es generalizing current with
  | nil =>
    simp only [List.map_nil, walk, List.length_map]
    split <;> rfl
  | cons e es ih =>
    obtain ⟨a, b⟩ := e
    simp only [List.map_cons, Prod.map_apply, walk, List.length_map]
    split
    · split
      · rw [List.map_cons, ← ih []]
        rfl
      · exact ih []
    · rw [← ih]
      congr 1
      cases current with
      | nil => rfl
      | cons c current => simp

end Walks

/-! ## One turn of marks -/

section Turn

variable {K : Type*} [LinearOrder K] {l rest : List K} {a b u x : K}

theorem lt_of_mem_pairs (h : l.Pairwise (· < ·)) (he : (a, b) ∈ pairs l) : a < b :=
  isChain_iff_pairs.mp h.isChain _ he

/-- No mark is between two neighbours. -/
theorem not_between_of_mem_pairs (h : l.Pairwise (· < ·)) (he : (a, b) ∈ pairs l) (hx : x ∈ l) :
    ¬(a < x ∧ x < b) := by
  induction l with
  | nil => cases hx
  | cons c rest ih =>
    cases rest with
    | nil => cases he
    | cons d rest =>
      obtain ⟨hc, hrest⟩ := List.pairwise_cons.mp h
      rintro ⟨hax, hxb⟩
      rcases List.mem_cons.mp he with heq | htail
      · obtain ⟨rfl, rfl⟩ := Prod.mk.inj heq
        rcases List.mem_cons.mp hx with rfl | hx
        · exact lt_irrefl _ hax
        · rcases List.mem_cons.mp hx with rfl | hx
          · exact lt_irrefl _ hxb
          · exact lt_asymm hxb ((List.pairwise_cons.mp hrest).1 x hx)
      · rcases List.mem_cons.mp hx with rfl | hx
        · exact lt_asymm hax (hc a (mem_of_mem_pairs htail).1)
        · exact ih hrest htail hx ⟨hax, hxb⟩

/-- A place from the first mark to the last is between two neighbours. -/
theorem exists_pair_around (rest : List K) (hne : rest ≠ []) (hlow : x ≤ u)
    (hhigh : ∀ z, (x :: rest).getLast? = some z → u ≤ z) :
    ∃ e ∈ pairs (x :: rest), e.1 ≤ u ∧ u ≤ e.2 := by
  induction rest generalizing x with
  | nil => exact absurd rfl hne
  | cons y rest ih =>
    rcases le_or_gt u y with hle | hgt
    · exact ⟨(x, y), List.mem_cons_self, hlow, hle⟩
    · cases rest with
      | nil => exact absurd (hhigh y rfl) hgt.not_ge
      | cons z rest =>
        obtain ⟨e, he, haround⟩ := ih (List.cons_ne_nil _ _) hgt.le (fun w hw =>
          hhigh w (by rwa [List.getLast?_cons_cons]))
        exact ⟨e, List.mem_cons_of_mem _ he, haround⟩

/-- The marks of one turn from a mark, which comes again at the end. -/
def turned [Add K] (p : K) (l : List K) (s : ℕ) : List K :=
  l.drop s ++ (l.take (s + 1)).map (· + p)

section Turned

variable [Add K] {p : K} {s : ℕ}

omit [LinearOrder K] in
theorem mem_of_mem_turned (h : x ∈ turned p l s) : x ∈ l ∨ ∃ y ∈ l, x = y + p := by
  rcases List.mem_append.mp h with h | h
  · exact .inl (List.mem_of_mem_drop h)
  · obtain ⟨y, hy, rfl⟩ := List.mem_map.mp h
    exact .inr ⟨y, List.mem_of_mem_take hy, rfl⟩

theorem pairwise_turned [AddRightStrictMono K] (hl : l.Pairwise (· < ·))
    (hp : ∀ x ∈ l, ∀ y ∈ l, x < y + p) : (turned p l s).Pairwise (· < ·) := by
  refine List.pairwise_append.mpr ⟨hl.sublist (List.drop_sublist _ _), ?_, ?_⟩
  · exact (hl.sublist (List.take_sublist _ _)).map _ fun a b hab => add_lt_add_left hab p
  · intro x hx y hy
    obtain ⟨z, hz, rfl⟩ := List.mem_map.mp hy
    exact hp x (List.mem_of_mem_drop hx) z (List.mem_of_mem_take hz)

/-- A mark from the first of a turn on is in the turn. -/
theorem mem_turned_of_ge (hl : l.Pairwise (· < ·)) (hs : s < l.length) (hx : x ∈ l)
    (h : l[s] ≤ x) : x ∈ turned p l s := by
  obtain ⟨i, hi, rfl⟩ := List.getElem_of_mem hx
  have hsi : s ≤ i := by
    by_contra hlt
    exact h.not_gt (List.pairwise_iff_getElem.mp hl i s hi hs (not_le.mp hlt))
  refine List.mem_append_left _ ?_
  rw [List.mem_iff_getElem]
  refine ⟨i - s, by rw [List.length_drop]; omega, ?_⟩
  rw [List.getElem_drop]
  congr 1
  omega

/-- A mark up to the first of a turn comes in the turn a turn later. -/
theorem mem_turned_of_le (hl : l.Pairwise (· < ·)) (hs : s < l.length) (hx : x ∈ l)
    (h : x ≤ l[s]) : x + p ∈ turned p l s := by
  obtain ⟨i, hi, rfl⟩ := List.getElem_of_mem hx
  have his : i ≤ s := by
    by_contra hlt
    exact h.not_gt (List.pairwise_iff_getElem.mp hl s i hs hi (not_le.mp hlt))
  refine List.mem_append_right _ (List.mem_map_of_mem ?_)
  rw [List.mem_iff_getElem]
  exact ⟨i, by rw [List.length_take]; omega, List.getElem_take⟩

end Turned

theorem pairs_eq_zip {A : Type*} (l : List A) : pairs l = l.zip l.tail := by
  induction l with
  | nil => rfl
  | cons a l ih =>
    cases l with
    | nil => rfl
    | cons b l => exact congrArg ((a, b) :: ·) ih

omit [LinearOrder K] in
/-- The neighbours of one turn are the neighbours around the circle. -/
theorem pairs_turned [Add K] {A : Type*} {p : K} {s : ℕ} {f : K → A} (hf : ∀ u, f (u + p) = f u)
    (hs : s < l.length) :
    pairs ((turned p l s).map f) = ((l.map f).zip ((l.map f).rotate 1)).rotate s := by
  have hmap : (turned p l s).map f = (l.map f).drop s ++ (l.map f).take (s + 1) := by
    unfold turned
    rw [List.map_append, List.map_map, List.map_drop, List.map_take]
    have hturn : f ∘ (fun u => u + p) = f := funext hf
    rw [hturn]
  have hlen : s < (l.map f).length := by rwa [List.length_map]
  rw [hmap]
  generalize l.map f = m at hlen ⊢
  have hrotate : (m.zip (m.rotate 1)).rotate s = (m.rotate s).zip ((m.rotate s).rotate 1) := by
    rw [List.rotate_rotate, add_comm s 1, ← List.rotate_rotate]
    exact List.zipWith_rotate_distrib _ _ _ _ (List.length_rotate _ _).symm
  rw [hrotate, List.rotate_eq_drop_append_take hlen.le, List.drop_eq_getElem_cons hlen,
    List.take_succ_eq_append_getElem hlen, pairs_eq_zip, List.cons_append, List.cons_append,
    ← List.append_assoc, List.tail_cons, List.rotate_cons_succ, List.rotate_zero]
  generalize List.drop (s + 1) m ++ List.take s m = t
  have hzip : (m[s] :: t ++ [m[s]]).zip (t ++ [m[s]] ++ [])
      = (m[s] :: t).zip (t ++ [m[s]]) ++ [m[s]].zip [] := List.zip_append (by simp)
  simpa using hzip

end Turn

section Around

variable {K : Type*} [Field K] [LinearOrder K] [IsStrictOrderedRing K] [FloorRing K]
  {l : List K} {p δ x : K} {i : ℕ}

/-- A turn of marks: from one of them to the same one again, with all the others between. -/
structure Turn (p : K) (l : List K) (δ : K) (turn : List K) : Prop where
  /-- The marks are in order. -/
  ordered : turn.Pairwise (· < ·)
  /-- No mark is between two neighbours. -/
  unmarked : ∀ e ∈ pairs turn, ∀ s ∈ l, Unmarked p e.1 e.2 s
  /-- Neighbours are apart. -/
  apart : ∀ e ∈ pairs turn, δ < e.2 - e.1
  /-- They are less than a turn apart. -/
  less : ∀ e ∈ pairs turn, e.2 - e.1 < p
  /-- Everything is between two neighbours. -/
  around : ∀ u, ∃ e ∈ pairs turn, ∃ k : ℤ, e.1 ≤ u + k * p ∧ u + k * p ≤ e.2
  /-- Past the first mark there is less than one turn left. -/
  within : ∀ u ∈ turn.tail, ∀ v ∈ turn.tail, v < u + p

omit [IsStrictOrderedRing K] [FloorRing K] [LinearOrder K] in
theorem turned_eq_cons (hi : i < l.length) :
    turned p l i = l[i] :: (l.drop (i + 1) ++ (l.take (i + 1)).map (· + p)) := by
  unfold turned
  rw [List.drop_eq_getElem_cons hi, List.cons_append]

omit [IsStrictOrderedRing K] [FloorRing K] [LinearOrder K] in
theorem getLast?_turned (hi : i < l.length) : (turned p l i).getLast? = some (l[i] + p) := by
  unfold turned
  rw [List.take_succ_eq_append_getElem hi, List.map_append, ← List.append_assoc]
  exact List.getLast?_concat

omit [FloorRing K] in
theorem turned_range (hl : l.Pairwise (· < ·)) (hbounds : ∀ s ∈ l, 0 ≤ s ∧ s < p)
    (hi : i < l.length) (hx : x ∈ turned p l i) : l[i] ≤ x ∧ x ≤ l[i] + p := by
  have hfirst := hbounds _ (List.getElem_mem hi)
  rcases List.mem_append.mp hx with hx | hx
  · obtain ⟨j, hj, rfl⟩ := List.getElem_of_mem hx
    have hrest := hbounds _ (List.mem_of_mem_drop hx)
    rw [List.length_drop] at hj
    refine ⟨?_, by linarith [hrest.2]⟩
    rw [List.getElem_drop]
    rcases Nat.eq_zero_or_pos j with rfl | hpos
    · exact le_rfl
    · exact (List.pairwise_iff_getElem.mp hl i (i + j) hi (by omega) (by omega)).le
  · obtain ⟨y, hy, rfl⟩ := List.mem_map.mp hx
    have hrest := hbounds y (List.mem_of_mem_take hy)
    refine ⟨by linarith [hrest.1, hfirst.2], ?_⟩
    obtain ⟨j, hj, rfl⟩ := List.getElem_of_mem hy
    rw [List.length_take] at hj
    rw [List.getElem_take]
    rcases Nat.lt_or_ge j i with hlt | hge
    · linarith [List.pairwise_iff_getElem.mp hl j i (by omega) hi hlt]
    · obtain rfl : j = i := by omega
      exact le_rfl

omit [FloorRing K] in
/-- A mark is not between two neighbours, at any turn. -/
theorem turned_unmarked (hl : l.Pairwise (· < ·)) (hbounds : ∀ s ∈ l, 0 ≤ s ∧ s < p)
    (hi : i < l.length) (hp : 0 < p) (hturn : (turned p l i).Pairwise (· < ·)) {e : K × K}
    (he : e ∈ pairs (turned p l i)) (hx : x ∈ l) : Unmarked p e.1 e.2 x := by
  rintro k ⟨hlow, hhigh⟩
  have hfirst := hbounds _ (List.getElem_mem hi)
  obtain ⟨hx0, hxp⟩ := hbounds x hx
  have ha := (turned_range hl hbounds hi (mem_of_mem_pairs he).1).1
  have hb := (turned_range hl hbounds hi (mem_of_mem_pairs he).2).2
  have hk0 : -1 < k := by
    have hpos : (-1 : K) * p < k * p := by linarith [hfirst.1]
    exact_mod_cast lt_of_mul_lt_mul_right hpos hp.le
  have hk2 : k < 2 := by
    have hlt : (k : K) * p < 2 * p := by linarith [hfirst.2]
    exact_mod_cast lt_of_mul_lt_mul_right hlt hp.le
  have hcases : k = 0 ∨ k = 1 := by omega
  rcases hcases with rfl | rfl
  · rw [Int.cast_zero, zero_mul, add_zero] at hlow hhigh
    exact not_between_of_mem_pairs hturn he
      (mem_turned_of_ge hl hi hx (ha.trans hlow.le)) ⟨hlow, hhigh⟩
  · rw [Int.cast_one, one_mul] at hlow hhigh
    exact not_between_of_mem_pairs hturn he
      (mem_turned_of_le hl hi hx (by linarith)) ⟨hlow, hhigh⟩

/-- **The marks in order, from one of them on**, are one turn. -/
theorem turned_spec (hp : 0 < p) (hl : l.Pairwise (· < ·)) (hbounds : ∀ s ∈ l, 0 ≤ s ∧ s < p)
    (hapart : ∀ s ∈ l, ∀ s' ∈ l, s ≠ s' → δ < circularDistance s s' p)
    (htwo : ∃ s ∈ l, ∃ s' ∈ l, s ≠ s') (hi : i < l.length) : Turn p l δ (turned p l i) := by
  have hfirst := hbounds _ (List.getElem_mem hi)
  have hturn : (turned p l i).Pairwise (· < ·) := by
    refine pairwise_turned hl fun x hx y hy => ?_
    linarith [(hbounds x hx).2, (hbounds y hy).1]
  have hless : ∀ e ∈ pairs (turned p l i), e.2 - e.1 < p := by
    intro e he
    by_contra hge
    have ha := (turned_range hl hbounds hi (mem_of_mem_pairs he).1).1
    have hb := (turned_range hl hbounds hi (mem_of_mem_pairs he).2).2
    -- another mark is between the first one and the first one again
    obtain ⟨s, hs, hne⟩ : ∃ s ∈ l, s ≠ l[i] := by
      obtain ⟨s, hs, s', hs', hss'⟩ := htwo
      by_cases heq : s = l[i]
      · exact ⟨s', hs', fun heq' => hss' (heq.trans heq'.symm)⟩
      · exact ⟨s, hs, heq⟩
    have hs := hbounds s ‹_›
    rcases lt_or_gt_of_ne hne with hlt | hgt
    · exact not_between_of_mem_pairs hturn he (mem_turned_of_le hl hi ‹_› hlt.le)
        ⟨by linarith, by linarith⟩
    · exact not_between_of_mem_pairs hturn he (mem_turned_of_ge hl hi ‹_› hgt.le)
        ⟨by linarith, by linarith⟩
  refine ⟨hturn, fun e he s hs => turned_unmarked hl hbounds hi hp hturn he hs, ?_, hless, ?_, ?_⟩
  · intro e he
    have hlt := lt_of_mem_pairs hturn he
    have hturns : ∀ x ∈ turned p l i, ∃ y ∈ l, ∃ k : ℤ, x = y + k * p := by
      intro x hx
      rcases mem_of_mem_turned hx with hx | ⟨y, hy, rfl⟩
      · exact ⟨x, hx, 0, by simp⟩
      · exact ⟨y, hy, 1, by simp⟩
    obtain ⟨s, hs, k, hsk⟩ := hturns _ (mem_of_mem_pairs he).1
    obtain ⟨s', hs', k', hsk'⟩ := hturns _ (mem_of_mem_pairs he).2
    have hdiff : e.2 - e.1 = s' - s - ((k - k' : ℤ) : K) * p := by
      rw [hsk, hsk']
      push_cast
      ring
    have hne : s' ≠ s := by
      rintro rfl
      have hpos : (0 : K) * p < ((k' - k : ℤ) : K) * p := by
        push_cast at hdiff ⊢
        linarith
      have hlt1 : ((k' - k : ℤ) : K) * p < 1 * p := by
        have := hless e he
        push_cast at hdiff ⊢
        linarith
      have h0 : 0 < k' - k := by exact_mod_cast lt_of_mul_lt_mul_right hpos hp.le
      have h1 : k' - k < 1 := by exact_mod_cast lt_of_mul_lt_mul_right hlt1 hp.le
      omega
    have hle := circularDistance_le hp s' s (k - k')
    rw [← hdiff, abs_of_pos (sub_pos.mpr hlt)] at hle
    exact (hapart s' hs' s hs hne).trans_le hle
  · intro u
    have hlast : ∀ z, (turned p l i).getLast? = some z → z = l[i] + p := by
      intro z hz
      rw [getLast?_turned hi] at hz
      exact (Option.some.inj hz).symm
    have hwrap := wrap_eq hp (u - l[i])
    have h0 := wrap_nonneg (s := u - l[i]) hp
    have h1 := wrap_lt (s := u - l[i]) hp
    rw [turned_eq_cons hi] at hlast ⊢
    obtain ⟨e, he, haround⟩ := exists_pair_around (u := u + ((-⌊(u - l[i]) / p⌋ : ℤ) : K) * p)
      (x := l[i]) (l.drop (i + 1) ++ (l.take (i + 1)).map (· + p)) (by
        rw [List.take_succ_eq_append_getElem hi, List.map_append, ← List.append_assoc]
        exact List.append_ne_nil_of_right_ne_nil _ (List.cons_ne_nil _ _))
      (by push_cast; linarith) (fun z hz => by
        rw [hlast z hz]
        push_cast
        linarith)
    exact ⟨e, he, _, haround⟩
  · intro u hu v hv
    rw [turned_eq_cons hi] at hu hv hturn
    have hgt := (List.pairwise_cons.mp hturn).1 u hu
    have hle := (turned_range hl hbounds hi (x := v) (by
      rw [turned_eq_cons hi]
      exact List.mem_cons_of_mem _ hv)).2
    linarith

end Around

end Galdr.Circular
