import Galdr.Cutout

/-!
# What a cutout leaves to its tabs

The marks around a ring are its vertices and the ends of its tabs. If they are apart, the split of
the ring is read off one turn of them (`MarkedTurn`): an edge between neighbours is in a tab or
beside all of them, as its middle says, and the runs of the walk go over what is beside them
(`MarkedTurn.arcs`).
-/

namespace Galdr.Eitri.Cutout

open Circular

variable {K : Type} [Field K] [LinearOrder K] [FloorRing K]

/-! ## What a split should be -/

section Statement

variable (hypot : K → K → K) (points : List (Point K)) (centers : List K) (tabWidth : K)

/-- Where the marks are. -/
def marks : List K := (breaks hypot points centers tabWidth).map Prod.fst

/-- Marks that are not the same are apart, by more than twice what the split rounds by. -/
def MarksApart : Prop :=
  ∀ s ∈ marks hypot points centers tabWidth, ∀ s' ∈ marks hypot points centers tabWidth, s ≠ s' →
    markEpsilon + markEpsilon < circularDistance s s' (ringPerimeter hypot points)

/-- The tabs are all around the ring. -/
def TabsCover : Prop :=
  ∀ u, ∃ c ∈ centers, circularDistance u c (ringPerimeter hypot points) ≤ tabWidth / 2

/-- Runs of places that leave out the tabs of a ring, and nothing else. -/
structure Arcs (runs : List (List K)) : Prop where
  /-- A run goes somewhere. -/
  two_le : ∀ run ∈ runs, 2 ≤ run.length
  /-- From one of its places to the next the ring runs straight, and gets somewhere. -/
  straight : ∀ run ∈ runs, ∀ e ∈ pairs run, Straight (ringAt hypot points) e.1 e.2
  /-- A run goes forward, and the runs come one after the other. -/
  ordered : runs.flatten.Pairwise (· < ·)
  /-- They are within one turn. -/
  oneTurn : ∀ u ∈ runs.flatten, ∀ v ∈ runs.flatten, v ≤ u + ringPerimeter hypot points
  /-- If there are tabs, the runs are open. -/
  isOpen : centers ≠ [] →
    ∀ u ∈ runs.flatten, ∀ v ∈ runs.flatten, v < u + ringPerimeter hypot points
  /-- No run goes into a tab. -/
  beside : ∀ run ∈ runs, ∀ e ∈ pairs run, ∀ v, e.1 ≤ v → v ≤ e.2 → ∀ c ∈ centers,
    tabWidth / 2 ≤ circularDistance v c (ringPerimeter hypot points)
  /-- What no tab has is in a run. -/
  covers : ∀ u,
    (∀ c ∈ centers, tabWidth / 2 < circularDistance u c (ringPerimeter hypot points)) →
    ∃ run ∈ runs, ∃ e ∈ pairs run, ∃ k : ℤ, e.1 ≤ u + k * ringPerimeter hypot points
      ∧ u + k * ringPerimeter hypot points ≤ e.2

/-- The paths go along such runs. -/
def Splits (paths : List (RingPath K)) : Prop :=
  ∃ runs, Arcs hypot points centers tabWidth runs
    ∧ paths = runs.map fun run => ⟨run.map (ringAt hypot points)⟩

end Statement

/-! ## The marks -/

/-- A place, less whole turns, and the point of the ring there. -/
def placed (hypot : K → K → K) (points : List (Point K)) (u : K) : K × Point K :=
  (wrap u (ringPerimeter hypot points), ringAt hypot points u)

section Marks

variable [IsStrictOrderedRing K] {hypot : K → K → K} {points : List (Point K)} {centers : List K}
  {tabWidth s : K}

omit [FloorRing K] [IsStrictOrderedRing K] in
theorem IsRing.exists_cons_cons (h : IsRing hypot points) : ∃ p q rest, points = p :: q :: rest := by
  have hP := h.perimeter_pos
  cases points with
  | nil => exact absurd hP (lt_irrefl _)
  | cons p l =>
    cases l with
    | nil => exact absurd hP (lt_irrefl _)
    | cons q rest => exact ⟨p, q, rest, rfl⟩

omit [IsStrictOrderedRing K] in
theorem mem_marks (hne : points ≠ []) : s ∈ marks hypot points centers tabWidth ↔
    s ∈ (cumulativeArclengths hypot points).dropLast
      ∨ ∃ c ∈ centers, s = wrap (c - tabWidth / 2) (ringPerimeter hypot points)
        ∨ s = wrap (c + tabWidth / 2) (ringPerimeter hypot points) := by
  obtain ⟨p, l, rfl⟩ := List.exists_cons_of_ne_nil hne
  have hfst : ((cumulativeArclengths hypot (p :: l)).dropLast.zip (p :: l)).map Prod.fst
      = (cumulativeArclengths hypot (p :: l)).dropLast := by
    refine List.map_fst_zip ?_
    rw [List.length_dropLast]
    unfold cumulativeArclengths
    rw [length_cumulativeFrom]
    simp
  unfold marks breaks
  rw [List.map_append, List.mem_append, hfst]
  simp [List.map_flatMap]

/-- Every break is at the point of the ring where its mark is. -/
theorem IsRing.snd_of_mem_breaks (h : IsRing hypot points) {m : K × Point K}
    (hm : m ∈ breaks hypot points centers tabWidth) : m.2 = ringAt hypot points m.1 := by
  rcases List.mem_append.mp hm with hm | hm
  · refine (h.ringAt_vertex ?_).symm
    obtain ⟨i, hi, rfl⟩ := List.getElem_of_mem hm
    rw [List.length_zip, List.length_dropLast] at hi
    rw [List.getElem_zip, List.getElem_dropLast]
    exact List.mem_iff_getElem.mpr ⟨i, by rw [List.length_zip]; omega, List.getElem_zip⟩
  · obtain ⟨c, _, hm⟩ := List.mem_flatMap.mp hm
    obtain ⟨edge, hedge, rfl⟩ := List.mem_map.mp hm
    have hwrap : wrap edge (ringPerimeter hypot points) = edge := by
      have hP := h.perimeter_pos
      simp only [List.mem_cons, List.not_mem_nil, or_false] at hedge
      rcases hedge with rfl | rfl
      · exact wrap_eq_self (wrap_nonneg hP) (wrap_lt hP)
      · exact wrap_eq_self (wrap_nonneg hP) (wrap_lt hP)
    unfold ringAt
    rw [hwrap]

omit [IsStrictOrderedRing K] in
theorem IsRing.zero_mem_marks (h : IsRing hypot points) :
    0 ∈ marks hypot points centers tabWidth := by
  obtain ⟨p, q, rest, rfl⟩ := h.exists_cons_cons
  refine (mem_marks (List.cons_ne_nil _ _)).mpr (.inl ?_)
  obtain ⟨cum, hcum⟩ := exists_cumulativeFrom hypot
    (0 + Travel.distanceTo hypot p q) (q :: rest)
  show 0 ∈ (0 :: cumulativeFrom hypot (0 + Travel.distanceTo hypot p q) (q :: rest)).dropLast
  rw [hcum, List.dropLast_cons_cons]
  exact List.mem_cons_self

/-- Marks that are apart are within one turn, without its end. -/
theorem IsRing.bounds_of_mem_marks (h : IsRing hypot points)
    (hapart : MarksApart hypot points centers tabWidth)
    (hs : s ∈ marks hypot points centers tabWidth) :
    0 ≤ s ∧ s < ringPerimeter hypot points := by
  have hP := h.perimeter_pos
  have hbounds : 0 ≤ s ∧ s ≤ ringPerimeter hypot points := by
    obtain ⟨p, q, rest, rfl⟩ := h.exists_cons_cons
    rcases (mem_marks (List.cons_ne_nil _ _)).mp hs with hs | ⟨c, _, rfl | rfl⟩
    · simpa using h.lawful.mem_cumulativeFrom (List.mem_of_mem_dropLast hs)
    · exact ⟨wrap_nonneg hP, (wrap_lt hP).le⟩
    · exact ⟨wrap_nonneg hP, (wrap_lt hP).le⟩
  refine ⟨hbounds.1, lt_of_le_of_ne hbounds.2 ?_⟩
  rintro rfl
  -- the end of a turn would be as near to its start as can be
  have hlt := hapart _ hs 0 h.zero_mem_marks hP.ne'
  have hle := circularDistance_le hP (ringPerimeter hypot points) 0 1
  have heps : (0 : K) < markEpsilon := by
    unfold markEpsilon
    positivity
  rw [Int.cast_one, one_mul, sub_zero, sub_self, abs_zero] at hle
  linarith

theorem IsRing.wrap_of_mem_marks (h : IsRing hypot points)
    (hapart : MarksApart hypot points centers tabWidth)
    (hs : s ∈ marks hypot points centers tabWidth) : wrap s (ringPerimeter hypot points) = s := by
  obtain ⟨hlow, hhigh⟩ := h.bounds_of_mem_marks hapart hs
  exact wrap_eq_self hlow hhigh

/-! ### The marks in order -/

omit [FloorRing K] in
/-- Marks in order, with those that are near to another left out, are all the places of marks, if
places that are not the same are apart. -/
theorem dedupAfter_spec {last : K × Point K} {rest : List (K × Point K)}
    (hsorted : (last :: rest).Pairwise fun m m' => m.1 ≤ m'.1)
    (hapart : ∀ m ∈ last :: rest, ∀ m' ∈ last :: rest, m.1 ≠ m'.1 → markEpsilon < |m.1 - m'.1|) :
    (dedupAfter last rest).Pairwise (fun m m' => m.1 < m'.1)
      ∧ (∀ m ∈ dedupAfter last rest, m ∈ last :: rest)
      ∧ ∀ m ∈ last :: rest, ∃ m' ∈ dedupAfter last rest, m'.1 = m.1 := by
  induction rest generalizing last with
  | nil => simp [dedupAfter]
  | cons mark rest ih =>
    obtain ⟨hlast, hrest⟩ := List.pairwise_cons.mp hsorted
    unfold dedupAfter
    split
    · next hnear =>
      -- the mark is at the place of the last one
      have hsame : mark.1 = last.1 := by
        by_contra hne
        exact (hapart mark (by simp) last (by simp) hne).not_ge hnear
      have hsub : ∀ m ∈ last :: rest, m ∈ last :: mark :: rest := by
        intro m hm
        rcases List.mem_cons.mp hm with rfl | hm
        · exact List.mem_cons_self
        · exact List.mem_cons_of_mem _ (List.mem_cons_of_mem _ hm)
      obtain ⟨hpair, hmem, hall⟩ := ih
        (List.pairwise_cons.mpr ⟨fun m hm => hlast m (List.mem_cons_of_mem _ hm),
          (List.pairwise_cons.mp hrest).2⟩)
        (fun m hm m' hm' => hapart m (hsub m hm) m' (hsub m' hm'))
      refine ⟨hpair, fun m hm => hsub m (hmem m hm), fun m hm => ?_⟩
      rcases List.mem_cons.mp hm with rfl | hm
      · exact hall _ List.mem_cons_self
      · rcases List.mem_cons.mp hm with rfl | hm
        · rw [hsame]
          exact hall _ List.mem_cons_self
        · exact hall m (List.mem_cons_of_mem _ hm)
    · next hfar =>
      obtain ⟨hpair, hmem, hall⟩ := ih hrest
        (fun m hm m' hm' => hapart m (List.mem_cons_of_mem _ hm) m' (List.mem_cons_of_mem _ hm'))
      have hlt : last.1 < mark.1 := by
        refine lt_of_le_of_ne (hlast mark List.mem_cons_self) fun heq => hfar ?_
        rw [heq, sub_self, abs_zero]
        unfold markEpsilon
        positivity
      refine ⟨List.pairwise_cons.mpr ⟨fun m hm => ?_, hpair⟩, fun m hm => ?_, fun m hm => ?_⟩
      · rcases List.mem_cons.mp (hmem m hm) with rfl | hm
        · exact hlt
        · exact hlt.trans_le ((List.pairwise_cons.mp hrest).1 m hm)
      · rcases List.mem_cons.mp hm with rfl | hm
        · exact List.mem_cons_self
        · exact List.mem_cons_of_mem _ (hmem m hm)
      · rcases List.mem_cons.mp hm with rfl | hm
        · exact ⟨_, List.mem_cons_self, rfl⟩
        · obtain ⟨m', hm', heq⟩ := hall m hm
          exact ⟨m', List.mem_cons_of_mem _ hm', heq⟩

/-- The marks of a split are the places of marks, in order, with the points of the ring there. -/
theorem IsRing.exists_augmented (h : IsRing hypot points)
    (hapart : MarksApart hypot points centers tabWidth) :
    ∃ keys : List K, keys.Pairwise (· < ·)
      ∧ (∀ s, s ∈ keys ↔ s ∈ marks hypot points centers tabWidth)
      ∧ augmented hypot points centers tabWidth
        = keys.map (placed hypot points) := by
  have hP := h.perimeter_pos
  have hmemIff : ∀ m, m ∈ (breaks hypot points centers tabWidth).insertionSort
      (fun a b => a.1 ≤ b.1) ↔ m ∈ breaks hypot points centers tabWidth :=
    fun m => (List.perm_insertionSort _ _).mem_iff
  have hspec : (augmented hypot points centers tabWidth).Pairwise (fun m m' => m.1 < m'.1)
      ∧ (∀ m ∈ augmented hypot points centers tabWidth, m ∈ breaks hypot points centers tabWidth)
      ∧ ∀ m ∈ breaks hypot points centers tabWidth,
        ∃ m' ∈ augmented hypot points centers tabWidth, m'.1 = m.1 := by
    have hsorted : ((breaks hypot points centers tabWidth).insertionSort
        (fun a b => a.1 ≤ b.1)).Pairwise fun m m' => m.1 ≤ m'.1 :=
      List.pairwise_insertionSort _ _
    unfold augmented
    simp only [← hmemIff]
    cases hlist : (breaks hypot points centers tabWidth).insertionSort (fun a b => a.1 ≤ b.1) with
    | nil => simp [dedupNear]
    | cons mark rest =>
      rw [hlist] at hsorted
      refine dedupAfter_spec hsorted fun m hm m' hm' hne => ?_
      have hmark : ∀ m ∈ mark :: rest, m.1 ∈ marks hypot points centers tabWidth :=
        fun m hm => List.mem_map_of_mem ((hmemIff m).mp (hlist ▸ hm))
      have hlt := hapart m.1 (hmark m hm) m'.1 (hmark m' hm') hne
      have hle := circularDistance_le hP m.1 m'.1 0
      have heps : (0 : K) < markEpsilon := by
        unfold markEpsilon
        positivity
      rw [Int.cast_zero, zero_mul, sub_zero] at hle
      linarith
  obtain ⟨hpair, hmem, hall⟩ := hspec
  refine ⟨(augmented hypot points centers tabWidth).map Prod.fst, hpair.map _ fun _ _ hlt => hlt,
    fun s => ?_, ?_⟩
  · unfold marks
    simp only [List.mem_map]
    constructor
    · rintro ⟨m, hm, rfl⟩
      exact ⟨m, hmem m hm, rfl⟩
    · rintro ⟨m, hm, rfl⟩
      obtain ⟨m', hm', heq⟩ := hall m hm
      exact ⟨m', hm', heq⟩
  · rw [List.map_map]
    refine (List.map_id _).symm.trans (List.map_congr_left fun m hm => ?_)
    have hmark : m.1 ∈ marks hypot points centers tabWidth := List.mem_map_of_mem (hmem m hm)
    exact Prod.ext (h.wrap_of_mem_marks hapart hmark).symm (h.snd_of_mem_breaks (hmem m hm))

end Marks

/-! ## The walk around the marks -/

section Walk

variable [IsStrictOrderedRing K] {hypot : K → K → K} {points : List (Point K)} {centers : List K}
  {tabWidth a b : K} {turn : List K}

/-- The middle of an edge, less whole turns. -/
theorem edgeIsGap_iff (hP : 0 < ringPerimeter hypot points) (hab : a < b)
    (hless : b - a < ringPerimeter hypot points) :
    edgeIsGap centers tabWidth (ringPerimeter hypot points) (placed hypot points a)
        (placed hypot points b) = true
      ↔ ∃ c ∈ centers, circularDistance (a + (b - a) / 2) c (ringPerimeter hypot points)
        < tabWidth / 2 - markEpsilon := by
  unfold edgeIsGap inTab placed
  set P := ringPerimeter hypot points
  have hlength : wrap (wrap b P - wrap a P) P = b - a := by
    have hturns : wrap b P - wrap a P = b - a + ((⌊a / P⌋ - ⌊b / P⌋ : ℤ) : K) * P := by
      rw [wrap_eq hP, wrap_eq hP]
      push_cast
      ring
    rw [hturns, wrap_add_mul hP, wrap_eq_self (by linarith) hless]
  have hmiddle : ∀ c, circularDistance (wrap (wrap a P + (b - a) / 2) P) c P
      = circularDistance (a + (b - a) / 2) c P := by
    intro c
    have hturns : wrap a P + (b - a) / 2 = a + (b - a) / 2 + ((-⌊a / P⌋ : ℤ) : K) * P := by
      rw [wrap_eq hP]
      push_cast
      ring
    rw [circularDistance_wrap hP, hturns, circularDistance_add_mul hP]
  simp only [List.any_eq_true, decide_eq_true_eq, hlength, hmiddle]

/-- The vertices of a ring are marks, but for the last one, which is the first one again. -/
theorem unmarked_vertex (h : IsRing hypot points)
    (hfree : ∀ s ∈ marks hypot points centers tabWidth,
      Unmarked (ringPerimeter hypot points) a b s) :
    ∀ v ∈ cumulativeArclengths hypot points, Unmarked (ringPerimeter hypot points) a b v := by
  intro v hv
  obtain ⟨p, q, rest, rfl⟩ := h.exists_cons_cons
  have hlast := getLast?_cumulativeFrom hypot 0 (p :: q :: rest)
  rw [zero_add] at hlast
  have hsplit := List.dropLast_append_getLast? _ (Option.mem_def.mpr hlast)
  unfold cumulativeArclengths at hv
  rw [← hsplit] at hv
  rcases List.mem_append.mp hv with hv | hv
  · exact hfree v ((mem_marks (List.cons_ne_nil _ _)).mpr (.inl hv))
  · obtain rfl := List.mem_singleton.mp hv
    rintro k ⟨hlow, hhigh⟩
    refine hfree 0 h.zero_mem_marks (k + 1) ?_
    push_cast
    exact ⟨by linarith, by linarith⟩

/-- The places of a split are those of the walk around the marks. -/
theorem arcs_of_turn (h : IsRing hypot points)
    (hturn : Turn (ringPerimeter hypot points) (marks hypot points centers tabWidth)
      (markEpsilon + markEpsilon) turn)
    (hgap : ∃ a b rest, turn = a :: b :: rest
      ∧ edgeIsGap centers tabWidth (ringPerimeter hypot points) (placed hypot points a)
        (placed hypot points b) = true) :
    Arcs hypot points centers tabWidth
      (walk (fun a b => edgeIsGap centers tabWidth (ringPerimeter hypot points)
        (placed hypot points a) (placed hypot points b)) (pairs turn) []) := by
  have hP := h.perimeter_pos
  have heps : (0 : K) < markEpsilon := by
    unfold markEpsilon
    positivity
  obtain ⟨p, q, l, hpoints⟩ := h.exists_cons_cons
  have hne : points ≠ [] := by
    rw [hpoints]
    exact List.cons_ne_nil _ _
  set gap := fun a b => edgeIsGap centers tabWidth (ringPerimeter hypot points)
    (placed hypot points a) (placed hypot points b) with hgapdef
  have hiff : ∀ e ∈ pairs turn, gap e.1 e.2 = true ↔ ∃ c ∈ centers,
      circularDistance (e.1 + (e.2 - e.1) / 2) c (ringPerimeter hypot points)
        < tabWidth / 2 - markEpsilon :=
    fun e he => edgeIsGap_iff hP (lt_of_mem_pairs hturn.ordered he) (hturn.less e he)
  -- the ends of a tab are marks
  have hends : ∀ e ∈ pairs turn, ∀ c ∈ centers,
      Unmarked (ringPerimeter hypot points) e.1 e.2 (c - tabWidth / 2)
        ∧ Unmarked (ringPerimeter hypot points) e.1 e.2 (c + tabWidth / 2) := by
    intro e he c hc
    constructor
    · exact .of_wrap hP (hturn.unmarked e he _ ((mem_marks hne).mpr (.inr ⟨c, hc, .inl rfl⟩)))
    · exact .of_wrap hP (hturn.unmarked e he _ ((mem_marks hne).mpr (.inr ⟨c, hc, .inr rfl⟩)))
  obtain ⟨a, b, rest, rfl, hfirst⟩ := hgap
  -- the walk starts with a gap, so it is a walk over the marks after the first one
  have hwalk : walk gap (pairs (a :: b :: rest)) [] = walk gap (pairs (b :: rest)) [] :=
    @walk_gap _ gap [] rest a b hfirst
  have hcuts : Cuts gap (b :: rest) (walk gap (pairs (a :: b :: rest)) []) :=
    hwalk ▸ walk_spec gap (b :: rest)
  have hsub : pairs (b :: rest) ⊆ pairs (a :: b :: rest) :=
    pairs_subset_of_part (List.suffix_cons a _).isInfix
  have hpairs : ∀ run ∈ walk gap (pairs (a :: b :: rest)) [], ∀ e ∈ pairs run,
      e ∈ pairs (a :: b :: rest) := fun run hrun e he =>
    hsub (pairs_subset_of_part (hcuts.part_of_mem run hrun) he)
  have hwithin : ∀ u ∈ (walk gap (pairs (a :: b :: rest)) []).flatten,
      ∀ v ∈ (walk gap (pairs (a :: b :: rest)) []).flatten,
      v < u + ringPerimeter hypot points := fun u hu v hv =>
    hturn.within u (hcuts.sublist.subset hu) v (hcuts.sublist.subset hv)
  refine ⟨hcuts.two_le, ?_, ?_, fun u hu v hv => (hwithin u hu v hv).le, fun _ => hwithin, ?_, ?_⟩
  · intro run hrun e he
    exact h.ringAt_between (lt_of_mem_pairs hturn.ordered (hpairs run hrun e he))
      (unmarked_vertex h (hturn.unmarked e (hpairs run hrun e he)))
  · exact (List.pairwise_cons.mp hturn.ordered).2.sublist hcuts.sublist
  · intro run hrun e he v hlow hhigh c hc
    have hmem := hpairs run hrun e he
    obtain ⟨hstart, hend⟩ := hends e hmem c hc
    refine hstart.beside hP hend (hturn.apart e hmem) ?_ ⟨hlow, hhigh⟩
    by_contra hlt
    have htrue := (hiff e hmem).mpr ⟨c, hc, not_le.mp hlt⟩
    rw [hcuts.kept run hrun e he] at htrue
    cases htrue
  · intro u hu
    obtain ⟨e, he, k, hlow, hhigh⟩ := hturn.around u
    have hkept : gap e.1 e.2 = false := by
      by_contra hgap
      obtain ⟨c, hc, hlt⟩ := (hiff e he).mp (Bool.eq_true_of_not_eq_false hgap)
      obtain ⟨hstart, hend⟩ := hends e he c hc
      have hlong := hturn.apart e he
      obtain ⟨j, hj⟩ := hstart.inside hP hend (u := e.1 + (e.2 - e.1) / 2)
        ⟨by linarith, by linarith⟩ (by linarith) ⟨hlow, hhigh⟩
      have hnear : circularDistance (u + k * ringPerimeter hypot points) c
          (ringPerimeter hypot points) ≤ tabWidth / 2 :=
        (circularDistance_le hP _ _ j).trans (abs_le.mpr ⟨by linarith, by linarith⟩)
      rw [circularDistance_add_mul hP] at hnear
      exact (hu c hc).not_ge hnear
    have hrest : e ∈ pairs (b :: rest) := by
      rcases List.mem_cons.mp he with rfl | he
      · rw [show gap a b = true from hfirst] at hkept
        cases hkept
      · exact he
    obtain ⟨run, hrun, hmem⟩ := hcuts.covers e hrest hkept
    exact ⟨run, hrun, e, hmem, k, hlow, hhigh⟩

end Walk

/-! ## The split -/

section Split

variable [IsStrictOrderedRing K] {hypot : K → K → K} {points : List (Point K)} {centers : List K}
  {tabWidth : K}

/-- A turn more is the same place. -/
theorem placed_add (hP : 0 < ringPerimeter hypot points) (u : K) :
    placed hypot points (u + ringPerimeter hypot points) = placed hypot points u := by
  have hwrap := wrap_add_mul hP u 1
  rw [Int.cast_one, one_mul] at hwrap
  unfold placed ringAt
  rw [hwrap]

/-- The two ends of a tab that is shorter than the ring are not one place. -/
theorem wrap_ends_ne {p c : K} (hp : 0 < p) (hw : 0 < tabWidth) (hless : tabWidth < p) :
    wrap (c - tabWidth / 2) p ≠ wrap (c + tabWidth / 2) p := by
  rw [wrap_eq hp, wrap_eq hp]
  intro heq
  have hturns : tabWidth
      = ((⌊(c + tabWidth / 2) / p⌋ - ⌊(c - tabWidth / 2) / p⌋ : ℤ) : K) * p := by
    push_cast
    linarith
  generalize ⌊(c + tabWidth / 2) / p⌋ - ⌊(c - tabWidth / 2) / p⌋ = k at hturns
  have h0 : (0 : K) * p < k * p := by linarith
  have h1 : (k : K) * p < 1 * p := by linarith
  have hk0 : 0 < k := by exact_mod_cast lt_of_mul_lt_mul_right h0 hp.le
  have hk1 : k < 1 := by exact_mod_cast lt_of_mul_lt_mul_right h1 hp.le
  omega

/-- The middle of a tab is in a gap. -/
theorem exists_gap {turn : List K} {c : K} (h : IsRing hypot points)
    (hturn : Turn (ringPerimeter hypot points) (marks hypot points centers tabWidth)
      (markEpsilon + markEpsilon) turn) (hc : c ∈ centers) (hw : 0 < tabWidth) :
    ∃ e ∈ pairs turn, edgeIsGap centers tabWidth (ringPerimeter hypot points)
      (placed hypot points e.1) (placed hypot points e.2) = true := by
  have hP := h.perimeter_pos
  obtain ⟨p, q, l, hpoints⟩ := h.exists_cons_cons
  have hne : points ≠ [] := hpoints ▸ List.cons_ne_nil _ _
  obtain ⟨e, he, k, haround⟩ := hturn.around c
  refine ⟨e, he, (edgeIsGap_iff hP (lt_of_mem_pairs hturn.ordered he) (hturn.less e he)).mpr
    ⟨c, hc, ?_⟩⟩
  by_contra hfar
  have hbeside := Unmarked.beside hP
    (.of_wrap hP (hturn.unmarked e he _ ((mem_marks hne).mpr (.inr ⟨c, hc, .inl rfl⟩))))
    (.of_wrap hP (hturn.unmarked e he _ ((mem_marks hne).mpr (.inr ⟨c, hc, .inr rfl⟩))))
    (hturn.apart e he) (not_lt.mp hfar) haround
  have hnear := circularDistance_le hP c c 0
  rw [circularDistance_add_mul hP] at hbeside
  rw [Int.cast_zero, zero_mul, sub_self, sub_zero, abs_zero] at hnear
  linarith

/-- **With some tabs, and less of them than there is ring,** the split leaves out the tabs. -/
theorem splits_of_tabs (h : IsRing hypot points) (hlen : 4 ≤ points.length)
    (hcenters : centers ≠ []) (hw : 0 < tabWidth)
    (hfew : tabWidth * centers.length < ringPerimeter hypot points)
    (hapart : MarksApart hypot points centers tabWidth) :
    Splits hypot points centers tabWidth (splitRingAtTabs hypot points centers tabWidth) := by
  have hP := h.perimeter_pos
  obtain ⟨keys, hkeys, hmem, haug⟩ := h.exists_augmented hapart
  obtain ⟨c, rest, rfl⟩ := List.exists_cons_of_ne_nil hcenters
  have hless : tabWidth < ringPerimeter hypot points := by
    refine lt_of_le_of_lt (le_mul_of_one_le_right hw.le ?_) hfew
    rw [List.length_cons]
    push_cast
    exact le_add_of_nonneg_left (Nat.cast_nonneg _)
  obtain ⟨p, q, l, hpoints⟩ := h.exists_cons_cons
  have hne : points ≠ [] := hpoints ▸ List.cons_ne_nil _ _
  have hends : wrap (c - tabWidth / 2) (ringPerimeter hypot points) ∈ keys
      ∧ wrap (c + tabWidth / 2) (ringPerimeter hypot points) ∈ keys := by
    constructor
    · exact (hmem _).mpr ((mem_marks hne).mpr (.inr ⟨c, List.mem_cons_self, .inl rfl⟩))
    · exact (hmem _).mpr ((mem_marks hne).mpr (.inr ⟨c, List.mem_cons_self, .inr rfl⟩))
  have hturn : ∀ i < keys.length, Turn (ringPerimeter hypot points)
      (marks hypot points (c :: rest) tabWidth) (markEpsilon + markEpsilon)
      (turned (ringPerimeter hypot points) keys i) := by
    intro i hi
    have hkeysTurn := turned_spec hP hkeys
      (fun s hs => h.bounds_of_mem_marks hapart ((hmem s).mp hs))
      (fun s hs s' hs' => hapart s ((hmem s).mp hs) s' ((hmem s').mp hs'))
      ⟨_, hends.1, _, hends.2, wrap_ends_ne hP hw hless⟩ hi
    exact { hkeysTurn with
      unmarked := fun e he s hs => hkeysTurn.unmarked e he s ((hmem s).mpr hs) }
  have hedges : ∀ i < keys.length,
      pairs ((turned (ringPerimeter hypot points) keys i).map (placed hypot points))
        = (((keys.map (placed hypot points)).zip
          ((keys.map (placed hypot points)).rotate 1)).rotate i) :=
    fun i hi => pairs_turned (placed_add hP) hi
  have hi0 : 0 < keys.length := List.length_pos_of_mem hends.1
  have hsome : ∃ e ∈ (keys.map (placed hypot points)).zip
      ((keys.map (placed hypot points)).rotate 1),
      edgeIsGap (c :: rest) tabWidth (ringPerimeter hypot points) e.1 e.2 = true := by
    obtain ⟨e, he, hgap⟩ := exists_gap h (hturn 0 hi0) List.mem_cons_self hw
    refine ⟨(placed hypot points e.1, placed hypot points e.2), ?_, hgap⟩
    rw [← List.rotate_zero (List.zip _ _), ← hedges 0 hi0, pairs_map]
    exact List.mem_map_of_mem he
  unfold splitRingAtTabs
  simp only
  rw [if_neg (by push Not; exact ⟨hlen, hP⟩), if_neg (by
    simp only [List.isEmpty_cons, Bool.false_eq_true, false_or, not_le]
    exact half_pos hw), if_neg hfew.not_ge, haug]
  cases hfind : ((keys.map (placed hypot points)).zip
      ((keys.map (placed hypot points)).rotate 1)).findIdx? fun e =>
      edgeIsGap (c :: rest) tabWidth (ringPerimeter hypot points) e.1 e.2 with
  | none =>
    obtain ⟨e, he, hgap⟩ := hsome
    have hfalse := List.findIdx?_eq_none_iff.mp hfind e he
    rw [hgap] at hfalse
    cases hfalse
  | some i =>
    obtain ⟨hi, hgap, _⟩ := List.findIdx?_eq_some_iff_getElem.mp hfind
    have hikeys : i < keys.length := by
      simpa using hi
    obtain ⟨a, b, rest', hab⟩ : ∃ a b rest',
        turned (ringPerimeter hypot points) keys i = a :: b :: rest' := by
      obtain ⟨e, he, _⟩ := (hturn i hikeys).around 0
      generalize turned (ringPerimeter hypot points) keys i = turn at he
      cases turn with
      | nil => cases he
      | cons a turn =>
        cases turn with
        | nil => cases he
        | cons b turn => exact ⟨a, b, turn, rfl⟩
    -- the gap that the walk starts with
    have hfirst : edgeIsGap (c :: rest) tabWidth (ringPerimeter hypot points)
        (placed hypot points a) (placed hypot points b) = true := by
      have hrotate := hedges i hikeys
      rw [hab, List.rotate_eq_drop_append_take hi.le, List.drop_eq_getElem_cons hi] at hrotate
      rw [← (List.cons.inj hrotate).1] at hgap
      exact hgap
    refine ⟨_, arcs_of_turn h (hturn i hikeys) ⟨a, b, rest', hab, hfirst⟩, ?_⟩
    show (walk _ (List.rotate _ i) []).map _ = _
    have hwalk := walk_map (placed hypot points)
      (edgeIsGap (c :: rest) tabWidth (ringPerimeter hypot points))
      (pairs (turned (ringPerimeter hypot points) keys i)) []
    rw [← hedges i hikeys, pairs_map]
    show (walk _ _ (List.map (placed hypot points) [])).map _ = _
    rw [hwalk, List.map_map]
    refine List.map_congr_left fun run _ => ?_
    show RingPath.mk ((run.map (placed hypot points)).map Prod.snd) = _
    rw [List.map_map]
    rfl

/-- The points of a ring are at its vertices. -/
theorem IsRing.map_ringAt (h : IsRing hypot points) :
    (cumulativeArclengths hypot points).map (ringAt hypot points) = points := by
  have hlength : (cumulativeArclengths hypot points).length = points.length := by
    obtain ⟨p, q, l, rfl⟩ := h.exists_cons_cons
    exact length_cumulativeFrom _ _ _
  have hfst := List.map_fst_zip hlength.le
  have hsnd := List.map_snd_zip hlength.ge
  calc (cumulativeArclengths hypot points).map (ringAt hypot points)
      = (((cumulativeArclengths hypot points).zip points).map Prod.fst).map
          (ringAt hypot points) := by rw [hfst]
    _ = ((cumulativeArclengths hypot points).zip points).map Prod.snd := by
        rw [List.map_map]
        exact List.map_congr_left fun e he => h.ringAt_vertex he
    _ = points := hsnd

/-- The whole ring is a run, if no vertex is the same as the one before. -/
theorem IsRing.arcs_vertices (h : IsRing hypot points) (hne : points.IsChain (· ≠ ·)) :
    Arcs hypot points [] tabWidth [cumulativeArclengths hypot points] := by
  have hP := h.perimeter_pos
  obtain ⟨p, q, l, hpoints⟩ := h.exists_cons_cons
  have hordered : (cumulativeArclengths hypot points).Pairwise (· < ·) :=
    h.lawful.pairwise_lt_cumulativeFrom 0 hne
  have hbounds : ∀ v ∈ cumulativeArclengths hypot points,
      0 ≤ v ∧ v ≤ ringPerimeter hypot points := by
    intro v hv
    simpa using h.lawful.mem_cumulativeFrom hv
  refine ⟨?_, ?_, ?_, ?_, fun hcenters => absurd rfl hcenters, ?_, ?_⟩
  · intro run hrun
    obtain rfl := List.mem_singleton.mp hrun
    rw [hpoints]
    exact (Nat.le_add_left 2 _).trans_eq (length_cumulativeFrom 0 p (q :: l)).symm
  · intro run hrun e he
    obtain rfl := List.mem_singleton.mp hrun
    have ha := hbounds _ (mem_of_mem_pairs he).1
    have hb := hbounds _ (mem_of_mem_pairs he).2
    refine h.ringAt_between (lt_of_mem_pairs hordered he) fun v hv k hk => ?_
    have hv' := hbounds v hv
    -- another turn of a vertex is not within the turn
    have hk0 : -1 < k := by
      have hlt : (-1 : K) * ringPerimeter hypot points < k * ringPerimeter hypot points := by
        linarith
      exact_mod_cast lt_of_mul_lt_mul_right hlt hP.le
    have hk1 : k < 1 := by
      have hlt : (k : K) * ringPerimeter hypot points < 1 * ringPerimeter hypot points := by
        linarith
      exact_mod_cast lt_of_mul_lt_mul_right hlt hP.le
    obtain rfl : k = 0 := by omega
    rw [Int.cast_zero, zero_mul, add_zero] at hk
    exact not_between_of_mem_pairs hordered he hv hk
  · simpa using hordered
  · intro u hu v hv
    rw [List.flatten_singleton] at hu hv
    linarith [(hbounds u hu).1, (hbounds v hv).2]
  · intro _ _ _ _ _ _ _ c hc
    cases hc
  · intro u _
    refine ⟨_, List.mem_singleton_self _, ?_⟩
    have hlast := getLast?_cumulativeFrom hypot 0 points
    have h0 := wrap_nonneg (s := u) hP
    have h1 := (wrap_lt (s := u) hP).le
    rw [wrap_eq hP] at h0 h1
    rw [zero_add] at hlast
    subst hpoints
    obtain ⟨e, he, haround⟩ := exists_pair_around (x := (0 : K))
      (u := u + ((-⌊u / ringPerimeter hypot (p :: q :: l)⌋ : ℤ) : K)
        * ringPerimeter hypot (p :: q :: l))
      (cumulativeFrom hypot (0 + Travel.distanceTo hypot p q) (q :: l)) (by
        obtain ⟨cum, hcum⟩ := exists_cumulativeFrom hypot
          (0 + Travel.distanceTo hypot p q) (q :: l)
        rw [hcum]
        exact List.cons_ne_nil _ _) (by push_cast; linarith) (fun z hz => by
        obtain rfl := Option.some.inj (hlast.symm.trans hz)
        push_cast
        linarith)
    exact ⟨e, he, _, haround⟩

/-- With no tabs, the split is right if and only if the ring does not rest at a vertex. -/
theorem splits_nil_iff (h : IsRing hypot points) (hlen : 4 ≤ points.length) :
    Splits hypot points [] tabWidth (splitRingAtTabs hypot points [] tabWidth)
      ↔ points.IsChain (· ≠ ·) := by
  have hwhole : splitRingAtTabs hypot points [] tabWidth = [⟨points⟩] := by
    unfold splitRingAtTabs
    simp only
    rw [if_neg (by push Not; exact ⟨hlen, h.perimeter_pos⟩), if_pos (.inl rfl)]
  rw [hwhole]
  constructor
  · rintro ⟨runs, harcs, hpaths⟩
    obtain ⟨run, rfl, hrun⟩ := List.map_eq_singleton_iff.mp hpaths.symm
    have hpoints : run.map (ringAt hypot points) = points := congrArg RingPath.points hrun
    rw [← hpoints, List.isChain_map, isChain_iff_pairs]
    exact fun e he => (harcs.straight run (List.mem_singleton_self _) e he).1
  · intro hne
    refine ⟨_, h.arcs_vertices hne, ?_⟩
    rw [List.map_singleton, h.map_ringAt]

/-- With as much of tabs as there is ring nothing is cut, which is right if and only if the tabs
are all around it. -/
theorem splits_iff_tabsCover (h : IsRing hypot points) (hlen : 4 ≤ points.length)
    (hcenters : centers ≠ []) (hw : 0 < tabWidth)
    (hmany : ringPerimeter hypot points ≤ tabWidth * centers.length) :
    Splits hypot points centers tabWidth (splitRingAtTabs hypot points centers tabWidth)
      ↔ TabsCover hypot points centers tabWidth := by
  have hnone : splitRingAtTabs hypot points centers tabWidth = [] := by
    unfold splitRingAtTabs
    simp only
    rw [if_neg (by push Not; exact ⟨hlen, h.perimeter_pos⟩), if_neg (by
      rw [List.isEmpty_iff]
      push Not
      exact ⟨hcenters, half_pos hw⟩), if_pos hmany]
  rw [hnone]
  constructor
  · rintro ⟨runs, harcs, hpaths⟩ u
    obtain rfl := List.map_eq_nil_iff.mp hpaths.symm
    by_contra hout
    push Not at hout
    obtain ⟨run, hrun, _⟩ := harcs.covers u hout
    cases hrun
  · intro hcover
    refine ⟨[], ⟨by simp, by simp, by simp, by simp, by simp, by simp, fun u hout => ?_⟩, rfl⟩
    obtain ⟨c, hc, hnear⟩ := hcover u
    exact absurd hnear (hout c hc).not_ge

end Split

/-! ### Real rings -/

section Real

variable {points : List (Point ℝ)} {centers : List ℝ} {tabWidth : ℝ}

/-- The hypotenuse is one. -/
theorem lawfulHypot_hypotenuse : LawfulHypot Travel.hypotenuse := by
  refine ⟨fun x y => Real.sqrt_nonneg _, fun x y h => ?_, ?_⟩
  · have hsum := (Real.sqrt_eq_zero (add_nonneg (mul_self_nonneg x) (mul_self_nonneg y))).mp h
    obtain ⟨hx, hy⟩ := (add_eq_zero_iff_of_nonneg (mul_self_nonneg x) (mul_self_nonneg y)).mp hsum
    exact ⟨mul_self_eq_zero.mp hx, mul_self_eq_zero.mp hy⟩
  · simp [Travel.hypotenuse]

/-- **A ring is split at its tabs** if and only if it does not rest at a vertex where there are no
tabs, and the tabs either take up less than there is of the ring or are all around it. -/
theorem splits_iff (hlen : 4 ≤ points.length) (hclosed : points.head? = points.getLast?)
    (hperimeter : 0 < ringPerimeter Travel.hypotenuse points) (hw : 0 < tabWidth)
    (hapart : MarksApart Travel.hypotenuse points centers tabWidth) :
    Splits Travel.hypotenuse points centers tabWidth
        (splitRingAtTabs Travel.hypotenuse points centers tabWidth)
      ↔ (centers = [] → points.IsChain (· ≠ ·))
        ∧ (tabWidth * centers.length < ringPerimeter Travel.hypotenuse points
          ∨ TabsCover Travel.hypotenuse points centers tabWidth) := by
  have hring : IsRing Travel.hypotenuse points := ⟨lawfulHypot_hypotenuse, hclosed, hperimeter⟩
  by_cases hcenters : centers = []
  · subst hcenters
    rw [splits_nil_iff hring hlen]
    simp [hperimeter]
  · rcases lt_or_ge (tabWidth * centers.length) (ringPerimeter Travel.hypotenuse points) with
      hfew | hmany
    · have hsplits := splits_of_tabs hring hlen hcenters hw hfew hapart
      simp [hsplits, hcenters, hfew]
    · rw [splits_iff_tabsCover hring hlen hcenters hw hmany]
      simp [hcenters, hmany.not_gt]

/-- A square. -/
def square (side : ℝ) : List (Point ℝ) :=
  [⟨0, 0⟩, ⟨side, 0⟩, ⟨side, side⟩, ⟨0, side⟩, ⟨0, 0⟩]

theorem cumulativeArclengths_square :
    cumulativeArclengths Travel.hypotenuse (square 10) = [0, 10, 20, 30, 40] := by
  have hside : √(10 * 10 : ℝ) = 10 := Real.sqrt_mul_self (by norm_num)
  simp only [cumulativeArclengths, square, cumulativeFrom, Travel.distanceTo, Travel.hypotenuse]
  norm_num [hside]

theorem ringPerimeter_square : ringPerimeter Travel.hypotenuse (square 10) = 40 := by
  have hlast := getLast?_cumulativeFrom Travel.hypotenuse 0 (square 10)
  rw [zero_add, ← cumulativeArclengths, cumulativeArclengths_square] at hlast
  exact (Option.some.inj hlast).symm

theorem isRing_square : IsRing Travel.hypotenuse (square 10) :=
  ⟨lawfulHypot_hypotenuse, rfl, by rw [ringPerimeter_square]; norm_num⟩

/-- The marks of a tab of two millimetres in the middle of the first side are apart. -/
theorem marksApart_square : MarksApart Travel.hypotenuse (square 10) [5] 2 := by
  have hmarks : marks Travel.hypotenuse (square 10) [5] 2 = [0, 10, 20, 30, 4, 6] := by
    simp only [marks, breaks, ringPerimeter_square, cumulativeArclengths_square]
    have hlow : wrap (5 - 1 : ℝ) 40 = 4 := by
      rw [wrap_eq_self] <;> norm_num
    have hhigh : wrap (5 + 1 : ℝ) 40 = 6 := by
      rw [wrap_eq_self] <;> norm_num
    simp [square, hlow, hhigh]
  unfold MarksApart
  rw [hmarks, ringPerimeter_square]
  have hfar : ∀ s ∈ [0, 10, 20, 30, 4, (6 : ℝ)], ∀ s' ∈ [0, 10, 20, 30, 4, (6 : ℝ)], s ≠ s' →
      2 ≤ |s - s'| ∧ |s - s'| ≤ 30 := by
    simp only [List.mem_cons, List.not_mem_nil, or_false]
    rintro s (rfl | rfl | rfl | rfl | rfl | rfl) s' (rfl | rfl | rfl | rfl | rfl | rfl) hne <;>
      first | exact absurd rfl hne | (norm_num [abs_le, le_abs])
  intro s hs s' hs' hne
  obtain ⟨h2, h30⟩ := hfar s hs s' hs' hne
  rw [circularDistance_of_lt (h30.trans_lt (by norm_num)), lt_min_iff]
  unfold markEpsilon
  constructor
  · refine lt_of_lt_of_le ?_ h2
    norm_num
  · linarith

/-- The square is split at such a tab. -/
theorem splits_iff_square : Splits Travel.hypotenuse (square 10) [5] 2
    (splitRingAtTabs Travel.hypotenuse (square 10) [5] 2) := by
  refine (splits_iff (by decide) rfl isRing_square.perimeter_pos two_pos marksApart_square).mpr
    ⟨fun h => absurd h (List.cons_ne_nil _ _), .inl ?_⟩
  rw [ringPerimeter_square]
  norm_num

/-- Two tabs at one place, of half the ring, cut nothing of the other half. -/
theorem not_splits_twice :
    ¬Splits Travel.hypotenuse (square 10) [0, 0] 20
      (splitRingAtTabs Travel.hypotenuse (square 10) [0, 0] 20) := by
  rw [splits_iff_tabsCover isRing_square (by decide) (List.cons_ne_nil _ _) (by norm_num) (by
    rw [ringPerimeter_square]
    norm_num)]
  intro hcover
  obtain ⟨c, hc, hnear⟩ := hcover 20
  obtain rfl : c = 0 := by simpa using hc
  rw [ringPerimeter_square, circularDistance_of_lt (by norm_num)] at hnear
  norm_num at hnear

end Real

end Galdr.Eitri.Cutout
