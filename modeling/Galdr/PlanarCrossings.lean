import Mathlib

/-!
# Segments that cross

Two segments of the plane cross properly if each has its ends strictly on both sides of the
other. Segments that meet at an inner point of both and are not parallel do
(`properCrossing_of_meet`). So an edge that a link does not cross properly either misses a piece
of the link that none of its ends lies in, or runs along the whole of it (`edge_along`).

A closed set whose frontier is made of such edges holds all of a piece, or nothing of it but its
ends (`segment_subset_of_midpoint`). A link is within the set exactly if the middles of all its
pieces are (`segment_subset_iff`).
-/

namespace Galdr.Planar

/-! ## Crossings -/

section Crossing

variable {K : Type*} [CommRing K]

/-- The cross product of two vectors. -/
def cross (u v : K × K) : K := u.1 * v.2 - u.2 * v.1

/-- Twice the area of the triangle `a b c`: positive, if the turn at `b` is to the left. -/
def orient (a b c : K × K) : K := cross (b - a) (c - a)

variable [LinearOrder K]

/-- Each of two segments has its ends on the two sides of the other. -/
def ProperCrossing (a b c d : K × K) : Prop :=
  orient a b c * orient a b d < 0 ∧ orient c d a * orient c d b < 0

instance (a b c d : K × K) : Decidable (ProperCrossing a b c d) :=
  inferInstanceAs (Decidable (_ ∧ _))

end Crossing

open AffineMap in
theorem properCrossing_of_meet {a b c d : ℝ × ℝ} {t u : ℝ} (ht : t ∈ Set.Ioo (0 : ℝ) 1)
    (hu : u ∈ Set.Ioo (0 : ℝ) 1) (hmeet : lineMap a b t = lineMap c d u)
    (hcross : cross (b - a) (d - c) ≠ 0) : ProperCrossing a b c d := by
  rw [lineMap_apply_module', lineMap_apply_module', Prod.ext_iff] at hmeet
  obtain ⟨hx, hy⟩ := hmeet
  simp only [Prod.fst_add, Prod.snd_add, Prod.smul_fst, Prod.smul_snd, Prod.fst_sub, Prod.snd_sub,
    smul_eq_mul] at hx hy
  have hsq : 0 < cross (b - a) (d - c) ^ 2 := by positivity
  have hc : orient a b c = -u * cross (b - a) (d - c) := by
    simp only [orient, cross, Prod.fst_sub, Prod.snd_sub]
    linear_combination (b.2 - a.2) * hx - (b.1 - a.1) * hy
  have hd : orient a b d = (1 - u) * cross (b - a) (d - c) := by
    simp only [orient, cross, Prod.fst_sub, Prod.snd_sub]
    linear_combination (b.2 - a.2) * hx - (b.1 - a.1) * hy
  have ha : orient c d a = t * cross (b - a) (d - c) := by
    simp only [orient, cross, Prod.fst_sub, Prod.snd_sub]
    linear_combination (d.1 - c.1) * hy - (d.2 - c.2) * hx
  have hb : orient c d b = -(1 - t) * cross (b - a) (d - c) := by
    simp only [orient, cross, Prod.fst_sub, Prod.snd_sub]
    linear_combination (d.1 - c.1) * hy - (d.2 - c.2) * hx
  constructor
  · rw [hc, hd]
    nlinarith [mul_pos (mul_pos hu.1 (sub_pos.2 hu.2)) hsq]
  · rw [ha, hb]
    nlinarith [mul_pos (mul_pos ht.1 (sub_pos.2 ht.2)) hsq]

/-- A vector parallel to one that is not zero is a multiple of it. -/
theorem exists_smul_of_cross_eq_zero {u v : ℝ × ℝ} (hu : u ≠ 0) (h : cross u v = 0) :
    ∃ k : ℝ, v = k • u := by
  unfold cross at h
  by_cases hx : u.1 = 0
  · have hy : u.2 ≠ 0 := fun hy => hu (Prod.ext hx hy)
    refine ⟨v.2 / u.2, Prod.ext ?_ ?_⟩
    · rw [hx, zero_mul, zero_sub, neg_eq_zero] at h
      rw [Prod.smul_fst, hx, smul_zero]
      exact (mul_eq_zero.1 h).resolve_left hy
    · rw [Prod.smul_snd, smul_eq_mul, div_mul_cancel₀ _ hy]
  · refine ⟨v.1 / u.1, Prod.ext ?_ ?_⟩
    · rw [Prod.smul_fst, smul_eq_mul, div_mul_cancel₀ _ hx]
    · rw [Prod.smul_snd, smul_eq_mul]
      field_simp
      linarith

section Pieces

variable {a b : ℝ × ℝ} {p q : ℝ}

open AffineMap in
/-- **Along an edge.** An edge that is not crossed properly, and meets a piece of the link in which
none of its ends lies, runs along the piece. -/
theorem edge_along {c d : ℝ × ℝ} (hab : a ≠ b) (hp : 0 ≤ p) (hq : q ≤ 1)
    (hproper : ¬ProperCrossing a b c d) (hc : c ∉ lineMap a b '' Set.Ioo p q)
    (hd : d ∉ lineMap a b '' Set.Ioo p q) {t : ℝ} (ht : t ∈ Set.Ioo p q)
    (hmeet : lineMap a b t ∈ segment ℝ c d) :
    ∀ s ∈ Set.Ioo p q, lineMap a b s ∈ segment ℝ c d := by
  rw [segment_eq_image_lineMap] at hmeet
  obtain ⟨u, hu, hmeet⟩ := hmeet
  -- the meeting point is no end of the edge
  have hu₀ : u ≠ 0 := fun h => hc ⟨t, ht, by rw [← hmeet, h, lineMap_apply_zero]⟩
  have hu₁ : u ≠ 1 := fun h => hd ⟨t, ht, by rw [← hmeet, h, lineMap_apply_one]⟩
  have huIoo : u ∈ Set.Ioo (0 : ℝ) 1 := ⟨hu.1.lt_of_ne' hu₀, hu.2.lt_of_ne hu₁⟩
  have hparallel : cross (b - a) (d - c) = 0 := by
    by_contra hcross
    exact hproper (properCrossing_of_meet ⟨hp.trans_lt ht.1, ht.2.trans_le hq⟩ huIoo hmeet.symm
      hcross)
  obtain ⟨k, hk⟩ := exists_smul_of_cross_eq_zero (sub_ne_zero.2 hab.symm) hparallel
  -- the ends of the edge are at `t - u k` and `t + (1 - u) k` along the link
  have hedge : ∀ w : ℝ, lineMap c d w = lineMap a b (t + (w - u) * k) := by
    intro w
    have hbase : lineMap c d w = lineMap a b t + (w - u) • (d - c) := by
      rw [← hmeet, lineMap_apply_module', lineMap_apply_module']
      module
    rw [hbase, hk, lineMap_apply_module', lineMap_apply_module']
    module
  set γ := t + (0 - u) * k with hγ
  set δ := t + (1 - u) * k with hδ
  have hγc : lineMap a b γ = c := by rw [← hedge, lineMap_apply_zero]
  have hδd : lineMap a b δ = d := by rw [← hedge, lineMap_apply_one]
  have hγ' : γ ∉ Set.Ioo p q := fun h => hc ⟨γ, h, hγc⟩
  have hδ' : δ ∉ Set.Ioo p q := fun h => hd ⟨δ, h, hδd⟩
  intro s hs
  have hmem : s ∈ segment ℝ γ δ := by
    rw [segment_eq_uIcc]
    rcases le_total 0 k with hk | hk
    · have hlow : γ ≤ p := le_of_not_gt fun h => hγ' ⟨h, by nlinarith [ht.2, huIoo.1]⟩
      have hhigh : q ≤ δ := le_of_not_gt fun h => hδ' ⟨by nlinarith [ht.1, huIoo.2], h⟩
      exact Set.mem_uIcc_of_le (hlow.trans hs.1.le) (hs.2.le.trans hhigh)
    · have hlow : δ ≤ p := le_of_not_gt fun h => hδ' ⟨h, by nlinarith [ht.2, huIoo.2]⟩
      have hhigh : q ≤ γ := le_of_not_gt fun h => hγ' ⟨by nlinarith [ht.1, huIoo.1], h⟩
      exact Set.mem_uIcc_of_ge (hlow.trans hs.1.le) (hs.2.le.trans hhigh)
  rw [← hγc, ← hδd, ← image_segment]
  exact Set.mem_image_of_mem _ hmem

/-- A closed set of numbers whose frontier misses an interval holds it, with its ends, if it holds
one of its points. -/
theorem Icc_subset_of_frontier {S : Set ℝ} (hclosed : IsClosed S) {m : ℝ} (hm : m ∈ Set.Ioo p q)
    (hmS : m ∈ S) (hfrontier : ∀ s ∈ Set.Ioo p q, s ∉ frontier S) : Set.Icc p q ⊆ S := by
  have hpq : p < q := hm.1.trans hm.2
  have hcover : Set.Ioo p q ⊆ interior S ∪ Sᶜ := by
    intro s hs
    by_cases hS : s ∈ S
    · refine .inl (by_contra fun hint => hfrontier s hs ?_)
      rw [hclosed.frontier_eq]
      exact ⟨hS, hint⟩
    · exact .inr hS
  have hdisjoint : Disjoint (interior S) Sᶜ :=
    Set.disjoint_compl_right_iff_subset.2 interior_subset
  have hIoo : Set.Ioo p q ⊆ S := by
    rcases isPreconnected_Ioo.subset_or_subset isOpen_interior hclosed.isOpen_compl hdisjoint hcover
      with h | h
    · exact h.trans interior_subset
    · exact absurd hmS (h hm)
  rw [← closure_Ioo hpq.ne]
  exact hclosed.closure_subset_iff.2 hIoo

variable {S : Set (ℝ × ℝ)} {edges : List ((ℝ × ℝ) × (ℝ × ℝ))}

open AffineMap in
/-- **A piece of a link.** If the frontier of a closed set is made of edges that lie in it and do
not cross the link, a piece of the link in which no end of an edge lies is in the set, if its
middle is. -/
theorem piece_subset_of_midpoint (hclosed : IsClosed S)
    (hfrontier : ∀ z ∈ frontier S, ∃ e ∈ edges, z ∈ segment ℝ e.1 e.2)
    (hedges : ∀ e ∈ edges, segment ℝ e.1 e.2 ⊆ S) (hab : a ≠ b) (hp : 0 ≤ p) (hq : q ≤ 1)
    (hproper : ∀ e ∈ edges, ¬ProperCrossing a b e.1 e.2)
    (hends : ∀ e ∈ edges, e.1 ∉ lineMap a b '' Set.Ioo p q ∧ e.2 ∉ lineMap a b '' Set.Ioo p q)
    (hpq : p < q) (hmid : lineMap a b ((p + q) / 2) ∈ S) :
    ∀ s ∈ Set.Icc p q, lineMap a b s ∈ S := by
  have hcont : Continuous (lineMap a b : ℝ → ℝ × ℝ) := lineMap_continuous
  have hclosed' : IsClosed (Set.preimage (lineMap a b : ℝ → ℝ × ℝ) S) := hclosed.preimage hcont
  by_cases hmeet : ∃ t ∈ Set.Ioo p q, ∃ e ∈ edges, lineMap a b t ∈ segment ℝ e.1 e.2
  · obtain ⟨t, ht, e, he, hmem⟩ := hmeet
    have hIoo : Set.Ioo p q ⊆ Set.preimage (lineMap a b : ℝ → ℝ × ℝ) S := fun s hs =>
      hedges e he (edge_along hab hp hq (hproper e he) (hends e he).1 (hends e he).2 ht hmem s hs)
    intro s hs
    rw [← closure_Ioo hpq.ne] at hs
    exact hclosed'.closure_subset_iff.2 hIoo hs
  · refine fun s hs => Icc_subset_of_frontier hclosed' (m := (p + q) / 2)
      ⟨by linarith, by linarith⟩ hmid (fun t ht hfr => hmeet ?_) hs
    obtain ⟨e, he, hmem⟩ := hfrontier _ (hcont.frontier_preimage_subset S hfr)
    exact ⟨t, ht, e, he, hmem⟩

/-! ## The pieces of a link -/

/-- Where a link is cut: at its ends, and at the ends of edges on it. -/
def Stop (edges : List ((ℝ × ℝ) × (ℝ × ℝ))) (a b v : ℝ × ℝ) : Prop :=
  v = a ∨ v = b ∨ v ∈ openSegment ℝ a b ∧ ∃ e ∈ edges, v = e.1 ∨ v = e.2

/-- The middle of every piece of a link is in a set. -/
def PiecesWithin (S : Set (ℝ × ℝ)) (edges : List ((ℝ × ℝ) × (ℝ × ℝ))) (a b : ℝ × ℝ) : Prop :=
  ∀ p q, Stop edges a b p → Stop edges a b q →
    (∀ e ∈ edges, e.1 ∉ openSegment ℝ p q ∧ e.2 ∉ openSegment ℝ p q) → midpoint ℝ p q ∈ S

theorem Stop.mem_segment {v : ℝ × ℝ} (h : Stop edges a b v) : v ∈ segment ℝ a b := by
  rcases h with rfl | rfl | ⟨h, -⟩
  · exact left_mem_segment ℝ _ _
  · exact right_mem_segment ℝ _ _
  · exact openSegment_subset_segment ℝ a b h

theorem PiecesWithin.of_subset (h : segment ℝ a b ⊆ S) : PiecesWithin S edges a b :=
  fun _ _ hp hq _ => h ((convex_segment a b).midpoint_mem hp.mem_segment hq.mem_segment)

/-- A link that is cut nowhere on the way is one piece. -/
theorem PiecesWithin.of_midpoint (ha : a ∈ S) (hb : b ∈ S) (hmid : midpoint ℝ a b ∈ S)
    (hfree : ∀ e ∈ edges, e.1 ∉ openSegment ℝ a b ∧ e.2 ∉ openSegment ℝ a b) :
    PiecesWithin S edges a b := by
  have hends : ∀ v, Stop edges a b v → v = a ∨ v = b := by
    rintro v (rfl | rfl | ⟨hv, e, he, rfl | rfl⟩)
    · exact .inl rfl
    · exact .inr rfl
    · exact absurd hv (hfree e he).1
    · exact absurd hv (hfree e he).2
  intro p q hp hq _
  rcases hends p hp with rfl | rfl <;> rcases hends q hq with rfl | rfl
  · rwa [midpoint_self]
  · exact hmid
  · rwa [midpoint_comm]
  · rwa [midpoint_self]

variable (edges) in
open AffineMap in
theorem finite_setOf_stop (hab : a ≠ b) : {t : ℝ | Stop edges a b (lineMap a b t)}.Finite := by
  have hends : {v : ℝ × ℝ | Stop edges a b v}.Finite := by
    refine Set.Finite.subset (((Set.finite_singleton b).insert a).union
      ((edges.map Prod.fst ++ edges.map Prod.snd).finite_toSet)) ?_
    rintro v (rfl | rfl | ⟨-, e, he, rfl | rfl⟩)
    · exact .inl (.inl rfl)
    · exact .inl (.inr rfl)
    · exact .inr (List.mem_append_left _ (List.mem_map_of_mem he))
    · exact .inr (List.mem_append_right _ (List.mem_map_of_mem he))
  exact hends.preimage (lineMap_injective ℝ hab).injOn

open AffineMap in
/-- **A link is in a closed set exactly if the middles of its pieces are**, if the frontier of the
set is made of edges that lie in it and do not cross the link. -/
theorem segment_subset_iff (hclosed : IsClosed S)
    (hfrontier : ∀ z ∈ frontier S, ∃ e ∈ edges, z ∈ segment ℝ e.1 e.2)
    (hedges : ∀ e ∈ edges, segment ℝ e.1 e.2 ⊆ S)
    (hproper : ∀ e ∈ edges, ¬ProperCrossing a b e.1 e.2) :
    segment ℝ a b ⊆ S ↔ PiecesWithin S edges a b := by
  refine ⟨PiecesWithin.of_subset, fun h => ?_⟩
  have hstop : ∀ v, Stop edges a b v → v ∈ S := by
    intro v hv
    by_cases hvertex : ∃ e ∈ edges, v = e.1 ∨ v = e.2
    · obtain ⟨e, he, rfl | rfl⟩ := hvertex
      · exact hedges e he (left_mem_segment ℝ _ _)
      · exact hedges e he (right_mem_segment ℝ _ _)
    · have hmid := h v v hv hv fun e he => by
        rw [openSegment_same]
        exact ⟨fun h => hvertex ⟨e, he, .inl h.symm⟩, fun h => hvertex ⟨e, he, .inr h.symm⟩⟩
      rwa [midpoint_self] at hmid
  rcases eq_or_ne a b with rfl | hab
  · rw [segment_same]
    exact Set.singleton_subset_iff.2 (hstop a (.inl rfl))
  rw [segment_eq_image_lineMap]
  rintro _ ⟨t, ht, rfl⟩
  -- the last stop before the point, and the first one after it
  have hfinite := finite_setOf_stop edges hab
  obtain ⟨p, ⟨⟨hpstop, hp₀⟩, hpt⟩, hpmax⟩ := Set.exists_max_image
    ({t | Stop edges a b (lineMap a b t)} ∩ Set.Ici 0 ∩ Set.Iic t) id
    ((hfinite.inter_of_left _).inter_of_left _)
    ⟨0, ⟨.inl (lineMap_apply_zero a b), le_rfl⟩, ht.1⟩
  obtain ⟨q, ⟨⟨hqstop, hq₁⟩, hqt⟩, hqmin⟩ := Set.exists_min_image
    ({t | Stop edges a b (lineMap a b t)} ∩ Set.Iic 1 ∩ Set.Ici t) id
    ((hfinite.inter_of_left _).inter_of_left _)
    ⟨1, ⟨.inr (.inl (lineMap_apply_one a b)), le_rfl⟩, ht.2⟩
  rcases (hpt.trans hqt : p ≤ q).eq_or_lt with rfl | hpq
  · obtain rfl : p = t := le_antisymm hpt hqt
    exact hstop _ hpstop
  have hbetween : ∀ s ∈ Set.Ioo p q, ¬∃ e ∈ edges, lineMap a b s = e.1 ∨ lineMap a b s = e.2 := by
    intro s hs hvertex
    have hsstop : Stop edges a b (lineMap a b s) := .inr (.inr
      ⟨lineMap_mem_openSegment ℝ a b ⟨hp₀.trans_lt hs.1, hs.2.trans_le hq₁⟩, hvertex⟩)
    rcases le_total s t with hst | hst
    · exact absurd (hpmax s ⟨⟨hsstop, hp₀.trans hs.1.le⟩, hst⟩) (not_le.2 hs.1)
    · exact absurd (hqmin s ⟨⟨hsstop, hs.2.le.trans hq₁⟩, hst⟩) (not_le.2 hs.2)
  have hends : ∀ e ∈ edges,
      e.1 ∉ lineMap a b '' Set.Ioo p q ∧ e.2 ∉ lineMap a b '' Set.Ioo p q := fun e he =>
    ⟨fun ⟨s, hs, hse⟩ => hbetween s hs ⟨e, he, .inl hse⟩,
      fun ⟨s, hs, hse⟩ => hbetween s hs ⟨e, he, .inr hse⟩⟩
  refine piece_subset_of_midpoint hclosed hfrontier hedges hab hp₀ hq₁ hproper hends hpq ?_ t
    ⟨hpt, hqt⟩
  have hmid : midpoint ℝ p q = (p + q) / 2 := by
    rw [midpoint_eq_smul_add, smul_eq_mul, invOf_eq_inv]
    ring
  rw [← hmid, map_midpoint]
  refine h _ _ hpstop hqstop ?_
  rw [← image_openSegment, openSegment_eq_Ioo hpq]
  exact hends

end Pieces

end Galdr.Planar
