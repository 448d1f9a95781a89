import Mathlib

/-!
# Offsets of sets

A set grown by a distance is its closed thickening, and a set shrunk by a distance is what
the open thickening of its complement leaves. The boundary of a grown set keeps the
distance from the set it was grown from. How near that boundary comes to another point
depends on the ball about the point alone: it misses the boundary if it lies inside the
grown set, or outside of it.
-/

namespace Galdr.Offsets

open Metric Set

section Metric

variable {X : Type*} [PseudoMetricSpace X]

/-- The boundary of a grown set keeps its distance. -/
theorem le_dist_of_mem_frontier {s : Set X} {d : ℝ} {x a : X}
    (hx : x ∈ frontier (cthickening d s)) (ha : a ∈ s) : d ≤ dist x a := by
  by_contra hlt
  have hnear : x ∈ thickening d s := mem_thickening_iff.2 ⟨a, ha, not_le.1 hlt⟩
  exact hx.2 (thickening_subset_interior_cthickening d s hnear)

/-- The sets of a list, grown one by one, make up their union grown. -/
theorem cthickening_biUnion_list {A : Type*} (l : List A) (f : A → Set X) (d : ℝ) :
    cthickening d (⋃ a ∈ l, f a) = ⋃ a ∈ l, cthickening d (f a) := by
  induction l with
  | nil => simp
  | cons a l ih =>
    have hsplit (g : A → Set X) : (⋃ b ∈ a :: l, g b) = g a ∪ ⋃ b ∈ l, g b := by
      ext x
      simp
    rw [hsplit, hsplit, cthickening_union, ih]

/-- A connected open set misses the boundary of a closed set if it is inside or outside. -/
theorem disjoint_frontier_iff {s t : Set X} (hs : IsClosed s) (ht : IsOpen t)
    (hconn : IsPreconnected t) :
    Disjoint t (frontier s) ↔ t ⊆ s ∨ Disjoint t s := by
  constructor
  · intro hdisj
    have hcover : t ⊆ interior s ∪ sᶜ := by
      intro x hx
      by_cases hxs : x ∈ s
      · have hmiss : x ∉ frontier s := Set.disjoint_left.1 hdisj hx
        rw [hs.frontier_eq] at hmiss
        exact .inl (not_not.1 fun h => hmiss ⟨hxs, h⟩)
      · exact .inr hxs
    have hapart : Disjoint (interior s) sᶜ :=
      Set.disjoint_compl_right_iff_subset.2 interior_subset
    rcases hconn.subset_or_subset isOpen_interior hs.isOpen_compl hapart hcover with h | h
    · exact .inl (h.trans interior_subset)
    · exact .inr (Set.disjoint_left.2 fun x hx => h hx)
  · rintro (hsub | hdisj)
    · have hint : t ⊆ interior s := interior_maximal hsub ht
      exact Set.disjoint_left.2 fun x hx hf => hf.2 (hint hx)
    · exact hdisj.mono_right hs.frontier_subset

end Metric

section Normed

variable {X : Type*} [SeminormedAddCommGroup X] [NormedSpace ℝ X]

/-- A ball misses a grown set if the two radii lie between the centre and the set. -/
theorem disjoint_ball_cthickening_iff {s : Set X} {c : X} {r d : ℝ} (hr : 0 < r)
    (hd : 0 ≤ d) :
    Disjoint (ball c r) (cthickening d s) ↔ ∀ a ∈ s, d + r ≤ dist a c := by
  constructor
  · intro hdisj a ha
    have hball : Disjoint (ball c r) (closedBall a d) :=
      hdisj.mono_right (closedBall_subset_cthickening ha d)
    have hdist := (disjoint_ball_closedBall_iff hr hd).1 hball
    rw [dist_comm, add_comm] at hdist
    exact hdist
  · intro hfar
    refine Set.disjoint_left.2 fun x hx hxs => ?_
    have hroom : 0 < r - dist x c := sub_pos.2 hx
    have hnear : x ∈ thickening (d + (r - dist x c)) s :=
      cthickening_subset_thickening' (by linarith) (by linarith) s hxs
    obtain ⟨a, ha, hax⟩ := mem_thickening_iff.1 hnear
    have htri : dist a c ≤ dist x a + dist x c := dist_triangle_left a c x
    have := hfar a ha
    linarith

/-- The boundary of a grown set keeps a radius from a point if the ball about the point
lies in the grown set, or the point is the radius further away than the offset. -/
theorem forall_frontier_le_dist_iff {s : Set X} {c : X} {r d : ℝ} (hr : 0 < r)
    (hd : 0 ≤ d) :
    (∀ x ∈ frontier (cthickening d s), r ≤ dist x c) ↔
      ball c r ⊆ cthickening d s ∨ ∀ a ∈ s, d + r ≤ dist a c := by
  have hconn : IsPreconnected (ball c r) := (convex_ball c r).isPreconnected
  rw [← disjoint_ball_cthickening_iff hr hd,
    ← disjoint_frontier_iff isClosed_cthickening isOpen_ball hconn, Set.disjoint_right]
  exact forall₂_congr fun x _ => by rw [mem_ball, not_lt]

end Normed

end Galdr.Offsets
