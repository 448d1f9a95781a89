import Galdr.BulgeArcs
import Galdr.CutRing
import Galdr.Isolation
import Galdr.LibmReal
import Galdr.PlannerCommands

/-!
# Isolation rings of arcs

A ring of arcs is a closed chain of vertices, each with the bulge to the next. To cut it the
wanted way round, its winding is judged from the polygon of its vertices, and the ring is
reversed where that is wound the other way.

The arcs themselves are right: the centre that a bulge is given makes the machine sweep its
angle (`bulgeToArc_spec`), and a reversed ring has the same points (`edge_reverseArc`). The
polygon of the vertices is not the ring, though. Where the arcs outweigh it the ring is taken
for its mirror image, and a ring around a hole is wound as an outer one (`runs_orientArc_iff`).
-/

namespace Galdr.Geo

open Eitri

/-! ## Rings and their winding -/

section Rings

variable {K : Type} [Field K] [LinearOrder K]

/-- The vertex at a place. -/
def vertexAt (ring : ArcPolyline K) (i : ℕ) : ArcVertex K := ring.vertices.getD i ⟨0, 0, 0⟩

/-- Twice the area of the polygon of the vertices. -/
def arcVertexArea2 (ring : ArcPolyline K) : K :=
  let n := ring.vertices.length
  ((List.range n).map fun i =>
    let a := vertexAt ring i
    let b := vertexAt ring ((i + 1) % n)
    a.x * b.y - b.x * a.y).sum

/-- The winding of a ring, judged from its vertices. -/
def arcVertexWinding (ring : ArcPolyline K) : WindingDirection :=
  if 0 ≤ arcVertexArea2 ring then .ccw else .cw

/-- The other way round: the bulge of a segment moves to the vertex it now leaves. -/
def reverseArc (ring : ArcPolyline K) : ArcPolyline K :=
  let n := ring.vertices.length
  if n = 0 then ring
  else
    ⟨(List.range n).map fun k =>
      let src := vertexAt ring ((n - k) % n)
      ⟨src.x, src.y, -(vertexAt ring ((n - 1 - k) % n)).bulge⟩⟩

/-- A ring wound in a direction. -/
def orientArc (ring : ArcPolyline K) (direction : WindingDirection) : ArcPolyline K :=
  if arcVertexWinding ring = direction then ring else reverseArc ring

/-- The rings that isolate the copper, of arcs. The offset of the outer ring of a polygon is
taken elsewhere. -/
def isolateArc {R : Type} (offsetArc : Polygon R → ℚ → Except Error (List (ArcPolyline K)))
    (copper : List (Polygon R)) (params : IsolationParams) :
    Except Error (List (IsolationRing (ArcPolyline K))) := do
  params.validate
  let direction := params.direction.winding
  let perPoly ← copper.mapM fun poly =>
    (List.range params.passes).mapM fun pass => do
      let rings ← offsetArc poly (params.offsetFor pass)
      .ok (rings.map fun ring => orientArc ring direction)
  .ok ((List.range params.passes).flatMap fun pass =>
    let offset := params.offsetFor pass
    perPoly.flatMap fun passes =>
      (passes.getD pass []).map fun ring =>
        { pass, offset, winding := direction, geometry := ring })

/-! ## Reversal -/

omit [LinearOrder K] in
theorem length_reverseArc (ring : ArcPolyline K) :
    (reverseArc ring).vertices.length = ring.vertices.length := by
  unfold reverseArc
  dsimp only
  split
  case isTrue => rfl
  case isFalse => rw [List.length_map, List.length_range]

omit [LinearOrder K] in
/-- The vertices of the reversed ring. -/
theorem vertexAt_reverseArc {ring : ArcPolyline K} {k : ℕ} (h : k < ring.vertices.length) :
    vertexAt (reverseArc ring) k
      = ⟨(vertexAt ring ((ring.vertices.length - k) % ring.vertices.length)).x,
          (vertexAt ring ((ring.vertices.length - k) % ring.vertices.length)).y,
          -(vertexAt ring (ring.vertices.length - 1 - k)).bulge⟩ := by
  have hne : ring.vertices.length ≠ 0 := Nat.ne_zero_of_lt h
  have hmod : (ring.vertices.length - 1 - k) % ring.vertices.length
      = ring.vertices.length - 1 - k := Nat.mod_eq_of_lt (by omega)
  rw [vertexAt]
  unfold reverseArc
  rw [if_neg hne, List.getD_eq_getElem?_getD, List.getElem?_map, List.getElem?_range h]
  show (⟨_, _, -(vertexAt ring ((ring.vertices.length - 1 - k) % _)).bulge⟩ : ArcVertex K) = _
  rw [hmod]

/-- Twice around the other way. -/
theorem sub_sub_mod {n k : ℕ} (h : k < n) : (n - (n - k) % n) % n = k := by
  cases k with
  | zero => rw [Nat.sub_zero, Nat.mod_self, Nat.sub_zero, Nat.mod_self]
  | succ k =>
    rw [Nat.mod_eq_of_lt (by omega : n - (k + 1) < n), Nat.mod_eq_of_lt (by omega)]
    omega

omit [LinearOrder K] in
/-- **Reversal is an involution.** -/
theorem reverseArc_reverseArc (ring : ArcPolyline K) : reverseArc (reverseArc ring) = ring := by
  have hlength : (reverseArc (reverseArc ring)).vertices.length = ring.vertices.length :=
    (length_reverseArc _).trans (length_reverseArc ring)
  have hvertex (k : ℕ) (hk : k < ring.vertices.length) :
      vertexAt (reverseArc (reverseArc ring)) k = vertexAt ring k := by
    have hpos : 0 < ring.vertices.length := Nat.zero_lt_of_lt hk
    have hback : k < (reverseArc ring).vertices.length := (length_reverseArc ring).symm ▸ hk
    rw [vertexAt_reverseArc hback, length_reverseArc,
      vertexAt_reverseArc (Nat.mod_lt _ hpos), sub_sub_mod hk,
      vertexAt_reverseArc (by omega : ring.vertices.length - 1 - k < ring.vertices.length),
      neg_neg, show ring.vertices.length - 1 - (ring.vertices.length - 1 - k) = k by omega]
  suffices h : (reverseArc (reverseArc ring)).vertices = ring.vertices by
    cases hback : reverseArc (reverseArc ring)
    rw [hback] at h
    exact congrArg ArcPolyline.mk h
  refine List.ext_getElem hlength fun k hk hk' => ?_
  have h := hvertex k hk'
  unfold vertexAt at h
  rwa [List.getD_eq_getElem _ _ hk, List.getD_eq_getElem _ _ hk'] at h

end Rings

/-! ## The arcs of the plane -/

/-- A point of the plane as a complex number. -/
def place (v : ArcVertex ℝ) : ℂ := ⟨v.x, v.y⟩

/-- The curve from a vertex to the next. -/
noncomputable def edge (ring : ArcPolyline ℝ) (i : ℕ) : ℝ → ℂ :=
  Bulge.point (place (vertexAt ring i)) (place (vertexAt ring ((i + 1) % ring.vertices.length)))
    (vertexAt ring i).bulge

/-- **The reversed ring has the same points**: its segments are those of the ring from the last
to the first, each from its end to its start. -/
theorem edge_reverseArc {ring : ArcPolyline ℝ} {k : ℕ} (h : k < ring.vertices.length) (t : ℝ) :
    edge (reverseArc ring) k t = edge ring (ring.vertices.length - 1 - k) (1 - t) := by
  have hpos : 0 < ring.vertices.length := Nat.zero_lt_of_lt h
  have hnext : (ring.vertices.length - (k + 1) % ring.vertices.length) % ring.vertices.length
      = ring.vertices.length - 1 - k := by
    by_cases hlast : k + 1 = ring.vertices.length
    · rw [hlast, Nat.mod_self, Nat.sub_zero, Nat.mod_self]
      omega
    · rw [Nat.mod_eq_of_lt (by omega : k + 1 < ring.vertices.length), Nat.mod_eq_of_lt (by omega)]
      omega
  have hstart : ring.vertices.length - 1 - k + 1 = ring.vertices.length - k := by omega
  unfold edge
  rw [length_reverseArc, vertexAt_reverseArc h, vertexAt_reverseArc (Nat.mod_lt _ hpos), hnext,
    hstart, ← Bulge.point_swap]
  rfl

/-- The area a ring encloses, positive where it runs counter-clockwise. -/
noncomputable def signedArea (ring : ArcPolyline ℝ) : ℝ :=
  ∑ i ∈ Finset.range ring.vertices.length, Bulge.swept (edge ring i)

theorem swept_edge_reverseArc {ring : ArcPolyline ℝ} {k : ℕ} (h : k < ring.vertices.length) :
    Bulge.swept (edge (reverseArc ring) k)
      = -Bulge.swept (edge ring (ring.vertices.length - 1 - k)) := by
  have hcurve : edge (reverseArc ring) k
      = Bulge.point (place (vertexAt ring
          ((ring.vertices.length - 1 - k + 1) % ring.vertices.length)))
        (place (vertexAt ring (ring.vertices.length - 1 - k)))
        (-(vertexAt ring (ring.vertices.length - 1 - k)).bulge) := by
    funext t
    rw [edge_reverseArc h, Bulge.point_swap]
    rfl
  rw [hcurve, Bulge.swept_swap]
  rfl

/-- The other way round, a ring encloses the opposite area. -/
theorem signedArea_reverseArc (ring : ArcPolyline ℝ) :
    signedArea (reverseArc ring) = -signedArea ring := by
  unfold signedArea
  rw [length_reverseArc, ← Finset.sum_neg_distrib,
    ← Finset.sum_range_reflect (fun i => -Bulge.swept (edge ring i))]
  exact Finset.sum_congr rfl fun k hk => swept_edge_reverseArc (Finset.mem_range.1 hk)

/-- A ring runs in a direction. -/
def Runs (ring : ArcPolyline ℝ) : WindingDirection → Prop
  | .ccw => 0 < signedArea ring
  | .cw => signedArea ring < 0

theorem runs_reverseArc (ring : ArcPolyline ℝ) (direction : WindingDirection) :
    Runs (reverseArc ring) direction ↔ Runs ring direction.reversed := by
  cases direction with
  | ccw =>
    show 0 < signedArea (reverseArc ring) ↔ signedArea ring < 0
    rw [signedArea_reverseArc, neg_pos]
  | cw =>
    show signedArea (reverseArc ring) < 0 ↔ 0 < signedArea ring
    rw [signedArea_reverseArc, neg_lt_zero]

/-! ## The direction of the cut -/

/-- Where a ring of an offset lies: around it, or around a hole of it. -/
inductive RingSide
  | outer
  | hole
  deriving DecidableEq

/-- The direction in which a ring is cut: a hole the other way than the outside. -/
def RingSide.wanted : RingSide → WindingDirection → WindingDirection
  | .outer, direction => direction
  | .hole, direction => direction.reversed

theorem RingSide.wanted_reversed (side : RingSide) (direction : WindingDirection) :
    (side.wanted direction.reversed).reversed = side.wanted direction := by
  cases side <;> cases direction <;> rfl

/-- **The polygon of the vertices tells the way of the ring**: for an outer ring it is wound as
the ring is, for a ring around a hole the other way. -/
def Tells (side : RingSide) (ring : ArcPolyline ℝ) : Prop :=
  match side with
  | .outer => (0 ≤ arcVertexArea2 ring ∧ 0 < signedArea ring)
      ∨ (arcVertexArea2 ring < 0 ∧ signedArea ring < 0)
  | .hole => (0 ≤ arcVertexArea2 ring ∧ signedArea ring < 0)
      ∨ (arcVertexArea2 ring < 0 ∧ 0 < signedArea ring)

theorem tells_iff (side : RingSide) (ring : ArcPolyline ℝ) :
    Tells side ring ↔ Runs ring (side.wanted (arcVertexWinding ring)) := by
  unfold Tells arcVertexWinding
  by_cases hsum : 0 ≤ arcVertexArea2 ring
  · rw [if_pos hsum]
    cases side <;>
      exact ⟨fun h => h.elim And.right fun h => absurd hsum h.1.not_ge, fun h => Or.inl ⟨hsum, h⟩⟩
  · rw [if_neg hsum]
    cases side <;>
      exact ⟨fun h => h.elim (fun h => absurd h.1 hsum) And.right,
        fun h => Or.inr ⟨not_le.1 hsum, h⟩⟩

/-- **A ring is oriented exactly where the polygon of its vertices tells its way.** -/
theorem runs_orientArc_iff (ring : ArcPolyline ℝ) (side : RingSide)
    (direction : WindingDirection) :
    Runs (orientArc ring direction) (side.wanted direction) ↔ Tells side ring := by
  rw [tells_iff]
  unfold orientArc
  by_cases hsame : arcVertexWinding ring = direction
  · rw [if_pos hsame, hsame]
  · have hother : arcVertexWinding ring = direction.reversed := by
      cases hw : arcVertexWinding ring <;> cases direction <;>
        first | rfl | exact absurd hw hsame
    rw [if_neg hsame, runs_reverseArc, hother, ← side.wanted_reversed direction.reversed]
    cases direction <;> rfl

/-! ## The arcs of the machine -/

/-- The centre that a bulge is given is its centre. -/
theorem bulgeToArc_eq_some {p₀ p₁ : Point ℝ} {b : ℝ} {offset : ArcOffset ℝ} {dir : ArcDir}
    (h : bulgeToArc p₀ p₁ b = some (offset, dir)) :
    b ≠ 0 ∧ (⟨p₀.x, p₀.y⟩ : ℂ) ≠ ⟨p₁.x, p₁.y⟩
      ∧ (⟨p₀.x + offset.i, p₀.y + offset.j⟩ : ℂ) = Bulge.center ⟨p₀.x, p₀.y⟩ ⟨p₁.x, p₁.y⟩ b
      ∧ dir = if 0 < b then .ccw else .cw := by
  have hepsilon : (0 : ℝ) < bulgeEpsilon := by
    unfold bulgeEpsilon
    positivity
  unfold bulgeToArc at h
  split at h
  case isTrue => exact absurd h.symm (Option.some_ne_none _)
  case isFalse hbulge =>
    dsimp only at h
    split at h
    case isTrue => exact absurd h.symm (Option.some_ne_none _)
    case isFalse hchord =>
      obtain ⟨rfl, rfl⟩ := Prod.mk.inj (Option.some_inj.1 h)
      refine ⟨?_, fun hsame => hchord ?_, ?_, rfl⟩
      · rintro rfl
        rw [abs_zero] at hbulge
        exact hbulge hepsilon
      · obtain ⟨hx, hy⟩ := Complex.mk.inj hsame
        rw [hx, hy, sub_self, sub_self, mul_zero, add_zero]
        exact mul_pos hepsilon hepsilon
      · unfold Bulge.center
        apply Complex.ext
        · simp only [Complex.add_re, Complex.div_ofNat_re, Complex.re_ofReal_mul, Complex.I_mul_re,
            Complex.sub_im]
          ring
        · simp only [Complex.add_im, Complex.div_ofNat_im, Complex.im_ofReal_mul, Complex.I_mul_im,
            Complex.sub_re]
          ring

/-- The angle between the radii is that of a product. -/
theorem atan2f_eq_arg (r₀ r₁ : ℝ × ℝ) :
    atan2f (r₀.1 * r₁.2 - r₀.2 * r₁.1) (r₀.1 * r₁.1 + r₀.2 * r₁.2)
      = ((starRingEnd ℂ) ⟨r₀.1, r₀.2⟩ * ⟨r₁.1, r₁.2⟩ : ℂ).arg := by
  show Complex.arg ⟨_, _⟩ = _
  congr 1
  apply Complex.ext
  · simp only [Complex.mul_re, Complex.conj_re, Complex.conj_im]
    ring
  · simp only [Complex.mul_im, Complex.conj_re, Complex.conj_im]
    ring

/-- **The machine sweeps what the end radius was turned by**, as long as that is no whole turn
and in the direction of the arc. -/
theorem arcSweepAngle_of_turn {r₀ r₁ : ℝ × ℝ} {θ : ℝ} {cw : Bool}
    (hne : (⟨r₀.1, r₀.2⟩ : ℂ) ≠ 0)
    (hturn : (⟨r₁.1, r₁.2⟩ : ℂ) = Complex.exp (θ * Complex.I) * ⟨r₀.1, r₀.2⟩)
    (hθ : if cw then -(2 * Real.pi) < θ ∧ θ < 0 else 0 < θ ∧ θ < 2 * Real.pi) :
    arcSweepAngle r₀ r₁ cw = θ := by
  have hpi := Real.pi_pos
  have harg {φ : ℝ} (hφ : φ ∈ Set.Ioc (-Real.pi) Real.pi)
      (hsame : Complex.exp (θ * Complex.I) = Complex.exp (φ * Complex.I)) :
      atan2f (r₀.1 * r₁.2 - r₀.2 * r₁.1) (r₀.1 * r₁.1 + r₀.2 * r₁.2) = φ := by
    rw [atan2f_eq_arg, hturn, hsame]
    exact Bulge.arg_conj_mul hne hφ
  unfold arcSweepAngle
  dsimp only
  cases cw with
  | true =>
    obtain ⟨hlow, hhigh⟩ := hθ
    by_cases hhalf : -Real.pi < θ
    · rw [harg ⟨hhalf, by linarith⟩ rfl]
      exact if_neg (not_le.2 hhigh)
    · have hwrap : Complex.exp (θ * Complex.I)
          = Complex.exp ((θ + 2 * Real.pi : ℝ) * Complex.I) := by
        push_cast
        rw [add_mul, Complex.exp_add, Complex.exp_two_pi_mul_I, mul_one]
      rw [harg ⟨by linarith, by linarith⟩ hwrap, if_pos rfl]
      refine (if_pos ?_).trans (add_sub_cancel_right _ _)
      linarith
  | false =>
    obtain ⟨hlow, hhigh⟩ := hθ
    by_cases hhalf : θ ≤ Real.pi
    · rw [harg ⟨by linarith, hhalf⟩ rfl]
      exact if_neg (not_le.2 hlow)
    · have hwrap : Complex.exp (θ * Complex.I)
          = Complex.exp ((θ - 2 * Real.pi : ℝ) * Complex.I) := by
        push_cast
        rw [sub_mul, Complex.exp_sub, Complex.exp_two_pi_mul_I, div_one]
      rw [harg ⟨by linarith, by linarith⟩ hwrap, if_neg Bool.false_ne_true]
      refine (if_pos ?_).trans (sub_add_cancel _ _)
      linarith

/-- **The arc of a bulge**: its centre is as far from the one end as from the other, and the
machine sweeps four times the angle whose tangent the bulge is. -/
theorem bulgeToArc_spec {p₀ p₁ : Point ℝ} {b : ℝ} {offset : ArcOffset ℝ} {dir : ArcDir}
    (h : bulgeToArc p₀ p₁ b = some (offset, dir)) :
    let r₀ : ℝ × ℝ := (-offset.i, -offset.j)
    let r₁ : ℝ × ℝ := (p₁.x - (p₀.x + offset.i), p₁.y - (p₀.y + offset.j))
    r₀.1 ^ 2 + r₀.2 ^ 2 = r₁.1 ^ 2 + r₁.2 ^ 2
      ∧ arcSweepAngle r₀ r₁ (dir = .cw) = 4 * Real.arctan b := by
  obtain ⟨hb, hdistinct, hcenter, hdir⟩ := bulgeToArc_eq_some h
  intro r₀ r₁
  have hstart : (⟨r₀.1, r₀.2⟩ : ℂ)
      = ⟨p₀.x, p₀.y⟩ - Bulge.center ⟨p₀.x, p₀.y⟩ ⟨p₁.x, p₁.y⟩ b := by
    rw [← hcenter]
    apply Complex.ext
    · exact (sub_add_cancel_left p₀.x offset.i).symm
    · exact (sub_add_cancel_left p₀.y offset.j).symm
  have hend : (⟨r₁.1, r₁.2⟩ : ℂ)
      = ⟨p₁.x, p₁.y⟩ - Bulge.center ⟨p₀.x, p₀.y⟩ ⟨p₁.x, p₁.y⟩ b := by
    rw [← hcenter]
    rfl
  have hturn : (⟨r₁.1, r₁.2⟩ : ℂ)
      = Complex.exp (Bulge.turn b * Complex.I) * ⟨r₀.1, r₀.2⟩ := by
    rw [hstart, hend]
    exact Bulge.rotate hb _ _
  constructor
  · have hnorm : ‖(⟨r₁.1, r₁.2⟩ : ℂ)‖ ^ 2 = ‖(⟨r₀.1, r₀.2⟩ : ℂ)‖ ^ 2 := by
      rw [hstart, hend, Bulge.norm_sub_center hb]
    rw [Complex.sq_norm, Complex.sq_norm, Complex.normSq_mk, Complex.normSq_mk] at hnorm
    linarith
  · refine arcSweepAngle_of_turn (fun hzero => hdistinct ?_) hturn ?_
    · rw [hzero, mul_zero, hend] at hturn
      rw [hstart] at hzero
      exact (sub_eq_zero.1 hzero).trans (sub_eq_zero.1 hturn).symm
    · rw [hdir]
      by_cases hpos : 0 < b
      · rw [if_pos hpos]
        exact Bulge.turn_pos hpos
      · rw [if_neg hpos]
        exact (Bulge.turn_of_neg (lt_of_le_of_ne (not_lt.1 hpos) hb)).symm

/-! ## The rings that are cut -/

section Cut

variable {R : Type}

/-- What comes of a pass came of its step. -/
theorem exists_of_mem_getD {A : Type} {f : ℕ → Except Error (List A)} {n pass : ℕ}
    {passes : List (List A)} (h : (List.range n).mapM f = .ok passes) {a : A}
    (ha : a ∈ passes.getD pass []) : ∃ results, f pass = .ok results ∧ a ∈ results := by
  rw [List.getD_eq_getElem?_getD] at ha
  have hget := getElem?_of_mapM h pass
  cases hresults : passes[pass]? with
  | none =>
    rw [hresults] at ha
    exact absurd ha List.not_mem_nil
  | some results =>
    rw [hresults] at ha hget
    obtain ⟨pass', hpass', heq⟩ := Option.map_eq_some_iff.1 hget
    obtain ⟨hlt, hsame⟩ := List.getElem?_eq_some_iff.1 hpass'
    rw [List.getElem_range] at hsame
    exact ⟨results, hsame ▸ heq, ha⟩

/-- Every ring that is cut is a ring of an offset, oriented. -/
theorem exists_of_mem_isolateArc
    {offsetArc : Polygon R → ℚ → Except Error (List (ArcPolyline ℝ))}
    {copper : List (Polygon R)} {params : IsolationParams}
    {rings : List (IsolationRing (ArcPolyline ℝ))}
    (h : isolateArc offsetArc copper params = .ok rings) {ring : IsolationRing (ArcPolyline ℝ)}
    (hring : ring ∈ rings) :
    ∃ poly ∈ copper, ∃ raws, offsetArc poly (params.offsetFor ring.pass) = .ok raws
      ∧ ∃ raw ∈ raws, ring.geometry = orientArc raw params.direction.winding := by
  unfold isolateArc at h
  obtain ⟨-, -, h⟩ := exists_ok_of_bind h
  obtain ⟨perPoly, hperPoly, h⟩ := exists_ok_of_bind h
  obtain rfl := Except.ok.inj h
  obtain ⟨pass, -, hring⟩ := List.mem_flatMap.1 hring
  obtain ⟨passes, hpasses, hring⟩ := List.mem_flatMap.1 hring
  obtain ⟨oriented, horiented, rfl⟩ := List.mem_map.1 hring
  obtain ⟨poly, hpoly, hsteps⟩ := (exists_mem_iff_of_mapM (P := (· = passes)) hperPoly
    fun poly _ c hc => ⟨fun heq => heq ▸ hc, fun heq => Except.ok.inj (hc.symm.trans heq)⟩).1
    ⟨passes, hpasses, rfl⟩
  obtain ⟨results, hresults, hmem⟩ := exists_of_mem_getD hsteps horiented
  obtain ⟨raws, hraws, hmap⟩ := exists_ok_of_bind hresults
  obtain rfl := Except.ok.inj hmap
  obtain ⟨raw, hraw, rfl⟩ := List.mem_map.1 hmem
  exact ⟨poly, hpoly, raws, hraws, raw, hraw, rfl⟩

end Cut

/-- **Arcs, their reversal and their direction.** The arc of a bulge is one about its centre,
and the machine sweeps its angle; a reversed ring has the same points backwards, and reversed
twice it is itself. A ring is cut the way the rings of points are, exactly where the polygon of
its vertices tells its way. -/
theorem arcs_spec (p₀ p₁ : Point ℝ) (b : ℝ) (ring : ArcPolyline ℝ) (side : RingSide)
    {R : Type} (offsetArc : Polygon R → ℚ → Except Error (List (ArcPolyline ℝ)))
    (copper : List (Polygon R)) (params : IsolationParams) :
    (∀ (offset : ArcOffset ℝ) (dir : ArcDir), bulgeToArc p₀ p₁ b = some (offset, dir) →
      offset.i ^ 2 + offset.j ^ 2
          = (p₁.x - (p₀.x + offset.i)) ^ 2 + (p₁.y - (p₀.y + offset.j)) ^ 2
        ∧ arcSweepAngle (-offset.i, -offset.j)
            (p₁.x - (p₀.x + offset.i), p₁.y - (p₀.y + offset.j)) (dir = .cw)
          = 4 * Real.arctan b)
      ∧ (reverseArc (reverseArc ring) = ring
        ∧ (reverseArc ring).vertices.length = ring.vertices.length
        ∧ ∀ k < ring.vertices.length, ∀ t,
          edge (reverseArc ring) k t = edge ring (ring.vertices.length - 1 - k) (1 - t))
      ∧ ((∀ direction, Runs (orientArc ring direction) (side.wanted direction)) ↔ Tells side ring)
      ∧ ∀ rings : List (IsolationRing (ArcPolyline ℝ)),
        isolateArc offsetArc copper params = .ok rings → ∀ ring ∈ rings,
          ∃ poly ∈ copper, ∃ raws, offsetArc poly (params.offsetFor ring.pass) = .ok raws
            ∧ ∃ raw ∈ raws, ∀ side : RingSide,
              Runs ring.geometry (side.wanted params.direction.winding) ↔ Tells side raw := by
  refine ⟨fun offset dir h => ?_, ?_, ?_, fun rings h ring hring => ?_⟩
  · obtain ⟨hcircle, hsweep⟩ := bulgeToArc_spec h
    rw [neg_sq, neg_sq] at hcircle
    exact ⟨hcircle, hsweep⟩
  · exact ⟨reverseArc_reverseArc ring, length_reverseArc ring, fun k hk t => edge_reverseArc hk t⟩
  · exact ⟨fun h => (runs_orientArc_iff ring side .ccw).1 (h .ccw),
      fun h direction => (runs_orientArc_iff ring side direction).2 h⟩
  · obtain ⟨poly, hpoly, raws, hraws, raw, hraw, hgeometry⟩ := exists_of_mem_isolateArc h hring
    refine ⟨poly, hpoly, raws, hraws, raw, hraw, fun side => ?_⟩
    rw [hgeometry]
    exact runs_orientArc_iff raw side _

/-- A circle of two vertices that runs clockwise. -/
def clockwiseCircle : ArcPolyline ℝ := ⟨[⟨1, 0, -1⟩, ⟨-1, 0, -1⟩]⟩

/-- The vertices of a circle of two span no area, and a clockwise one counts as wound the other
way. -/
theorem not_runs_orientArc : ¬ ∀ (ring : ArcPolyline ℝ) (direction : WindingDirection),
    Runs (orientArc ring direction) direction := by
  intro h
  have hwinding : arcVertexWinding clockwiseCircle = .ccw := by
    unfold arcVertexWinding arcVertexArea2 clockwiseCircle
    refine if_pos ?_
    simp [List.range_succ, vertexAt]
  have hkept : orientArc clockwiseCircle .ccw = clockwiseCircle := if_pos hwinding
  have hcenter : Bulge.center (⟨1, 0⟩ : ℂ) ⟨-1, 0⟩ (-1) = 0 := by
    unfold Bulge.center
    apply Complex.ext <;> simp
  have hcenter' : Bulge.center (⟨-1, 0⟩ : ℂ) ⟨1, 0⟩ (-1) = 0 := by
    unfold Bulge.center
    apply Complex.ext <;> simp
  have hturn : Bulge.turn (-1) < 0 := (Bulge.turn_of_neg (neg_one_lt_zero)).1
  have harea : signedArea clockwiseCircle = Bulge.turn (-1) := by
    have hne : (-1 : ℝ) ≠ 0 := neg_ne_zero.2 one_ne_zero
    have hfirst : Bulge.swept (edge clockwiseCircle 0) = Bulge.turn (-1) / 2 := by
      show Bulge.swept (Bulge.point ⟨1, 0⟩ ⟨-1, 0⟩ (-1)) = _
      rw [Bulge.swept_arc hne, hcenter, Complex.sq_norm, map_zero, zero_mul, sub_zero,
        Complex.normSq_mk]
      norm_num
    have hsecond : Bulge.swept (edge clockwiseCircle 1) = Bulge.turn (-1) / 2 := by
      show Bulge.swept (Bulge.point ⟨-1, 0⟩ ⟨1, 0⟩ (-1)) = _
      rw [Bulge.swept_arc hne, hcenter', Complex.sq_norm, map_zero, zero_mul, sub_zero,
        Complex.normSq_mk]
      norm_num
    show ∑ i ∈ Finset.range 2, _ = _
    rw [Finset.sum_range_succ, Finset.sum_range_one, hfirst, hsecond, add_halves]
  have hruns : 0 < signedArea (orientArc clockwiseCircle .ccw) := h clockwiseCircle .ccw
  rw [hkept, harea] at hruns
  exact absurd hruns hturn.not_gt

end Galdr.Geo
