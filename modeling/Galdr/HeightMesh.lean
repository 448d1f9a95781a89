import Galdr.ProbeLatch
import Mathlib

/-!
# The height map of a surface

The nodes of a height map are probed in an order that goes up one column and down the next
(`isChain_serpentine`), and each height is stored where its node is, from the height of the first
one (`Filled`). Between the nodes a height is interpolated from the four nodes around it; outside
of the grid it is the greatest height, so that a tool is lifted where nothing was probed.

What is probed of a bilinear surface is the surface again (`interpolate_surface`). This needs a
grid whose corners are the right way around: on an axis that runs backwards there is no point
between the bounds, and what lies between the nodes counts as outside.
-/

namespace Galdr.Host.Latch

/-! ## Interpolation -/

/-- How far beyond the bounds a point is still on the edge. -/
def edgeTolerance : ℚ := mkRat 1 1000000

/-- The cell that an offset is in, and where in the cell it is. -/
def cell (off grid : ℚ) (count : ℕ) : ℕ × ℚ :=
  -- all nodes of a degenerate axis are in one place
  if grid ≤ 0 then (0, 0)
  else
    let i := min ⌊off / grid⌋.toNat (count - 2)
    (i, max 0 (min 1 (off / grid - i)))

/-- Where the height of a node is stored. -/
def Mesh.index (m : Mesh) (ix iy : ℕ) : ℕ := iy * m.nx + ix

/-- A point that is beyond the bounds. -/
def Mesh.Outside (m : Mesh) (x y : ℚ) : Prop :=
  x < m.min.1 - edgeTolerance ∨ x > m.maxXy.1 + edgeTolerance
    ∨ y < m.min.2 - edgeTolerance ∨ y > m.maxXy.2 + edgeTolerance

instance (m : Mesh) (x y : ℚ) : Decidable (m.Outside x y) :=
  inferInstanceAs (Decidable (_ ∨ _))

/-- The column and the row of nodes before a point, and where it is from there. -/
def Mesh.cells (m : Mesh) (x y : ℚ) : (ℕ × ℚ) × (ℕ × ℚ) :=
  (cell (x - m.min.1) m.grid.1 m.nx, cell (y - m.min.2) m.grid.2 m.ny)

/-- The height at a point, unless a height is read that is not there. -/
def Mesh.interpolate (m : Mesh) (x y : ℚ) : Option ℚ :=
  if m.Outside x y then some m.maxHeight
  else
    let ((ix, tx), (iy, ty)) := m.cells x y
    do
      let z00 ← m.z[m.index ix iy]?
      let z10 ← m.z[m.index (ix + 1) iy]?
      let z01 ← m.z[m.index ix (iy + 1)]?
      let z11 ← m.z[m.index (ix + 1) (iy + 1)]?
      -- along each of the two rows first, then from the one to the other
      let z0 := z00 * (1 - tx) + z10 * tx
      let z1 := z01 * (1 - tx) + z11 * tx
      some (z0 * (1 - ty) + z1 * ty)

/-- `recompute_max_height`: the greatest of the heights. -/
def Mesh.recomputeMaxHeight (m : Mesh) : Mesh := { m with maxHeight := m.z.foldl max 0 }

/-! ### Cells -/

section Cells

variable {off grid : ℚ} {count : ℕ}

/-- **There is a node on either side of a cell.** -/
theorem cell_lt (off grid : ℚ) (h : 2 ≤ count) : (cell off grid count).1 + 1 < count := by
  unfold cell
  split
  · exact h
  · have hle := min_le_right ⌊off / grid⌋.toNat (count - 2)
    dsimp only
    omega

theorem cell_mem_Icc (off grid : ℚ) (count : ℕ) :
    0 ≤ (cell off grid count).2 ∧ (cell off grid count).2 ≤ 1 := by
  unfold cell
  split
  · exact ⟨le_rfl, zero_le_one⟩
  · exact ⟨le_max_left _ _, max_le zero_le_one (min_le_left _ _)⟩

/-- **An offset is as far as its cell, and as it is in the cell.** -/
theorem cell_spec (hcount : 2 ≤ count) (hgrid : 0 ≤ grid) (hoff : 0 ≤ off)
    (hlast : off ≤ ((count - 1 : ℕ) : ℚ) * grid) :
    off = (((cell off grid count).1 : ℚ) + (cell off grid count).2) * grid := by
  rcases hgrid.eq_or_lt with rfl | hpos
  · rw [mul_zero] at hlast ⊢
    exact le_antisymm hlast hoff
  have hf : 0 ≤ off / grid := div_nonneg hoff hpos.le
  have hfloor : ((⌊off / grid⌋.toNat : ℕ) : ℚ) = ((⌊off / grid⌋ : ℤ) : ℚ) := by
    exact_mod_cast Int.toNat_of_nonneg (Int.floor_nonneg.mpr hf)
  have hlow : ((min ⌊off / grid⌋.toNat (count - 2) : ℕ) : ℚ) ≤ off / grid :=
    (Nat.cast_le.mpr (min_le_left _ _)).trans (hfloor ▸ Int.floor_le _)
  have hhigh : off / grid - ((min ⌊off / grid⌋.toNat (count - 2) : ℕ) : ℚ) ≤ 1 := by
    rcases le_total ⌊off / grid⌋.toNat (count - 2) with hle | hle
    · rw [min_eq_left hle, hfloor]
      have hlt := Int.lt_floor_add_one (off / grid)
      linarith
    · -- the far edge is in the last cell
      rw [min_eq_right hle]
      have hend : off / grid ≤ ((count - 1 : ℕ) : ℚ) := (div_le_iff₀ hpos).mpr hlast
      have hcast : ((count - 1 : ℕ) : ℚ) = ((count - 2 : ℕ) : ℚ) + 1 := by
        have hsucc : count - 1 = count - 2 + 1 := by omega
        rw [hsucc]
        push_cast
        ring
      linarith
  unfold cell
  rw [if_neg (not_le.mpr hpos)]
  dsimp only
  rw [min_eq_right hhigh, max_eq_right (sub_nonneg.mpr hlow)]
  field_simp
  ring

end Cells

/-! ## The order of the nodes -/

/-- Two nodes beside each other. -/
def Adjacent (a b : ℕ × ℕ) : Prop :=
  (a.1 = b.1 ∧ (a.2 + 1 = b.2 ∨ b.2 + 1 = a.2)) ∨ (a.2 = b.2 ∧ (a.1 + 1 = b.1 ∨ b.1 + 1 = a.1))

/-- A column, every second one backwards. -/
def column (ny ix : ℕ) : List (ℕ × ℕ) :=
  (if ix % 2 = 0 then List.range ny else (List.range ny).reverse).map fun iy => (ix, iy)

section Serpentine

variable {m : Mesh} {node : ℕ × ℕ}

theorem serpentine_eq (m : Mesh) : m.serpentine = (List.range m.nx).flatMap (column m.ny) := rfl

theorem mem_column {ny ix : ℕ} : node ∈ column ny ix ↔ node.1 = ix ∧ node.2 < ny := by
  obtain ⟨i, j⟩ := node
  unfold column
  split <;> simp [eq_comm, and_comm]

theorem mem_serpentine : node ∈ m.serpentine ↔ node.1 < m.nx ∧ node.2 < m.ny := by
  rw [serpentine_eq]
  simp only [List.mem_flatMap, List.mem_range, mem_column]
  constructor
  · rintro ⟨ix, hix, rfl, hy⟩
    exact ⟨hix, hy⟩
  · rintro ⟨hx, hy⟩
    exact ⟨node.1, hx, rfl, hy⟩

theorem nodup_column (ny ix : ℕ) : (column ny ix).Nodup := by
  have hinj : Function.Injective fun iy : ℕ => (ix, iy) := fun _ _ h => (Prod.mk.inj h).2
  unfold column
  refine List.Nodup.map hinj ?_
  split
  · exact List.nodup_range
  · exact List.nodup_reverse.mpr List.nodup_range

/-- **Each node is visited once.** -/
theorem nodup_serpentine (m : Mesh) : m.serpentine.Nodup := by
  rw [serpentine_eq, List.nodup_flatMap]
  refine ⟨fun ix _ => nodup_column m.ny ix, List.nodup_range.imp fun hne => ?_⟩
  intro node hnode hother
  exact hne ((mem_column.mp hnode).1.symm.trans (mem_column.mp hother).1)

theorem isChain_column (ny ix : ℕ) : (column ny ix).IsChain Adjacent := by
  unfold column
  rw [List.isChain_map]
  split
  · rw [List.isChain_range]
    exact fun _ _ => .inl ⟨rfl, .inl rfl⟩
  · rw [List.isChain_reverse, List.isChain_range]
    exact fun _ _ => .inl ⟨rfl, .inr rfl⟩

/-- The row that a column is entered at. -/
def entry (ny ix : ℕ) : ℕ := if ix % 2 = 0 then 0 else ny - 1

theorem head?_column {ny : ℕ} (hny : ny ≠ 0) (ix : ℕ) :
    (column ny ix).head? = some (ix, entry ny ix) := by
  unfold column entry
  rw [List.head?_map]
  split
  · rw [List.head?_range, if_neg hny]
    rfl
  · rw [List.head?_reverse, List.getLast?_range, if_neg hny]
    rfl

/-- A column is left where the next one is entered. -/
theorem getLast?_column {ny : ℕ} (hny : ny ≠ 0) (ix : ℕ) :
    (column ny ix).getLast? = some (ix, entry ny (ix + 1)) := by
  unfold column entry
  rw [List.getLast?_map]
  by_cases heven : ix % 2 = 0
  · rw [if_pos heven, if_neg (by omega), List.getLast?_range, if_neg hny]
    rfl
  · rw [if_neg heven, if_pos (by omega), List.getLast?_reverse, List.head?_range, if_neg hny]
    rfl

/-- **Each node is beside the one before.** -/
theorem isChain_serpentine (m : Mesh) : m.serpentine.IsChain Adjacent := by
  rw [serpentine_eq]
  induction m.nx with
  | zero => exact List.isChain_nil
  | succ n ih =>
    rw [List.range_succ, List.flatMap_append, List.flatMap_singleton, List.isChain_append]
    refine ⟨ih, isChain_column m.ny n, fun a ha b hb => ?_⟩
    by_cases hny : m.ny = 0
    · rw [hny] at hb
      unfold column at hb
      split at hb <;> cases hb
    cases n with
    | zero => cases ha
    | succ k =>
      rw [List.range_succ, List.flatMap_append, List.flatMap_singleton, List.getLast?_append,
        getLast?_column hny, Option.some_or] at ha
      rw [head?_column hny] at hb
      obtain rfl := Option.some.inj ha
      obtain rfl := Option.some.inj hb
      exact .inr ⟨rfl, .inl rfl⟩

theorem serpentine_zero (hx : 0 < m.nx) (hy : 0 < m.ny) (h : 0 < m.serpentine.length) :
    m.serpentine[0] = (0, 0) := by
  have hhead : m.serpentine.head? = some (0, 0) := by
    obtain ⟨n, hn⟩ := Nat.exists_eq_succ_of_ne_zero hx.ne'
    rw [serpentine_eq, hn, List.range_succ_eq_map, List.flatMap_cons, List.head?_append,
      head?_column hy.ne']
    rfl
  rw [List.head?_eq_getElem?, List.getElem?_eq_getElem h] at hhead
  exact Option.some.inj hhead

end Serpentine

/-! ## What is stored -/

/-- A height map whose heights are in their places, and of which none is above the lift. -/
structure Mesh.Sound (m : Mesh) : Prop where
  columns : 2 ≤ m.nx
  rows : 2 ≤ m.ny
  length : m.z.length = m.nx * m.ny
  lift : 0 ≤ m.maxHeight
  below : ∀ v ∈ m.z, v ≤ m.maxHeight

/-- The same grid, with other heights. -/
structure Mesh.SameGrid (m m' : Mesh) : Prop where
  min : m'.min = m.min
  maxXy : m'.maxXy = m.maxXy
  grid : m'.grid = m.grid
  nx : m'.nx = m.nx
  ny : m'.ny = m.ny

/-- What is done with a height map. -/
inductive MeshOp
  /-- An acquisition begins over it. -/
  | reset
  /-- A height is stored. -/
  | setDelta (node : ℕ × ℕ) (delta : ℚ)
  /-- The greatest height is looked for. -/
  | recompute

/-- A height map without heights. -/
def Mesh.reset (m : Mesh) : Mesh := { m with z := m.z.map fun _ => 0, maxHeight := 0 }

/-- What an operation makes of a height map. -/
def MeshOp.apply (m : Mesh) : MeshOp → Mesh
  | reset => m.reset
  | setDelta node delta => m.setDelta node delta
  | recompute => m.recomputeMaxHeight

section Stored

variable {m m' : Mesh} {node other : ℕ × ℕ} {delta : ℚ}

theorem two_le_axisCount (range spacing : ℚ) : 2 ≤ Mesh.axisCount range spacing := by
  unfold Mesh.axisCount
  split
  · exact le_rfl
  · exact le_max_right _ _

theorem sound_fromSpacing (lower upper spacing : ℚ × ℚ) :
    (Mesh.fromSpacing lower upper spacing).Sound where
  columns := two_le_axisCount _ _
  rows := two_le_axisCount _ _
  length := List.length_replicate
  lift := le_rfl
  below _ hv := (List.eq_of_mem_replicate hv).le

theorem Mesh.SameGrid.refl (m : Mesh) : m.SameGrid m := ⟨rfl, rfl, rfl, rfl, rfl⟩

theorem Mesh.SameGrid.trans {m'' : Mesh} (h : m.SameGrid m') (h' : m'.SameGrid m'') :
    m.SameGrid m'' :=
  ⟨h'.min.trans h.min, h'.maxXy.trans h.maxXy, h'.grid.trans h.grid, h'.nx.trans h.nx,
    h'.ny.trans h.ny⟩

theorem sameGrid_apply (m : Mesh) (op : MeshOp) : m.SameGrid (op.apply m) := by
  cases op with
  | reset => exact ⟨rfl, rfl, rfl, rfl, rfl⟩
  | setDelta node delta =>
    show m.SameGrid (m.setDelta node delta)
    unfold Mesh.setDelta
    split
    · exact .refl m
    · exact ⟨rfl, rfl, rfl, rfl, rfl⟩
  | recompute => exact ⟨rfl, rfl, rfl, rfl, rfl⟩

theorem foldl_max_le (l : List ℚ) (start : ℚ) :
    start ≤ l.foldl max start ∧ ∀ v ∈ l, v ≤ l.foldl max start := by
  induction l generalizing start with
  | nil => exact ⟨le_rfl, fun _ hv => absurd hv List.not_mem_nil⟩
  | cons w rest ih =>
    obtain ⟨hstart, hrest⟩ := ih (max start w)
    refine ⟨(le_max_left _ _).trans hstart, fun v hv => ?_⟩
    rcases List.mem_cons.mp hv with rfl | hv
    · exact (le_max_right _ _).trans hstart
    · exact hrest v hv

/-- **No operation leaves a height above the lift.** -/
theorem Mesh.Sound.apply (h : m.Sound) (op : MeshOp) : (op.apply m).Sound := by
  cases op with
  | reset =>
    refine ⟨h.columns, h.rows, (List.length_map _).trans h.length, le_rfl, fun v hv => ?_⟩
    obtain ⟨_, -, rfl⟩ := List.mem_map.mp hv
    exact le_rfl
  | setDelta node delta =>
    show (m.setDelta node delta).Sound
    unfold Mesh.setDelta
    split
    · exact h
    · refine ⟨h.columns, h.rows, List.length_set.trans h.length, h.lift.trans (le_max_left _ _),
        fun v hv => ?_⟩
      rcases List.mem_or_eq_of_mem_set hv with hv | rfl
      · exact (h.below v hv).trans (le_max_left _ _)
      · exact le_max_right _ _
  | recompute =>
    obtain ⟨hstart, hrest⟩ := foldl_max_le m.z 0
    exact ⟨h.columns, h.rows, h.length, hstart, hrest⟩

theorem Mesh.Sound.foldl (h : m.Sound) (ops : List MeshOp) :
    (ops.foldl MeshOp.apply m).Sound := by
  induction ops generalizing m with
  | nil => exact h
  | cons op rest ih => exact ih (h.apply op)

theorem sameGrid_foldl (m : Mesh) (ops : List MeshOp) :
    m.SameGrid (ops.foldl MeshOp.apply m) := by
  induction ops generalizing m with
  | nil => exact .refl m
  | cons op rest ih => exact (sameGrid_apply m op).trans (ih _)

/-- The place of a node is one of the heights. -/
theorem index_lt (node : ℕ × ℕ) (hx : node.1 < m.nx) (hy : node.2 < m.ny) :
    m.index node.1 node.2 < m.nx * m.ny := by
  unfold Mesh.index
  calc node.2 * m.nx + node.1
      _ < node.2 * m.nx + m.nx := Nat.add_lt_add_left hx _
      _ = (node.2 + 1) * m.nx := (Nat.succ_mul _ _).symm
      _ ≤ m.ny * m.nx := Nat.mul_le_mul_right _ hy
      _ = m.nx * m.ny := Nat.mul_comm _ _

/-- Two nodes have two places. -/
theorem index_injective (hx : node.1 < m.nx) (hx' : other.1 < m.nx)
    (h : m.index node.1 node.2 = m.index other.1 other.2) : node = other := by
  unfold Mesh.index at h
  have hmod := congrArg (· % m.nx) h
  have hdiv := congrArg (· / m.nx) h
  have hpos : 0 < m.nx := Nat.zero_lt_of_lt hx
  simp only [Nat.mul_comm _ m.nx, Nat.mul_add_mod, Nat.mod_eq_of_lt hx, Nat.mod_eq_of_lt hx',
    Nat.mul_add_div hpos, Nat.div_eq_of_lt hx, Nat.div_eq_of_lt hx', Nat.add_zero] at hmod hdiv
  exact Prod.ext hmod hdiv

theorem setDelta_of_mem (hx : node.1 < m.nx) (hy : node.2 < m.ny) :
    m.setDelta node delta = { m with
      z := m.z.set (m.index node.1 node.2) delta, maxHeight := max m.maxHeight delta } :=
  if_neg (by omega)

end Stored

/-! ## A run over the nodes -/

/-- The point that is due is probed, and the outcome is taken. -/
def MeshProbeState.probe (s : MeshProbeState) (outcome : ProbeOutcome) : MeshProbeState :=
  match s.beginNextPoint with
  | none => s
  | some (_, probing) => probing.onProbeResult outcome

/-- An acquisition behind some of its nodes, each of which has some height. -/
structure Filled (m : Mesh) (height : ℕ × ℕ → ℚ) (n : ℕ) (s : MeshProbeState) : Prop where
  order : s.order = m.serpentine
  cursor : s.cursor = n
  step : s.step = if n < m.serpentine.length then .ready else .done
  reference : s.z0 = if n = 0 then none else some (height (0, 0))
  grid : m.SameGrid s.mesh
  sound : s.mesh.Sound
  stored : ∀ j (hj : j < m.serpentine.length), j < n →
    s.mesh.z[m.index m.serpentine[j].1 m.serpentine[j].2]?
      = some (height m.serpentine[j] - height (0, 0))

section Run

variable {m : Mesh} {height : ℕ × ℕ → ℚ} {n : ℕ} {s : MeshProbeState} {node : ℕ × ℕ}

/-- What a probe does to the map is some of the operations. -/
theorem exists_ops_probe (s : MeshProbeState) (outcome : ProbeOutcome) :
    ∃ ops : List MeshOp, (s.probe outcome).mesh = ops.foldl MeshOp.apply s.mesh := by
  unfold MeshProbeState.probe MeshProbeState.beginNextPoint
  split
  · exact ⟨[], rfl⟩
  · rename_i probing hbegin
    split at hbegin
    · cases hbegin
    · obtain ⟨node, hnode, heq⟩ := Option.map_eq_some_iff.mp hbegin
      obtain ⟨-, rfl⟩ := Prod.mk.inj heq
      unfold MeshProbeState.onProbeResult
      rw [if_neg (not_not.mpr rfl)]
      cases outcome with
      | failure reason => exact ⟨[], rfl⟩
      | success position =>
        dsimp only
        split
        · exact ⟨[], rfl⟩
        · rename_i z hz
          refine ⟨[.setDelta node (z - s.z0.getD z)], ?_⟩
          unfold MeshProbeState.record
          dsimp only
          rw [hnode]
          rfl

/-- Any outcomes leave a sound map over the same grid. -/
theorem sound_probes (h : m.Sound) (params : GridProbeParams) (probeOffset : ℚ × ℚ)
    (outcomes : List ProbeOutcome) :
    m.SameGrid (outcomes.foldl MeshProbeState.probe (.new m params probeOffset)).mesh
      ∧ (outcomes.foldl MeshProbeState.probe (.new m params probeOffset)).mesh.Sound := by
  induction outcomes using List.reverseRecOn with
  | nil => exact ⟨sameGrid_apply m .reset, h.apply .reset⟩
  | append_singleton before outcome ih =>
    rw [List.foldl_append, List.foldl_cons, List.foldl_nil]
    obtain ⟨ops, hops⟩ := exists_ops_probe
      (before.foldl MeshProbeState.probe (.new m params probeOffset)) outcome
    rw [hops]
    exact ⟨ih.1.trans (sameGrid_foldl _ ops), ih.2.foldl ops⟩

theorem Mesh.Sound.serpentine_pos (h : m.Sound) : 0 < m.serpentine.length :=
  List.length_pos_of_mem (mem_serpentine.mpr
    (⟨by have := h.columns; omega, by have := h.rows; omega⟩ :
      ((0, 0) : ℕ × ℕ).1 < m.nx ∧ ((0, 0) : ℕ × ℕ).2 < m.ny))

theorem filled_new (h : m.Sound) (params : GridProbeParams) (probeOffset : ℚ × ℚ) :
    Filled m height 0 (.new m params probeOffset) where
  order := rfl
  cursor := rfl
  step := by
    have hpos := h.serpentine_pos
    have hne : m.serpentine.isEmpty = false :=
      List.isEmpty_eq_false_iff.mpr (List.length_pos_iff.mp hpos)
    unfold MeshProbeState.new
    rw [if_pos hpos, hne]
    rfl
  reference := rfl
  grid := sameGrid_apply m .reset
  sound := h.apply .reset
  stored _ _ hlt := absurd hlt (Nat.not_lt_zero _)

/-- **A node is probed**: its height is stored in its place, and the others stay. -/
theorem Filled.probe (h : Filled m height n s) (hn : n < m.serpentine.length) {position : List ℚ}
    (hposition : position[Axis.z.index.val]? = some (height m.serpentine[n])) :
    Filled m height (n + 1) (s.probe (.success position)) := by
  have hnode : s.order[s.cursor]? = some m.serpentine[n] := by
    rw [h.order, h.cursor, List.getElem?_eq_getElem hn]
  have hready : s.step = .ready := h.step.trans (if_pos hn)
  have hreference : s.z0.getD (height m.serpentine[n]) = height (0, 0) := by
    rw [h.reference]
    by_cases hzero : n = 0
    · subst hzero
      rw [if_pos rfl, Option.getD_none, serpentine_zero _ _ hn]
      · exact h.grid.nx ▸ (Nat.zero_lt_two.trans_le h.sound.columns)
      · exact h.grid.ny ▸ (Nat.zero_lt_two.trans_le h.sound.rows)
    · rw [if_neg hzero, Option.getD_some]
  have hprobe : s.probe (.success position) = { s with
      z0 := some (height (0, 0))
      mesh := s.mesh.setDelta m.serpentine[n] (height m.serpentine[n] - height (0, 0))
      cursor := s.cursor + 1
      step := if s.cursor + 1 ≥ s.order.length then .done else .ready } := by
    unfold MeshProbeState.probe MeshProbeState.beginNextPoint
    rw [hready, if_neg (not_not.mpr rfl), hnode]
    dsimp only [Option.map_some]
    unfold MeshProbeState.onProbeResult
    rw [if_neg (not_not.mpr rfl)]
    dsimp only
    rw [hposition]
    dsimp only
    unfold MeshProbeState.record
    dsimp only
    rw [hnode, hreference]
  have hmem := mem_serpentine.mp (List.getElem_mem hn)
  have hx : m.serpentine[n].1 < s.mesh.nx := h.grid.nx ▸ hmem.1
  have hy : m.serpentine[n].2 < s.mesh.ny := h.grid.ny ▸ hmem.2
  have hindex : ∀ node : ℕ × ℕ, s.mesh.index node.1 node.2 = m.index node.1 node.2 := by
    intro node
    unfold Mesh.index
    rw [h.grid.nx]
  rw [hprobe]
  refine ⟨h.order, congrArg (· + 1) h.cursor, ?_, ?_, ?_, ?_, fun j hj hlt => ?_⟩
  · dsimp only
    rw [h.cursor, h.order]
    by_cases hlast : n + 1 < m.serpentine.length
    · rw [if_pos hlast, if_neg (by omega)]
    · rw [if_neg hlast, if_pos (by omega)]
  · rw [if_neg (Nat.succ_ne_zero n)]
  · exact h.grid.trans (sameGrid_apply s.mesh (.setDelta _ _))
  · exact h.sound.apply (.setDelta _ _)
  · dsimp only
    rw [setDelta_of_mem hx hy]
    dsimp only
    rw [hindex]
    by_cases heq : j = n
    · subst heq
      have hlen : m.index m.serpentine[j].1 m.serpentine[j].2 < s.mesh.z.length := by
        rw [h.sound.length, h.grid.nx, h.grid.ny]
        exact index_lt _ hmem.1 hmem.2
      rw [List.getElem?_set_self hlen]
    · have hother := mem_serpentine.mp (List.getElem_mem hj)
      have hne : m.index m.serpentine[n].1 m.serpentine[n].2
          ≠ m.index m.serpentine[j].1 m.serpentine[j].2 := by
        intro hplace
        have hnodes := index_injective hmem.1 hother.1 hplace
        exact heq ((nodup_serpentine m).getElem_inj_iff.mp hnodes.symm)
      rw [List.getElem?_set_ne hne]
      exact h.stored j hj (by omega)

/-- **A whole run**: each node has its height, from the height of the first one. -/
theorem filled_run (h : m.Sound) (params : GridProbeParams) (probeOffset : ℚ × ℚ)
    {positions : List (List ℚ)} (hlength : positions.length = m.serpentine.length)
    (hpositions : ∀ j (hj : j < m.serpentine.length) (hj' : j < positions.length),
      positions[j][Axis.z.index.val]? = some (height m.serpentine[j])) (n : ℕ)
    (hn : n ≤ m.serpentine.length) :
    Filled m height n (((positions.take n).map ProbeOutcome.success).foldl MeshProbeState.probe
      (.new m params probeOffset)) := by
  induction n with
  | zero => exact filled_new h params probeOffset
  | succ n ih =>
    have hlt : n < positions.length := by omega
    rw [List.take_succ_eq_append_getElem hlt, List.map_append, List.foldl_append]
    exact (ih (by omega)).probe (by omega) (hpositions n (by omega) hlt)

theorem Filled.getElem?_z (h : Filled m height m.serpentine.length s) (node : ℕ × ℕ)
    (hx : node.1 < m.nx) (hy : node.2 < m.ny) :
    s.mesh.z[m.index node.1 node.2]? = some (height node - height (0, 0)) := by
  obtain ⟨j, hj, rfl⟩ := List.mem_iff_getElem.mp (mem_serpentine.mpr ⟨hx, hy⟩)
  exact h.stored j hj hj

end Run

/-! ## What is interpolated -/

/-- The heights of the four nodes around a point. -/
structure Corners (m : Mesh) (x y : ℚ) where
  z00 : ℚ
  z10 : ℚ
  z01 : ℚ
  z11 : ℚ
  lower : m.z[m.index (m.cells x y).1.1 (m.cells x y).2.1]? = some z00
  right : m.z[m.index ((m.cells x y).1.1 + 1) (m.cells x y).2.1]? = some z10
  upper : m.z[m.index (m.cells x y).1.1 ((m.cells x y).2.1 + 1)]? = some z01
  opposite : m.z[m.index ((m.cells x y).1.1 + 1) ((m.cells x y).2.1 + 1)]? = some z11

/-- What is read off a height map, whatever its heights are. -/
structure LawfulMesh (m : Mesh) : Prop where
  /-- The four nodes around a point are nodes of the grid. -/
  inBounds : ∀ x y, (m.cells x y).1.1 + 1 < m.nx ∧ (m.cells x y).2.1 + 1 < m.ny
  /-- A height is between the lowest of the four corners and the highest. -/
  between : ∀ x y, ¬m.Outside x y → ∃ c : Corners m x y, ∃ v, m.interpolate x y = some v
    ∧ min (min c.z00 c.z10) (min c.z01 c.z11) ≤ v ∧ v ≤ max (max c.z00 c.z10) (max c.z01 c.z11)
  /-- What is outside is lifted over all heights. -/
  lifted : ∀ x y, m.Outside x y →
    ∃ v, m.interpolate x y = some v ∧ 0 ≤ v ∧ ∀ delta ∈ m.z, delta ≤ v

/-- A value between two others. -/
def blend (a b t : ℚ) : ℚ := a * (1 - t) + b * t

/-- A surface that is linear along each axis. -/
def Bilinear (f : ℚ × ℚ → ℚ) : Prop :=
  ∃ a b c d : ℚ, ∀ p : ℚ × ℚ, f p = a + b * p.1 + c * p.2 + d * p.1 * p.2

section Interpolated

variable {m : Mesh} {x y : ℚ}

/-- **The nodes around a point are nodes of the grid.** -/
theorem Mesh.Sound.cells_lt (h : m.Sound) (x y : ℚ) :
    (m.cells x y).1.1 + 1 < m.nx ∧ (m.cells x y).2.1 + 1 < m.ny :=
  ⟨cell_lt _ _ h.columns, cell_lt _ _ h.rows⟩

theorem Mesh.Sound.exists_getElem? (h : m.Sound) {i j : ℕ} (hx : i < m.nx) (hy : j < m.ny) :
    ∃ v, m.z[m.index i j]? = some v := by
  have hlt : m.index i j < m.z.length :=
    h.length ▸ index_lt (i, j) hx hy
  exact ⟨_, List.getElem?_eq_getElem hlt⟩

theorem Mesh.Sound.exists_corners (h : m.Sound) (x y : ℚ) : Nonempty (Corners m x y) := by
  obtain ⟨hx, hy⟩ := h.cells_lt x y
  obtain ⟨z00, h00⟩ := h.exists_getElem? (i := (m.cells x y).1.1) (j := (m.cells x y).2.1)
    (by omega) (by omega)
  obtain ⟨z10, h10⟩ := h.exists_getElem? (i := (m.cells x y).1.1 + 1) (j := (m.cells x y).2.1)
    hx (by omega)
  obtain ⟨z01, h01⟩ := h.exists_getElem? (i := (m.cells x y).1.1) (j := (m.cells x y).2.1 + 1)
    (by omega) hy
  obtain ⟨z11, h11⟩ := h.exists_getElem? hx hy
  exact ⟨⟨z00, z10, z01, z11, h00, h10, h01, h11⟩⟩

/-- What is interpolated from four heights. -/
theorem Corners.interpolate (c : Corners m x y) (h : ¬m.Outside x y) :
    m.interpolate x y = some (blend (blend c.z00 c.z10 (m.cells x y).1.2)
      (blend c.z01 c.z11 (m.cells x y).1.2) (m.cells x y).2.2) := by
  unfold Mesh.interpolate
  rw [if_neg h]
  dsimp only
  rw [c.lower, c.right, c.upper, c.opposite]
  rfl

theorem blend_mem {a b t lower upper : ℚ} (ht : 0 ≤ t ∧ t ≤ 1) (ha : lower ≤ a ∧ a ≤ upper)
    (hb : lower ≤ b ∧ b ≤ upper) : lower ≤ blend a b t ∧ blend a b t ≤ upper := by
  unfold blend
  constructor
  · nlinarith [mul_nonneg (sub_nonneg.mpr ha.1) (sub_nonneg.mpr ht.2),
      mul_nonneg (sub_nonneg.mpr hb.1) ht.1]
  · nlinarith [mul_nonneg (sub_nonneg.mpr ha.2) (sub_nonneg.mpr ht.2),
      mul_nonneg (sub_nonneg.mpr hb.2) ht.1]

/-- **What is interpolated is between the lowest of the four corners and the highest.** -/
theorem Corners.between (c : Corners m x y) (h : ¬m.Outside x y) :
    ∃ v, m.interpolate x y = some v
      ∧ min (min c.z00 c.z10) (min c.z01 c.z11) ≤ v
      ∧ v ≤ max (max c.z00 c.z10) (max c.z01 c.z11) := by
  have htx := cell_mem_Icc (x - m.min.1) m.grid.1 m.nx
  have hty := cell_mem_Icc (y - m.min.2) m.grid.2 m.ny
  refine ⟨_, c.interpolate h, blend_mem hty ?_ ?_⟩
  · exact blend_mem htx
      ⟨(min_le_left _ _).trans (min_le_left _ _), (le_max_left _ _).trans (le_max_left _ _)⟩
      ⟨(min_le_left _ _).trans (min_le_right _ _), (le_max_right _ _).trans (le_max_left _ _)⟩
  · exact blend_mem htx
      ⟨(min_le_right _ _).trans (min_le_left _ _), (le_max_left _ _).trans (le_max_right _ _)⟩
      ⟨(min_le_right _ _).trans (min_le_right _ _), (le_max_right _ _).trans (le_max_right _ _)⟩

/-- **A point that is outside is lifted** over every height. -/
theorem Mesh.Sound.lifted (h : m.Sound) (houtside : m.Outside x y) :
    ∃ v, m.interpolate x y = some v ∧ 0 ≤ v ∧ ∀ delta ∈ m.z, delta ≤ v :=
  ⟨m.maxHeight, if_pos houtside, h.lift, h.below⟩

theorem Mesh.Sound.lawful (h : m.Sound) : LawfulMesh m where
  inBounds := h.cells_lt
  between x y hinside := by
    obtain ⟨c⟩ := h.exists_corners x y
    exact ⟨c, c.between hinside⟩
  lifted _ _ := h.lifted

end Interpolated

/-! ## What is probed of a surface -/

section Surface

variable {lower upper spacing : ℚ × ℚ} {f : ℚ × ℚ → ℚ} {s : MeshProbeState} {x y : ℚ}

/-- The last node is on the bound. -/
theorem mul_effectiveSpacing (range : ℚ) {count : ℕ} (h : 2 ≤ count) :
    ((count - 1 : ℕ) : ℚ) * Mesh.effectiveSpacing range count = range := by
  have hne : ((count - 1 : ℕ) : ℚ) ≠ 0 := Nat.cast_ne_zero.mpr (by omega)
  unfold Mesh.effectiveSpacing
  field_simp

/-- A point between the bounds of an axis is where its cell says. -/
theorem cell_between {low high : ℚ} {count : ℕ} (hcount : 2 ≤ count) (hx : low ≤ x ∧ x ≤ high) :
    x = low + ((cell (x - low) (Mesh.effectiveSpacing (high - low) count) count).1
      + (cell (x - low) (Mesh.effectiveSpacing (high - low) count) count).2)
        * Mesh.effectiveSpacing (high - low) count := by
  have hrange := mul_effectiveSpacing (high - low) hcount
  have hgrid : 0 ≤ Mesh.effectiveSpacing (high - low) count :=
    div_nonneg (by linarith [hx.1, hx.2]) (Nat.cast_nonneg _)
  have hspec := cell_spec hcount hgrid (sub_nonneg.mpr hx.1) (by rw [hrange]; linarith [hx.2])
  linarith

/-- A run over the nodes of a surface. -/
abbrev Surveyed (lower upper spacing : ℚ × ℚ) (f : ℚ × ℚ → ℚ) (s : MeshProbeState) : Prop :=
  Filled (.fromSpacing lower upper spacing)
    (fun node => f ((Mesh.fromSpacing lower upper spacing).pointXy node))
    (Mesh.fromSpacing lower upper spacing).serpentine.length s

theorem Surveyed.getElem?_z (h : Surveyed lower upper spacing f s) {i j : ℕ}
    (hx : i < s.mesh.nx) (hy : j < s.mesh.ny) :
    s.mesh.z[s.mesh.index i j]?
      = some (f (lower.1 + i * s.mesh.grid.1, lower.2 + j * s.mesh.grid.2) - f lower) := by
  have hstored := Filled.getElem?_z h (i, j) (h.grid.nx ▸ hx) (h.grid.ny ▸ hy)
  have hfirst : (Mesh.fromSpacing lower upper spacing).pointXy (0, 0) = lower := by
    unfold Mesh.pointXy
    simp [Mesh.fromSpacing]
  rw [hfirst] at hstored
  unfold Mesh.index at hstored ⊢
  rw [h.grid.nx, hstored, h.grid.grid]
  rfl

/-- The heights around a point are those of the surface. -/
theorem Surveyed.corners (h : Surveyed lower upper spacing f s) (c : Corners s.mesh x y) :
    c.z00 = f (lower.1 + (s.mesh.cells x y).1.1 * s.mesh.grid.1,
          lower.2 + (s.mesh.cells x y).2.1 * s.mesh.grid.2) - f lower
      ∧ c.z10 = f (lower.1 + ((s.mesh.cells x y).1.1 + 1 : ℕ) * s.mesh.grid.1,
          lower.2 + (s.mesh.cells x y).2.1 * s.mesh.grid.2) - f lower
      ∧ c.z01 = f (lower.1 + (s.mesh.cells x y).1.1 * s.mesh.grid.1,
          lower.2 + ((s.mesh.cells x y).2.1 + 1 : ℕ) * s.mesh.grid.2) - f lower
      ∧ c.z11 = f (lower.1 + ((s.mesh.cells x y).1.1 + 1 : ℕ) * s.mesh.grid.1,
          lower.2 + ((s.mesh.cells x y).2.1 + 1 : ℕ) * s.mesh.grid.2) - f lower := by
  obtain ⟨hx, hy⟩ := h.sound.cells_lt x y
  refine ⟨?_, ?_, ?_, ?_⟩
  · exact Option.some.inj (c.lower.symm.trans (h.getElem?_z (by omega) (by omega)))
  · exact Option.some.inj (c.right.symm.trans (h.getElem?_z hx (by omega)))
  · exact Option.some.inj (c.upper.symm.trans (h.getElem?_z (by omega) hy))
  · exact Option.some.inj (c.opposite.symm.trans (h.getElem?_z hx hy))

/-- **What is probed of a bilinear surface is the surface again.** -/
theorem interpolate_surface (h : Surveyed lower upper spacing f s) (hf : Bilinear f)
    (hx : lower.1 ≤ x ∧ x ≤ upper.1) (hy : lower.2 ≤ y ∧ y ≤ upper.2) :
    s.mesh.interpolate x y = some (f (x, y) - f lower) := by
  have hmin : s.mesh.min = lower := h.grid.min
  have hmax : s.mesh.maxXy = upper := h.grid.maxXy
  have htolerance : (0 : ℚ) < edgeTolerance := by
    unfold edgeTolerance
    norm_num
  have hinside : ¬s.mesh.Outside x y := by
    unfold Mesh.Outside
    rw [hmin, hmax]
    rintro (hlt | hlt | hlt | hlt) <;> linarith [hx.1, hx.2, hy.1, hy.2]
  have hgridx : s.mesh.grid.1 = Mesh.effectiveSpacing (upper.1 - lower.1) s.mesh.nx := by
    rw [h.grid.grid, h.grid.nx]
    rfl
  have hgridy : s.mesh.grid.2 = Mesh.effectiveSpacing (upper.2 - lower.2) s.mesh.ny := by
    rw [h.grid.grid, h.grid.ny]
    rfl
  -- the point is where its cell says
  have hxcell : x = lower.1
      + ((s.mesh.cells x y).1.1 + (s.mesh.cells x y).1.2) * s.mesh.grid.1 := by
    have hspec := cell_between h.sound.columns hx
    rw [← hgridx] at hspec
    unfold Mesh.cells
    rw [hmin]
    exact hspec
  have hycell : y = lower.2
      + ((s.mesh.cells x y).2.1 + (s.mesh.cells x y).2.2) * s.mesh.grid.2 := by
    have hspec := cell_between h.sound.rows hy
    rw [← hgridy] at hspec
    unfold Mesh.cells
    rw [hmin]
    exact hspec
  obtain ⟨corners⟩ := h.sound.exists_corners x y
  obtain ⟨h00, h10, h01, h11⟩ := h.corners corners
  rw [corners.interpolate hinside, h00, h10, h01, h11]
  obtain ⟨a, b, c, d, hf⟩ := hf
  congr 1
  generalize (s.mesh.cells x y).1.1 = i at *
  generalize (s.mesh.cells x y).1.2 = tx at *
  generalize (s.mesh.cells x y).2.1 = j at *
  generalize (s.mesh.cells x y).2.2 = ty at *
  rw [hxcell, hycell]
  unfold blend
  simp only [hf]
  push_cast
  ring

/-- On an axis that runs backwards there is one cell. -/
theorem cell_of_reversed {off range : ℚ} {count : ℕ} (h : range ≤ 0) :
    cell off (Mesh.effectiveSpacing range count) count = (0, 0) :=
  if_pos (div_nonpos_of_nonpos_of_nonneg h (Nat.cast_nonneg _))

theorem blend_zero (a b : ℚ) : blend a b 0 = a := by
  unfold blend
  ring

theorem blend_self (a t : ℚ) : blend a a t = a := by
  unfold blend
  ring

/-- A surface that goes down along a first axis that runs backwards is not interpolated. -/
theorem interpolate_reversed_fst (h : Surveyed lower upper spacing Prod.fst s)
    (hrev : upper.1 < lower.1) : s.mesh.interpolate upper.1 y ≠ some (upper.1 - lower.1) := by
  intro hvalue
  by_cases houtside : s.mesh.Outside upper.1 y
  · obtain ⟨v, hv, hlift, -⟩ := h.sound.lifted houtside
    have heq := Option.some.inj (hv.symm.trans hvalue)
    linarith
  obtain ⟨corners⟩ := h.sound.exists_corners upper.1 y
  have hrange : upper.1 - lower.1 ≤ 0 := by linarith
  have hcell : (s.mesh.cells upper.1 y).1 = (0, 0) := by
    unfold Mesh.cells
    rw [h.grid.grid, h.grid.nx]
    exact cell_of_reversed hrange
  obtain ⟨h00, -, h01, -⟩ := h.corners corners
  rw [hcell] at h00 h01
  rw [corners.interpolate houtside, hcell, blend_zero, blend_zero, h00, h01] at hvalue
  have heq := Option.some.inj hvalue
  rw [blend_self] at heq
  simp only [Nat.cast_zero, zero_mul, add_zero, sub_self] at heq
  linarith

/-- A surface that goes down along a second axis that runs backwards is not interpolated. -/
theorem interpolate_reversed_snd (h : Surveyed lower upper spacing Prod.snd s)
    (hrev : upper.2 < lower.2) : s.mesh.interpolate x upper.2 ≠ some (upper.2 - lower.2) := by
  intro hvalue
  by_cases houtside : s.mesh.Outside x upper.2
  · obtain ⟨v, hv, hlift, -⟩ := h.sound.lifted houtside
    have heq := Option.some.inj (hv.symm.trans hvalue)
    linarith
  obtain ⟨corners⟩ := h.sound.exists_corners x upper.2
  have hrange : upper.2 - lower.2 ≤ 0 := by linarith
  have hcell : (s.mesh.cells x upper.2).2 = (0, 0) := by
    unfold Mesh.cells
    rw [h.grid.grid, h.grid.ny]
    exact cell_of_reversed hrange
  obtain ⟨h00, h10, -, -⟩ := h.corners corners
  rw [hcell] at h00 h10
  rw [corners.interpolate houtside, hcell, blend_zero, h00, h10] at hvalue
  have heq := Option.some.inj hvalue
  rw [blend_self] at heq
  simp only [Nat.cast_zero, zero_mul, add_zero, sub_self] at heq
  linarith

end Surface

/-! ## The law of a height map -/

/-- An acquisition with the outcomes of its probes. -/
def Mesh.acquire (m : Mesh) (params : GridProbeParams) (probeOffset : ℚ × ℚ)
    (outcomes : List ProbeOutcome) : MeshProbeState :=
  outcomes.foldl MeshProbeState.probe (.new m params probeOffset)

/-- Each node is touched where a surface is. -/
def Mesh.Touches (m : Mesh) (f : ℚ × ℚ → ℚ) (positions : List (List ℚ)) : Prop :=
  positions.map (·[Axis.z.index.val]?) = m.serpentine.map fun node => some (f (m.pointXy node))

section Law

variable {m : Mesh} {f : ℚ × ℚ → ℚ} {positions : List (List ℚ)}

theorem Mesh.Touches.filled (h : m.Touches f positions) (hm : m.Sound) (params : GridProbeParams)
    (probeOffset : ℚ × ℚ) :
    Filled m (fun node => f (m.pointXy node)) m.serpentine.length
      (m.acquire params probeOffset (positions.map .success)) := by
  have hlength : positions.length = m.serpentine.length := by
    simpa using congrArg List.length h
  have hfilled : Filled m (fun node => f (m.pointXy node)) m.serpentine.length
      (((positions.take m.serpentine.length).map ProbeOutcome.success).foldl MeshProbeState.probe
        (.new m params probeOffset)) :=
    filled_run hm params probeOffset hlength (fun j hj hj' => by
      have hget := congrArg (·[j]?) h
      simpa [hj, hj'] using hget) m.serpentine.length le_rfl
  rwa [List.take_of_length_le hlength.le] at hfilled

/-- Every surface can be touched. -/
theorem exists_touches (m : Mesh) (f : ℚ × ℚ → ℚ) : ∃ positions, m.Touches f positions :=
  ⟨m.serpentine.map fun node => [0, 0, f (m.pointXy node)], by
    unfold Mesh.Touches
    rw [List.map_map]
    rfl⟩

theorem bilinear_fst : Bilinear Prod.fst := ⟨0, 1, 0, 0, fun p => by ring⟩

theorem bilinear_snd : Bilinear Prod.snd := ⟨0, 0, 1, 0, fun p => by ring⟩

/-- **A bilinear surface is interpolated** exactly if the corners are the right way around. -/
theorem interpolates_iff (lower upper spacing : ℚ × ℚ) (params : GridProbeParams)
    (probeOffset : ℚ × ℚ) :
    (∀ f, Bilinear f → ∀ positions, (Mesh.fromSpacing lower upper spacing).Touches f positions →
      ∀ x ∈ Set.uIcc lower.1 upper.1, ∀ y ∈ Set.uIcc lower.2 upper.2,
        ((Mesh.fromSpacing lower upper spacing).acquire params probeOffset
          (positions.map .success)).mesh.interpolate x y = some (f (x, y) - f lower))
      ↔ lower.1 ≤ upper.1 ∧ lower.2 ≤ upper.2 := by
  have hsound := sound_fromSpacing lower upper spacing
  constructor
  · intro h
    constructor
    · by_contra hrev
      obtain ⟨positions, htouches⟩ := exists_touches (.fromSpacing lower upper spacing) Prod.fst
      exact interpolate_reversed_fst (htouches.filled hsound params probeOffset) (not_le.mp hrev)
        (h Prod.fst bilinear_fst positions htouches _ Set.right_mem_uIcc lower.2 Set.left_mem_uIcc)
    · by_contra hrev
      obtain ⟨positions, htouches⟩ := exists_touches (.fromSpacing lower upper spacing) Prod.snd
      exact interpolate_reversed_snd (htouches.filled hsound params probeOffset) (not_le.mp hrev)
        (h Prod.snd bilinear_snd positions htouches lower.1 Set.left_mem_uIcc _ Set.right_mem_uIcc)
  · rintro ⟨hfst, hsnd⟩ f hf positions htouches x hx y hy
    rw [Set.uIcc_of_le hfst] at hx
    rw [Set.uIcc_of_le hsnd] at hy
    exact interpolate_surface (htouches.filled hsound params probeOffset) hf hx hy

end Law

end Galdr.Host.Latch
