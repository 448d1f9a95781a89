import Galdr.Coordinates

/-!
# Setting the position

`G92` and `G10 L20` say where the machine stands. Each solves for one of the offsets, given the
others: `G10 L20` for that of a system, `G92` for its own. The position then reads as it was given,
whatever offsets were there before, with one exception: `G92` leaves the tool length in, so that the
position along the spindle reads short by it.
-/

namespace Galdr.CoordinateSystems

variable {K : Type} [Field K]

/-! ## The two conversions -/

@[simp] theorem machineToWork_workToMachine (s : CoordinateSystems K) (work : Axes K) :
    s.machineToWork (s.workToMachine work) = work := by
  funext axis
  exact add_sub_cancel_right (work axis) (s.wco axis)

@[simp] theorem workToMachine_machineToWork (s : CoordinateSystems K) (machine : Axes K) :
    s.workToMachine (s.machineToWork machine) = machine := by
  funext axis
  exact sub_add_cancel (machine axis) (s.wco axis)

/-! ## What a position reads as -/

/-- The tool length, along the spindle. -/
def toolLength (s : CoordinateSystems K) : Axes K := fun axis =>
  if axis = tloAxis then s.tlo else 0

/-- A position has come to read as given on the axes that are present, and reads on the others as it
did before. -/
def ReadsAs (before after : CoordinateSystems K) (machine work : Axes K)
    (present : Fin 4 → Bool) : Prop :=
  ∀ axis, after.machineToWork machine axis
    = if present axis then work axis else before.machineToWork machine axis

/-- The offsets of all systems but one are as before. -/
def SameOffsetsBut (index : Fin wcsCount) (before after : CoordinateSystems K) : Prop :=
  ∀ i, i ≠ index → after.offsets i = before.offsets i

/-- The position after `G10 L20`: the system's offset takes up the other two. -/
theorem readsAs_setWcsOffsetToPosition (s : CoordinateSystems K) (machine work : Axes K)
    (present : Fin 4 → Bool) :
    ReadsAs s (s.setWcsOffsetToPosition s.active machine work present) machine work present := by
  intro axis
  set after := s.setWcsOffsetToPosition s.active machine work present with hafter
  have hread : after.machineToWork machine axis
      = machine axis - (after.offsets s.active axis + s.g92 axis + s.toolLength axis) := rfl
  by_cases hpresent : present axis = true
  · have hoffset : after.offsets s.active axis
        = machine axis - work axis - s.g92 axis - s.toolLength axis :=
      offsets_updateOffset rfl hpresent
    rw [if_pos hpresent, hread, hoffset]
    ring
  · have hoffset : after.offsets s.active axis = s.offsets s.active axis :=
      offsets_updateOffset_of_not fun _ => eq_false_of_ne_true hpresent
    rw [if_neg hpresent, hread, hoffset]
    rfl

/-- The position after `G92`: the offset takes up that of the system, but not the tool length. -/
theorem readsAs_setG92ToPosition (s : CoordinateSystems K) (machine work : Axes K)
    (present : Fin 4 → Bool) :
    ReadsAs s (s.setG92ToPosition machine work present) machine (work - s.toolLength) present := by
  intro axis
  set after := s.setG92ToPosition machine work present with hafter
  have hread : after.machineToWork machine axis
      = machine axis - (s.offsets s.active axis + after.g92 axis + s.toolLength axis) := rfl
  by_cases hpresent : present axis = true
  · have hg92 : after.g92 axis = machine axis - s.offsets s.active axis - work axis :=
      if_pos hpresent
    rw [if_pos hpresent, hread, hg92, Pi.sub_apply]
    ring
  · have hg92 : after.g92 axis = s.g92 axis := if_neg hpresent
    rw [if_neg hpresent, hread, hg92]
    rfl

/-- The position reads as given after `G92` just if the tool length is none, or the axis along the
spindle is not given. -/
theorem readsAs_setG92ToPosition_iff (s : CoordinateSystems K) (machine work : Axes K)
    (present : Fin 4 → Bool) :
    ReadsAs s (s.setG92ToPosition machine work present) machine work present
      ↔ present tloAxis = false ∨ s.tlo = 0 := by
  have hreads := readsAs_setG92ToPosition s machine work present
  constructor
  · intro h
    by_cases hpresent : present tloAxis = true
    · have hz := (hreads tloAxis).symm.trans (h tloAxis)
      rw [if_pos hpresent, if_pos hpresent, Pi.sub_apply, sub_eq_self] at hz
      exact .inr (by rwa [toolLength, if_pos rfl] at hz)
    · exact .inl (eq_false_of_ne_true hpresent)
  · intro h axis
    rw [hreads axis]
    by_cases hpresent : present axis = true
    · rw [if_pos hpresent, if_pos hpresent, Pi.sub_apply, sub_eq_self, toolLength]
      by_cases haxis : axis = tloAxis
      · subst haxis
        rw [if_pos rfl]
        exact h.resolve_left (by rw [hpresent]; exact Bool.true_eq_false.mp)
      · exact if_neg haxis
    · rw [if_neg hpresent, if_neg hpresent]

theorem sameOffsetsBut_setWcsOffsetToPosition (s : CoordinateSystems K) (machine work : Axes K)
    (present : Fin 4 → Bool) (index : Fin wcsCount) :
    SameOffsetsBut index s (s.setWcsOffsetToPosition index machine work present) := by
  intro i hi
  funext axis
  exact offsets_updateOffset_of_not fun h => absurd (Fin.ext h) hi

/-! ## The words of a line -/

/-- What is asked of a line that sets the position: it then reads as the words say, and no other
system has changed. -/
structure SetsPosition (before : CoordinateSystems K) (rotaryMask : UInt8) (machine : Axes K)
    (op : CoordinateOp K) (axes : AxisWords K) (units : Units) : Prop where
  /-- The position reads as the words say. -/
  reads : ReadsAs before (before.applyCoordinateOp rotaryMask machine op) machine
    (axisValuesMm axes units rotaryMask).1 (axisValuesMm axes units rotaryMask).2
  /-- No other system has changed. -/
  others : SameOffsetsBut before.active before (before.applyCoordinateOp rotaryMask machine op)

/-- The law of setting a position, for both commands. -/
def PositionLaw (s : CoordinateSystems K) : Prop :=
  (∀ p, s.machineToWork (s.workToMachine p) = p ∧ s.workToMachine (s.machineToWork p) = p)
    ∧ ∀ rotaryMask machine axes units,
      s.SetsPosition rotaryMask machine (.setWcsOffsetToPosition s.active axes units) axes units
        ∧ s.SetsPosition rotaryMask machine (.setG92ToPosition axes units) axes units

/-- The machine with a tool length, and nothing else set. -/
def longTool : CoordinateSystems ℚ := ⟨fun _ _ => 0, Fin.last 5, fun _ => 0, 5, fun _ _ => 0⟩

/-- **`G92` does not keep the law**: with a tool length, the axis of the spindle does not read as
given. -/
theorem not_positionLaw : ¬ ∀ s : CoordinateSystems ℚ, s.PositionLaw := by
  intro h
  have hreads := ((h longTool).2 0 (fun _ => 0) ⟨none, none, some 1, none⟩ .millimeter).2.reads
  exact absurd (hreads tloAxis) (by decide +kernel)

/-- **The position reads as it was set**, whatever offsets are there: after `G10 L20` on every axis
that is named, after `G92` less the tool length. -/
theorem set_to_position (s : CoordinateSystems K) :
    (∀ p, s.machineToWork (s.workToMachine p) = p ∧ s.workToMachine (s.machineToWork p) = p)
      ∧ ∀ rotaryMask machine axes units,
        s.SetsPosition rotaryMask machine (.setWcsOffsetToPosition s.active axes units) axes units
          ∧ ReadsAs s (s.applyCoordinateOp rotaryMask machine (.setG92ToPosition axes units)) machine
            ((axisValuesMm axes units rotaryMask).1 - s.toolLength)
            (axisValuesMm axes units rotaryMask).2
          ∧ (s.applyCoordinateOp rotaryMask machine (.setG92ToPosition axes units)).offsets
            = s.offsets
          ∧ (s.SetsPosition rotaryMask machine (.setG92ToPosition axes units) axes units
            ↔ axes.word tloAxis = none ∨ s.tlo = 0) := by
  refine ⟨fun p => ⟨machineToWork_workToMachine s p, workToMachine_machineToWork s p⟩, ?_⟩
  intro rotaryMask machine axes units
  refine ⟨⟨readsAs_setWcsOffsetToPosition s machine _ _,
    sameOffsetsBut_setWcsOffsetToPosition s machine _ _ s.active⟩,
    readsAs_setG92ToPosition s machine _ _, rfl, ?_⟩
  have hword : (axisValuesMm axes units rotaryMask).2 tloAxis = false
      ↔ axes.word tloAxis = none := Option.isSome_eq_false_iff.trans Option.isNone_iff_eq_none
  rw [← hword, ← readsAs_setG92ToPosition_iff s machine]
  exact ⟨fun h => h.reads, fun h => ⟨h, fun _ _ => rfl⟩⟩

end Galdr.CoordinateSystems
