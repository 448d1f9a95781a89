import Galdr.HeightMesh
import Galdr.Inquiries
import Galdr.ProbeLatch

/-!
# What the wizards have measured

The centre finder, the datum finder, the sweep and the acquisition of a height map each ask for the
touches of a plan, in its order, and store the contact of every touch that succeeded. Whatever is
done with them, what they have stored was read of the answers to the first touches of the plan; they
have all of it exactly when they are done, unless they were given up; and from there nothing leads
back (`wizards_honest`).

A result is computed from what is stored. The centre between the two sides is there before the last
touch is made, since the tool moves to it for that touch, and the contacts of a sweep and the map of
an acquisition can be looked at while they are not complete.
-/

namespace Galdr.Host.Latch

open Inquiry

/-- What a touch is answered with, as far as one axis goes. -/
def contact (axis : Axis) : ProbeOutcome → Option ℚ
  | .success position => position[axis.index.val]?
  | .failure _ => none

/-- The log of a wizard. -/
abbrev Log (T : Type) : Type := List (Inquiry.Event T ProbeOutcome)

/-! ## The centre finder -/

section Centre

/-- The touches that a centre finder is asked for. -/
inductive CentreTouch
  | yLeft
  | yRight
  | zTop

/-- What else is done with a centre finder. -/
inductive CentreNote
  /-- The move to the middle was sent. -/
  | movedToYc
  /-- The zero of the spindle axis is put on something. -/
  | zDatum (datum : ZDatum)

end Centre

end Galdr.Host.Latch

namespace Galdr.Host.WizardState

open Latch

/-- A run that has not begun. -/
def new (dowelDiameter indexAngleDeg : ℚ) : WizardState :=
  ⟨.enterDowel, dowelDiameter, indexAngleDeg, none, none, none, .axisCenterline, none⟩

/-- Begin the touch of the left side. -/
def beginYLeft (s : WizardState) : Option RotaryTouch × WizardState :=
  if s.step ≠ .enterDowel then (none, s)
  else (some ⟨s.indexAngleDeg, .y, .pos⟩, { s with step := .probeYLeft })

/-- Begin the touch of the right side. -/
def beginYRight (s : WizardState) : Option RotaryTouch × WizardState :=
  if s.step ≠ .readyYRight then (none, s)
  else (some ⟨s.indexAngleDeg, .y, .neg⟩, { s with step := .probeYRight })

/-- The move to the middle was sent. -/
def markMovedToYc (s : WizardState) : Bool × WizardState :=
  if s.step ≠ .moveToYc then (false, s)
  else (true, { s with step := .movedToYc })

/-- Begin the touch of the top. -/
def beginZTop (s : WizardState) : Option RotaryTouch × WizardState :=
  if s.step ≠ .movedToYc then (none, s)
  else (some ⟨s.indexAngleDeg, .z, .neg⟩, { s with step := .probeZTop })

/-- Begin a touch. -/
def beginTouch (s : WizardState) : CentreTouch → Option RotaryTouch × WizardState
  | .yLeft => s.beginYLeft
  | .yRight => s.beginYRight
  | .zTop => s.beginZTop

/-- Take a note. -/
def note (s : WizardState) : CentreNote → Bool × WizardState
  | .movedToYc => s.markMovedToYc
  | .zDatum datum => (false, { s with zDatum := datum })

end Galdr.Host.WizardState

namespace Galdr.Host.Latch

open Inquiry

section Centre

/-- A centre finder as a machine. -/
def centreMachine :
    Inquiry.Machine WizardState CentreTouch RotaryTouch ProbeOutcome CentreNote (List Char) where
  begin := WizardState.beginTouch
  answer := WizardState.onProbeResult
  note := WizardState.note
  abort := WizardState.abort

/-- The plan of a centre finder. -/
def centrePlan (angle : ℚ) : List (Inquiry.Item RotaryTouch ProbeOutcome ℚ) :=
  [.ask ⟨angle, .y, .pos⟩ (contact .y), .ask ⟨angle, .y, .neg⟩ (contact .y), .note,
    .ask ⟨angle, .z, .neg⟩ (contact .z)]

/-- What a centre finder has stored, in the order of the touches. -/
def centreReadings (s : WizardState) : List ℚ :=
  s.yLeft.toList ++ s.yRight.toList ++ s.zTop.toList

/-- How far a centre finder is, by its step and the three contacts. -/
inductive CentreStage : WizardStep → Option ℚ → Option ℚ → Option ℚ → Progress ℚ → Prop
  | enterDowel : CentreStage .enterDowel none none none ⟨0, false, [], false⟩
  | probeYLeft : CentreStage .probeYLeft none none none ⟨0, true, [], false⟩
  | readyYRight (l : ℚ) : CentreStage .readyYRight (some l) none none ⟨1, false, [l], false⟩
  | probeYRight (l : ℚ) : CentreStage .probeYRight (some l) none none ⟨1, true, [l], false⟩
  | moveToYc (l r : ℚ) : CentreStage .moveToYc (some l) (some r) none ⟨2, false, [l, r], false⟩
  | movedToYc (l r : ℚ) : CentreStage .movedToYc (some l) (some r) none ⟨3, false, [l, r], false⟩
  | probeZTop (l r : ℚ) : CentreStage .probeZTop (some l) (some r) none ⟨3, true, [l, r], false⟩
  | review (l r z : ℚ) :
    CentreStage .review (some l) (some r) (some z) ⟨4, false, [l, r, z], false⟩
  | aborted {step : WizardStep} {l r z : Option ℚ} {p : Progress ℚ} (h : CentreStage step l r z p) :
    CentreStage .aborted l r z p.stop

/-- A centre finder of an angle is so far. -/
def CentreAt (angle : ℚ) (s : WizardState) (p : Progress ℚ) : Prop :=
  s.indexAngleDeg = angle ∧ CentreStage s.step s.yLeft s.yRight s.zTop p

/-- A touch is begun in its step only. -/
theorem beginTouch_cases (s : WizardState) (which : CentreTouch) :
    s.beginTouch which = (none, s)
      ∨ s.step = .enterDowel
        ∧ s.beginTouch which = (some ⟨s.indexAngleDeg, .y, .pos⟩, { s with step := .probeYLeft })
      ∨ s.step = .readyYRight
        ∧ s.beginTouch which = (some ⟨s.indexAngleDeg, .y, .neg⟩, { s with step := .probeYRight })
      ∨ s.step = .movedToYc ∧ s.beginTouch which
        = (some ⟨s.indexAngleDeg, .z, .neg⟩, { s with step := .probeZTop }) := by
  cases which with
  | yLeft =>
    by_cases h : s.step = .enterDowel
    · exact .inr (.inl ⟨h, if_neg (not_not.mpr h)⟩)
    · exact .inl (if_pos h)
  | yRight =>
    by_cases h : s.step = .readyYRight
    · exact .inr (.inr (.inl ⟨h, if_neg (not_not.mpr h)⟩))
    · exact .inl (if_pos h)
  | zTop =>
    by_cases h : s.step = .movedToYc
    · exact .inr (.inr (.inr ⟨h, if_neg (not_not.mpr h)⟩))
    · exact .inl (if_pos h)

theorem CentreAt.answer {angle : ℚ} {s : WizardState} {p : Progress ℚ} (hat : CentreAt angle s p)
    (outcome : ProbeOutcome) :
    p.Takes (centrePlan angle) outcome (CentreAt angle (s.onProbeResult outcome)) := by
  obtain ⟨hangle, hstage⟩ := hat
  cases outcome with
  | failure reason => exact .inr (.inr ⟨hangle, .aborted hstage⟩)
  | success position =>
    obtain ⟨step, dowel, index, left, right, top, datum, reason⟩ := s
    have hstage' := hstage
    cases hstage with
    | probeYLeft =>
      cases hcontact : position[Axis.y.index.val]? with
      | none =>
        refine .inr (.inr ?_)
        simp only [WizardState.onProbeResult, hcontact]
        exact ⟨hangle, .aborted hstage'⟩
      | some l =>
        refine .inl ⟨_, _, l, rfl, rfl, rfl, hcontact, ?_⟩
        simp only [WizardState.onProbeResult, hcontact]
        exact ⟨hangle, .readyYRight l⟩
    | probeYRight l =>
      cases hcontact : position[Axis.y.index.val]? with
      | none =>
        refine .inr (.inr ?_)
        simp only [WizardState.onProbeResult, hcontact]
        exact ⟨hangle, .aborted hstage'⟩
      | some r =>
        refine .inl ⟨_, _, r, rfl, rfl, rfl, hcontact, ?_⟩
        simp only [WizardState.onProbeResult, hcontact]
        exact ⟨hangle, .moveToYc l r⟩
    | probeZTop l r =>
      cases hcontact : position[Axis.z.index.val]? with
      | none =>
        refine .inr (.inr ?_)
        simp only [WizardState.onProbeResult, hcontact]
        exact ⟨hangle, .aborted hstage'⟩
      | some z =>
        refine .inl ⟨_, _, z, rfl, rfl, rfl, hcontact, ?_⟩
        simp only [WizardState.onProbeResult, hcontact]
        exact ⟨hangle, .review l r z⟩
    | enterDowel | readyYRight | moveToYc | movedToYc | review =>
      exact .inr (.inl ⟨.inr rfl, hangle, hstage'⟩)
    | aborted h => exact .inr (.inl ⟨.inl rfl, hangle, hstage'⟩)

theorem centre_along (angle : ℚ) : Along centreMachine (centrePlan angle) (CentreAt angle) where
  begin_none := by
    intro s p which hat hnone
    simp only [centreMachine] at hnone ⊢
    rcases beginTouch_cases s which with h | ⟨-, h⟩ | ⟨-, h⟩ | ⟨-, h⟩
    · rw [h]
      exact hat
    all_goals
      rw [h] at hnone
      cases hnone
  begin_some := by
    rintro s p which q ⟨rfl, hstage⟩ hsome
    have hcases := beginTouch_cases s which
    obtain ⟨step, dowel, index, left, right, top, datum, reason⟩ := s
    simp only [centreMachine] at hsome hcases ⊢
    rcases hcases with h | ⟨rfl, h⟩ | ⟨rfl, h⟩ | ⟨rfl, h⟩
    · rw [h] at hsome
      cases hsome
    · rw [h] at hsome ⊢
      cases hsome
      cases hstage
      exact ⟨⟨_, rfl, rfl, rfl⟩, rfl, .probeYLeft⟩
    · rw [h] at hsome ⊢
      cases hsome
      cases hstage with
      | readyYRight l => exact ⟨⟨_, rfl, rfl, rfl⟩, rfl, .probeYRight l⟩
    · rw [h] at hsome ⊢
      cases hsome
      cases hstage with
      | movedToYc l r => exact ⟨⟨_, rfl, rfl, rfl⟩, rfl, .probeZTop l r⟩
  answer outcome hat := hat.answer outcome
  note_false := by
    intro s p note hat hfalse
    cases note with
    | zDatum datum => exact hat
    | movedToYc =>
      by_cases h : s.step = .moveToYc
      · have hnote : centreMachine.note s .movedToYc = (true, { s with step := .movedToYc }) :=
          if_neg (not_not.mpr h)
        rw [hnote] at hfalse
        cases hfalse
      · have hnote : centreMachine.note s .movedToYc = (false, s) := if_pos h
        rw [hnote]
        exact hat
  note_true := by
    rintro s p note ⟨rfl, hstage⟩ htrue
    cases note with
    | zDatum datum => cases htrue
    | movedToYc =>
      by_cases h : s.step = .moveToYc
      · have hnote : centreMachine.note s .movedToYc = (true, { s with step := .movedToYc }) :=
          if_neg (not_not.mpr h)
        rw [hnote]
        obtain ⟨step, dowel, index, left, right, top, datum, reason⟩ := s
        cases h
        cases hstage with
        | moveToYc l r => exact ⟨⟨rfl, rfl, rfl⟩, rfl, .movedToYc l r⟩
      · have hnote : centreMachine.note s .movedToYc = (false, s) := if_pos h
        rw [hnote] at htrue
        cases htrue
  abort := by
    intro s p reason hat
    exact ⟨hat.1, .aborted hat.2⟩

theorem CentreStage.readings {step : WizardStep} {l r z : Option ℚ} {p : Progress ℚ}
    (h : CentreStage step l r z p) : p.readings = l.toList ++ r.toList ++ z.toList := by
  induction h with
  | aborted h ih => exact ih
  | _ => rfl

theorem CentreStage.of_review {l r z : Option ℚ} {p : Progress ℚ}
    (h : CentreStage .review l r z p) :
    p.stopped = false ∧ p.asking = false ∧ p.behind = 4 := by
  cases h
  exact ⟨rfl, rfl, rfl⟩

/-- The steps in which the middle between the sides is known. -/
def afterSides : List WizardStep := [.moveToYc, .movedToYc, .probeZTop, .review]

/-- Which contacts a step has. -/
theorem CentreStage.contacts {step : WizardStep} {l r z : Option ℚ} {p : Progress ℚ}
    (h : CentreStage step l r z p) (hne : step ≠ .aborted) :
    (l.isSome = true ∧ r.isSome = true ↔ step ∈ afterSides)
      ∧ (z.isSome = true ↔ step = .review) := by
  cases h with
  | aborted h => exact absurd rfl hne
  | _ => simp [afterSides]

/-- What a wizard stored was read of the answers to the first touches of its plan, which are at the
head of its log; and there are at least as many touches. -/
structure Backed {T : Type} (plan : List (Inquiry.Item T ProbeOutcome ℚ)) (readings : List ℚ)
    (log : Log T) : Prop where
  /-- The readings are the contacts of the first touches of the plan. -/
  first : ∃ n before, before <+: log ∧ Follows (plan.take n) readings before
  /-- The readings do not outnumber the touches. -/
  count : readings.length ≤ log.countP Inquiry.Event.isAsked

theorem backed_of_logged {T : Type} {plan : List (Inquiry.Item T ProbeOutcome ℚ)} {p : Progress ℚ}
    {log : Log T} (h : Logged plan p log) : Backed plan p.readings log := by
  obtain ⟨before, hprefix, hfollows⟩ := h.follows
  exact ⟨⟨p.behind, before, hprefix, hfollows⟩, h.length_readings_le⟩

/-- What a centre finder promises. -/
structure CentreHonest (angle : ℚ) (s : WizardState) (log : Log RotaryTouch) : Prop where
  /-- What is stored was read of the answers. -/
  backed : Backed (centrePlan angle) (centreReadings s) log
  /-- In review the whole plan is behind it: the sides, the move that was sent, and the top. -/
  complete : s.step = .review → Follows (centrePlan angle) (centreReadings s) log
  /-- The line is offered in review. -/
  offered : s.step ≠ .aborted → ∀ wcs, (s.offerG10 wcs).isSome = true ↔ s.step = .review
  /-- The axis is known in review. -/
  axis : s.step ≠ .aborted → (s.zCenter.isSome = true ↔ s.step = .review)
  /-- The middle is known from the second side on. -/
  middle : s.step ≠ .aborted → (s.yCenter.isSome = true ↔ s.step ∈ afterSides)
  /-- Nothing leads back. -/
  terminal : s.step = .aborted → ∀ op, (centreMachine.step (s, log) op).1.step = .aborted

theorem centre_terminal {s : WizardState} (h : s.step = .aborted) (log : Log RotaryTouch)
    (op : Op CentreTouch ProbeOutcome CentreNote (List Char)) :
    (centreMachine.step (s, log) op).1.step = .aborted := by
  cases op with
  | begin which =>
    rcases beginTouch_cases s which with hbegin | ⟨hstep, -⟩ | ⟨hstep, -⟩ | ⟨hstep, -⟩
    · simp only [Inquiry.Machine.step, centreMachine, hbegin]
      exact h
    all_goals
      rw [h] at hstep
      cases hstep
  | answer outcome =>
    cases outcome with
    | failure reason => rfl
    | success position =>
      simp only [Inquiry.Machine.step, centreMachine, WizardState.onProbeResult, h]
  | note note =>
    cases note with
    | zDatum datum => exact h
    | movedToYc =>
      simp only [Inquiry.Machine.step, centreMachine, WizardState.note,
        WizardState.markMovedToYc, h]
      exact h
  | abort reason => rfl

theorem isSome_yCenter (s : WizardState) :
    s.yCenter.isSome = true ↔ s.yLeft.isSome = true ∧ s.yRight.isSome = true := by
  unfold WizardState.yCenter
  cases s.yLeft <;> cases s.yRight <;> simp

theorem isSome_zCenter (s : WizardState) : s.zCenter.isSome = s.zTop.isSome := by
  unfold WizardState.zCenter
  exact Option.isSome_map

theorem isSome_offerG10 (s : WizardState) (wcs : Wcs) :
    (s.offerG10 wcs).isSome = true ↔ s.yCenter.isSome = true ∧ s.zTop.isSome = true := by
  have hdatum : s.zDatumValue.isSome = s.zTop.isSome := by
    unfold WizardState.zDatumValue
    cases s.zDatum with
    | axisCenterline => exact isSome_zCenter s
    | topSurface => rfl
  rw [← hdatum]
  unfold WizardState.offerG10
  cases s.yCenter <;> cases s.zDatumValue <;> simp

theorem centre_honest (dowelDiameter angle : ℚ)
    (ops : List (Op CentreTouch ProbeOutcome CentreNote (List Char))) :
    CentreHonest angle (centreMachine.run (.new dowelDiameter angle) ops).1
      (centreMachine.run (.new dowelDiameter angle) ops).2 := by
  obtain ⟨p, ⟨-, hstage⟩, hlog⟩ := (centre_along angle).run (w := .new dowelDiameter angle)
    ⟨rfl, .enterDowel⟩ ops
  generalize centreMachine.run (.new dowelDiameter angle) ops = st at hstage hlog ⊢
  have hreadings : p.readings = centreReadings st.1 := hstage.readings
  refine ⟨hreadings ▸ backed_of_logged hlog, fun hreview => ?_, fun habort wcs => ?_,
    fun habort => ?_, fun habort => ?_, fun h op => centre_terminal h _ op⟩
  · rw [hreview] at hstage
    obtain ⟨hstopped, hasking, hbehind⟩ := hstage.of_review
    have hfollows := hlog.between hstopped hasking
    rw [hbehind, hreadings] at hfollows
    exact hfollows
  · obtain ⟨hsides, htop⟩ := hstage.contacts habort
    rw [isSome_offerG10, isSome_yCenter, hsides, htop]
    refine and_iff_right_of_imp fun hreview => ?_
    rw [hreview]
    decide
  · rw [isSome_zCenter]
    exact (hstage.contacts habort).2
  · rw [isSome_yCenter]
    exact (hstage.contacts habort).1

end Centre

/-! ## The datum finder -/

section Datum

/-- A datum finder as a machine. -/
def datumMachine : Inquiry.Machine DatumState Unit Touch ProbeOutcome Empty (List Char) where
  begin s _ := s.beginProbe
  answer := DatumState.onProbeResult
  note _ note := note.elim
  abort := DatumState.abort

/-- The plan of a datum finder. -/
def datumPlan : DatumTarget → List (Inquiry.Item Touch ProbeOutcome ℚ)
  | .edge axis dir => [.ask ⟨axis, dir⟩ (contact axis)]
  | .corner corner => [.ask ⟨.x, dirOf corner.approachX⟩ (contact .x),
      .ask ⟨.y, dirOf corner.approachY⟩ (contact .y)]

/-- What a datum finder has stored. -/
def datumReadings (s : DatumState) : List ℚ :=
  s.edgeContact.toList ++ s.xContact.toList ++ s.yContact.toList

/-- How far a datum finder is, by its step and the three contacts. -/
inductive DatumStage : DatumTarget → DatumStep → Option ℚ → Option ℚ → Option ℚ → Progress ℚ → Prop
  | enterParams (target : DatumTarget) :
    DatumStage target .enterParams none none none ⟨0, false, [], false⟩
  | probeEdge (axis : Axis) (dir : Dir) :
    DatumStage (.edge axis dir) .probeEdge none none none ⟨0, true, [], false⟩
  | reviewEdge (axis : Axis) (dir : Dir) (contact : ℚ) :
    DatumStage (.edge axis dir) .review (some contact) none none ⟨1, false, [contact], false⟩
  | probeFaceX (corner : Corner) :
    DatumStage (.corner corner) .probeFaceX none none none ⟨0, true, [], false⟩
  | readyFaceY (corner : Corner) (x : ℚ) :
    DatumStage (.corner corner) .readyFaceY none (some x) none ⟨1, false, [x], false⟩
  | probeFaceY (corner : Corner) (x : ℚ) :
    DatumStage (.corner corner) .probeFaceY none (some x) none ⟨1, true, [x], false⟩
  | reviewCorner (corner : Corner) (x y : ℚ) :
    DatumStage (.corner corner) .review none (some x) (some y) ⟨2, false, [x, y], false⟩
  | aborted {target : DatumTarget} {step : DatumStep} {edge x y : Option ℚ} {p : Progress ℚ}
    (h : DatumStage target step edge x y p) : DatumStage target .aborted edge x y p.stop

/-- A datum finder is so far. -/
def DatumAt (target : DatumTarget) (s : DatumState) (p : Progress ℚ) : Prop :=
  s.target = target ∧ DatumStage target s.step s.edgeContact s.xContact s.yContact p

theorem DatumStage.readings {target : DatumTarget} {step : DatumStep} {edge x y : Option ℚ}
    {p : Progress ℚ} (h : DatumStage target step edge x y p) :
    p.readings = edge.toList ++ x.toList ++ y.toList := by
  induction h with
  | aborted h ih => exact ih
  | _ => rfl

theorem DatumStage.of_review {target : DatumTarget} {edge x y : Option ℚ} {p : Progress ℚ}
    (h : DatumStage target .review edge x y p) :
    p.stopped = false ∧ p.asking = false ∧ p.behind = (datumPlan target).length := by
  cases h with
  | reviewEdge axis dir contact => exact ⟨rfl, rfl, rfl⟩
  | reviewCorner corner x y => exact ⟨rfl, rfl, rfl⟩

/-- A touch is begun in its step only. -/
theorem beginProbe_cases (s : DatumState) :
    s.beginProbe = (none, s)
      ∨ (∃ axis dir, s.target = .edge axis dir ∧ s.step = .enterParams
        ∧ s.beginProbe = (some ⟨axis, dir⟩, { s with step := .probeEdge }))
      ∨ (∃ corner, s.target = .corner corner ∧ s.step = .enterParams
        ∧ s.beginProbe = (some ⟨.x, dirOf corner.approachX⟩, { s with step := .probeFaceX }))
      ∨ ∃ corner, s.target = .corner corner ∧ s.step = .readyFaceY
        ∧ s.beginProbe = (some ⟨.y, dirOf corner.approachY⟩, { s with step := .probeFaceY }) := by
  obtain ⟨step, target, diameter, edge, x, y, reason⟩ := s
  cases target with
  | edge axis dir =>
    cases step with
    | enterParams => exact .inr (.inl ⟨axis, dir, rfl, rfl, rfl⟩)
    | _ => exact .inl rfl
  | corner corner =>
    cases step with
    | enterParams => exact .inr (.inr (.inl ⟨corner, rfl, rfl, rfl⟩))
    | readyFaceY => exact .inr (.inr (.inr ⟨corner, rfl, rfl, rfl⟩))
    | _ => exact .inl rfl

theorem DatumAt.answer {target : DatumTarget} {s : DatumState} {p : Progress ℚ}
    (hat : DatumAt target s p) (outcome : ProbeOutcome) :
    p.Takes (datumPlan target) outcome (DatumAt target (s.onProbeResult outcome)) := by
  obtain ⟨htarget, hstage⟩ := hat
  cases outcome with
  | failure reason => exact .inr (.inr ⟨htarget, .aborted hstage⟩)
  | success position =>
    obtain ⟨step, target', diameter, edge, x, y, reason⟩ := s
    obtain rfl : target' = target := htarget
    have hstage' := hstage
    cases hstage with
    | probeEdge axis dir =>
      cases hcontact : position[axis.index.val]? with
      | none =>
        refine .inr (.inr ?_)
        simp only [DatumState.onProbeResult, hcontact]
        exact ⟨rfl, .aborted hstage'⟩
      | some value =>
        refine .inl ⟨_, _, value, rfl, rfl, rfl, hcontact, ?_⟩
        simp only [DatumState.onProbeResult, hcontact]
        exact ⟨rfl, .reviewEdge axis dir value⟩
    | probeFaceX corner =>
      cases hcontact : position[Axis.x.index.val]? with
      | none =>
        refine .inr (.inr ?_)
        simp only [DatumState.onProbeResult, hcontact]
        exact ⟨rfl, .aborted hstage'⟩
      | some value =>
        refine .inl ⟨_, _, value, rfl, rfl, rfl, hcontact, ?_⟩
        simp only [DatumState.onProbeResult, hcontact]
        exact ⟨rfl, .readyFaceY corner value⟩
    | probeFaceY corner x =>
      cases hcontact : position[Axis.y.index.val]? with
      | none =>
        refine .inr (.inr ?_)
        simp only [DatumState.onProbeResult, hcontact]
        exact ⟨rfl, .aborted hstage'⟩
      | some value =>
        refine .inl ⟨_, _, value, rfl, rfl, rfl, hcontact, ?_⟩
        simp only [DatumState.onProbeResult, hcontact]
        exact ⟨rfl, .reviewCorner corner x value⟩
    | enterParams _ =>
      refine .inr (.inl ⟨.inr rfl, ?_⟩)
      cases target' <;> exact ⟨rfl, hstage'⟩
    | reviewEdge | readyFaceY | reviewCorner => exact .inr (.inl ⟨.inr rfl, rfl, hstage'⟩)
    | aborted h =>
      refine .inr (.inl ⟨.inl rfl, ?_⟩)
      cases target' <;> exact ⟨rfl, hstage'⟩

theorem datum_along (target : DatumTarget) :
    Along datumMachine (datumPlan target) (DatumAt target) where
  begin_none := by
    intro s p which hat hnone
    simp only [datumMachine] at hnone ⊢
    rcases beginProbe_cases s with h | ⟨axis, dir, -, -, h⟩ | ⟨corner, -, -, h⟩ | ⟨corner, -, -, h⟩
    · rw [h]
      exact hat
    all_goals
      rw [h] at hnone
      cases hnone
  begin_some := by
    rintro s p which q ⟨htarget, hstage⟩ hsome
    have hcases := beginProbe_cases s
    obtain ⟨step, target', diameter, edge, x, y, reason⟩ := s
    obtain rfl : target' = target := htarget
    simp only [datumMachine] at hsome hcases ⊢
    rcases hcases with h | ⟨axis, dir, rfl, rfl, h⟩ | ⟨corner, rfl, rfl, h⟩ | ⟨corner, rfl, rfl, h⟩
    · rw [h] at hsome
      cases hsome
    · rw [h] at hsome ⊢
      cases hsome
      cases hstage
      exact ⟨⟨_, rfl, rfl, rfl⟩, rfl, .probeEdge axis dir⟩
    · rw [h] at hsome ⊢
      cases hsome
      cases hstage
      exact ⟨⟨_, rfl, rfl, rfl⟩, rfl, .probeFaceX corner⟩
    · rw [h] at hsome ⊢
      cases hsome
      cases hstage with
      | readyFaceY corner x => exact ⟨⟨_, rfl, rfl, rfl⟩, rfl, .probeFaceY corner x⟩
  answer outcome hat := hat.answer outcome
  note_false note := note.elim
  note_true note := note.elim
  abort reason hat := ⟨hat.1, .aborted hat.2⟩

/-- What a datum finder promises. -/
structure DatumHonest (target : DatumTarget) (s : DatumState) (log : Log Touch) : Prop where
  /-- What is stored was read of the answers. -/
  backed : Backed (datumPlan target) (datumReadings s) log
  /-- In review the whole plan is behind it. -/
  complete : s.step = .review → Follows (datumPlan target) (datumReadings s) log
  /-- The line is offered in review. -/
  offered : s.step ≠ .aborted → (s.offerG10.isSome = true ↔ s.step = .review)
  /-- An edge or a corner is known in review. -/
  found : s.step ≠ .aborted →
    (s.edgeValue.isSome = true ∨ s.cornerXy.isSome = true ↔ s.step = .review)
  /-- Nothing leads back. -/
  terminal : s.step = .aborted → ∀ op, (datumMachine.step (s, log) op).1.step = .aborted

theorem datum_terminal {s : DatumState} (h : s.step = .aborted) (log : Log Touch)
    (op : Op Unit ProbeOutcome Empty (List Char)) :
    (datumMachine.step (s, log) op).1.step = .aborted := by
  obtain ⟨step, target, diameter, edge, x, y, reason⟩ := s
  obtain rfl : step = .aborted := h
  cases op with
  | begin which => cases target <;> rfl
  | answer outcome =>
    cases outcome with
    | failure reason => rfl
    | success position => cases target <;> rfl
  | note note => exact note.elim
  | abort reason => rfl

theorem DatumStage.found {s : DatumState} {p : Progress ℚ}
    (h : DatumStage s.target s.step s.edgeContact s.xContact s.yContact p)
    (hne : s.step ≠ .aborted) :
    s.edgeValue.isSome = true ∨ s.cornerXy.isSome = true ↔ s.step = .review := by
  obtain ⟨step, target, diameter, edge, x, y, reason⟩ := s
  cases h with
  | aborted h => exact absurd rfl hne
  | enterParams target => cases target <;> simp [DatumState.edgeValue, DatumState.cornerXy]
  | _ => simp [DatumState.edgeValue, DatumState.cornerXy]

theorem isSome_datum_offerG10 (s : DatumState) :
    s.offerG10.isSome = true ↔ s.edgeValue.isSome = true ∨ s.cornerXy.isSome = true := by
  obtain ⟨step, target, diameter, edge, x, y, reason⟩ := s
  cases target with
  | edge axis dir =>
    cases edge <;> simp [DatumState.offerG10, DatumState.edgeValue, DatumState.cornerXy]
  | corner corner =>
    cases x <;> cases y <;>
      simp [DatumState.offerG10, DatumState.edgeValue, DatumState.cornerXy]

theorem datum_honest (target : DatumTarget) (probeDiameter : ℚ)
    (ops : List (Op Unit ProbeOutcome Empty (List Char))) :
    DatumHonest target (datumMachine.run (.new target probeDiameter) ops).1
      (datumMachine.run (.new target probeDiameter) ops).2 := by
  obtain ⟨p, ⟨htarget, hstage⟩, hlog⟩ := (datum_along target).run (w := .new target probeDiameter)
    ⟨rfl, .enterParams target⟩ ops
  generalize datumMachine.run (.new target probeDiameter) ops = st at htarget hstage hlog ⊢
  subst htarget
  have hreadings : p.readings = datumReadings st.1 := hstage.readings
  refine ⟨hreadings ▸ backed_of_logged hlog, fun hreview => ?_, fun habort => ?_,
    fun habort => hstage.found habort, fun h op => datum_terminal h _ op⟩
  · rw [hreview] at hstage
    obtain ⟨hstopped, hasking, hbehind⟩ := hstage.of_review
    have hfollows := hlog.between hstopped hasking
    rw [hbehind, List.take_length, hreadings] at hfollows
    exact hfollows
  · rw [isSome_datum_offerG10]
    exact hstage.found habort

end Datum

/-! ## The sweep -/

/-- How far a sweep or an acquisition is, of so many touches. -/
def Stage (count : ℕ) : SweepStep → Progress ℚ → Prop
  | .ready, p => p.stopped = false ∧ p.asking = false ∧ p.behind < count
  | .probing, p => p.stopped = false ∧ p.asking = true ∧ p.behind < count
  | .done, p => p.stopped = false ∧ p.asking = false ∧ p.behind = count
  | .aborted, p => p.stopped = true ∧ p.asking = false

theorem Stage.read {count : ℕ} {p : Progress ℚ} (h : Stage count .probing p) (v : ℚ)
    {last : Prop} [Decidable last] (hlast : last ↔ p.behind + 1 = count) :
    Stage count (if last then .done else .ready) (p.read v) := by
  obtain ⟨hstopped, -, hlt⟩ := h
  split
  · rename_i hdone
    exact ⟨hstopped, rfl, hlast.mp hdone⟩
  · rename_i hmore
    have hne : p.behind + 1 ≠ count := fun heq => hmore (hlast.mpr heq)
    refine ⟨hstopped, rfl, ?_⟩
    change p.behind + 1 < count
    omega

/-- No question is open but while a touch is awaited. -/
theorem Stage.idle {count : ℕ} {step : SweepStep} {p : Progress ℚ} (h : Stage count step p)
    (hne : step ≠ .probing) : p.stopped = true ∨ p.asking = false := by
  cases step with
  | ready => exact .inr h.2.1
  | probing => exact absurd rfl hne
  | done => exact .inr h.2.1
  | aborted => exact .inl h.1

/-- Unless it is given up, all is read in the step that says so. -/
theorem Stage.done_iff {count : ℕ} {step : SweepStep} {p : Progress ℚ} (h : Stage count step p)
    (hne : step ≠ .aborted) : step = .done ↔ p.behind = count := by
  cases step with
  | ready => simp [h.2.2.ne]
  | probing => simp [h.2.2.ne]
  | done => simp [h.2.2]
  | aborted => exact absurd rfl hne

section Sweep

/-- A sweep as a machine. -/
def sweepMachine : Inquiry.Machine AngleSweep Unit RotaryTouch ProbeOutcome Empty (List Char) where
  begin s _ := (s.beginNextTouch.map Prod.fst, (s.beginNextTouch.map Prod.snd).getD s)
  answer := AngleSweep.onProbeResult
  note _ note := note.elim
  abort := AngleSweep.abort

/-- The plan of a sweep. -/
def sweepPlan (angles : List ℚ) (axis : Axis) (dir : Dir) :
    List (Inquiry.Item RotaryTouch ProbeOutcome ℚ) :=
  angles.map fun angle => .ask ⟨angle, axis, dir⟩ (contact axis)

/-- A sweep is so far. -/
structure SweepAt (angles : List ℚ) (axis : Axis) (dir : Dir) (s : AngleSweep) (p : Progress ℚ) :
    Prop where
  sameAngles : s.angles = angles
  sameAxis : s.axis = axis
  sameDir : s.dir = dir
  readings : p.readings = s.readings
  behind : p.behind = s.readings.length
  stage : Stage angles.length s.step p

variable {angles : List ℚ} {axis : Axis} {dir : Dir} {s : AngleSweep} {p : Progress ℚ}

theorem SweepAt.stop (hat : SweepAt angles axis dir s p) (reason : List Char) :
    SweepAt angles axis dir (s.abort reason) p.stop :=
  ⟨hat.sameAngles, hat.sameAxis, hat.sameDir, hat.readings, hat.behind, rfl, rfl⟩

theorem SweepAt.due (hat : SweepAt angles axis dir s p) (hlt : p.behind < angles.length) :
    ∃ angle, s.angles[s.readings.length]? = some angle
      ∧ (sweepPlan angles axis dir)[p.behind]?
        = some (.ask ⟨angle, s.axis, s.dir⟩ (contact s.axis)) := by
  obtain ⟨rfl, rfl, rfl, -, hbehind, -⟩ := hat
  rw [hbehind] at hlt ⊢
  refine ⟨s.angles[s.readings.length], List.getElem?_eq_getElem hlt, ?_⟩
  unfold sweepPlan
  rw [List.getElem?_map, List.getElem?_eq_getElem hlt]
  rfl

theorem SweepAt.answer (hat : SweepAt angles axis dir s p) (outcome : ProbeOutcome) :
    p.Takes (sweepPlan angles axis dir) outcome
      (SweepAt angles axis dir (s.onProbeResult outcome)) := by
  unfold AngleSweep.onProbeResult
  have hstage := hat.stage
  by_cases hprobing : s.step = .probing
  · rw [if_neg (not_not.mpr hprobing)]
    rw [hprobing] at hstage
    cases outcome with
    | failure reason => exact .inr (.inr (hat.stop _))
    | success position =>
      cases hcontact : position[s.axis.index.val]? with
      | none =>
        simp only [hcontact]
        exact .inr (.inr (hat.stop _))
      | some reading =>
        obtain ⟨angle, -, hitem⟩ := hat.due hstage.2.2
        refine .inl ⟨_, _, reading, hstage.1, hstage.2.1, hitem, hcontact, ?_⟩
        simp only [hcontact]
        refine ⟨hat.sameAngles, hat.sameAxis, hat.sameDir, ?_, ?_, hstage.read reading ?_⟩
        · exact congrArg (· ++ [reading]) hat.readings
        · change p.behind + 1 = (s.readings ++ [reading]).length
          rw [hat.behind, List.length_append, List.length_singleton]
        · rw [hat.behind, hat.sameAngles]
  · rw [if_pos hprobing]
    exact .inr (.inl ⟨hstage.idle hprobing, hat⟩)

theorem sweep_along (angles : List ℚ) (axis : Axis) (dir : Dir) :
    Along sweepMachine (sweepPlan angles axis dir) (SweepAt angles axis dir) where
  begin_none := by
    intro s p which hat hnone
    simp only [sweepMachine, Option.map_eq_none_iff] at hnone ⊢
    rw [hnone]
    exact hat
  begin_some := by
    intro s p which q hat hsome
    simp only [sweepMachine] at hsome ⊢
    have hstage := hat.stage
    unfold AngleSweep.beginNextTouch at hsome ⊢
    by_cases hready : s.step = .ready
    · rw [hready] at hstage
      obtain ⟨angle, hangle, hitem⟩ := hat.due hstage.2.2
      rw [if_neg (not_not.mpr hready), hangle] at hsome ⊢
      cases hsome
      refine ⟨⟨_, hstage.1, hstage.2.1, hitem⟩, ?_⟩
      exact ⟨hat.sameAngles, hat.sameAxis, hat.sameDir, hat.readings, hat.behind, hstage.1, rfl,
        hstage.2.2⟩
    · rw [if_pos hready] at hsome
      cases hsome
  answer outcome hat := hat.answer outcome
  note_false note := note.elim
  note_true note := note.elim
  abort reason hat := hat.stop reason

/-- What a sweep promises. -/
structure SweepHonest (angles : List ℚ) (axis : Axis) (dir : Dir) (s : AngleSweep)
    (log : Log RotaryTouch) : Prop where
  /-- What is stored was read of the answers. -/
  backed : Backed (sweepPlan angles axis dir) s.readings log
  /-- In the end the whole plan is behind it. -/
  complete : s.step = .done → Follows (sweepPlan angles axis dir) s.readings log
  /-- The readings are complete in the end. -/
  full : s.step ≠ .aborted → (s.readings.length = angles.length ↔ s.step = .done)
  /-- Nothing leads back. -/
  terminal : s.step = .aborted → ∀ op, (sweepMachine.step (s, log) op).1.step = .aborted

theorem sweep_terminal (h : s.step = .aborted) (log : Log RotaryTouch)
    (op : Op Unit ProbeOutcome Empty (List Char)) :
    (sweepMachine.step (s, log) op).1.step = .aborted := by
  cases op with
  | begin which =>
    have hnone : s.beginNextTouch = none := if_pos (by rw [h]; decide)
    simp only [Inquiry.Machine.step, sweepMachine, hnone]
    exact h
  | answer outcome =>
    have hsame : s.onProbeResult outcome = s := if_pos (by rw [h]; decide)
    simp only [Inquiry.Machine.step, sweepMachine, hsame]
    exact h
  | note note => exact note.elim
  | abort reason => rfl

theorem sweep_honest (angles : List ℚ) (axis : Axis) (dir : Dir)
    (ops : List (Op Unit ProbeOutcome Empty (List Char))) :
    SweepHonest angles axis dir (sweepMachine.run (.new angles axis dir) ops).1
      (sweepMachine.run (.new angles axis dir) ops).2 := by
  have hstart : SweepAt angles axis dir (.new angles axis dir) .start := by
    refine ⟨rfl, rfl, rfl, rfl, rfl, ?_⟩
    unfold AngleSweep.new
    cases angles with
    | nil => exact ⟨rfl, rfl, rfl⟩
    | cons angle rest => exact ⟨rfl, rfl, Nat.succ_pos _⟩
  obtain ⟨p, hat, hlog⟩ := (sweep_along angles axis dir).run hstart ops
  generalize sweepMachine.run (.new angles axis dir) ops = st at hat hlog ⊢
  refine ⟨hat.readings ▸ backed_of_logged hlog, fun hdone => ?_, fun habort => ?_,
    fun h op => sweep_terminal h _ op⟩
  · have hstage := hat.stage
    rw [hdone] at hstage
    have hfollows := hlog.between hstage.1 hstage.2.1
    have hlength : (sweepPlan angles axis dir).length = angles.length := List.length_map ..
    rw [hstage.2.2, ← hlength, List.take_length, hat.readings] at hfollows
    exact hfollows
  · rw [← hat.behind]
    exact (hat.stage.done_iff habort).symm

end Sweep

/-! ## The acquisition of a height map -/

section Acquisition

/-- An acquisition as a machine. -/
def meshMachine :
    Inquiry.Machine MeshProbeState Unit ProbeSequence ProbeOutcome Empty (List Char) where
  begin s _ := (s.beginNextPoint.map Prod.fst, (s.beginNextPoint.map Prod.snd).getD s)
  answer := MeshProbeState.onProbeResult
  note _ note := note.elim
  abort := MeshProbeState.abort

/-- The touch of a node. -/
def meshTouch (m : Mesh) (params : GridProbeParams) (offset : ℚ × ℚ) (node : ℕ × ℕ) :
    ProbeSequence :=
  .meshPoint ((m.pointXy node).1 - offset.1, (m.pointXy node).2 - offset.2) params

/-- The plan of an acquisition. -/
def meshPlan (m : Mesh) (params : GridProbeParams) (offset : ℚ × ℚ) :
    List (Inquiry.Item ProbeSequence ProbeOutcome ℚ) :=
  m.serpentine.map fun node => .ask (meshTouch m params offset node) (contact .z)

/-- The map of the first contacts: at each node its contact, from the first one. -/
def deviations (m : Mesh) (contacts : List ℚ) : Mesh :=
  (m.serpentine.zip contacts).foldl (fun map at_ => map.setDelta at_.1 (at_.2 - contacts.headD 0))
    m.reset

/-- An acquisition is so far. -/
structure MeshAt (m : Mesh) (params : GridProbeParams) (offset : ℚ × ℚ) (s : MeshProbeState)
    (p : Progress ℚ) : Prop where
  order : s.order = m.serpentine
  sameParams : s.params = params
  sameOffset : s.probeOffset = offset
  behind : p.behind = p.readings.length
  cursor : s.cursor = p.readings.length
  first : s.z0 = p.readings.head?
  stored : s.mesh = deviations m p.readings
  stage : Stage m.serpentine.length s.step p

variable {m : Mesh} {params : GridProbeParams} {offset : ℚ × ℚ} {s : MeshProbeState}
  {p : Progress ℚ}

theorem sameGrid_deviations (m : Mesh) (contacts : List ℚ) :
    m.SameGrid (deviations m contacts) := by
  unfold deviations
  generalize m.serpentine.zip contacts = nodes
  have hreset : m.SameGrid m.reset := sameGrid_apply m .reset
  generalize m.reset = map at hreset ⊢
  induction nodes generalizing map with
  | nil => exact hreset
  | cons node rest ih => exact ih _ (hreset.trans (sameGrid_apply map (.setDelta node.1 _)))

theorem zip_append_of_getElem? {A B : Type} {as : List A} {bs : List B} {a : A}
    (h : as[bs.length]? = some a) (b : B) : as.zip (bs ++ [b]) = as.zip bs ++ [(a, b)] := by
  induction bs generalizing as with
  | nil =>
    cases as with
    | nil => cases h
    | cons first rest =>
      cases h
      cases rest <;> rfl
  | cons first bs ih =>
    cases as with
    | nil => cases h
    | cons a' rest => exact congrArg _ (ih h)

/-- One more contact is one more node. -/
theorem deviations_append {contacts : List ℚ} {node : ℕ × ℕ}
    (h : m.serpentine[contacts.length]? = some node) (z : ℚ) :
    deviations m (contacts ++ [z])
      = (deviations m contacts).setDelta node (z - contacts.head?.getD z) := by
  unfold deviations
  rw [zip_append_of_getElem? h, List.foldl_append]
  cases contacts with
  | nil =>
    rw [List.zip_nil_right]
    rfl
  | cons first rest => rfl

theorem MeshAt.stop (hat : MeshAt m params offset s p) (reason : List Char) :
    MeshAt m params offset (s.abort reason) p.stop :=
  ⟨hat.order, hat.sameParams, hat.sameOffset, hat.behind, hat.cursor, hat.first, hat.stored, rfl,
    rfl⟩

theorem MeshAt.due (hat : MeshAt m params offset s p) (hlt : p.behind < m.serpentine.length) :
    ∃ node, m.serpentine[p.readings.length]? = some node
      ∧ (meshPlan m params offset)[p.behind]?
        = some (.ask (meshTouch m params offset node) (contact .z)) := by
  rw [hat.behind] at hlt ⊢
  refine ⟨m.serpentine[p.readings.length], List.getElem?_eq_getElem hlt, ?_⟩
  unfold meshPlan
  rw [List.getElem?_map, List.getElem?_eq_getElem hlt]
  rfl

theorem MeshAt.answer (hat : MeshAt m params offset s p) (outcome : ProbeOutcome) :
    p.Takes (meshPlan m params offset) outcome
      (MeshAt m params offset (s.onProbeResult outcome)) := by
  unfold MeshProbeState.onProbeResult
  have hstage := hat.stage
  by_cases hprobing : s.step = .probing
  · rw [if_neg (not_not.mpr hprobing)]
    rw [hprobing] at hstage
    cases outcome with
    | failure reason => exact .inr (.inr (hat.stop _))
    | success position =>
      cases hcontact : position[Axis.z.index.val]? with
      | none =>
        simp only [hcontact]
        exact .inr (.inr (hat.stop _))
      | some z =>
        obtain ⟨node, hnode, hitem⟩ := hat.due hstage.2.2
        refine .inl ⟨_, _, z, hstage.1, hstage.2.1, hitem, hcontact, ?_⟩
        simp only [hcontact]
        unfold MeshProbeState.record
        have hlength : (p.read z).readings.length = p.readings.length + 1 := List.length_append
        refine ⟨hat.order, hat.sameParams, hat.sameOffset, ?_, ?_, ?_, ?_, hstage.read z ?_⟩
        · rw [hlength, ← hat.behind]
          rfl
        · rw [hlength, ← hat.cursor]
        · change some (s.z0.getD z) = (p.readings ++ [z]).head?
          rw [hat.first]
          cases p.readings with
          | nil => rfl
          | cons first rest => rfl
        · rw [hat.order, hat.cursor, hnode, hat.first, hat.stored]
          exact (deviations_append hnode z).symm
        · rw [hat.order, hat.cursor, ← hat.behind]
          have hlt := hstage.2.2
          omega
  · rw [if_pos hprobing]
    exact .inr (.inl ⟨hstage.idle hprobing, hat⟩)

theorem mesh_along (m : Mesh) (params : GridProbeParams) (offset : ℚ × ℚ) :
    Along meshMachine (meshPlan m params offset) (MeshAt m params offset) where
  begin_none := by
    intro s p which hat hnone
    simp only [meshMachine, Option.map_eq_none_iff] at hnone ⊢
    rw [hnone]
    exact hat
  begin_some := by
    intro s p which q hat hsome
    simp only [meshMachine] at hsome ⊢
    have hstage := hat.stage
    unfold MeshProbeState.beginNextPoint at hsome ⊢
    by_cases hready : s.step = .ready
    · rw [hready] at hstage
      obtain ⟨node, hnode, hitem⟩ := hat.due hstage.2.2
      have hpoint : s.order[s.cursor]? = some node := by
        rw [hat.order, hat.cursor]
        exact hnode
      rw [if_neg (not_not.mpr hready), hpoint] at hsome ⊢
      have htouch : q = meshTouch m params offset node := by
        have hgrid := sameGrid_deviations m p.readings
        have hxy : s.mesh.pointXy node = m.pointXy node := by
          unfold Mesh.pointXy
          rw [hat.stored, hgrid.min, hgrid.grid]
        rw [Option.map_some, Option.map_some] at hsome
        dsimp only at hsome
        rw [hxy, hat.sameParams, hat.sameOffset] at hsome
        exact (Option.some.inj hsome).symm
      rw [htouch]
      refine ⟨⟨_, hstage.1, hstage.2.1, hitem⟩, ?_⟩
      exact ⟨hat.order, hat.sameParams, hat.sameOffset, hat.behind, hat.cursor, hat.first,
        hat.stored, hstage.1, rfl, hstage.2.2⟩
    · rw [if_pos hready] at hsome
      cases hsome
  answer outcome hat := hat.answer outcome
  note_false note := note.elim
  note_true note := note.elim
  abort reason hat := hat.stop reason

/-- What an acquisition promises. -/
structure MeshHonest (m : Mesh) (params : GridProbeParams) (offset : ℚ × ℚ) (s : MeshProbeState)
    (log : Log ProbeSequence) (contacts : List ℚ) : Prop where
  /-- The map has the contacts, from the first one. -/
  stored : s.mesh = deviations m contacts
  /-- They were read of the answers. -/
  backed : Backed (meshPlan m params offset) contacts log
  /-- In the end the whole plan is behind it. -/
  complete : s.step = .done → Follows (meshPlan m params offset) contacts log
  /-- The map is complete in the end. -/
  full : s.step ≠ .aborted → (contacts.length = m.serpentine.length ↔ s.step = .done)
  /-- Nothing leads back. -/
  terminal : s.step = .aborted → ∀ op, (meshMachine.step (s, log) op).1.step = .aborted

theorem mesh_terminal (h : s.step = .aborted) (log : Log ProbeSequence)
    (op : Op Unit ProbeOutcome Empty (List Char)) :
    (meshMachine.step (s, log) op).1.step = .aborted := by
  cases op with
  | begin which =>
    have hnone : s.beginNextPoint = none := if_pos (by rw [h]; decide)
    simp only [Inquiry.Machine.step, meshMachine, hnone]
    exact h
  | answer outcome =>
    have hsame : s.onProbeResult outcome = s := if_pos (by rw [h]; decide)
    simp only [Inquiry.Machine.step, meshMachine, hsame]
    exact h
  | note note => exact note.elim
  | abort reason => rfl

theorem mesh_honest (m : Mesh) (params : GridProbeParams) (offset : ℚ × ℚ)
    (ops : List (Op Unit ProbeOutcome Empty (List Char))) :
    ∃ contacts, MeshHonest m params offset (meshMachine.run (.new m params offset) ops).1
      (meshMachine.run (.new m params offset) ops).2 contacts := by
  have hstart : MeshAt m params offset (.new m params offset) .start := by
    refine ⟨rfl, rfl, rfl, rfl, rfl, rfl, ?_, ?_⟩
    · change m.reset = deviations m []
      unfold deviations
      rw [List.zip_nil_right]
      rfl
    · unfold MeshProbeState.new
      cases m.serpentine with
      | nil => exact ⟨rfl, rfl, rfl⟩
      | cons node rest => exact ⟨rfl, rfl, Nat.succ_pos _⟩
  obtain ⟨p, hat, hlog⟩ := (mesh_along m params offset).run hstart ops
  generalize meshMachine.run (.new m params offset) ops = st at hat hlog ⊢
  refine ⟨p.readings, hat.stored, backed_of_logged hlog, fun hdone => ?_, fun habort => ?_,
    fun h op => mesh_terminal h _ op⟩
  · have hstage := hat.stage
    rw [hdone] at hstage
    have hfollows := hlog.between hstage.1 hstage.2.1
    have hlength : (meshPlan m params offset).length = m.serpentine.length := List.length_map ..
    rw [hstage.2.2, ← hlength, List.take_length] at hfollows
    exact hfollows
  · rw [← hat.behind]
    exact (hat.stage.done_iff habort).symm

end Acquisition

/-! ## All of them -/

/-- **What the wizards have measured.** In every run of each of them, what is stored was read of the
answers to the first touches of its plan; the results that are offered at the end are there exactly
in the last step, with the whole plan behind it, unless the run was given up; and nothing leads back
from there. -/
theorem wizards_honest :
    (∀ (dowelDiameter angle : ℚ) (ops : List (Op CentreTouch ProbeOutcome CentreNote (List Char))),
      CentreHonest angle (centreMachine.run (.new dowelDiameter angle) ops).1
        (centreMachine.run (.new dowelDiameter angle) ops).2)
    ∧ (∀ (target : DatumTarget) (probeDiameter : ℚ)
      (ops : List (Op Unit ProbeOutcome Empty (List Char))),
      DatumHonest target (datumMachine.run (.new target probeDiameter) ops).1
        (datumMachine.run (.new target probeDiameter) ops).2)
    ∧ (∀ (angles : List ℚ) (axis : Axis) (dir : Dir)
      (ops : List (Op Unit ProbeOutcome Empty (List Char))),
      SweepHonest angles axis dir (sweepMachine.run (.new angles axis dir) ops).1
        (sweepMachine.run (.new angles axis dir) ops).2)
    ∧ ∀ (m : Mesh) (params : GridProbeParams) (offset : ℚ × ℚ)
      (ops : List (Op Unit ProbeOutcome Empty (List Char))),
      ∃ contacts, MeshHonest m params offset (meshMachine.run (.new m params offset) ops).1
        (meshMachine.run (.new m params offset) ops).2 contacts :=
  ⟨centre_honest, datum_honest, sweep_honest, mesh_honest⟩

/-- **The middle between the sides is there before the review**, for the move to it. -/
theorem not_middle_in_review_only :
    ¬∀ (dowelDiameter angle : ℚ) (ops : List (Op CentreTouch ProbeOutcome CentreNote (List Char))),
      (centreMachine.run (.new dowelDiameter angle) ops).1.yCenter.isSome = true →
        (centreMachine.run (.new dowelDiameter angle) ops).1.step = .review := by
  intro h
  exact absurd (h 6 0 [.begin .yLeft, .answer (.success [0, 1, 0]), .begin .yRight,
    .answer (.success [0, 3, 0])] rfl) (by decide)

end Galdr.Host.Latch
