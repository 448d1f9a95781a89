import Galdr.Executor
import Galdr.HostCore

/-!
# The override tracker

An override is commanded by relative steps, so that the host must know where the firmware
will be when the steps it has sent have been applied. The tracker estimates it: by what it
commanded last, or by what was reported. A report that differs from the estimate is taken
to lag while a command waits to be confirmed, and to be news when none does.

The steps from where the firmware will be to a target end on the target
(`pct_overrideCommands`).
-/

namespace Galdr

/-! ## Commands -/

namespace Host

/-- The override of a slider. -/
inductive OverrideAxis
  | feed
  | spindle
  deriving DecidableEq, Repr

namespace OverrideAxis

/-- The command that resets to 100 percent. -/
def reset : OverrideAxis → RealtimeCommand
  | feed => .feedOverrideReset
  | spindle => .spindleOverrideReset

/-- The command of ten percent. -/
def coarse : OverrideAxis → Bool → RealtimeCommand
  | feed, true => .feedOverridePlus10
  | feed, false => .feedOverrideMinus10
  | spindle, true => .spindleOverridePlus10
  | spindle, false => .spindleOverrideMinus10

/-- The command of one percent. -/
def fine : OverrideAxis → Bool → RealtimeCommand
  | feed, true => .feedOverridePlus1
  | feed, false => .feedOverrideMinus1
  | spindle, true => .spindleOverridePlus1
  | spindle, false => .spindleOverrideMinus1

/-- The override in percent, as it is reported. -/
def pct (axis : OverrideAxis) (ov : Overrides) : ℕ :=
  match axis with
  | feed => ov.feed.toNat
  | spindle => ov.spindle.toNat

end OverrideAxis

/-- Clamp a percentage to what the firmware accepts. -/
def clampOverride (target : ℕ) : ℕ := max 10 (min target 200)

/-- The commands from one percentage to another: a reset to 100, or steps of ten and one. -/
def overrideCommands (current target : ℕ) (axis : OverrideAxis) : List RealtimeCommand :=
  let target := clampOverride target
  if target = 100 then [axis.reset]
  else
    let current := clampOverride current
    if current = target then []
    else
      let up : Bool := current < target
      let diff := if up then target - current else current - target
      List.replicate (diff / 10) (axis.coarse up) ++ List.replicate (diff % 10) (axis.fine up)

/-- What the host knows of an override. -/
structure AxisEstimate where
  /-- The estimate. -/
  estimate : Option ℕ
  /-- A command has not been confirmed. -/
  awaiting : Bool
  deriving DecidableEq

/-- The overrides that are tracked. -/
structure OverrideTracker where
  /-- The feed. -/
  feed : AxisEstimate
  /-- The spindle. -/
  spindle : AxisEstimate
  deriving DecidableEq

namespace OverrideTracker

/-- Nothing is known. -/
def default : OverrideTracker := ⟨⟨none, false⟩, ⟨none, false⟩⟩

/-- What is known of an override. -/
def slot (t : OverrideTracker) : OverrideAxis → AxisEstimate
  | .feed => t.feed
  | .spindle => t.spindle

/-- Replace what is known of an override. -/
def withSlot (t : OverrideTracker) (axis : OverrideAxis) (slot : AxisEstimate) :
    OverrideTracker :=
  match axis with
  | .feed => { t with feed := slot }
  | .spindle => { t with spindle := slot }

/-- The commands to a target, from the estimate, or from what was reported where there is
none; the target is the new estimate. -/
def command (t : OverrideTracker) (axis : OverrideAxis) (reported target : ℕ) :
    List RealtimeCommand × OverrideTracker :=
  let base := (t.slot axis).estimate.getD (clampOverride reported)
  let commands := overrideCommands base target axis
  (commands, t.withSlot axis ⟨some (clampOverride target), !commands.isEmpty⟩)

/-- Fold a report into the estimate. -/
def observe (t : OverrideTracker) (axis : OverrideAxis) (reported : ℕ) : OverrideTracker :=
  let slot := t.slot axis
  match slot.estimate with
  | none => t.withSlot axis { slot with estimate := some reported }
  | some est =>
    if reported = est then t.withSlot axis { slot with awaiting := false }
    else if slot.awaiting = false then t.withSlot axis { slot with estimate := some reported }
    else t

@[simp] theorem slot_withSlot (t : OverrideTracker) (axis : OverrideAxis) (s : AxisEstimate) :
    (t.withSlot axis s).slot axis = s := by
  cases axis <;> rfl

theorem slot_withSlot_of_ne (t : OverrideTracker) {axis axis' : OverrideAxis} (h : axis' ≠ axis)
    (s : AxisEstimate) : (t.withSlot axis s).slot axis' = t.slot axis' := by
  cases axis <;> cases axis' <;> first | rfl | exact absurd rfl h

/-- A report of one override says nothing of the other. -/
theorem slot_observe_of_ne (t : OverrideTracker) {axis axis' : OverrideAxis} (h : axis' ≠ axis)
    (reported : ℕ) : (t.observe axis reported).slot axis' = t.slot axis' := by
  unfold observe
  dsimp only
  split
  · exact slot_withSlot_of_ne t h _
  · split_ifs
    · exact slot_withSlot_of_ne t h _
    · exact slot_withSlot_of_ne t h _
    · rfl

/-- What a report makes of the estimate. -/
theorem estimate_observe (t : OverrideTracker) (axis : OverrideAxis) (reported : ℕ) :
    ((t.observe axis reported).slot axis).estimate
      = match (t.slot axis).estimate with
        | none => some reported
        | some est =>
          if (t.slot axis).awaiting = false then some reported else some est := by
  unfold observe
  dsimp only
  split
  · rw [slot_withSlot]
  · rename_i est hest
    by_cases heq : reported = est
    · rw [if_pos heq, slot_withSlot, heq]
      exact hest.trans (ite_self _).symm
    · rw [if_neg heq]
      split
      · rw [slot_withSlot]
      · exact hest

end OverrideTracker

end Host

/-! ## What the firmware makes of the commands -/

namespace Overrides

open Host

/-- The overrides after the bytes of commands. -/
def applyAll (ov : Overrides) (bytes : List UInt8) : Overrides := bytes.foldl apply ov

theorem applyAll_append (ov : Overrides) (bytes bytes' : List UInt8) :
    ov.applyAll (bytes ++ bytes') = (ov.applyAll bytes).applyAll bytes' :=
  List.foldl_append

theorem pct_mem (axis : OverrideAxis) (ov : Overrides) :
    10 ≤ axis.pct ov ∧ axis.pct ov ≤ 200 := by
  have hfeed := ov.feed_mem
  have hspindle := ov.spindle_mem
  cases axis <;> unfold OverrideAxis.pct <;> dsimp only <;> omega

theorem pct_apply_reset (axis : OverrideAxis) (ov : Overrides) :
    axis.pct (ov.apply axis.reset.byte) = 100 := by
  cases axis <;> rfl

/-- A percentage one step on, as the firmware clamps it. -/
def stepPct (up : Bool) (step pct : ℕ) : ℕ := if up then min (pct + step) 200 else max 10 (pct - step)

theorem pct_apply_coarse (axis : OverrideAxis) (up : Bool) (ov : Overrides) :
    axis.pct (ov.apply (axis.coarse up).byte) = stepPct up 10 (axis.pct ov) := by
  have hfeed := ov.feed_mem
  have hspindle := ov.spindle_mem
  cases axis <;> cases up
  · show (clampOverride (ov.feed - 10)).toNat = max 10 (ov.feed.toNat - 10)
    unfold clampOverride
    omega
  · show (clampOverride (ov.feed + 10)).toNat = min (ov.feed.toNat + 10) 200
    unfold clampOverride
    omega
  · show (clampOverride (ov.spindle - 10)).toNat = max 10 (ov.spindle.toNat - 10)
    unfold clampOverride
    omega
  · show (clampOverride (ov.spindle + 10)).toNat = min (ov.spindle.toNat + 10) 200
    unfold clampOverride
    omega

theorem pct_apply_fine (axis : OverrideAxis) (up : Bool) (ov : Overrides) :
    axis.pct (ov.apply (axis.fine up).byte) = stepPct up 1 (axis.pct ov) := by
  have hfeed := ov.feed_mem
  have hspindle := ov.spindle_mem
  cases axis <;> cases up
  · show (clampOverride (ov.feed - 1)).toNat = max 10 (ov.feed.toNat - 1)
    unfold clampOverride
    omega
  · show (clampOverride (ov.feed + 1)).toNat = min (ov.feed.toNat + 1) 200
    unfold clampOverride
    omega
  · show (clampOverride (ov.spindle - 1)).toNat = max 10 (ov.spindle.toNat - 1)
    unfold clampOverride
    omega
  · show (clampOverride (ov.spindle + 1)).toNat = min (ov.spindle.toNat + 1) 200
    unfold clampOverride
    omega

/-- Equal steps that stay in the band add up. -/
theorem pct_applyAll_replicate {axis : OverrideAxis} {up : Bool} {byte : UInt8} {step : ℕ}
    (hstep : ∀ ov : Overrides, axis.pct (ov.apply byte) = stepPct up step (axis.pct ov)) (n : ℕ)
    (ov : Overrides)
    (hroom : if up then axis.pct ov + n * step ≤ 200 else 10 + n * step ≤ axis.pct ov) :
    axis.pct (ov.applyAll (List.replicate n byte))
      = if up then axis.pct ov + n * step else axis.pct ov - n * step := by
  induction n generalizing ov with
  | zero => simp [applyAll]
  | succ n ih =>
    have hfirst := hstep ov
    rw [Nat.succ_mul] at hroom ⊢
    show axis.pct ((ov.apply byte).applyAll (List.replicate n byte)) = _
    cases up with
    | true =>
      have hroom : axis.pct ov + (n * step + step) ≤ 200 := hroom
      have hfirst : axis.pct (ov.apply byte) = min (axis.pct ov + step) 200 := hfirst
      have hrest := ih (ov.apply byte) (show axis.pct (ov.apply byte) + n * step ≤ 200 by omega)
      have hrest : axis.pct ((ov.apply byte).applyAll (List.replicate n byte))
          = axis.pct (ov.apply byte) + n * step := hrest
      show _ = axis.pct ov + (n * step + step)
      omega
    | false =>
      have hroom : 10 + (n * step + step) ≤ axis.pct ov := hroom
      have hfirst : axis.pct (ov.apply byte) = max 10 (axis.pct ov - step) := hfirst
      have hrest := ih (ov.apply byte) (show 10 + n * step ≤ axis.pct (ov.apply byte) by omega)
      have hrest : axis.pct ((ov.apply byte).applyAll (List.replicate n byte))
          = axis.pct (ov.apply byte) - n * step := hrest
      show _ = axis.pct ov - (n * step + step)
      omega

/-- **The steps end on the target**: from where the firmware is, the commands to a target
take it there. -/
theorem pct_overrideCommands (axis : OverrideAxis) (target : ℕ) (ov : Overrides) :
    axis.pct (ov.applyAll ((overrideCommands (axis.pct ov) target axis).map RealtimeCommand.byte))
      = Host.clampOverride target := by
  obtain ⟨hlow, hhigh⟩ := pct_mem axis ov
  have hcurrent : Host.clampOverride (axis.pct ov) = axis.pct ov := by
    unfold Host.clampOverride
    omega
  have htarget : 10 ≤ Host.clampOverride target ∧ Host.clampOverride target ≤ 200 := by
    unfold Host.clampOverride
    omega
  unfold overrideCommands
  dsimp only
  rw [hcurrent]
  generalize Host.clampOverride target = target at htarget
  by_cases hreset : target = 100
  · rw [if_pos hreset, hreset]
    exact pct_apply_reset axis ov
  rw [if_neg hreset]
  by_cases hsame : axis.pct ov = target
  · rw [if_pos hsame, ← hsame]
    rfl
  rw [if_neg hsame, List.map_append, List.map_replicate, List.map_replicate, applyAll_append]
  -- the tens first, and then the ones, which stay on the way to the target
  by_cases hup : axis.pct ov < target
  · rw [decide_eq_true hup]
    have hcoarse : axis.pct (ov.applyAll (List.replicate ((target - axis.pct ov) / 10)
        (axis.coarse true).byte)) = axis.pct ov + (target - axis.pct ov) / 10 * 10 :=
      pct_applyAll_replicate (pct_apply_coarse axis true) _ ov
        (show axis.pct ov + (target - axis.pct ov) / 10 * 10 ≤ 200 by omega)
    refine (pct_applyAll_replicate (pct_apply_fine axis true) _ _ ?_).trans ?_
    · show _ + (target - axis.pct ov) % 10 * 1 ≤ 200
      rw [if_pos rfl, hcoarse]
      omega
    · show axis.pct _ + (target - axis.pct ov) % 10 * 1 = target
      rw [if_pos rfl, hcoarse]
      omega
  · rw [decide_eq_false hup]
    have hcoarse : axis.pct (ov.applyAll (List.replicate ((axis.pct ov - target) / 10)
        (axis.coarse false).byte)) = axis.pct ov - (axis.pct ov - target) / 10 * 10 :=
      pct_applyAll_replicate (pct_apply_coarse axis false) _ ov
        (show 10 + (axis.pct ov - target) / 10 * 10 ≤ axis.pct ov by omega)
    refine (pct_applyAll_replicate (pct_apply_fine axis false) _ _ ?_).trans ?_
    · show 10 + (axis.pct ov - target) % 10 * 1 ≤ _
      rw [if_neg Bool.false_ne_true, hcoarse]
      omega
    · show axis.pct _ - (axis.pct ov - target) % 10 * 1 = target
      rw [if_neg Bool.false_ne_true, hcoarse]
      omega

/-- A command of the other override changes nothing of this one. -/
theorem pct_apply_of_ne {axis axis' : OverrideAxis} (h : axis' ≠ axis) {current target : ℕ}
    {cmd : RealtimeCommand} (hcmd : cmd ∈ overrideCommands current target axis) (ov : Overrides) :
    axis'.pct (ov.apply cmd.byte) = axis'.pct ov := by
  have hcases : cmd = axis.reset ∨ (∃ up, cmd = axis.coarse up) ∨ ∃ up, cmd = axis.fine up := by
    unfold overrideCommands at hcmd
    dsimp only at hcmd
    split_ifs at hcmd
    · exact .inl (List.mem_singleton.1 hcmd)
    · cases hcmd
    all_goals
      rcases List.mem_append.1 hcmd with hcmd | hcmd
      · exact .inr (.inl ⟨_, List.eq_of_mem_replicate hcmd⟩)
      · exact .inr (.inr ⟨_, List.eq_of_mem_replicate hcmd⟩)
  cases axis <;> cases axis' <;> first | exact absurd rfl h | skip
  all_goals
    rcases hcases with rfl | ⟨up, rfl⟩ | ⟨up, rfl⟩
    · rfl
    · cases up <;> rfl
    · cases up <;> rfl

/-- The commands of the other override change nothing of this one. -/
theorem pct_applyAll_of_ne {axis axis' : OverrideAxis} (h : axis' ≠ axis) (current target : ℕ)
    (ov : Overrides) :
    axis'.pct (ov.applyAll ((overrideCommands current target axis).map RealtimeCommand.byte))
      = axis'.pct ov := by
  have hall : ∀ cmd ∈ overrideCommands current target axis, ∀ ov : Overrides,
      axis'.pct (ov.apply cmd.byte) = axis'.pct ov := fun cmd hcmd => pct_apply_of_ne h hcmd
  generalize overrideCommands current target axis = commands at hall
  induction commands generalizing ov with
  | nil => rfl
  | cons cmd rest ih =>
    show axis'.pct ((ov.apply cmd.byte).applyAll (rest.map RealtimeCommand.byte)) = _
    rw [ih (ov.apply cmd.byte) fun c hc => hall c (List.mem_cons_of_mem cmd hc),
      hall cmd List.mem_cons_self]

end Overrides

end Galdr
