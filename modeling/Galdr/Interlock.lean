import Mathlib

/-!
# Rest between opposite levels

An output is watched as a log of timed samples: `some d` where it was energised
with level `d`, `none` where it was not. A sample holds until the next one. The
log is **interlocked** for a dwell when, between any sample with one level and
any later sample with a different one, the output rested for that dwell.

What decides whether a new sample keeps the interlock is a summary of the log,
its `Coast`: the level it was last energised with, and the time it has rested
since. The rule is `Interlocked.concat`.
-/

namespace Interlock

variable {T D : Type}

/-- **The interlock**: between two samples of different levels the output rested
for the dwell. The rest is a stretch of samples without a level, from the time
of its first one to the time of the sample that follows it. -/
def Interlocked [Add T] [LE T] (dwell : T) (log : List (T × Option D)) : Prop :=
  ∀ before x between y after, log = before ++ x :: between ++ y :: after →
    ∀ d e, x.2 = some d → y.2 = some e → d ≠ e →
      ∃ pre off rest on post, x :: between ++ [y] = pre ++ off :: rest ++ on :: post
        ∧ (∀ s ∈ off :: rest, s.2 = none) ∧ off.1 + dwell ≤ on.1

/-- What a log leaves to remember. -/
structure Coast (T D : Type) where
  /-- The level the output was last energised with. -/
  ran : Option D
  /-- Where it was, and is not now: the time it was switched off. -/
  since : Option T

namespace Coast

/-- One more sample. -/
def sample (h : Coast T D) (s : T × Option D) : Coast T D :=
  match s.2 with
  | some d => ⟨some d, none⟩
  | none => ⟨h.ran, if h.ran.isSome then h.since <|> some s.1 else none⟩

/-- The output may be energised with level `d` at `now`: it never was with
another, or it has rested for the dwell. -/
def MayRun [Add T] [LE T] (h : Coast T D) (dwell : T) (d : D) (now : T) : Prop :=
  h.ran = none ∨ h.ran = some d ∨ ∃ t, h.since = some t ∧ t + dwell ≤ now

end Coast

/-- The summary of a log. -/
def coast (log : List (T × Option D)) : Coast T D :=
  log.foldl Coast.sample ⟨none, none⟩

theorem coast_append (log log' : List (T × Option D)) :
    coast (log ++ log') = log'.foldl Coast.sample (coast log) := by
  unfold coast
  rw [List.foldl_append]

/-- **What the summary says of the log**: either it was never energised, or its
last energised sample has the level remembered, and the samples after it, all
without a level, begin at the time remembered. -/
theorem coast_spec (log : List (T × Option D)) :
    ((coast log).ran = none ∧ ∀ s ∈ log, s.2 = none)
    ∨ ∃ d before t offs, log = before ++ (t, some d) :: offs
        ∧ (∀ s ∈ offs, s.2 = none) ∧ (coast log).ran = some d
        ∧ (coast log).since = offs.head?.map Prod.fst := by
  induction log using List.reverseRecOn with
  | nil => exact .inl ⟨rfl, by simp⟩
  | append_singleton log s ih =>
    rw [coast_append]
    show ((coast log).sample s).ran = none ∧ _ ∨ _
    obtain ⟨t, level⟩ := s
    cases level with
    | some d => exact .inr ⟨d, log, t, [], rfl, by simp, rfl, rfl⟩
    | none =>
      rcases ih with ⟨hran, hall⟩ | ⟨d, before, u, offs, rfl, hoffs, hran, hsince⟩
      · refine .inl ⟨hran, fun s hs => ?_⟩
        rcases List.mem_append.1 hs with hs | hs
        · exact hall s hs
        · rw [List.mem_singleton.1 hs]
      · refine .inr ⟨d, before, u, offs ++ [(t, none)], by simp, fun s hs => ?_, hran, ?_⟩
        · rcases List.mem_append.1 hs with hs | hs
          · exact hoffs s hs
          · rw [List.mem_singleton.1 hs]
        · show (if (coast _).ran.isSome then (coast _).since <|> some t else none) = _
          rw [hran, hsince]
          cases offs <;> rfl

/-- Where two splittings of one list meet: what stands after an element that is
not in `after'` begins at or before the other element. -/
theorem suffix_of_splits {α : Type} {before before' after after' : List α} {x y : α}
    (h : before ++ x :: after = before' ++ y :: after') (hx : x ∉ after') :
    ∃ pre, x :: after = pre ++ y :: after' := by
  rcases List.append_eq_append_iff.1 h with ⟨as, -, htail⟩ | ⟨cs, -, htail⟩
  · exact ⟨as, htail⟩
  · cases cs with
    | nil => exact ⟨[], htail.symm⟩
    | cons c cs =>
      obtain ⟨-, rfl⟩ := List.cons.inj htail
      exact absurd (List.mem_append_right cs (List.mem_cons_self ..)) hx

section Rule

variable [Add T] [LE T] {dwell : T} {log : List (T × Option D)}

theorem interlocked_nil : Interlocked dwell ([] : List (T × Option D)) := by
  intro before x between y after hlog
  simp at hlog

/-- What an interlocked log has between two samples of different levels: a sample
without a level, the dwell before another one. -/
theorem Interlocked.exists_rest {before between after : List (T × Option D)}
    {x y : T × Option D} {d e : D}
    (h : Interlocked dwell (before ++ x :: between ++ y :: after)) (hx : x.2 = some d)
    (hy : y.2 = some e) (hne : d ≠ e) :
    ∃ off ∈ x :: between ++ [y], ∃ on ∈ x :: between ++ [y],
      off.2 = none ∧ off.1 + dwell ≤ on.1 := by
  obtain ⟨pre, off, rest, on, post, heq, hnone, hle⟩ :=
    h before x between y after rfl d e hx hy hne
  refine ⟨off, ?_, on, ?_, hnone off (List.mem_cons_self ..), hle⟩
  · rw [heq]
    simp
  · rw [heq]
    simp

/-- **A sample that may run keeps the interlock.** -/
theorem Interlocked.concat (hlog : Interlocked dwell log) {s : T × Option D}
    (hs : ∀ e, s.2 = some e → (coast log).MayRun dwell e s.1) :
    Interlocked dwell (log ++ [s]) := by
  intro before x between y after hsplit d e hx hy hne
  rcases List.eq_nil_or_concat after with rfl | ⟨after, z, rfl⟩
  · -- the new sample is the later of the two
    obtain ⟨rfl, hlast⟩ := List.append_inj' hsplit rfl
    obtain rfl : s = y := List.cons.inj hlast |>.1
    rcases coast_spec (before ++ x :: between) with
      ⟨-, hall⟩ | ⟨g, before', t, offs, hsplit', hoffs, hran, hsince⟩
    · rw [hall x (by simp)] at hx
      exact absurd hx (by simp)
    have hmem : x ∉ offs := fun hmem => by
      rw [hoffs x hmem] at hx
      exact absurd hx (by simp)
    obtain ⟨pre, hpre⟩ := suffix_of_splits hsplit' hmem
    rcases hs e hy with hnever | hsame | ⟨since, hrest, hdwell⟩
    · rw [hran] at hnever
      exact absurd hnever (by simp)
    · -- the level it last ran with is the new one: the rest was before that sample
      rw [hran] at hsame
      obtain rfl : g = e := Option.some.inj hsame
      cases pre with
      | nil =>
        obtain ⟨rfl, -⟩ := List.cons.inj hpre
        exact absurd (Option.some.inj hx).symm hne
      | cons c pre =>
        obtain ⟨rfl, rfl⟩ := List.cons.inj hpre
        obtain ⟨a, off, rest, on, post, heq, hnone, hle⟩ :=
          hlog before x pre (t, some g) offs (by simp) d g hx rfl hne
        refine ⟨a, off, rest, on, post ++ offs ++ [s], ?_, hnone, hle⟩
        calc x :: (pre ++ (t, some g) :: offs) ++ [s]
            = (x :: pre ++ [(t, some g)]) ++ (offs ++ [s]) := by simp
          _ = (a ++ off :: rest ++ on :: post) ++ (offs ++ [s]) := by rw [heq]
          _ = a ++ off :: rest ++ on :: (post ++ offs ++ [s]) := by simp
    · -- it rested from the first sample after it last ran
      rw [hsince] at hrest
      cases offs with
      | nil => exact absurd hrest (by simp)
      | cons off rest =>
        obtain rfl : off.1 = since := Option.some.inj hrest
        refine ⟨pre ++ [(t, some g)], off, rest, s, [], ?_, hoffs, hdwell⟩
        rw [hpre]
        simp
  · -- both samples are in the log
    have hsplit' : log ++ [s] = (before ++ x :: between ++ y :: after) ++ [z] := by
      rw [hsplit]
      simp
    obtain ⟨rfl, -⟩ := List.append_inj' hsplit' rfl
    exact hlog before x between y after rfl d e hx hy hne

/-- Samples at one time, each without a level or with the level `d`, keep the
interlock and the permission to run with `d`. -/
theorem Interlocked.append_of_mayRun (hlog : Interlocked dwell log) {d : D} {now : T}
    (hrun : (coast log).MayRun dwell d now) (ss : List (T × Option D))
    (hss : ∀ s ∈ ss, s.1 = now ∧ (s.2 = none ∨ s.2 = some d)) :
    Interlocked dwell (log ++ ss) := by
  induction ss generalizing log with
  | nil => simpa using hlog
  | cons s ss ih =>
    obtain ⟨hnow, hlevel⟩ := hss s (List.mem_cons_self ..)
    rw [List.append_cons]
    refine ih (hlog.concat fun e he => ?_) ?_ fun x hx => hss x (List.mem_cons_of_mem s hx)
    · rcases hlevel with h | h
      · rw [h] at he
        exact absurd he (by simp)
      · rw [h] at he
        obtain rfl : d = e := Option.some.inj he
        rw [hnow]
        exact hrun
    · rw [coast_append]
      show ((coast log).sample s).MayRun dwell d now
      unfold Coast.sample
      rcases hlevel with h | h
      · rw [h]
        rcases hrun with hnever | hsame | ⟨t, ht, hle⟩
        · exact .inl hnever
        · exact .inr (.inl hsame)
        · rcases hran : (coast log).ran with _ | g
          · exact .inl rfl
          · refine .inr (.inr ⟨t, ?_, hle⟩)
            rw [ht]
            rfl
      · rw [h]
        exact .inr (.inl rfl)

/-- Samples without a level keep the interlock. -/
theorem Interlocked.append_none (hlog : Interlocked dwell log) (ss : List (T × Option D))
    (hss : ∀ s ∈ ss, s.2 = none) : Interlocked dwell (log ++ ss) := by
  induction ss generalizing log with
  | nil => simpa using hlog
  | cons s ss ih =>
    rw [List.append_cons]
    refine ih (hlog.concat fun e he => ?_) fun x hx => hss x (List.mem_cons_of_mem s hx)
    rw [hss s (List.mem_cons_self ..)] at he
    exact absurd he (by simp)

end Rule

/-! ## What more samples leave of the summary -/

@[simp] theorem sample_some (h : Coast T D) (t : T) (d : D) :
    h.sample (t, some d) = ⟨some d, none⟩ := rfl

theorem ran_sample_none (h : Coast T D) {s : T × Option D} (hs : s.2 = none) :
    (h.sample s).ran = h.ran := by
  unfold Coast.sample
  rw [hs]

theorem since_sample_none {h : Coast T D} {s : T × Option D} (hs : s.2 = none)
    (hran : h.ran.isSome) : (h.sample s).since = (h.since <|> some s.1) := by
  unfold Coast.sample
  rw [hs]
  show (if h.ran.isSome then h.since <|> some s.1 else none) = _
  rw [if_pos hran]

/-- Samples without a level leave the last level. -/
theorem ran_foldl_sample_none (h : Coast T D) (ss : List (T × Option D))
    (hss : ∀ s ∈ ss, s.2 = none) : (ss.foldl Coast.sample h).ran = h.ran := by
  induction ss generalizing h with
  | nil => rfl
  | cons s ss ih =>
    show (ss.foldl Coast.sample (h.sample s)).ran = h.ran
    rw [ih _ fun x hx => hss x (List.mem_cons_of_mem s hx),
      ran_sample_none h (hss s (List.mem_cons_self ..))]

/-- Samples without a level leave the time the output was switched off at. -/
theorem since_foldl_sample_none {h : Coast T D} (ss : List (T × Option D))
    (hss : ∀ s ∈ ss, s.2 = none) (hran : h.ran.isSome) {t : T} (ht : h.since = some t) :
    (ss.foldl Coast.sample h).since = some t := by
  induction ss generalizing h with
  | nil => exact ht
  | cons s ss ih =>
    have hs := hss s (List.mem_cons_self ..)
    refine ih (fun x hx => hss x (List.mem_cons_of_mem s hx)) ?_ ?_
    · rw [ran_sample_none h hs]
      exact hran
    · rw [since_sample_none hs hran, ht]
      rfl

/-- One sample without a level, and the output that ran is off since some time:
that of the sample, if it was on before. -/
theorem exists_since_foldl_sample {h : Coast T D} {ss : List (T × Option D)}
    (hss : ∀ s ∈ ss, s.2 = none) (hne : ss ≠ []) (hran : h.ran.isSome) :
    ∃ t, (ss.foldl Coast.sample h).since = some t := by
  cases ss with
  | nil => exact absurd rfl hne
  | cons s ss =>
    have hs := hss s (List.mem_cons_self ..)
    have hsome : ∃ t, (h.sample s).since = some t := by
      rw [since_sample_none hs hran]
      cases h.since with
      | none => exact ⟨s.1, rfl⟩
      | some t => exact ⟨t, rfl⟩
    obtain ⟨t, ht⟩ := hsome
    refine ⟨t, since_foldl_sample_none ss (fun x hx => hss x (List.mem_cons_of_mem s hx)) ?_ ht⟩
    rw [ran_sample_none h hs]
    exact hran

/-- Samples with the level the output last ran with leave it. -/
theorem ran_foldl_sample_same {h : Coast T D} {d : D} (hran : h.ran = some d)
    (ss : List (T × Option D)) (hss : ∀ s ∈ ss, s.2 = some d) :
    (ss.foldl Coast.sample h).ran = some d := by
  induction ss generalizing h with
  | nil => exact hran
  | cons s ss ih =>
    refine ih ?_ fun x hx => hss x (List.mem_cons_of_mem s hx)
    unfold Coast.sample
    rw [hss s (List.mem_cons_self ..)]

/-- The time the output was switched off at is that of a sample. -/
theorem since_foldl_sample_le [Preorder T] {h : Coast T D} {now : T}
    (hpast : ∀ t, h.since = some t → t ≤ now) (ss : List (T × Option D))
    (hss : ∀ s ∈ ss, s.1 ≤ now) :
    ∀ t, (ss.foldl Coast.sample h).since = some t → t ≤ now := by
  induction ss generalizing h with
  | nil => exact hpast
  | cons s ss ih =>
    refine ih (fun t ht => ?_) fun x hx => hss x (List.mem_cons_of_mem s hx)
    obtain ⟨time, level⟩ := s
    cases level with
    | some d => exact absurd ht (by simp)
    | none =>
      cases hran : h.ran.isSome with
      | false =>
        have hnone : (h.sample (time, none)).since = none := by
          show (if h.ran.isSome then h.since <|> some time else none) = none
          rw [hran]
          rfl
        rw [hnone] at ht
        exact absurd ht (by simp)
      | true =>
        rw [since_sample_none rfl hran] at ht
        cases hsince : h.since with
        | none =>
          rw [hsince] at ht
          obtain rfl : time = t := Option.some.inj ht
          exact hss _ (List.mem_cons_self ..)
        | some u =>
          rw [hsince] at ht
          obtain rfl : u = t := Option.some.inj ht
          exact hpast u hsince

end Interlock
