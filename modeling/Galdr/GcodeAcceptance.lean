import Galdr.GcodeActions

/-!
# Which lines the parser accepts

A line is accepted when it is a list of words, when the parser knows each of them,
when no two of them ask for actions of one modal group, and when what is left of them
in the end has the companions it needs: an axis for a probe, a feed for a motion that
is fed. All of it is a condition on the words of the line and on the feed, the motion
mode and the feed mode before it (`parseLine_ok_iff`).
-/

namespace Galdr

variable {K : Type} [Field K] [LinearOrder K] [FloorRing K]

/-! ## Words -/

/-- A word that the parser knows. -/
def Word.Known (word : Word K) : Prop :=
  if word.letter = 'G' then
    word.action.isSome = true
      ∨ fractionalCode word.value = none ∧ (gCode word.value).toOption = some 53
  else if word.letter = 'M' then word.action.isSome = true
  else if word.letter = 'T' then (toolNumber word.value).toOption.isSome = true
  else word.letter ∈ ['X', 'Y', 'Z', 'A', 'I', 'J', 'K', 'P', 'L', 'F', 'S', 'N']

instance (word : Word K) : Decidable word.Known := by
  unfold Word.Known
  infer_instance

namespace LineState

/-- A word is accepted when it asks for something or modifies it, and the group of what it
asks for is free. -/
def Decides (asked : Option Action) (modifies : Prop) (s : LineState K)
    (result : Except GcodeError (LineState K)) : Prop :=
  (∃ s', result = .ok s')
    ↔ (asked.isSome = true ∨ modifies) ∧ ∀ a, asked = some a → s.guard a.group = false

variable {s : LineState K} {modifies : Prop}

omit [Field K] [LinearOrder K] [FloorRing K] in
theorem Decides.claim (a : Action) :
    Decides (some a) modifies s (s.claim a.group (·.stage a)) := by
  constructor
  · rintro ⟨s', h⟩
    refine ⟨.inl rfl, fun b hb => ?_⟩
    rw [← Option.some.inj hb]
    exact (claim_eq_ok_iff.1 h).1
  · exact fun h => ⟨_, claim_eq_ok_iff.2 ⟨h.2 a rfl, rfl⟩⟩

omit [Field K] [LinearOrder K] [FloorRing K] in
theorem Decides.error {e : GcodeError} (h : ¬modifies) : Decides none modifies s (.error e) :=
  iff_of_false (fun ⟨_, h⟩ => nomatch h) fun hok => hok.1.elim Bool.false_ne_true h

omit [Field K] [LinearOrder K] [FloorRing K] in
theorem Decides.parameter {s' : LineState K} (h : modifies) : Decides none modifies s (.ok s') :=
  iff_of_true ⟨s', rfl⟩ ⟨.inr h, fun _ h => nomatch h⟩

omit [Field K] [LinearOrder K] [FloorRing K] in
/-- A table of words and a table of actions are read side by side. -/
theorem Decides.ite {c : Prop} [Decidable c] {asked asked' : Option Action}
    {result result' : Except GcodeError (LineState K)}
    (hpos : c → Decides asked modifies s result)
    (hneg : ¬c → Decides asked' modifies s result') :
    Decides (if c then asked else asked') modifies s (if c then result else result') := by
  split
  · exact hpos ‹_›
  · exact hneg ‹_›

omit [Field K] [LinearOrder K] [FloorRing K] in
theorem applyFractionalGWord_decides (code : ℤ) :
    Decides (Action.ofTenths code) False s (s.applyFractionalGWord code) := by
  unfold applyFractionalGWord Action.ofTenths
  repeat' refine Decides.ite (fun _ => ?_) fun _ => ?_
  all_goals first | exact Decides.claim _ | exact Decides.error not_false

omit [Field K] [LinearOrder K] [FloorRing K] in
theorem applyWholeGWord_decides (code : ℕ) :
    Decides (Action.ofG code) (code = 53) s (s.applyWholeGWord code) := by
  unfold applyWholeGWord Action.ofG
  repeat' refine Decides.ite (fun _ => ?_) fun _ => ?_
  all_goals first
    | exact Decides.claim _
    | exact Decides.parameter ‹_›
    | exact Decides.error ‹_›

omit [Field K] [LinearOrder K] [FloorRing K] in
theorem applyMCode_decides (code : ℕ) :
    Decides (Action.ofM code) False s (s.applyMCode code) := by
  unfold applyMCode Action.ofM
  repeat' refine Decides.ite (fun _ => ?_) fun _ => ?_
  all_goals first | exact Decides.claim _ | exact Decides.error not_false

theorem applyGWord_decides (value : K) :
    Decides (Word.action ⟨'G', value⟩)
      (fractionalCode value = none ∧ (gCode value).toOption = some 53) s
      (s.applyGWord value) := by
  unfold applyGWord Word.action
  rw [if_pos rfl]
  dsimp only
  cases fractionalCode value with
  | some code =>
    rw [show (some code = none ∧ (gCode value).toOption = some 53) = False by simp]
    exact applyFractionalGWord_decides code
  | none =>
    cases gCode value with
    | error e => exact Decides.error (by simp [Except.toOption])
    | ok code =>
      rw [show ((none : Option ℤ) = none ∧ (Except.ok code : Except GcodeError ℕ).toOption = some 53)
        = (code = 53) by simp [Except.toOption]]
      exact applyWholeGWord_decides code

theorem applyMWord_decides (value : K) :
    Decides (Word.action ⟨'M', value⟩) False s (s.applyMWord value) := by
  unfold applyMWord Word.action
  rw [if_neg (show ¬ 'M' = 'G' by decide), if_pos rfl]
  cases gCode value with
  | error e => exact Decides.error not_false
  | ok code => exact applyMCode_decides code

/-- **A word is accepted** when it is known, and the group of what it asks for is free. -/
theorem applyWord_ok_iff (word : Word K) :
    (∃ s', s.applyWord word = .ok s')
      ↔ word.Known ∧ ∀ a, word.action = some a → s.guard a.group = false := by
  obtain ⟨letter, value⟩ := word
  have hplain (hG : letter ≠ 'G') (hM : letter ≠ 'M') :
      ∀ a, Word.action ⟨letter, value⟩ = some a → s.guard a.group = false := by
    intro a ha
    unfold Word.action at ha
    rw [if_neg hG, if_neg hM] at ha
    cases ha
  by_cases hG : letter = 'G'
  · subst hG
    exact applyGWord_decides value
  by_cases hM : letter = 'M'
  · subst hM
    have h := applyMWord_decides (s := s) value
    unfold Decides at h
    rw [or_false] at h
    exact h
  have hknown : (Word.Known ⟨letter, value⟩ ∧
      ∀ a, Word.action ⟨letter, value⟩ = some a → s.guard a.group = false)
        ↔ Word.Known ⟨letter, value⟩ :=
    and_iff_left (hplain hG hM)
  rw [hknown]
  unfold applyWord Word.Known
  rw [if_neg hG, if_neg hM]
  dsimp only
  split
  all_goals first
    | exact absurd rfl hG
    | exact absurd rfl hM
    | exact iff_of_true ⟨_, rfl⟩ (by rw [if_neg (by decide)]; decide)
    | skip
  · rw [if_pos rfl]
    cases toolNumber value with
    | error e => exact iff_of_false (fun ⟨_, h⟩ => nomatch h) Bool.false_ne_true
    | ok tool => exact iff_of_true ⟨_, rfl⟩ rfl
  · refine iff_of_false (fun ⟨_, h⟩ => nomatch h) fun h => ?_
    split at h
    · simp_all
    · simp_all

/-- A word that is not a feed leaves the feed. -/
def KeepsFeed (s : LineState K) (result : Except GcodeError (LineState K)) : Prop :=
  ∀ s', result = .ok s' → s'.next.feed = s.next.feed ∧ s'.acc.sawFeed = s.acc.sawFeed

omit [Field K] [LinearOrder K] [FloorRing K] in
theorem KeepsFeed.error {e : GcodeError} : KeepsFeed s (.error e) := fun _ h => nomatch h

omit [Field K] [LinearOrder K] [FloorRing K] in
theorem KeepsFeed.ok {s' : LineState K} (hfeed : s'.next.feed = s.next.feed)
    (hsaw : s'.acc.sawFeed = s.acc.sawFeed) : KeepsFeed s (.ok s') := by
  intro t ht
  obtain rfl := Except.ok.inj ht
  exact ⟨hfeed, hsaw⟩

omit [Field K] [LinearOrder K] [FloorRing K] in
theorem KeepsFeed.ite {c : Prop} [Decidable c] {result result' : Except GcodeError (LineState K)}
    (hpos : KeepsFeed s result) (hneg : KeepsFeed s result') :
    KeepsFeed s (if c then result else result') := by
  split
  · exact hpos
  · exact hneg

theorem applyGWord_keepsFeed (value : K) : KeepsFeed s (s.applyGWord value) := by
  unfold applyGWord applyFractionalGWord applyWholeGWord
  cases fractionalCode value with
  | some code =>
    repeat' apply KeepsFeed.ite
    all_goals first | exact KeepsFeed.error | exact KeepsFeed.ok rfl rfl
  | none =>
    cases gCode value with
    | error e => exact KeepsFeed.error
    | ok code =>
      repeat' apply KeepsFeed.ite
      all_goals first | exact KeepsFeed.error | exact KeepsFeed.ok rfl rfl

theorem applyMWord_keepsFeed (value : K) : KeepsFeed s (s.applyMWord value) := by
  unfold applyMWord applyMCode
  cases gCode value with
  | error e => exact KeepsFeed.error
  | ok code =>
    repeat' apply KeepsFeed.ite
    all_goals first | exact KeepsFeed.error | exact KeepsFeed.ok rfl rfl

end LineState

/-! ## The modes behind a line -/

/-- The motion mode a word sets. -/
def Word.motionMode (word : Word K) : Option MotionMode :=
  match word.action with
  | some (.setting (.motion mode)) => some mode
  | _ => none

/-- The feed mode a word sets. -/
def Word.feedModeSet (word : Word K) : Option FeedMode :=
  match word.action with
  | some (.setting (.feedMode mode)) => some mode
  | _ => none

/-- The modes that the feed of a motion depends on. -/
structure FeedModes (K : Type) where
  /-- The motion mode. -/
  motion : MotionMode
  /-- The feed mode. -/
  feedMode : FeedMode
  /-- The last feed. -/
  feed : K
  /-- The line has a feed of its own. -/
  sawFeed : Bool
  deriving DecidableEq

namespace FeedModes

/-- The modes before a line. -/
def before (state : ModalState K) : FeedModes K := ⟨state.motion, state.feedMode, state.feed, false⟩

/-- The modes with another word. -/
def word (m : FeedModes K) (w : Word K) : FeedModes K where
  motion := w.motionMode.getD m.motion
  feedMode := w.feedModeSet.getD m.feedMode
  feed := if w.letter = 'F' then w.value else m.feed
  sawFeed := m.sawFeed || w.letter == 'F'

/-- The modes behind the words of a line. -/
def after (state : ModalState K) (words : List (Word K)) : FeedModes K :=
  words.foldl word (before state)

/-- A motion has no feed. Under inverse time it must have its own. -/
def Undefined (m : FeedModes K) : Prop := m.feed ≤ 0 ∨ m.feedMode = .inverseTime ∧ m.sawFeed = false

end FeedModes

/-- The modes of a line as far as it is folded. -/
def LineState.feedModes (s : LineState K) : FeedModes K :=
  ⟨s.next.motion, s.next.feedMode, s.next.feed, s.acc.sawFeed⟩

/-- A word that is accepted sets the modes it names. -/
theorem LineState.feedModes_applyWord {s s' : LineState K} {w : Word K}
    (h : s.applyWord w = .ok s') : s'.feedModes = s.feedModes.word w := by
  have hmotion : s'.next.motion = w.motionMode.getD s.next.motion
      ∧ s'.next.feedMode = w.feedModeSet.getD s.next.feedMode := by
    obtain ⟨-, hdoes⟩ := LineState.applyWord_does w s' h
    unfold Word.motionMode Word.feedModeSet
    cases hasked : w.action with
    | none =>
      rw [hasked] at hdoes
      have hsame : LineState.Same s s' := hdoes
      unfold LineState.Same at hsame
      rw [hsame]
      exact ⟨rfl, rfl⟩
    | some a =>
      rw [hasked] at hdoes
      obtain ⟨-, rfl⟩ := hdoes
      cases a with
      | programPause pause =>
        obtain ⟨optional, toolChange⟩ := pause
        cases toolChange <;> exact ⟨rfl, rfl⟩
      | coordinate op => cases op <;> exact ⟨rfl, rfl⟩
      | coolant word => cases word <;> exact ⟨rfl, rfl⟩
      | setting setting => cases setting <;> exact ⟨rfl, rfl⟩
      | _ => exact ⟨rfl, rfl⟩
  have hfeed : s'.next.feed = (if w.letter = 'F' then w.value else s.next.feed)
      ∧ s'.acc.sawFeed = (s.acc.sawFeed || w.letter == 'F') := by
    obtain ⟨letter, value⟩ := w
    unfold LineState.applyWord at h
    dsimp only at h
    split at h
    · rw [if_neg (show 'G' ≠ 'F' by decide)]
      have hkeeps := LineState.applyGWord_keepsFeed value s' h
      exact ⟨hkeeps.1, hkeeps.2.trans (Bool.or_false _).symm⟩
    · rw [if_neg (show 'M' ≠ 'F' by decide)]
      have hkeeps := LineState.applyMWord_keepsFeed value s' h
      exact ⟨hkeeps.1, hkeeps.2.trans (Bool.or_false _).symm⟩
    all_goals try (obtain rfl := Except.ok.inj h; exact ⟨rfl, (Bool.or_false _).symm⟩)
    all_goals try (obtain rfl := Except.ok.inj h; exact ⟨rfl, (Bool.or_true _).symm⟩)
    · cases htool : toolNumber value with
      | error e =>
        rw [htool] at h
        cases h
      | ok tool =>
        rw [htool] at h
        obtain rfl := Except.ok.inj h
        exact ⟨rfl, (Bool.or_false _).symm⟩
    · cases h
  unfold LineState.feedModes FeedModes.word
  rw [hmotion.1, hmotion.2, hfeed.1, hfeed.2]

/-! ## A line of words -/

/-- The groups that words use. -/
def groups (words : List (Word K)) : List Group := words.filterMap fun w => w.action.map Action.group

theorem LineState.applyWords_error {s : LineState K}
    {w : Word K} {e : GcodeError} (h : s.applyWord w = .error e) (words : List (Word K)) :
    s.applyWords ((w :: words).map .ok) = .error e := by
  rw [List.map_cons, LineState.applyWords, h]

theorem LineState.applyWords_ok {s t : LineState K}
    {w : Word K} (h : s.applyWord w = .ok t) (words : List (Word K)) :
    s.applyWords ((w :: words).map .ok) = t.applyWords (words.map .ok) := by
  rw [List.map_cons, LineState.applyWords, h]

/-- The words of a line are accepted when each is known, and no two use one group that is
free to begin with. -/
theorem LineState.applyWords_ok_iff (s : LineState K) (words : List (Word K)) :
    (∃ s', s.applyWords (words.map .ok) = .ok s')
      ↔ (∀ w ∈ words, w.Known) ∧ (groups words).Nodup
        ∧ ∀ g ∈ groups words, s.guard g = false := by
  induction words generalizing s with
  | nil => exact iff_of_true ⟨s, rfl⟩ ⟨by simp, List.nodup_nil, by simp [groups]⟩
  | cons w words ih =>
    have hfirst := s.applyWord_ok_iff w
    have hcons : (∃ s', s.applyWords ((w :: words).map .ok) = .ok s')
        ↔ ∃ t, s.applyWord w = .ok t ∧ ∃ s', t.applyWords (words.map .ok) = .ok s' := by
      cases hw : s.applyWord w with
      | error e =>
        rw [LineState.applyWords_error hw]
        exact iff_of_false (fun ⟨_, h⟩ => nomatch h) fun ⟨_, h, _⟩ => nomatch h
      | ok t =>
        rw [LineState.applyWords_ok hw]
        exact ⟨fun h => ⟨t, rfl, h⟩, fun ⟨_, h, hs⟩ => by rwa [Except.ok.inj h]⟩
    rw [hcons]
    cases hasked : w.action with
    | none =>
      have hgroups : groups (w :: words) = groups words := by
        unfold groups
        rw [List.filterMap_cons_none (by rw [hasked]; rfl)]
      have hguard {t : LineState K} (ht : s.applyWord w = .ok t) : t.guard = s.guard := by
        obtain ⟨-, hdoes⟩ := LineState.applyWord_does w t ht
        rw [hasked] at hdoes
        have hsame : LineState.Same s t := hdoes
        unfold LineState.Same at hsame
        rw [hsame]
      rw [hgroups, List.forall_mem_cons]
      constructor
      · rintro ⟨t, ht, hrest⟩
        obtain ⟨hknown, hnodup, hfree⟩ := (ih t).1 hrest
        rw [hguard ht] at hfree
        exact ⟨⟨(hfirst.1 ⟨t, ht⟩).1, hknown⟩, hnodup, hfree⟩
      · rintro ⟨⟨hknown, hrest⟩, hnodup, hfree⟩
        obtain ⟨t, ht⟩ := hfirst.2 ⟨hknown, fun a ha => absurd (hasked.symm.trans ha) (by simp)⟩
        refine ⟨t, ht, (ih t).2 ⟨hrest, hnodup, ?_⟩⟩
        rwa [hguard ht]
    | some a =>
      have hgroups : groups (w :: words) = a.group :: groups words := by
        unfold groups
        rw [List.filterMap_cons_some (by rw [hasked]; rfl)]
      have hguard {t : LineState K} (ht : s.applyWord w = .ok t) :
          t.guard = fun g => g = a.group || s.guard g := by
        obtain ⟨-, hdoes⟩ := LineState.applyWord_does w t ht
        rw [hasked] at hdoes
        rw [hdoes.2, LineState.guard_stage]
        rfl
      rw [hgroups, List.forall_mem_cons, List.nodup_cons, List.forall_mem_cons]
      constructor
      · rintro ⟨t, ht, hrest⟩
        obtain ⟨hknown, hnodup, hfree⟩ := (ih t).1 hrest
        obtain ⟨hw, hgroup⟩ := hfirst.1 ⟨t, ht⟩
        rw [hguard ht] at hfree
        refine ⟨⟨hw, hknown⟩, ⟨fun hmem => ?_, hnodup⟩, hgroup a hasked, fun g hg => ?_⟩
        · have hused := hfree _ hmem
          simp at hused
        · exact (Bool.or_eq_false_iff.1 (hfree g hg)).2
      · rintro ⟨⟨hknown, hrest⟩, ⟨hnew, hnodup⟩, hgroup, hfree⟩
        obtain ⟨t, ht⟩ := hfirst.2 ⟨hknown, fun b hb => by
          rw [← Option.some.inj (hasked.symm.trans hb)]
          exact hgroup⟩
        refine ⟨t, ht, (ih t).2 ⟨hrest, hnodup, fun g hg => ?_⟩⟩
        rw [hguard ht]
        refine Bool.or_eq_false_iff.2 ⟨decide_eq_false fun heq => hnew (heq ▸ hg), hfree g hg⟩

/-- The modes of a line that is folded are those behind its words. -/
theorem LineState.feedModes_applyWords {s s' : LineState K} {words : List (Word K)}
    (h : s.applyWords (words.map .ok) = .ok s') :
    s'.feedModes = words.foldl FeedModes.word s.feedModes := by
  induction words generalizing s with
  | nil =>
    obtain rfl := Except.ok.inj h
    rfl
  | cons w words ih =>
    cases hword : s.applyWord w with
    | error e =>
      rw [LineState.applyWords_error hword] at h
      cases h
    | ok t =>
      rw [LineState.applyWords_ok hword] at h
      rw [ih h, LineState.feedModes_applyWord hword]
      rfl

/-! ## The command of a line of words -/

/-- The words ask for something that comes before a probe and a motion. -/
def Deferred (words : List (Word K)) : Prop := ∃ a, Requests words a ∧ a.rank < 5

/-- The words have the companions that a probe or a motion needs. -/
structure Accompanied (state : ModalState K) (words : List (Word K)) : Prop where
  /-- A probe has an axis. -/
  probeAxis : ∀ kind, Requests words (.probe kind) →
    (LineParams.ofWords words).axes.any = true
  /-- A probe that is made has a feed in units per minute, and no rotary axis. -/
  probe : ¬Deferred words → ∀ kind, Requests words (.probe kind) →
    (LineParams.ofWords words).axes.a = none
      ∧ (FeedModes.after state words).feedMode ≠ .inverseTime
      ∧ 0 < (FeedModes.after state words).feed
  /-- A motion that is fed has a feed. -/
  motion : ¬Deferred words → (∀ kind, ¬Requests words (.probe kind)) →
    (LineParams.ofWords words).axes.any = true →
    (FeedModes.after state words).motion ≠ .rapid → ¬(FeedModes.after state words).Undefined

omit [FloorRing K] in
theorem feedIsUndefined_eq_true_iff {state : ModalState K} {sawFeed needsFeed : Bool} :
    feedIsUndefined state sawFeed needsFeed = true
      ↔ needsFeed = true
        ∧ (⟨state.motion, state.feedMode, state.feed, sawFeed⟩ : FeedModes K).Undefined := by
  unfold feedIsUndefined FeedModes.Undefined
  simp

/-- What comes before a probe and a motion is pending. -/
theorem Folded.deferred_iff {words : List (Word K)} {s : LineState K} (h : Folded words s) :
    Deferred words ↔ s.acc.pendingProgramEnd = true ∨ s.acc.pendingPause.isSome = true
      ∨ s.acc.pendingDwell = true ∨ s.acc.pendingPredefined.isSome = true
      ∨ s.acc.pendingCoordinate.isSome = true := by
  constructor
  · rintro ⟨a, ha, hrank⟩
    have hhas := h.has_of_requests ha
    cases a with
    | programEnd => exact .inl hhas
    | programPause pause => exact .inr (.inl (Option.isSome_iff_exists.2 ⟨_, hhas⟩))
    | dwell => exact .inr (.inr (.inl hhas))
    | goToPredefined isG28 =>
      exact .inr (.inr (.inr (.inl (Option.isSome_iff_exists.2 ⟨_, hhas⟩))))
    | coordinate op => exact .inr (.inr (.inr (.inr hhas)))
    | _ => exact absurd hrank (by simp [Action.rank])
  · rintro (hend | hpause | hdwell | hpredefined | hcoordinate)
    · exact ⟨.programEnd, h.asked .programEnd hend, by decide⟩
    · obtain ⟨pause, hpause⟩ := Option.isSome_iff_exists.1 hpause
      exact ⟨.programPause pause, h.asked (.programPause pause) hpause, Nat.lt_of_sub_eq_succ rfl⟩
    · exact ⟨.dwell, h.asked .dwell hdwell, by decide⟩
    · obtain ⟨isG28, hpredefined⟩ := Option.isSome_iff_exists.1 hpredefined
      exact ⟨.goToPredefined isG28, h.asked (.goToPredefined isG28) hpredefined,
        Nat.lt_of_sub_eq_succ rfl⟩
    · obtain ⟨op, hcoordinate⟩ := Option.isSome_iff_exists.1 hcoordinate
      exact ⟨.coordinate op, h.asked (.coordinate op) hcoordinate, Nat.lt_of_sub_eq_succ rfl⟩

/-- A motion by a word is pending. -/
theorem Folded.probe_iff {words : List (Word K)} {s : LineState K} (h : Folded words s)
    {kind : ProbeKind} : s.acc.pendingProbe = some kind ↔ Requests words (.probe kind) :=
  ⟨fun hkind => h.asked (.probe kind) hkind, fun hkind => h.has_of_requests hkind⟩

omit [FloorRing K] in
theorem probeCommand_ok_iff {kind : ProbeKind} {acc : LineAccumulator K} {state : ModalState K} :
    (∃ c, probeCommand kind acc state = .ok c)
      ↔ acc.axes.a = none ∧ state.feedMode ≠ .inverseTime ∧ 0 < state.feed := by
  unfold probeCommand
  split
  · rename_i ha
    refine iff_of_false (fun ⟨_, h⟩ => nomatch h) fun h => ?_
    rw [h.1] at ha
    exact Bool.false_ne_true ha
  rename_i ha
  split
  · rename_i hmode
    exact iff_of_false (fun ⟨_, h⟩ => nomatch h) fun h => h.2.1 hmode
  rename_i hmode
  split
  · rename_i hfeed
    rw [feedIsUndefined_eq_true_iff] at hfeed
    refine iff_of_false (fun ⟨_, h⟩ => nomatch h) fun h => ?_
    rcases hfeed.2 with hle | hinverse
    · exact absurd h.2.2 (not_lt.2 hle)
    · exact hmode hinverse.1
  · rename_i hfeed
    rw [feedIsUndefined_eq_true_iff, not_and] at hfeed
    refine iff_of_true ⟨_, rfl⟩ ⟨?_, hmode, ?_⟩
    · simpa using ha
    · exact not_le.1 fun hle => hfeed rfl (.inl hle)

/-- The command of a folded line is refused when a probe or a motion lacks a companion. -/
theorem Folded.emit_ok_iff {words : List (Word K)} {s : LineState K} {state : ModalState K}
    (h : Folded words s) (hmodes : s.feedModes = FeedModes.after state words) (preLineWcs : ℕ) :
    (∃ c, Galdr.emit s.acc s.next preLineWcs = .ok c)
      ↔ (¬Deferred words → ∀ kind, Requests words (.probe kind) →
          (LineParams.ofWords words).axes.a = none
            ∧ (FeedModes.after state words).feedMode ≠ .inverseTime
            ∧ 0 < (FeedModes.after state words).feed)
        ∧ (¬Deferred words → (∀ kind, ¬Requests words (.probe kind)) →
          (LineParams.ofWords words).axes.any = true →
          (FeedModes.after state words).motion ≠ .rapid →
          ¬(FeedModes.after state words).Undefined) := by
  rw [← h.params, ← hmodes]
  by_cases hdeferred : Deferred words
  · refine iff_of_true ?_ ⟨fun hnot => absurd hdeferred hnot, fun hnot => absurd hdeferred hnot⟩
    have hpending := h.deferred_iff.1 hdeferred
    unfold Galdr.emit
    split
    · exact ⟨_, rfl⟩
    split
    · exact ⟨_, rfl⟩
    split
    · exact ⟨_, rfl⟩
    split
    · exact ⟨_, rfl⟩
    split
    · exact ⟨_, rfl⟩
    · simp_all
  · have hnone := fun hpending => hdeferred (h.deferred_iff.2 hpending)
    unfold Galdr.emit
    split
    · exact absurd (.inl ‹_›) hnone
    split
    · rename_i hpause
      exact absurd (.inr (.inl (by rw [hpause]; rfl))) hnone
    split
    · exact absurd (.inr (.inr (.inl ‹_›))) hnone
    split
    · rename_i hpredefined
      exact absurd (.inr (.inr (.inr (.inl (by rw [hpredefined]; rfl))))) hnone
    split
    · rename_i hcoordinate
      exact absurd (.inr (.inr (.inr (.inr (by rw [hcoordinate]; rfl))))) hnone
    split
    · -- a probe
      rename_i kind hkind
      rw [probeCommand_ok_iff]
      refine ⟨fun hok => ⟨fun _ _ _ => hok, fun _ hno => absurd (h.probe_iff.1 hkind) (hno kind)⟩,
        fun hok => hok.1 hdeferred kind (h.probe_iff.1 hkind)⟩
    rename_i hprobe
    have hno (kind : ProbeKind) : ¬Requests words (.probe kind) := fun hkind => by
      cases hprobe.symm.trans (h.probe_iff.2 hkind)
    have hvacuous : ¬Deferred words → ∀ kind, Requests words (.probe kind) →
        s.acc.params.axes.a = none ∧ s.feedModes.feedMode ≠ .inverseTime
          ∧ 0 < s.feedModes.feed :=
      fun _ kind hkind => absurd hkind (hno kind)
    split
    · -- a motion
      rename_i haxes
      split
      · rename_i hfeed
        rw [feedIsUndefined_eq_true_iff, bne_iff_ne] at hfeed
        exact iff_of_false (fun ⟨_, h⟩ => nomatch h) fun hok =>
          hok.2 hdeferred hno haxes hfeed.1 hfeed.2
      · rename_i hfeed
        rw [feedIsUndefined_eq_true_iff, bne_iff_ne, not_and] at hfeed
        exact iff_of_true ⟨_, rfl⟩ ⟨hvacuous, fun _ _ _ hmotion => hfeed hmotion⟩
    · rename_i haxes
      refine iff_of_true ?_ ⟨hvacuous, fun _ _ haxes' => absurd haxes' haxes⟩
      split
      · exact ⟨_, rfl⟩
      split
      · exact ⟨_, rfl⟩
      split
      · exact ⟨_, rfl⟩
      · exact ⟨_, rfl⟩

/-! ## A line -/

/-- The words of a line. -/
def lineWords (line : List UInt8) : List (Word K) := (Lexer.words line).filterMap Except.toOption

/-- **A line that the parser accepts**, by its words and by the modes before it. -/
structure LineAcceptable (state : ModalState K) (line : List UInt8) : Prop where
  /-- The line is a list of words, each a letter and a number. -/
  wellFormed : ∀ item ∈ (Lexer.words line : List (Except GcodeError (Word K))), ∃ w, item = .ok w
  /-- Each of them is known. -/
  known : ∀ w ∈ (lineWords line : List (Word K)), w.Known
  /-- No two ask for actions of one modal group. -/
  distinct : (groups (lineWords line : List (Word K))).Nodup
  /-- A probe and a motion have their companions. -/
  accompanied : Accompanied state (lineWords line)

omit [Field K] [LinearOrder K] [FloorRing K] in
/-- A list without errors is the list of its words. -/
theorem eq_map_ok {items : List (Except GcodeError (Word K))}
    (h : ∀ item ∈ items, ∃ w, item = .ok w) : items = (items.filterMap Except.toOption).map .ok := by
  induction items with
  | nil => rfl
  | cons item items ih =>
    obtain ⟨w, rfl⟩ := h item (List.mem_cons_self ..)
    have hrest := ih fun item hmem => h item (List.mem_cons_of_mem _ hmem)
    nth_rewrite 1 [hrest]
    rfl

/-- A folded line is accepted when its probe has an axis and its command is not refused. -/
theorem parseLine_ok_iff_of_folded {state : ModalState K} {line : List UInt8} {s : LineState K}
    (h : (LineState.start state).applyWords (Lexer.words line) = .ok s) :
    (∃ c, (parseLine state line).1 = .ok c)
      ↔ (s.acc.pendingProbe.isSome = true → s.acc.axes.any = true)
        ∧ ∃ c, emit s.acc s.next state.wcs = .ok c := by
  unfold parseLine
  rw [h]
  dsimp only
  split
  · rename_i hprobe
    rw [Bool.and_eq_true, Bool.not_eq_true'] at hprobe
    refine iff_of_false (fun ⟨_, h⟩ => nomatch h) fun hok => ?_
    rw [hok.1 hprobe.1] at hprobe
    exact Bool.false_ne_true hprobe.2.symm
  · rename_i hprobe
    have haxis : s.acc.pendingProbe.isSome = true → s.acc.axes.any = true := fun hsome => by
      simpa [hsome] using hprobe
    cases hemit : emit s.acc s.next state.wcs with
    | error e => exact iff_of_false (fun ⟨_, h⟩ => nomatch h) fun ⟨_, _, h⟩ => nomatch h
    | ok c => exact iff_of_true ⟨c, rfl⟩ ⟨haxis, c, rfl⟩

/-- A line that cannot be folded is refused. -/
theorem parseLine_not_ok {state : ModalState K} {line : List UInt8}
    (h : ¬∃ s, (LineState.start state).applyWords (Lexer.words line) = .ok s) :
    ¬∃ c, (parseLine state line).1 = .ok c := by
  unfold parseLine
  cases happly : (LineState.start state).applyWords (Lexer.words line) with
  | error e => exact fun ⟨_, h⟩ => nomatch h
  | ok s => exact absurd ⟨s, happly⟩ h

/-- **A line is accepted** exactly when its words and the modes before it make it
acceptable. -/
theorem parseLine_ok_iff (state : ModalState K) (line : List UInt8) :
    (∃ c, (parseLine state line).1 = .ok c) ↔ LineAcceptable state line := by
  by_cases happly : ∃ s, (LineState.start state).applyWords (Lexer.words line) = .ok s
  · obtain ⟨s, hs⟩ := happly
    obtain ⟨words, hwords, hfolded⟩ := (folded_start state).applyWords hs
    rw [List.nil_append] at hfolded
    have hline : (lineWords line : List (Word K)) = words := by
      unfold lineWords
      rw [hwords, List.filterMap_map]
      exact List.filterMap_some
    rw [hwords] at hs
    obtain ⟨hknown, hdistinct, -⟩ := (LineState.applyWords_ok_iff _ words).1 ⟨s, hs⟩
    have hmodes : s.feedModes = FeedModes.after state words := LineState.feedModes_applyWords hs
    rw [← hwords] at hs
    rw [parseLine_ok_iff_of_folded hs, hfolded.emit_ok_iff hmodes]
    have hprobe : (s.acc.pendingProbe.isSome = true → s.acc.axes.any = true)
        ↔ ∀ kind, Requests words (.probe kind) → (LineParams.ofWords words).axes.any = true := by
      rw [hfolded.axes_any, Option.isSome_iff_exists]
      constructor
      · exact fun h kind hkind => h ⟨kind, hfolded.probe_iff.2 hkind⟩
      · exact fun h ⟨kind, hkind⟩ => h kind (hfolded.probe_iff.1 hkind)
    rw [hprobe]
    constructor
    · rintro ⟨haxis, hprobes, hmotion⟩
      refine ⟨fun item hmem => ?_, ?_, ?_, ?_⟩
      · rw [hwords] at hmem
        obtain ⟨w, -, rfl⟩ := List.mem_map.1 hmem
        exact ⟨w, rfl⟩
      · rwa [hline]
      · rwa [hline]
      · rw [hline]
        exact ⟨haxis, hprobes, hmotion⟩
    · intro h
      have hacc := h.accompanied
      rw [hline] at hacc
      exact ⟨hacc.probeAxis, hacc.probe, hacc.motion⟩
  · refine iff_of_false (parseLine_not_ok happly) fun h => happly ?_
    rw [eq_map_ok h.wellFormed]
    exact (LineState.applyWords_ok_iff _ _).2 ⟨h.known, h.distinct, fun _ _ => rfl⟩

/-! ## A program -/

/-- Every line of a program is accepted, each with the modal state behind the ones before
it. -/
def AcceptedFrom (state : ModalState K) : List (List UInt8) → Prop
  | [] => True
  | line :: rest =>
    (∃ c, (parseLine state line).1 = .ok c) ∧ AcceptedFrom (parseLine state line).2 rest

/-- Every line of a program is acceptable, each with the modal state behind the ones before
it. -/
def AcceptableFrom (state : ModalState K) : List (List UInt8) → Prop
  | [] => True
  | line :: rest => LineAcceptable state line ∧ AcceptableFrom (parseLine state line).2 rest

/-- **A program is accepted** line by line exactly when each of its lines is acceptable. -/
theorem acceptedFrom_iff (state : ModalState K) (lines : List (List UInt8)) :
    AcceptedFrom state lines ↔ AcceptableFrom state lines := by
  induction lines generalizing state with
  | nil => exact Iff.rfl
  | cons line rest ih =>
    show _ ∧ _ ↔ _ ∧ _
    rw [parseLine_ok_iff, ih]

end Galdr
