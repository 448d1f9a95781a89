import Galdr.WordEffects
import Galdr.LexerGrammar

/-!
# The order of the words of a line

The words of a line are applied from left to right, but most of them write to slots of their
own, so that another order of them makes the same line (`finish_runAll_of_perm`). Two pairs of
words share a slot: a tool word and the tool change of `M6`, which commits the tool that was
named before it, and a word of the non-modal group and a tool length word, the last of which is
the coordinate operation of the line.

A line is parsed alike in every order of its words if and only if neither pair matters
(`parseLine_permuted_iff`): no tool is named with a tool change, or it is tool 0 and no tool was
pending; and no coordinate word stands with a tool length word, or a word that takes the line
from both of them stands there too.
-/

namespace Galdr

variable {K : Type}

/-! ## Who writes a slot -/

/-- The letter of a number word. -/
def NumberWord.letter : NumberWord → Char
  | .x => 'X'
  | .y => 'Y'
  | .z => 'Z'
  | .a => 'A'
  | .i => 'I'
  | .j => 'J'
  | .k => 'K'
  | .p => 'P'
  | .l => 'L'

/-- The operations that are about the length of the tool. -/
def PendingCoordinate.isTlo : PendingCoordinate → Bool
  | .applyTlo | .cancelTlo => true
  | .g10 | .g92Set | .g92Clear | .storePredefined _ => false

/-- The operations that are about the length of the tool. -/
def CoordinateOp.isTlo : CoordinateOp K → Bool
  | .applyTlo _ _ | .cancelTlo => true
  | _ => false

/-- The owner of a slot, which is a modal group or a letter. Two of the slots have several
owners, and `G53` may stand on a line more than once. -/
def LineSlot.owner : LineSlot → Option (Group ⊕ Char)
  | .coordinate | .tools | .machineCoords => none
  | .motion | .dwell | .predefined | .probe => some (.inl .motion)
  | .tlo => some (.inl .toolOffset)
  | .plane => some (.inl .plane)
  | .units => some (.inl .units)
  | .feedMode => some (.inl .feedMode)
  | .distance => some (.inl .distance)
  | .wcs => some (.inl .coordinate)
  | .pause | .programEnd => some (.inl .stop)
  | .coolant => some (.inl .coolant)
  | .spindle => some (.inl .spindle)
  | .feed => some (.inr 'F')
  | .speed => some (.inr 'S')
  | .parameter name => some (.inr name.letter)

namespace WordEffect

/-- The letter of the words that have an effect, if it may not be repeated. -/
def letter : WordEffect K → Option Char
  | parameter name _ => some name.letter
  | feed _ => some 'F'
  | speed _ => some 'S'
  | tool _ => some 'T'
  | _ => none

/-- What effects of a line may not share: a group or a letter. -/
def owner (e : WordEffect K) : Option (Group ⊕ Char) :=
  match e.group with
  | some group => some (.inl group)
  | none => e.letter.map .inr

theorem owner_eq_some {e : WordEffect K} {o : Group ⊕ Char} :
    e.owner = some o ↔
      (∃ g, e.group = some g ∧ o = .inl g) ∨ ∃ c, e.letter = some c ∧ o = .inr c := by
  cases e <;> simp [owner, group, letter, eq_comm]

/-- A slot belongs to who owns the effects that write it. -/
theorem owner_of_mem_slots {e : WordEffect K} {slot : LineSlot} (h : slot ∈ e.slots) :
    slot.owner = none ∨ e.owner = slot.owner := by
  cases e <;> simp only [slots, List.mem_cons, List.not_mem_nil, or_false] at h <;>
    first
      | exact h.elim
      | (obtain rfl | rfl := h <;> simp [LineSlot.owner, owner, group, letter])

theorem eq_of_tools_mem {e : WordEffect K} (h : .tools ∈ e.slots) :
    e = toolChange ∨ ∃ n, e = tool n := by
  cases e with
  | toolChange => exact .inl rfl
  | tool n => exact .inr ⟨n, rfl⟩
  | _ => simp [slots] at h

theorem eq_of_coordinate_mem {e : WordEffect K} (h : .coordinate ∈ e.slots) :
    (∃ pending, e = coordinate pending) ∨ ∃ pending active, e = toolOffset pending active := by
  cases e with
  | coordinate pending => exact .inl ⟨pending, rfl⟩
  | toolOffset pending active => exact .inr ⟨pending, active, rfl⟩
  | _ => simp [slots] at h

theorem eq_of_machineCoords_mem {e : WordEffect K} (h : .machineCoords ∈ e.slots) :
    e = machineCoords := by
  cases e with
  | machineCoords => rfl
  | _ => simp [slots] at h

/-- Effects of different owners. -/
def Apart (e e' : WordEffect K) : Prop := ∀ o, e.owner = some o → e'.owner ≠ some o

instance : Std.Symm (Apart (K := K)) := ⟨fun _ _ h o ho ho' => h o ho' ho⟩

/-- Two effects that both change the tools: a tool word, and a tool change. -/
def ToolPair (e e' : WordEffect K) : Prop := ∃ n, e = tool n ∧ e' = toolChange

/-- Two effects that both name the coordinate operation: a coordinate word, and a tool length
word. -/
def OffsetPair (e e' : WordEffect K) : Prop :=
  ∃ pending pending' active, e = coordinate pending ∧ e' = toolOffset pending' active

/-- Effects of different owners write to different slots, but for the two pairs. -/
theorem slots_disjoint_of_apart {e e' : WordEffect K} (h : Apart e e') (hne : e ≠ e')
    (htools : ¬ ToolPair e e') (htools' : ¬ ToolPair e' e) (hoffsets : ¬ OffsetPair e e')
    (hoffsets' : ¬ OffsetPair e' e) : e.slots.Disjoint e'.slots := by
  intro slot hslot hslot'
  have hnone : slot.owner = none := by
    cases howner : slot.owner with
    | none => rfl
    | some o =>
      have hleft := (owner_of_mem_slots hslot).resolve_left (by simp [howner])
      have hright := (owner_of_mem_slots hslot').resolve_left (by simp [howner])
      exact absurd (hright.trans howner) (h o (hleft.trans howner))
  cases slot with
  | machineCoords =>
    exact hne ((eq_of_machineCoords_mem hslot).trans (eq_of_machineCoords_mem hslot').symm)
  | tools =>
    obtain rfl | ⟨n, rfl⟩ := eq_of_tools_mem hslot <;>
      obtain rfl | ⟨n', rfl⟩ := eq_of_tools_mem hslot'
    · exact hne rfl
    · exact htools' ⟨n', rfl, rfl⟩
    · exact htools ⟨n, rfl, rfl⟩
    · exact h _ rfl rfl
  | coordinate =>
    obtain ⟨pending, rfl⟩ | ⟨pending, active, rfl⟩ := eq_of_coordinate_mem hslot <;>
      obtain ⟨pending', rfl⟩ | ⟨pending', active', rfl⟩ := eq_of_coordinate_mem hslot'
    · exact h _ rfl rfl
    · exact hoffsets ⟨pending, pending', active', rfl, rfl⟩
    · exact hoffsets' ⟨pending', pending, active, rfl, rfl⟩
    · exact h _ rfl rfl
  | _ => simp [LineSlot.owner] at hnone

end WordEffect

/-! ## What a word may be -/

namespace WordEffect

/-- An effect that the words of a letter may have. -/
def Sound (c : Char) (e : WordEffect K) : Prop :=
  match e with
  | coordinate pending => pending.isTlo = false
  | toolOffset pending _ => pending.isTlo = true
  | parameter name _ => c = name.letter
  | feed _ => c = 'F'
  | speed _ => c = 'S'
  | tool _ => c = 'T'
  | _ => True

theorem Sound.letter {c d : Char} {e : WordEffect K} (h : e.Sound c) (hletter : e.letter = some d) :
    c = d := by
  cases e with
  | parameter | feed | speed | tool => exact Eq.trans h (Option.some.inj hletter)
  | _ => cases hletter

theorem Sound.ne_command {c d : Char} {e : WordEffect K} (h : e.Sound c)
    (hletter : e.letter = some d) : c ≠ 'G' ∧ c ≠ 'M' ∧ c ≠ 'N' := by
  cases e with
  | parameter name value =>
    rw [show c = name.letter from h]
    cases name <;> decide
  | feed value => rw [show c = 'F' from h]; decide
  | speed value => rw [show c = 'S' from h]; decide
  | tool n => rw [show c = 'T' from h]; decide
  | _ => cases hletter

end WordEffect

theorem sound_of_effectOr {effect : Option (WordEffect K)} {e : WordEffect K} {c : Char}
    (h : effectOr effect = .ok e) (hsound : ∀ e ∈ effect, e.Sound c) : e.Sound c := by
  cases effect with
  | none => cases h
  | some e' =>
    obtain rfl : e' = e := Except.ok.inj h
    exact hsound e' rfl

/-- A code that is looked up has an effect that its letter may have. -/
theorem sound_ite {p : Prop} [Decidable p] {e : WordEffect K} {rest : Option (WordEffect K)}
    {c : Char} (h : e.Sound c) (hrest : ∀ e ∈ rest, e.Sound c) :
    ∀ e' ∈ if p then some e else rest, e'.Sound c := by
  split
  · simpa using h
  · exact hrest

theorem fractionalEffect_sound {code : ℤ} {c : Char} :
    ∀ e ∈ fractionalEffect (K := K) code, e.Sound c := by
  unfold fractionalEffect
  repeat refine sound_ite (by first | rfl | trivial) ?_
  simp

theorem wholeEffect_sound {code : ℕ} {c : Char} :
    ∀ e ∈ wholeEffect (K := K) code, e.Sound c := by
  unfold wholeEffect
  repeat refine sound_ite (by first | rfl | trivial) ?_
  simp

theorem mEffect_sound {code : ℕ} {c : Char} : ∀ e ∈ mEffect (K := K) code, e.Sound c := by
  unfold mEffect
  repeat refine sound_ite (by first | rfl | trivial) ?_
  simp

section Words

variable [Field K] [LinearOrder K] [FloorRing K]

/-- A word has an effect that its letter may have. -/
theorem effectOf_sound {word : Word K} {e : WordEffect K} (h : effectOf word = .ok e) :
    e.Sound word.letter := by
  obtain ⟨letter, value⟩ := word
  unfold effectOf at h
  dsimp only at h ⊢
  split at h
  case h_1 =>
    unfold gEffect at h
    cases hcode : fractionalCode value with
    | some code =>
      rw [hcode] at h
      exact sound_of_effectOr h fractionalEffect_sound
    | none =>
      rw [hcode] at h
      cases hwhole : gCode value with
      | error e => rw [hwhole] at h; cases h
      | ok code =>
        rw [hwhole] at h
        exact sound_of_effectOr h wholeEffect_sound
  case h_2 =>
    unfold mWordEffect at h
    cases hcode : gCode value with
    | error e => rw [hcode] at h; cases h
    | ok code =>
      rw [hcode] at h
      exact sound_of_effectOr h mEffect_sound
  case h_14 =>
    unfold toolEffect at h
    cases htool : toolNumber value with
    | error e => rw [htool] at h; cases h
    | ok n =>
      rw [htool] at h
      obtain rfl := Except.ok.inj h
      rfl
  all_goals
    cases h
    try first | rfl | trivial

end Words

/-! ## All the effects of a line -/

/-- Have effects on a line, one after the other. -/
def LineState.performAll : LineState K → List (WordEffect K) → Except GcodeError (LineState K)
  | s, [] => .ok s
  | s, e :: effects =>
    match s.perform e with
    | .error err => .error err
    | .ok s => s.performAll effects

/-- The groups that effects use. -/
def groupsOf (effects : List (WordEffect K)) : List Group := effects.filterMap WordEffect.group

/-- What effects write, whatever groups they use. -/
def LineState.runAll (s : LineState K) (effects : List (WordEffect K)) : LineState K :=
  effects.foldl (fun s e => e.run s) s

/-- A line with groups used. -/
def LineState.withGuard (s : LineState K) (guard : GroupGuard) : LineState K := { s with guard }

@[simp]
theorem run_withGuard (e : WordEffect K) (s : LineState K) (guard : GroupGuard) :
    e.run (s.withGuard guard) = (e.run s).withGuard guard := by
  cases e with
  | parameter name value => cases name <;> rfl
  | _ => rfl

theorem runAll_withGuard (effects : List (WordEffect K)) (s : LineState K) (guard : GroupGuard) :
    (s.withGuard guard).runAll effects = (s.runAll effects).withGuard guard := by
  induction effects generalizing s with
  | nil => rfl
  | cons e effects ih =>
    show ((e.run (s.withGuard guard)).runAll effects) = _
    rw [run_withGuard, ih]
    rfl

/-- The groups that a line has used when one more is. -/
def GroupGuard.add (guard : GroupGuard) (group : Group) : GroupGuard :=
  fun g => g = group || guard g

theorem perform_of_none {e : WordEffect K} (h : e.group = none) (s : LineState K) :
    s.perform e = .ok (e.run s) := by
  unfold LineState.perform
  rw [h]

theorem perform_of_some {e : WordEffect K} {group : Group} (h : e.group = some group)
    (s : LineState K) : s.perform e =
      if s.guard group then .error .modalGroupViolation
      else .ok ((e.run s).withGuard (s.guard.add group)) := by
  unfold LineState.perform LineState.claim
  rw [h, ← run_withGuard]
  rfl

theorem groupsOf_cons_of_none {e : WordEffect K} (h : e.group = none)
    (effects : List (WordEffect K)) : groupsOf (e :: effects) = groupsOf effects :=
  List.filterMap_cons_none h

theorem groupsOf_cons_of_some {e : WordEffect K} {group : Group} (h : e.group = some group)
    (effects : List (WordEffect K)) : groupsOf (e :: effects) = group :: groupsOf effects :=
  List.filterMap_cons_some h

/-- An effect leaves the groups used. -/
theorem run_guard (e : WordEffect K) (s : LineState K) : (e.run s).guard = s.guard := by
  cases e with
  | parameter name value => cases name <;> rfl
  | _ => rfl

/-- Effects whose groups are not used, each by one of them, are all had. -/
theorem performAll_of_unused {effects : List (WordEffect K)} (hnodup : (groupsOf effects).Nodup)
    (s : LineState K) (hunused : ∀ g ∈ groupsOf effects, s.guard g = false) :
    ∃ guard, s.performAll effects = .ok ((s.runAll effects).withGuard guard) := by
  induction effects generalizing s with
  | nil => exact ⟨s.guard, rfl⟩
  | cons e effects ih =>
    unfold LineState.performAll
    cases hgroup : e.group with
    | none =>
      rw [groupsOf_cons_of_none hgroup] at hnodup hunused
      rw [perform_of_none hgroup]
      exact ih hnodup (e.run s) (by rwa [run_guard])
    | some group =>
      rw [groupsOf_cons_of_some hgroup] at hnodup hunused
      obtain ⟨hnot, hnodup⟩ := List.nodup_cons.mp hnodup
      rw [perform_of_some hgroup, hunused group List.mem_cons_self]
      obtain ⟨guard, hall⟩ := ih hnodup ((e.run s).withGuard (s.guard.add group)) fun g hg => by
        have hne : g ≠ group := fun h => hnot (h ▸ hg)
        simp [LineState.withGuard, GroupGuard.add, hne, hunused g (List.mem_cons_of_mem _ hg)]
      rw [runAll_withGuard] at hall
      exact ⟨guard, hall⟩

/-- The groups of effects that are all had are not used, and each is used by one of them. -/
theorem unused_of_performAll {effects : List (WordEffect K)} {s s' : LineState K}
    (h : s.performAll effects = .ok s') :
    (groupsOf effects).Nodup ∧ ∀ g ∈ groupsOf effects, s.guard g = false := by
  induction effects generalizing s with
  | nil => simp [groupsOf]
  | cons e effects ih =>
    unfold LineState.performAll at h
    cases hgroup : e.group with
    | none =>
      rw [groupsOf_cons_of_none hgroup]
      rw [perform_of_none hgroup] at h
      rw [← run_guard e s]
      exact ih h
    | some group =>
      rw [groupsOf_cons_of_some hgroup]
      rw [perform_of_some hgroup] at h
      cases hguard : s.guard group with
      | true => rw [hguard, if_pos rfl] at h; cases h
      | false =>
        rw [hguard, if_neg Bool.false_ne_true] at h
        obtain ⟨hnodup, hunused⟩ := ih h
        have hadd (g : Group) (hg : g ∈ groupsOf effects) : g ≠ group ∧ s.guard g = false := by
          simpa [LineState.withGuard, GroupGuard.add] using hunused g hg
        exact ⟨List.nodup_cons.mpr ⟨fun hg => (hadd group hg).1 rfl, hnodup⟩,
          List.forall_mem_cons.mpr ⟨hguard, fun g hg => (hadd g hg).2⟩⟩

/-! ## The end of a line -/

/-- The coordinate operation of a line is forgotten. -/
def LineState.hide (s : LineState K) : LineState K :=
  s.fold fun acc => { acc with pendingCoordinate := none }

/-- A word takes the line from the coordinate operations. -/
def LineState.taken (s : LineState K) : Bool :=
  s.acc.pendingProgramEnd || s.acc.pendingPause.isSome || s.acc.pendingDwell ||
    s.acc.pendingPredefined.isSome

/-- The words that take the line from the coordinate operations. -/
def WordEffect.takesLine : WordEffect K → Bool
  | programEnd | pause _ | toolChange | dwell | predefined _ => true
  | _ => false

/-- A line is taken by the words that take it. -/
theorem run_taken (e : WordEffect K) (s : LineState K) :
    (e.run s).taken = (e.takesLine || s.taken) := by
  cases e with
  | parameter name value => cases name <;> rfl
  | pause optional => simp [LineState.taken, WordEffect.run, WordEffect.takesLine, LineState.fold]
  | toolChange =>
    simp [LineState.taken, WordEffect.run, WordEffect.takesLine, LineState.fold, LineState.modal]
  | dwell => simp [LineState.taken, WordEffect.run, WordEffect.takesLine, LineState.fold]
  | predefined isG28 =>
    simp [LineState.taken, WordEffect.run, WordEffect.takesLine, LineState.fold]
  | _ => rfl

theorem runAll_taken (effects : List (WordEffect K)) (s : LineState K) :
    (s.runAll effects).taken = (effects.any WordEffect.takesLine || s.taken) := by
  induction effects generalizing s with
  | nil => rfl
  | cons e effects ih =>
    show ((e.run s).runAll effects).taken = _
    rw [ih, run_taken, List.any_cons, Bool.or_left_comm, Bool.or_assoc]

section Finish

variable [Field K] [LinearOrder K] [FloorRing K]

/-- The end of a line. -/
def LineState.finish (s : LineState K) (state : ModalState K) :
    Except GcodeError (Option (PlannerCommand K)) × ModalState K :=
  if s.acc.pendingProbe.isSome && !s.acc.axes.any then (.error .probeNoAxis, state)
  else
    match emit s.acc s.next state.wcs with
    | .error e => (.error e, state)
    | .ok command => (.ok command, s.next)

theorem parseLine_of_applyWords {state : ModalState K} {line : List UInt8} {s : LineState K}
    (h : (LineState.start state).applyWords (Lexer.words line) = .ok s) :
    parseLine state line = s.finish state := by
  unfold parseLine
  rw [h]
  rfl

@[simp]
theorem finish_withGuard (s : LineState K) (guard : GroupGuard) (state : ModalState K) :
    (s.withGuard guard).finish state = s.finish state := rfl

/-- The modal state behind an accepted line is the one staged. -/
theorem next_of_finish {s : LineState K} {state next : ModalState K}
    {command : Option (PlannerCommand K)} (h : s.finish state = (.ok command, next)) :
    emit s.acc s.next state.wcs = .ok command ∧ next = s.next := by
  unfold LineState.finish at h
  by_cases hprobe : (s.acc.pendingProbe.isSome && !s.acc.axes.any) = true
  · rw [if_pos hprobe] at h
    cases h
  · rw [if_neg hprobe] at h
    cases hemit : emit s.acc s.next state.wcs with
    | error e => rw [hemit] at h; cases h
    | ok command' => rw [hemit] at h; cases h; exact ⟨rfl, rfl⟩

/-- The coordinate operation of a line that is taken from it is not looked at. -/
theorem finish_hide {s : LineState K} (h : s.taken = true) (state : ModalState K) :
    s.hide.finish state = s.finish state := by
  have hemit : emit s.hide.acc s.hide.next state.wcs = emit s.acc s.next state.wcs := by
    obtain ⟨guard, ⟨predefined, dwell, _, _, programEnd, pause, _⟩, next⟩ := s
    cases programEnd with
    | true => rfl
    | false =>
      cases pause with
      | some pause => rfl
      | none =>
        cases dwell with
        | true => rfl
        | false =>
          cases predefined with
          | some isG28 => rfl
          | none => cases h
  unfold LineState.finish
  rw [hemit]
  rfl

/-- A coordinate operation makes the command of a line that is not taken from it. -/
theorem emit_coordinate {s : LineState K} (h : s.taken = false) {pending : PendingCoordinate}
    (hpending : s.acc.pendingCoordinate = some pending) (wcs : ℕ) :
    emit s.acc s.next wcs =
      .ok (some (.coordinate (resolveCoordinate pending s.acc s.next wcs))) := by
  unfold LineState.taken at h
  simp only [Bool.or_eq_false_iff, Option.isSome_eq_false_iff, Option.isNone_iff_eq_none] at h
  obtain ⟨⟨⟨hend, hpause⟩, hdwell⟩, hpredefined⟩ := h
  simp [emit, hend, hpause, hdwell, hpredefined, hpending]

/-- A tool length operation stays one with its words. -/
theorem resolveCoordinate_isTlo (pending : PendingCoordinate) (acc : LineAccumulator K)
    (state : ModalState K) (fallback : ℕ) :
    (resolveCoordinate pending acc state fallback).isTlo = pending.isTlo := by
  cases pending with
  | g10 => unfold resolveCoordinate; dsimp only; split <;> rfl
  | _ => rfl

end Finish

/-! ## The words of a line and their effects -/

section Lines

variable [Field K] [LinearOrder K] [FloorRing K]

/-- The words that the lexer reads from a line, until it finds a fault. -/
def wordsOf (line : List UInt8) : List (Word K) := (Lexer.words line).filterMap Except.toOption

/-- The effects of words that have one. -/
def effectsOf (words : List (Word K)) : List (WordEffect K) :=
  words.filterMap fun word => (effectOf word).toOption

theorem effectsOf_cons {word : Word K} {e : WordEffect K} (h : effectOf word = .ok e)
    (words : List (Word K)) : effectsOf (word :: words) = e :: effectsOf words := by
  unfold effectsOf
  rw [List.filterMap_cons, h]
  rfl

theorem mem_effectsOf {words : List (Word K)} {e : WordEffect K} :
    e ∈ effectsOf words ↔ ∃ word ∈ words, effectOf word = .ok e := by
  unfold effectsOf
  rw [List.mem_filterMap]
  refine exists_congr fun word => and_congr_right fun _ => ?_
  cases effectOf word <;> simp [Except.toOption]

omit [Field K] [LinearOrder K] [FloorRing K] in
theorem eq_ok_of_toOption {α : Type} {result : Except GcodeError α} {a : α}
    (h : result.toOption = some a) : result = .ok a := by
  cases result with
  | error e => cases h
  | ok a' => exact congrArg _ (Option.some.inj h)

/-- The words of a line are applied if each has an effect and all of them are had. -/
theorem applyWords_eq_ok_iff {words : List (Word K)} {s s' : LineState K} :
    s.applyWords (words.map .ok) = .ok s' ↔
      (∀ word ∈ words, ∃ e, effectOf word = .ok e) ∧ s.performAll (effectsOf words) = .ok s' := by
  induction words generalizing s with
  | nil => simp [LineState.applyWords, effectsOf, LineState.performAll]
  | cons word words ih =>
    rw [List.map_cons, LineState.applyWords, applyWord_eq]
    cases heffect : effectOf word with
    | error e => simp [LineState.performOr, heffect]
    | ok e =>
      rw [effectsOf_cons heffect]
      unfold LineState.performOr LineState.performAll
      cases hperform : s.perform e with
      | error err => simp [hperform]
      | ok s => simp [ih, heffect, hperform]

/-- Only words without a fault are applied. -/
theorem words_of_applyWords {s s' : LineState K} {results : List (Except GcodeError (Word K))}
    (h : s.applyWords results = .ok s') :
    results = (results.filterMap Except.toOption).map .ok := by
  induction results generalizing s with
  | nil => rfl
  | cons result results ih =>
    cases result with
    | error e => cases h
    | ok word =>
      unfold LineState.applyWords at h
      cases hword : s.applyWord word with
      | error e => rw [hword] at h; cases h
      | ok s => rw [hword] at h; exact congrArg _ (ih h)

/-- A line whose words all have effects, of groups that differ, ends with what they write. -/
theorem parseLine_of_effects {state : ModalState K} {line : List UInt8} {words : List (Word K)}
    (hwords : Lexer.words line = words.map .ok)
    (heffects : ∀ word ∈ words, ∃ e, effectOf word = .ok e)
    (hnodup : (groupsOf (effectsOf words)).Nodup) :
    parseLine state line = ((LineState.start state).runAll (effectsOf words)).finish state := by
  obtain ⟨guard, hall⟩ := performAll_of_unused hnodup (.start state) fun _ _ => rfl
  have happly := applyWords_eq_ok_iff.mpr ⟨heffects, hall⟩
  rw [← hwords] at happly
  rw [parseLine_of_applyWords happly, finish_withGuard]

/-- The words of an accepted line all have effects, of groups that differ. -/
theorem effects_of_accepted {state next : ModalState K} {line : List UInt8}
    {command : Option (PlannerCommand K)} (h : parseLine state line = (.ok command, next)) :
    Lexer.words (K := K) line = (wordsOf line).map .ok ∧
      (∀ word ∈ wordsOf (K := K) line, ∃ e, effectOf word = .ok e) ∧
      (groupsOf (effectsOf (wordsOf (K := K) line))).Nodup := by
  cases happly : (LineState.start state).applyWords (Lexer.words line) with
  | error e =>
    unfold parseLine at h
    rw [happly] at h
    cases h
  | ok s =>
    have hwords : Lexer.words line = (wordsOf (K := K) line).map .ok := words_of_applyWords happly
    rw [hwords] at happly
    obtain ⟨heffects, hall⟩ := applyWords_eq_ok_iff.mp happly
    exact ⟨hwords, heffects, (unused_of_performAll hall).1⟩

/-- No letter is repeated but those of the commands and of the line number. -/
def NoRepeats (words : List (Word K)) : Prop :=
  words.Pairwise fun word word' => word.letter = word'.letter →
    word.letter = 'G' ∨ word.letter = 'M' ∨ word.letter = 'N'

/-- The effects of an accepted line that repeats no letter have different owners. -/
theorem pairwise_apart {words : List (Word K)} (hnodup : (groupsOf (effectsOf words)).Nodup)
    (hrepeats : NoRepeats words) : (effectsOf words).Pairwise WordEffect.Apart := by
  have hgroups : (effectsOf words).Pairwise fun e e' =>
      ∀ g, e.group = some g → ∀ g', e'.group = some g' → g ≠ g' := List.pairwise_filterMap.mp hnodup
  have hletters : (effectsOf words).Pairwise fun e e' =>
      ∀ c, e.letter = some c → e'.letter ≠ some c := by
    refine List.pairwise_filterMap.mpr (hrepeats.imp ?_)
    intro word word' h e he e' he' c hc hc'
    have hsound := effectOf_sound (eq_ok_of_toOption he)
    have hsound' := effectOf_sound (eq_ok_of_toOption he')
    obtain ⟨hG, hM, hN⟩ := hsound.ne_command hc
    obtain h | h | h := h ((hsound.letter hc).trans (hsound'.letter hc').symm)
    · exact hG h
    · exact hM h
    · exact hN h
  refine (hgroups.and hletters).imp ?_
  rintro e e' ⟨hgroup, hletter⟩ o ho ho'
  obtain ⟨g, hg, rfl⟩ | ⟨c, hc, rfl⟩ := WordEffect.owner_eq_some.mp ho <;>
    obtain ⟨g', hg', h⟩ | ⟨c', hc', h⟩ := WordEffect.owner_eq_some.mp ho'
  · exact hgroup g hg g' hg' (Sum.inl.inj h)
  · cases h
  · cases h
  · exact hletter c hc (hc'.trans (congrArg some (Sum.inr.inj h).symm))

end Lines

/-! ## Effects in another order -/

/-- Effects on different slots may be had in any order. -/
theorem runAll_eq_of_perm {effects effects' : List (WordEffect K)} (hperm : effects'.Perm effects)
    (hdisjoint : ∀ e ∈ effects, ∀ e' ∈ effects, e ≠ e' → e.slots.Disjoint e'.slots)
    (s : LineState K) : s.runAll effects' = s.runAll effects := by
  refine (hperm.symm.foldl_eq' ?_ s).symm
  intro e he e' he' s
  by_cases heq : e = e'
  · rw [heq]
  · exact WordEffect.run_comm (hdisjoint e he e' he' heq) s

/-- Whether the operation is forgotten before an effect does not matter if it is forgotten
behind it. -/
theorem hide_run_hide (e : WordEffect K) (s : LineState K) :
    (e.run s.hide).hide = (e.run s).hide := by
  cases e with
  | parameter name value => cases name <;> rfl
  | _ => rfl

theorem hide_runAll (effects : List (WordEffect K)) (s : LineState K) :
    (s.runAll effects).hide = effects.foldl (fun s e => (e.run s).hide) s.hide := by
  induction effects generalizing s with
  | nil => rfl
  | cons e effects ih =>
    show ((e.run s).runAll effects).hide = effects.foldl _ ((e.run s.hide).hide)
    rw [ih, hide_run_hide]

/-- But for the coordinate operation, a coordinate word and a tool length word may be had in
any order too. -/
theorem hide_runAll_eq_of_perm {effects effects' : List (WordEffect K)}
    (hperm : effects'.Perm effects)
    (hdisjoint : ∀ e ∈ effects, ∀ e' ∈ effects, e ≠ e' →
      WordEffect.OffsetPair e e' ∨ WordEffect.OffsetPair e' e ∨ e.slots.Disjoint e'.slots)
    (s : LineState K) : (s.runAll effects').hide = (s.runAll effects).hide := by
  rw [hide_runAll, hide_runAll]
  refine (hperm.symm.foldl_eq' ?_ s.hide).symm
  intro e he e' he' s
  rw [hide_run_hide, hide_run_hide]
  by_cases heq : e = e'
  · rw [heq]
  · obtain ⟨_, _, _, rfl, rfl⟩ | ⟨_, _, _, rfl, rfl⟩ | h := hdisjoint e he e' he' heq
    · rfl
    · rfl
    · rw [WordEffect.run_comm h]

/-- A tool word for tool 0 changes nothing where no tool is pending. -/
def WordEffect.quiet : WordEffect K → WordEffect K
  | .tool 0 => .lineNumber
  | e => e

theorem quiet_of_ne {e : WordEffect K} (h : e ≠ .tool 0) : e.quiet = e := by
  cases e with
  | tool n =>
    cases n with
    | zero => exact absurd rfl h
    | succ n => rfl
  | _ => rfl

theorem owner_of_quiet {e : WordEffect K} {o : Group ⊕ Char} (h : e.quiet.owner = some o) :
    e.owner = some o := by
  by_cases hzero : e = .tool 0
  · rw [hzero] at h
    cases h
  · rwa [quiet_of_ne hzero] at h

/-- Where no tool is pending, and none is named but tool 0, the tool words change nothing. -/
theorem runAll_quiet {effects : List (WordEffect K)} (h : ∀ n, .tool n ∈ effects → n = 0)
    (s : LineState K) (hs : s.next.pendingTool = 0) :
    s.runAll (effects.map WordEffect.quiet) = s.runAll effects := by
  induction effects generalizing s with
  | nil => rfl
  | cons e effects ih =>
    have hrest : ∀ n, .tool n ∈ effects → n = 0 := fun n hn => h n (List.mem_cons_of_mem _ hn)
    show (e.quiet.run s).runAll (effects.map _) = (e.run s).runAll effects
    have hrun : e.quiet.run s = e.run s ∧ (e.run s).next.pendingTool = 0 := by
      by_cases htools : .tools ∈ e.slots
      · obtain rfl | ⟨n, rfl⟩ := WordEffect.eq_of_tools_mem htools
        · exact ⟨rfl, rfl⟩
        · obtain rfl := h n List.mem_cons_self
          exact ⟨congrArg (fun n => s.modal fun m => { m with pendingTool := n }) hs, rfl⟩
      · refine ⟨?_, (WordEffect.run_tools htools s).1.trans hs⟩
        have hne : e ≠ .tool 0 := by
          rintro rfl
          exact htools List.mem_cons_self
        rw [quiet_of_ne hne]
    rw [hrun.1]
    exact ih hrest _ hrun.2

/-- A word on the line takes it from the coordinate operations, or not both a coordinate word
and a tool length word are there. -/
def OffsetsFree (effects : List (WordEffect K)) : Prop :=
  ∀ pending pending' active, .coordinate pending ∈ effects → .toolOffset pending' active ∈ effects →
    ∃ e ∈ effects, e.takesLine = true

/-- The order of the effects of a line does not matter. -/
structure OrderFree (state : ModalState K) (effects : List (WordEffect K)) : Prop where
  /-- A tool that is named with a tool change is tool 0, and none was pending. -/
  tools : ∀ n, .tool n ∈ effects → .toolChange ∈ effects → n = 0 ∧ state.pendingTool = 0
  /-- Nor does it matter which coordinate operation is the last. -/
  offsets : OffsetsFree effects

/-- The effects that write no tools leave them. -/
theorem runAll_tools {effects : List (WordEffect K)} (h : ∀ e ∈ effects, .tools ∉ e.slots)
    (s : LineState K) : (s.runAll effects).next.pendingTool = s.next.pendingTool ∧
      (s.runAll effects).next.currentTool = s.next.currentTool := by
  induction effects generalizing s with
  | nil => exact ⟨rfl, rfl⟩
  | cons e effects ih =>
    obtain ⟨hpending, hcurrent⟩ := ih (fun e he => h e (List.mem_cons_of_mem _ he)) (e.run s)
    have hrun := WordEffect.run_tools (h e List.mem_cons_self) s
    exact ⟨hpending.trans hrun.1, hcurrent.trans hrun.2⟩

/-- The effects that write no coordinate operation leave it. -/
theorem runAll_pendingCoordinate {effects : List (WordEffect K)}
    (h : ∀ e ∈ effects, .coordinate ∉ e.slots) (s : LineState K) :
    (s.runAll effects).acc.pendingCoordinate = s.acc.pendingCoordinate := by
  induction effects generalizing s with
  | nil => rfl
  | cons e effects ih =>
    exact (ih (fun e he => h e (List.mem_cons_of_mem _ he)) (e.run s)).trans
      (WordEffect.run_pendingCoordinate (h e List.mem_cons_self) s)

section Permuted

variable [Field K] [LinearOrder K] [FloorRing K]

/-- Without a tool word next to a tool change, the tools do not ask for an order. -/
theorem finish_runAll_of_notools {effects effects' : List (WordEffect K)}
    (hperm : effects'.Perm effects) (hapart : effects.Pairwise WordEffect.Apart)
    (hoffsets : OffsetsFree effects) (htools : ∀ n, .tool n ∈ effects → .toolChange ∉ effects)
    (s : LineState K) (state : ModalState K) :
    (s.runAll effects').finish state = (s.runAll effects).finish state := by
  have hne (e) (he : e ∈ effects) (e') (he' : e' ∈ effects) (hne : e ≠ e') : e.Apart e' :=
    hapart.forall he he' hne
  have hnotools (e) (he : e ∈ effects) (e') (he' : e' ∈ effects) : ¬ WordEffect.ToolPair e e' := by
    rintro ⟨n, rfl, rfl⟩
    exact htools n he he'
  cases htaken : effects.any WordEffect.takesLine with
  | true =>
    have hhide := hide_runAll_eq_of_perm hperm (s := s) fun e he e' he' h => by
      by_cases hpair : WordEffect.OffsetPair e e'
      · exact .inl hpair
      · by_cases hpair' : WordEffect.OffsetPair e' e
        · exact .inr (.inl hpair')
        · exact .inr (.inr (WordEffect.slots_disjoint_of_apart (hne e he e' he' h) h
            (hnotools e he e' he') (hnotools e' he' e he) hpair hpair'))
    have htakes : (s.runAll effects).taken = true := by rw [runAll_taken, htaken, Bool.true_or]
    have htakes' : (s.runAll effects').taken = true := by
      rw [runAll_taken, hperm.any_eq, htaken, Bool.true_or]
    rw [← finish_hide htakes, ← finish_hide htakes', hhide]
  | false =>
    have hnopair (e) (he : e ∈ effects) (e') (he' : e' ∈ effects) :
        ¬ WordEffect.OffsetPair e e' := by
      rintro ⟨pending, pending', active, rfl, rfl⟩
      obtain ⟨e, hmem, htakes⟩ := hoffsets pending pending' active he he'
      exact absurd (List.any_eq_true.mpr ⟨e, hmem, htakes⟩) (by simp [htaken])
    rw [runAll_eq_of_perm hperm fun e he e' he' h =>
      WordEffect.slots_disjoint_of_apart (hne e he e' he' h) h (hnotools e he e' he')
        (hnotools e' he' e he) (hnopair e he e' he') (hnopair e' he' e he)]

/-- **Another order of the effects makes the same line**, where the order does not matter. -/
theorem finish_runAll_of_perm {state : ModalState K} {effects effects' : List (WordEffect K)}
    (hperm : effects'.Perm effects) (hapart : effects.Pairwise WordEffect.Apart)
    (hfree : OrderFree state effects) :
    ((LineState.start state).runAll effects').finish state =
      ((LineState.start state).runAll effects).finish state := by
  by_cases htools : ∃ n, .tool n ∈ effects ∧ .toolChange ∈ effects
  · obtain ⟨n, hn, hchange⟩ := htools
    have hzero (n : ℕ) (hn : .tool n ∈ effects) : n = 0 := (hfree.tools n hn hchange).1
    have hpending : (LineState.start state).next.pendingTool = 0 := (hfree.tools n hn hchange).2
    have hmem : .toolChange ∈ effects.map WordEffect.quiet :=
      List.mem_map.mpr ⟨.toolChange, hchange, rfl⟩
    rw [← runAll_quiet hzero _ hpending,
      ← runAll_quiet (fun n hn => hzero n (hperm.mem_iff.mp hn)) _ hpending]
    refine finish_runAll_of_notools (hperm.map _) ?_ (fun _ _ _ _ _ => ⟨_, hmem, rfl⟩) ?_ _ _
    · refine List.pairwise_map.mpr (hapart.imp fun h o ho ho' => ?_)
      exact h o (owner_of_quiet ho) (owner_of_quiet ho')
    · intro n hn _
      obtain ⟨e, he, hquiet⟩ := List.mem_map.mp hn
      by_cases h : e = .tool 0
      · rw [h] at hquiet
        cases hquiet
      · rw [quiet_of_ne h] at hquiet
        subst hquiet
        exact h (congrArg _ (hzero n he))
  · exact finish_runAll_of_notools hperm hapart hfree.offsets
      (fun n hn hchange => htools ⟨n, hn, hchange⟩) _ _

/-- A tool and a tool change that may be exchanged are tool 0 and no pending tool. -/
theorem tools_of_exchanged {state next : ModalState K} {n : ℕ} {effects : List (WordEffect K)}
    {command : Option (PlannerCommand K)}
    (hapart : (.tool n :: .toolChange :: effects).Pairwise WordEffect.Apart)
    (hfirst : ((LineState.start state).runAll (.tool n :: .toolChange :: effects)).finish state =
      (.ok command, next))
    (hsecond : ((LineState.start state).runAll (.toolChange :: .tool n :: effects)).finish state =
      (.ok command, next)) : n = 0 ∧ state.pendingTool = 0 := by
  obtain ⟨htool, hrest⟩ := List.pairwise_cons.mp hapart
  obtain ⟨hchange, -⟩ := List.pairwise_cons.mp hrest
  have hleave (e) (he : e ∈ effects) : .tools ∉ e.slots := by
    intro hmem
    obtain rfl | ⟨n', rfl⟩ := WordEffect.eq_of_tools_mem hmem
    · exact hchange _ he _ rfl rfl
    · exact htool _ (List.mem_cons_of_mem _ he) _ rfl rfl
  have hnext := (next_of_finish hfirst).2
  have hnext' := (next_of_finish hsecond).2
  have htools := runAll_tools hleave
    ((LineState.start state).runAll [.tool n, .toolChange])
  have htools' := runAll_tools hleave
    ((LineState.start state).runAll [.toolChange, .tool n])
  have hpending : n = 0 :=
    htools'.1.symm.trans ((congrArg _ (hnext'.symm.trans hnext)).trans htools.1)
  have hcurrent : n = state.pendingTool :=
    htools.2.symm.trans ((congrArg _ (hnext.symm.trans hnext')).trans htools'.2)
  exact ⟨hpending, hcurrent.symm.trans hpending⟩

/-- The command of a line that nothing takes is about the length of the tool if the last
coordinate operation is. -/
def tloOf (command : Option (PlannerCommand K)) : Bool :=
  match command with
  | some (.coordinate op) => op.isTlo
  | _ => false

theorem tloOf_of_last {state next : ModalState K} {first second : WordEffect K}
    {pending : PendingCoordinate} {effects : List (WordEffect K)}
    {command : Option (PlannerCommand K)} (hfirst : first.takesLine = false)
    (hsecond : second.takesLine = false) (hleave : ∀ e ∈ effects, .coordinate ∉ e.slots)
    (htakes : effects.any WordEffect.takesLine = false)
    (hpending : (second.run (first.run (LineState.start state))).acc.pendingCoordinate =
      some pending)
    (hfinish : ((LineState.start state).runAll (first :: second :: effects)).finish state =
      (.ok command, next)) : tloOf command = pending.isTlo := by
  have htaken : ((LineState.start state).runAll (first :: second :: effects)).taken = false := by
    rw [runAll_taken, List.any_cons, List.any_cons, hfirst, hsecond, htakes]
    rfl
  have hemit := emit_coordinate htaken
    ((runAll_pendingCoordinate hleave _).trans hpending) state.wcs
  rw [(next_of_finish hfinish).1] at hemit
  rw [Except.ok.inj hemit]
  exact resolveCoordinate_isTlo _ _ _ _

/-- A coordinate word and a tool length word that may be exchanged stand on a line that another
word takes. -/
theorem taken_of_exchanged {state next : ModalState K} {pending pending' : PendingCoordinate}
    {active : Bool} {effects : List (WordEffect K)} {command : Option (PlannerCommand K)}
    (hpending : pending.isTlo = false) (hpending' : pending'.isTlo = true)
    (hapart : (.coordinate pending :: .toolOffset pending' active :: effects).Pairwise
      WordEffect.Apart)
    (hfirst : ((LineState.start state).runAll
      (.coordinate pending :: .toolOffset pending' active :: effects)).finish state =
        (.ok command, next))
    (hsecond : ((LineState.start state).runAll
      (.toolOffset pending' active :: .coordinate pending :: effects)).finish state =
        (.ok command, next)) : ∃ e ∈ effects, e.takesLine = true := by
  by_contra hnot
  obtain ⟨hcoordinate, hrest⟩ := List.pairwise_cons.mp hapart
  obtain ⟨hoffset, -⟩ := List.pairwise_cons.mp hrest
  have hleave (e) (he : e ∈ effects) : .coordinate ∉ e.slots := by
    intro hmem
    obtain ⟨_, rfl⟩ | ⟨_, _, rfl⟩ := WordEffect.eq_of_coordinate_mem hmem
    · exact hcoordinate _ (List.mem_cons_of_mem _ he) _ rfl rfl
    · exact hoffset _ he _ rfl rfl
  have htakes : effects.any WordEffect.takesLine = false :=
    List.any_eq_false.mpr fun e he htakes => hnot ⟨e, he, htakes⟩
  have htlo := tloOf_of_last rfl rfl hleave htakes rfl hfirst
  have htlo' := tloOf_of_last rfl rfl hleave htakes rfl hsecond
  rw [hpending'] at htlo
  rw [hpending] at htlo'
  exact Bool.false_ne_true (htlo'.symm.trans htlo)

end Permuted

/-! ## Lines in another order -/

section Lines

variable [Field K] [LinearOrder K] [FloorRing K]

omit [LinearOrder K] [FloorRing K] in
/-- Lines of the same words, in any order, are read without a fault if one of them is. -/
theorem words_of_perm {line line' : List UInt8} {words : List (Word K)}
    (hwords : Lexer.words line = words.map .ok)
    (hperm : (Lexer.words (K := K) line').Perm (Lexer.words line)) :
    Lexer.words line' = (wordsOf (K := K) line').map .ok := by
  have hok : ∀ result ∈ Lexer.words (K := K) line', ∃ word, result = .ok word := by
    intro result hresult
    have hmem := hperm.mem_iff.mp hresult
    rw [hwords] at hmem
    obtain ⟨word, -, rfl⟩ := List.mem_map.mp hmem
    exact ⟨word, rfl⟩
  unfold wordsOf
  generalize Lexer.words (K := K) line' = results at hok
  induction results with
  | nil => rfl
  | cons result results ih =>
    obtain ⟨⟨word, rfl⟩, hrest⟩ := List.forall_mem_cons.mp hok
    exact congrArg _ (ih hrest)

theorem exists_perm_pair {α : Type} {a b : α} {l : List α} (ha : a ∈ l) (hb : b ∈ l) (h : a ≠ b) :
    ∃ rest, (a :: b :: rest).Perm l := by
  obtain ⟨l₁, l₂, rfl⟩ := List.append_of_mem ha
  have hb' : b ∈ l₁ ++ l₂ := by simpa [h.symm] using hb
  obtain ⟨l₃, l₄, heq⟩ := List.append_of_mem hb'
  refine ⟨l₃ ++ l₄, ?_⟩
  have hcons : (b :: (l₃ ++ l₄)).Perm (l₁ ++ l₂) := heq ▸ List.perm_middle.symm
  exact (hcons.cons a).trans List.perm_middle.symm

/-- Two words of a line that is parsed alike in every order may stand first in it, in either
order. -/
theorem exchanged [IsStrictOrderedRing K] {state next : ModalState K} {line : List UInt8}
    {command : Option (PlannerCommand K)} {e e' : WordEffect K}
    (haccepted : parseLine state line = (.ok command, next))
    (hall : ∀ line', (Lexer.words (K := K) line').Perm (Lexer.words line) →
      parseLine state line' = (.ok command, next))
    (he : e ∈ effectsOf (wordsOf (K := K) line)) (he' : e' ∈ effectsOf (wordsOf (K := K) line))
    (hne : e ≠ e') : ∃ effects, (e :: e' :: effects).Perm (effectsOf (wordsOf line)) ∧
      ((LineState.start state).runAll (e :: e' :: effects)).finish state = (.ok command, next) ∧
      ((LineState.start state).runAll (e' :: e :: effects)).finish state = (.ok command, next) := by
  obtain ⟨hwords, heffects, hnodup⟩ := effects_of_accepted haccepted
  have hline := Grammar.words_eq_iff.mp hwords
  have hparse (words : List (Word K)) (hperm : words.Perm (wordsOf line)) :
      ((LineState.start state).runAll (effectsOf words)).finish state = (.ok command, next) := by
    obtain ⟨line', hline'⟩ : ∃ line', Grammar.Line false line' words :=
      Grammar.exists_line fun word hword => hline.exists_spelled word (hperm.mem_iff.mp hword)
    have hnodup' : (groupsOf (effectsOf words)).Nodup :=
      ((hperm.filterMap _).filterMap _).nodup_iff.mpr hnodup
    rw [← parseLine_of_effects hline'.words
      (fun word hword => heffects word (hperm.mem_iff.mp hword)) hnodup']
    refine hall line' ?_
    rw [hline'.words, hwords]
    exact hperm.map _
  obtain ⟨word, hword, hof⟩ := mem_effectsOf.mp he
  obtain ⟨word', hword', hof'⟩ := mem_effectsOf.mp he'
  have hne' : word ≠ word' := by
    rintro rfl
    exact hne (Except.ok.inj (hof.symm.trans hof'))
  obtain ⟨rest, hrest⟩ := exists_perm_pair hword hword' hne'
  have hfirst := hparse _ hrest
  have hsecond := hparse _ ((List.Perm.swap word word' rest).trans hrest)
  rw [effectsOf_cons hof, effectsOf_cons hof'] at hfirst
  rw [effectsOf_cons hof', effectsOf_cons hof] at hsecond
  refine ⟨effectsOf rest, ?_, hfirst, hsecond⟩
  rw [← effectsOf_cons hof', ← effectsOf_cons hof]
  exact hrest.filterMap _

/-- **A line is parsed alike in every order of its words if and only if the order does not
matter**: a tool that is named with a tool change is tool 0 and no tool was pending, and a
coordinate word stands with a tool length word only on a line that another word takes. -/
theorem parseLine_permuted_iff [IsStrictOrderedRing K] {state next : ModalState K}
    {line : List UInt8} {command : Option (PlannerCommand K)}
    (haccepted : parseLine state line = (.ok command, next))
    (hrepeats : NoRepeats (wordsOf (K := K) line)) :
    (∀ line', (Lexer.words (K := K) line').Perm (Lexer.words line) →
      parseLine state line' = (.ok command, next)) ↔
      OrderFree state (effectsOf (wordsOf line)) := by
  obtain ⟨hwords, heffects, hnodup⟩ := effects_of_accepted haccepted
  have hapart := pairwise_apart hnodup hrepeats
  constructor
  · intro hall
    refine ⟨?_, ?_⟩
    · intro n hn hchange
      obtain ⟨effects, hperm, hfirst, hsecond⟩ := exchanged haccepted hall hn hchange (by simp)
      exact tools_of_exchanged (hapart.perm hperm.symm (Std.Symm.symm _ _)) hfirst hsecond
    · intro pending pending' active hcoordinate hoffset
      obtain ⟨effects, hperm, hfirst, hsecond⟩ :=
        exchanged haccepted hall hcoordinate hoffset (by simp)
      obtain ⟨_, -, hof⟩ := mem_effectsOf.mp hcoordinate
      obtain ⟨_, -, hof'⟩ := mem_effectsOf.mp hoffset
      obtain ⟨e, he, htakes⟩ := taken_of_exchanged (effectOf_sound hof) (effectOf_sound hof')
        (hapart.perm hperm.symm (Std.Symm.symm _ _)) hfirst hsecond
      exact ⟨e, hperm.mem_iff.mp (List.mem_cons_of_mem _ (List.mem_cons_of_mem _ he)), htakes⟩
  · intro hfree line' hperm
    have hwords' := words_of_perm hwords hperm
    have hperm' : (wordsOf (K := K) line').Perm (wordsOf line) := hperm.filterMap _
    have hnodup' : (groupsOf (effectsOf (wordsOf (K := K) line'))).Nodup :=
      ((hperm'.filterMap _).filterMap _).nodup_iff.mpr hnodup
    have hfinish : ((LineState.start state).runAll (effectsOf (wordsOf line'))).finish state =
        ((LineState.start state).runAll (effectsOf (wordsOf line))).finish state :=
      finish_runAll_of_perm (hperm'.filterMap _) hapart hfree
    rw [parseLine_of_effects hwords'
        (fun word hword => heffects word (hperm'.mem_iff.mp hword)) hnodup', hfinish,
      ← parseLine_of_effects hwords heffects hnodup, haccepted]

/-- `T5 M6`. -/
def toolThenChange : List UInt8 := ['T'.toUInt8, '5'.toUInt8, 'M'.toUInt8, '6'.toUInt8]

/-- `M6 T5`. -/
def changeThenTool : List UInt8 := ['M'.toUInt8, '6'.toUInt8, 'T'.toUInt8, '5'.toUInt8]

theorem words_toolThenChange :
    Lexer.words (K := ℚ) toolThenChange = [.ok ⟨'T', 5⟩, .ok ⟨'M', 6⟩] := by decide +kernel

theorem words_changeThenTool :
    Lexer.words (K := ℚ) changeThenTool = [.ok ⟨'M', 6⟩, .ok ⟨'T', 5⟩] := by decide +kernel

theorem parseLine_toolThenChange :
    parseLine (K := ℚ) .default toolThenChange =
      (.ok (some (.programPause false true)), { ModalState.default with currentTool := 5 }) := by
  decide +kernel

theorem noRepeats_toolThenChange : NoRepeats (wordsOf (K := ℚ) toolThenChange) := by
  unfold wordsOf NoRepeats
  rw [words_toolThenChange]
  decide

theorem parseLine_permuted_iff_toolThenChange :
    (∀ line', (Lexer.words (K := ℚ) line').Perm (Lexer.words toolThenChange) →
      parseLine .default line' =
        (.ok (some (.programPause false true)),
          { (ModalState.default : ModalState ℚ) with currentTool := 5 })) ↔
      OrderFree (.default : ModalState ℚ) (effectsOf (wordsOf toolThenChange)) :=
  parseLine_permuted_iff parseLine_toolThenChange noRepeats_toolThenChange

/-- The tool that is named behind a tool change is not the one that is changed to. -/
theorem not_order_independent :
    ¬ ∀ (state : ModalState ℚ) (line : List UInt8) (command : Option (PlannerCommand ℚ))
      (next : ModalState ℚ), parseLine state line = (.ok command, next) →
      NoRepeats (wordsOf (K := ℚ) line) → ∀ line' : List UInt8,
      (Lexer.words (K := ℚ) line').Perm (Lexer.words line) →
      parseLine state line' = (.ok command, next) := by
  intro hall
  have hperm : (Lexer.words (K := ℚ) changeThenTool).Perm (Lexer.words toolThenChange) := by
    rw [words_changeThenTool, words_toolThenChange]
    exact .swap _ _ _
  have h := hall _ _ _ _ parseLine_toolThenChange noRepeats_toolThenChange _ hperm
  have hcurrent : (parseLine (K := ℚ) .default changeThenTool).2.currentTool = 5 := by rw [h]
  exact absurd hcurrent (by decide +kernel)

end Lines

end Galdr
