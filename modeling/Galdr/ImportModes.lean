import Galdr.GcodeAcceptance
import Galdr.ImportLexer
import Galdr.Planner

/-!
# The modes of the import

The import rounds the code of every `G` word and knows eight of them. On the lines that the
machine's parser accepts it keeps the motion, the distance mode and the units of the parser
(`Follows.line`): no accepted code with a fraction is rounded to one of the eight.
-/

namespace Galdr.Import

section Modes

variable {K : Type} [Field K] [LinearOrder K] [FloorRing K]

/-- The import has the motion, the distance mode and the units of the parser. It has no motion
until a line names one, where the parser has the rapid. -/
structure Follows (modal : Modal K) (state : ModalState K) : Prop where
  motion : modal.motion.getD .rapid = state.motion
  distance : modal.absolute = decide (state.distance = .absolute)
  units : modal.unitsScale = unitsScale state.units

omit [LinearOrder K] [FloorRing K] in
theorem follows_start : Follows (Modal.start : Modal K) .default := ⟨rfl, rfl, rfl⟩

/-- What an action does to the modes of the import. -/
def Modal.act (modal : Modal K) : Option Action → Modal K
  | some (.setting (.motion mode)) => { modal with motion := some mode }
  | some (.setting (.distance distance)) =>
    { modal with absolute := decide (distance = .absolute) }
  | some (.setting (.units units)) => { modal with unitsScale := Galdr.unitsScale units }
  | _ => modal

/-- The codes that the import knows. -/
def knownCodes : List ℤ := [0, 1, 2, 3, 90, 91, 20, 21]

theorem applyG_unknown (modal : Modal K) {value : K} (h : roundf value ∉ knownCodes) :
    modal.applyG value = modal := by
  have hne : ∀ code ∈ knownCodes, roundf value ≠ code := fun code hcode heq => h (heq ▸ hcode)
  unfold Modal.applyG
  dsimp only
  rw [if_neg (hne 0 (by decide)), if_neg (hne 1 (by decide)), if_neg (hne 2 (by decide)),
    if_neg (hne 3 (by decide)), if_neg (hne 90 (by decide)), if_neg (hne 91 (by decide)),
    if_neg (hne 20 (by decide)), if_neg (hne 21 (by decide))]

omit [LinearOrder K] [FloorRing K] in
theorem act_unknown (modal : Modal K) {code : ℕ} (h : (code : ℤ) ∉ knownCodes) :
    modal.act (Action.ofG code) = modal := by
  have hne : ∀ n : ℕ, (n : ℤ) ∈ knownCodes → code ≠ n := fun n hn heq => h (heq ▸ hn)
  unfold Action.ofG
  rw [if_neg (hne 0 (by decide)), if_neg (hne 1 (by decide)), if_neg (hne 2 (by decide)),
    if_neg (hne 3 (by decide)), if_neg (hne 20 (by decide)), if_neg (hne 21 (by decide)),
    if_neg (hne 90 (by decide)), if_neg (hne 91 (by decide))]
  simp only [apply_ite modal.act]
  simp only [Modal.act, ite_self]

/-- A whole code does what it asks for. -/
theorem applyG_whole (modal : Modal K) {value : K} {code : ℕ} (h : roundf value = code) :
    modal.applyG value = modal.act (Action.ofG code) := by
  by_cases hknown : (code : ℤ) ∈ knownCodes
  · have hcodes : code = 0 ∨ code = 1 ∨ code = 2 ∨ code = 3 ∨ code = 90 ∨ code = 91 ∨ code = 20
        ∨ code = 21 := by
      unfold knownCodes at hknown
      simp only [List.mem_cons, List.not_mem_nil, or_false] at hknown
      omega
    unfold Modal.applyG
    rw [h]
    rcases hcodes with rfl | rfl | rfl | rfl | rfl | rfl | rfl | rfl <;> rfl
  · rw [applyG_unknown modal (h ▸ hknown), act_unknown modal hknown]

/-- What is between two whole numbers is rounded between them. -/
theorem roundf_between [IsStrictOrderedRing K] {value : K} {a b : ℤ} (ha : (a : K) ≤ value)
    (hb : value ≤ b) : a ≤ roundf value ∧ roundf value ≤ b := by
  have hlow := roundf_mono ha
  have hhigh := roundf_mono hb
  rw [roundf_intCast] at hlow hhigh
  exact ⟨hlow, hhigh⟩

/-- The codes with a fraction are rounded to no mode of the import. -/
theorem applyG_tenths [IsStrictOrderedRing K] (modal : Modal K) {value : K} {code : ℤ} {a : Action}
    (h : fractionalCode value = some code) (ha : Action.ofTenths code = some a) :
    modal.applyG value = modal.act (some a) := by
  have hcodes : (281 ≤ code ∧ code ≤ 431 ∨ code = 921) ∧ modal.act (some a) = modal := by
    unfold Action.ofTenths at ha
    split_ifs at ha with h1 h2 h3 h4 h5 h6 h7 h8 <;>
      (obtain rfl := Option.some.inj ha; exact ⟨by omega, rfl⟩)
  rw [hcodes.2]
  refine applyG_unknown modal fun hknown => ?_
  unfold fractionalCode at h
  dsimp only at h
  split at h
  · cases h
  rename_i hnear
  obtain hcode := Option.some.inj h
  have hround : roundf (value * 10) = code := by
    unfold clampI32 i32Min i32Max at hcode
    omega
  rw [not_or, not_lt, hround] at hnear
  obtain ⟨hlow, hhigh⟩ := abs_le.1 hnear.1
  unfold knownCodes at hknown
  simp only [List.mem_cons, List.not_mem_nil, or_false] at hknown
  rcases hcodes.1 with ⟨hmin, hmax⟩ | rfl
  · have hmin' : (281 : K) ≤ code := by exact_mod_cast hmin
    have hmax' : (code : K) ≤ 431 := by exact_mod_cast hmax
    have hbetween : 28 ≤ roundf value ∧ roundf value ≤ 44 :=
      roundf_between (by push_cast; linarith) (by push_cast; linarith)
    omega
  · have hbetween : 92 ≤ roundf value ∧ roundf value ≤ 93 :=
      roundf_between (by push_cast at hlow ⊢; linarith) (by push_cast at hhigh ⊢; linarith)
    omega

/-- A word that the parser accepts does to the import what it asks for. -/
theorem applyG_accepted [IsStrictOrderedRing K] (modal : Modal K) {word : Word K}
    {s s' : LineState K} (hG : word.letter = 'G') (h : s.applyWord word = .ok s') :
    modal.applyG word.value = modal.act word.action := by
  have happly : s.applyGWord word.value = .ok s' := by
    unfold LineState.applyWord at h
    rw [hG] at h
    exact h
  unfold LineState.applyGWord at happly
  unfold Word.action
  rw [if_pos hG]
  cases hfraction : fractionalCode word.value with
  | some code =>
    rw [hfraction] at happly
    dsimp only at happly ⊢
    cases ha : Action.ofTenths code with
    | none =>
      have hdecides := (LineState.applyFractionalGWord_decides (s := s) code).1 ⟨s', happly⟩
      rw [ha] at hdecides
      exact absurd (hdecides.1.resolve_right not_false) Bool.false_ne_true
    | some a => exact applyG_tenths modal hfraction ha
  | none =>
    rw [hfraction] at happly
    dsimp only at happly ⊢
    cases hcode : gCode word.value with
    | error e =>
      rw [hcode] at happly
      cases happly
    | ok code =>
      show modal.applyG word.value = modal.act (Action.ofG code)
      refine applyG_whole modal ?_
      unfold gCode at hcode
      dsimp only at hcode
      split at hcode
      · cases hcode
      · rename_i hrange
        rw [not_or] at hrange
        rw [← Except.ok.inj hcode]
        exact (Int.toNat_of_nonneg (not_lt.1 hrange.1)).symm

omit [LinearOrder K] [FloorRing K] in
/-- No `M` word sets a mode of the import. -/
theorem act_ofM (modal : Modal K) (code : ℕ) : modal.act (Action.ofM code) = modal := by
  unfold Action.ofM
  simp only [apply_ite modal.act]
  simp only [Modal.act, ite_self]

/-- A word of the line, for the import. -/
def Modal.word (modal : Modal K) (word : Word K) : Modal K :=
  if word.letter = 'G' then modal.applyG word.value else modal

theorem word_accepted [IsStrictOrderedRing K] (modal : Modal K) {word : Word K} {s s' : LineState K}
    (h : s.applyWord word = .ok s') : modal.word word = modal.act word.action := by
  unfold Modal.word
  by_cases hG : word.letter = 'G'
  · rw [if_pos hG]
    exact applyG_accepted modal hG h
  · rw [if_neg hG]
    unfold Word.action
    rw [if_neg hG]
    split
    · cases (gCode word.value).toOption with
      | none => rfl
      | some code => exact (act_ofM modal code).symm
    · rfl

omit [LinearOrder K] [FloorRing K] in
/-- What is asked for sets the same modes on both sides. -/
theorem Follows.act {modal : Modal K} {s : LineState K} (h : Follows modal s.next) (g : Group)
    (a : Action) : Follows (modal.act (some a)) ((s.use g).stage a).next := by
  cases a with
  | setting setting =>
    cases setting with
    | motion mode => exact ⟨rfl, h.distance, h.units⟩
    | plane plane => exact ⟨h.motion, h.distance, h.units⟩
    | units units => exact ⟨h.motion, h.distance, rfl⟩
    | distance distance => exact ⟨h.motion, rfl, h.units⟩
    | feedMode mode => exact ⟨h.motion, h.distance, h.units⟩
  | programPause pause =>
    obtain ⟨optional, toolChange⟩ := pause
    cases toolChange <;> exact ⟨h.motion, h.distance, h.units⟩
  | coordinate op => cases op <;> exact ⟨h.motion, h.distance, h.units⟩
  | coolant word => cases word <;> exact ⟨h.motion, h.distance, h.units⟩
  | _ => exact ⟨h.motion, h.distance, h.units⟩

/-- **A word that is accepted keeps the import with the parser.** -/
theorem Follows.word [IsStrictOrderedRing K] {modal : Modal K} {word : Word K} {s s' : LineState K}
    (hf : Follows modal s.next) (h : s.applyWord word = .ok s') :
    Follows (modal.word word) s'.next := by
  rw [word_accepted modal h]
  have hdoes := (LineState.applyWord_does word s' h).2
  cases haction : word.action with
  | none =>
    rw [haction] at hdoes
    have hsame : LineState.Same s s' := hdoes
    unfold LineState.Same at hsame
    rw [hsame]
    exact ⟨hf.motion, hf.distance, hf.units⟩
  | some a =>
    rw [haction] at hdoes
    obtain ⟨-, rfl⟩ := hdoes
    exact hf.act a.group a

theorem applyLine_eq (modal : Modal K) (line : GcodeLine K) :
    modal.applyLine line = line.words.foldl Modal.word modal := by
  unfold Modal.applyLine
  rw [List.foldl_filter]
  congr 1
  funext modal word
  unfold Modal.word
  by_cases hG : word.letter = 'G'
  · rw [if_pos hG, if_pos (decide_eq_true hG)]
  · rw [if_neg hG, if_neg (by rw [decide_eq_false hG]; exact Bool.false_ne_true)]

/-- **A line that is accepted keeps the import with the parser.** -/
theorem Follows.line [IsStrictOrderedRing K] {modal : Modal K} {s s' : LineState K}
    {words : List (Word K)} (hf : Follows modal s.next)
    (h : s.applyWords (words.map .ok) = .ok s') : Follows (words.foldl Modal.word modal) s'.next := by
  induction words generalizing s modal with
  | nil =>
    obtain rfl := Except.ok.inj h
    exact hf
  | cons word words ih =>
    rw [List.map_cons] at h
    unfold LineState.applyWords at h
    cases happly : s.applyWord word with
    | error e =>
      rw [happly] at h
      cases h
    | ok t =>
      rw [happly] at h
      exact ih (hf.word happly) h

end Modes

end Galdr.Import
