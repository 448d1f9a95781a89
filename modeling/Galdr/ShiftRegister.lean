import Mathlib

/-!
# Checks by a shift register

A register takes in the bits of a stream one at a time, and what it then holds checks the stream.
Two facts make the check a good one. A shift can be undone where the polynomial has its top bit set,
so that nothing behind a difference makes up for it. And a register takes in as many bits as it is
long as one word, so that a difference within so many bits is never lost. Together they say that
two streams that leave the register the same are equal, or differ over a longer stretch than it.
-/

namespace Galdr.ShiftRegister

variable {w : ℕ} {poly r s : BitVec w} {bits : List Bool}

/-- A shift. Where the bit that goes out is set, the polynomial is added. -/
def shift (poly r : BitVec w) : BitVec w :=
  (r >>> 1) ^^^ if r.getLsbD 0 then poly else 0

/-- A bit, in the lowest place. -/
def bit (w : ℕ) (b : Bool) : BitVec w := (BitVec.ofBool b).setWidth w

/-- Take in bits, one after the other. -/
def feed (poly r : BitVec w) (bits : List Bool) : BitVec w :=
  bits.foldl (fun r b => shift poly (r ^^^ bit w b)) r

/-- Bits as a word, the first in the lowest place. -/
def word (w : ℕ) : List Bool → BitVec w
  | [] => 0
  | b :: bits => bit w b ^^^ word w bits <<< 1

/-! ## A shift -/

theorem getLsbD_shift (poly r : BitVec w) (i : ℕ) :
    (shift poly r).getLsbD i = (r.getLsbD (1 + i) ^^ (r.getLsbD 0 && poly.getLsbD i)) := by
  rw [shift, BitVec.getLsbD_xor, BitVec.getLsbD_ushiftRight]
  cases r.getLsbD 0 <;> simp

theorem shift_xor (poly r s : BitVec w) :
    shift poly (r ^^^ s) = shift poly r ^^^ shift poly s := by
  apply BitVec.eq_of_getLsbD_eq
  intro i hi
  simp only [getLsbD_shift, BitVec.getLsbD_xor]
  cases r.getLsbD 0 <;> cases s.getLsbD 0 <;> cases poly.getLsbD i <;> simp

/-- A shift that leaves nothing has had nothing: an added polynomial would show at the top. -/
theorem eq_zero_of_shift (htop : poly.msb = true) (h : shift poly r = 0#w) : r = 0#w := by
  have hbit (i : ℕ) : (r.getLsbD (1 + i) ^^ (r.getLsbD 0 && poly.getLsbD i)) = false := by
    rw [← getLsbD_shift, h, BitVec.getLsbD_zero]
  rw [BitVec.msb_eq_getLsbD_last] at htop
  have hlow : r.getLsbD 0 = false := by
    have hlast := hbit (w - 1)
    rwa [BitVec.getLsbD_of_ge r _ (by omega), htop, Bool.and_true, Bool.false_xor] at hlast
  apply BitVec.eq_of_getLsbD_eq
  intro i hi
  rw [BitVec.getLsbD_zero]
  cases i with
  | zero => exact hlow
  | succ i =>
    have hnext := hbit i
    rwa [hlow, Bool.false_and, Bool.xor_false, Nat.add_comm] at hnext

theorem shift_injective (htop : poly.msb = true) : Function.Injective (shift poly) := by
  intro r s h
  have hzero : shift poly (r ^^^ s) = 0#w := by rw [shift_xor, h, BitVec.xor_self]
  exact BitVec.xor_eq_zero_iff.1 (eq_zero_of_shift htop hzero)

/-- A word with its top place free goes up a place and comes down again. -/
theorem shift_shiftLeft (poly : BitVec w) (h : s.msb = false) : shift poly (s <<< 1) = s := by
  apply BitVec.eq_of_getLsbD_eq
  intro i hi
  rw [BitVec.msb_eq_getLsbD_last] at h
  rw [getLsbD_shift, BitVec.getLsbD_shiftLeft, BitVec.getLsbD_shiftLeft]
  by_cases hlast : 1 + i < w
  · simp [hlast]
  · obtain rfl : i = w - 1 := by omega
    simp [hlast, h]

/-! ## Words -/

theorem getLsbD_word (w : ℕ) (bits : List Bool) {i : ℕ} (hi : i < w) :
    (word w bits).getLsbD i = bits.getD i false := by
  induction bits generalizing i with
  | nil => simp [word]
  | cons b bits ih =>
    rw [word, BitVec.getLsbD_xor]
    cases i with
    | zero => simp [bit, hi]
    | succ i =>
      have hlt : i < w := by omega
      rw [List.getD_cons_succ, ← ih hlt]
      simp [bit, hi, BitVec.getLsbD_eq_getElem hlt]

theorem word_injective {a b : List Bool} (hlen : a.length = b.length) (ha : a.length ≤ w)
    (h : word w a = word w b) : a = b := by
  apply List.ext_getElem hlen
  intro i hi hi'
  have hbit := congrArg (fun x => x.getLsbD i) h
  simp only [getLsbD_word w _ (hi.trans_le ha)] at hbit
  simpa [List.getD, hi, hi'] using hbit

/-! ## Streams -/

@[simp] theorem feed_nil (poly r : BitVec w) : feed poly r [] = r := rfl

theorem feed_cons (poly r : BitVec w) (b : Bool) (bits : List Bool) :
    feed poly r (b :: bits) = feed poly (shift poly (r ^^^ bit w b)) bits :=
  rfl

theorem feed_append (poly r : BitVec w) (a b : List Bool) :
    feed poly r (a ++ b) = feed poly (feed poly r a) b :=
  List.foldl_append

/-- A register takes in as many bits as it is long as one word. -/
theorem feed_eq (poly r : BitVec w) (h : bits.length ≤ w) :
    feed poly r bits = (shift poly)^[bits.length] (r ^^^ word w bits) := by
  induction bits generalizing r with
  | nil => simp [word]
  | cons b bits ih =>
    have hlt : bits.length < w := by rwa [List.length_cons, Nat.succ_le_iff] at h
    have htop : (word w bits).msb = false := by
      rw [BitVec.msb_eq_getLsbD_last, getLsbD_word w bits (by omega)]
      exact List.getD_eq_default _ _ (Nat.le_sub_one_of_lt hlt)
    rw [feed_cons, ih _ hlt.le, List.length_cons, Function.iterate_succ_apply, word,
      ← BitVec.xor_assoc, shift_xor poly _ (word w bits <<< 1), shift_shiftLeft poly htop]

/-- Nothing behind a difference makes up for it. -/
theorem feed_injective (htop : poly.msb = true) (bits : List Bool) :
    Function.Injective fun r => feed poly r bits := by
  induction bits with
  | nil => exact Function.injective_id
  | cons b bits ih =>
    intro r s h
    exact (BitVec.xor_left_inj _).1 (shift_injective htop (ih h))

/-- A difference within the length of the register is never lost. -/
theorem eq_of_feed_eq_of_le (htop : poly.msb = true) {a b : List Bool}
    (hlen : a.length = b.length) (ha : a.length ≤ w) (h : feed poly r a = feed poly r b) :
    a = b := by
  rw [feed_eq poly r ha, feed_eq poly r (hlen ▸ ha), ← hlen] at h
  have hword := (shift_injective htop).iterate _ h
  exact word_injective hlen ha ((BitVec.xor_right_inj _).1 hword)

/-- **Streams that leave the register the same differ over a longer stretch than it**, or not
at all. -/
theorem eq_of_feed_eq (htop : poly.msb = true) {a b : List Bool} (hlen : a.length = b.length)
    {start : ℕ} (hconfined : ∀ i, a[i]? ≠ b[i]? → start ≤ i ∧ i < start + w)
    (h : feed poly r a = feed poly r b) : a = b := by
  have hbefore : a.take start = b.take start := by
    apply List.ext_getElem?
    intro i
    rw [List.getElem?_take, List.getElem?_take]
    by_cases hi : i < start
    · rw [if_pos hi, if_pos hi]
      exact not_not.1 fun hne => hi.not_ge (hconfined i hne).1
    · rw [if_neg hi, if_neg hi]
  have hbehind : (a.drop start).drop w = (b.drop start).drop w := by
    apply List.ext_getElem?
    intro i
    rw [List.drop_drop, List.drop_drop, List.getElem?_drop, List.getElem?_drop]
    exact not_not.1 fun hne => (Nat.le_add_right (start + w) i).not_gt (hconfined _ hne).2
  have hsplit (l : List Bool) :
      l = l.take start ++ ((l.drop start).take w ++ (l.drop start).drop w) := by
    rw [List.take_append_drop, List.take_append_drop]
  rw [hsplit a, hsplit b, hbefore, hbehind, feed_append, feed_append, feed_append,
    feed_append] at h
  have hwindow : (a.drop start).take w = (b.drop start).take w :=
    eq_of_feed_eq_of_le htop (by simp [hlen]) (List.length_take_le w _)
      (feed_injective htop _ h)
  rw [hsplit a, hsplit b, hbefore, hbehind, hwindow]

/-! ## Sums of streams -/

theorem bit_xor (w : ℕ) (a b : Bool) : bit w (a ^^ b) = bit w a ^^^ bit w b := by
  cases a <;> cases b <;> simp [bit]

/-- What a register holds after a sum of streams is the sum of what it holds after each. -/
theorem feed_xor (poly r s : BitVec w) {a b : List Bool} (hlen : a.length = b.length) :
    feed poly (r ^^^ s) (List.zipWith xor a b) = feed poly r a ^^^ feed poly s b := by
  induction a generalizing r s b with
  | nil =>
    obtain rfl : b = [] := List.length_eq_zero_iff.1 hlen.symm
    rfl
  | cons x a ih =>
    cases b with
    | nil => exact absurd hlen (Nat.succ_ne_zero _)
    | cons y b =>
      have hsum : r ^^^ s ^^^ bit w (x ^^ y) = (r ^^^ bit w x) ^^^ (s ^^^ bit w y) := by
        rw [bit_xor, BitVec.xor_assoc, BitVec.xor_assoc, ← BitVec.xor_assoc s,
          BitVec.xor_comm s, BitVec.xor_assoc (bit w x)]
      rw [List.zipWith_cons_cons, feed_cons, feed_cons, feed_cons, hsum, shift_xor]
      exact ih _ _ (Nat.succ_injective hlen)

/-- Clear bits leave an empty register empty. -/
theorem feed_replicate_false (poly : BitVec w) (n : ℕ) :
    feed poly 0#w (List.replicate n false) = 0#w := by
  induction n with
  | zero => rfl
  | succ n ih =>
    have hshift : shift poly (0#w ^^^ bit w false) = 0#w := by simp [bit, shift]
    rw [List.replicate_succ, feed_cons, hshift, ih]

end Galdr.ShiftRegister
