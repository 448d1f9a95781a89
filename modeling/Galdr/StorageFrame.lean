import Galdr.ShiftRegister

/-!
# The frame of a stored record

A record is stored in a frame: a magic number, a version, the length of the payload, the payload and
a CRC-32 over all that is before it. A reader takes a frame for what it is or not at all, and a
reader that has a part of it only knows how much there is to come.
-/

namespace Galdr.Storage

open ShiftRegister

/-! ## Bytes -/

/-- A vector of bytes, of bounded capacity. -/
structure ByteVec (capacity : ℕ) where
  /-- The bytes. -/
  bytes : List UInt8
  /-- They fit. -/
  fits : bytes.length ≤ capacity

/-- Why a frame is not written or not read. -/
inductive CodecError
  | bufferFull | badLength | badMagic | badVersion | badCrc | badPayload
  deriving DecidableEq, Repr

namespace ByteVec

variable {capacity : ℕ}

/-- A vector without bytes. -/
def empty (capacity : ℕ) : ByteVec capacity := ⟨[], Nat.zero_le capacity⟩

/-- Drop all bytes. -/
def clear (_ : ByteVec capacity) : ByteVec capacity := empty capacity

/-- Append bytes, if they fit. -/
def extend (out : ByteVec capacity) (bytes : List UInt8) : Option (ByteVec capacity) :=
  if h : (out.bytes ++ bytes).length ≤ capacity then some ⟨out.bytes ++ bytes, h⟩ else none

/-- Append bytes. -/
def pushSlice (out : ByteVec capacity) (bytes : List UInt8) :
    Except CodecError (ByteVec capacity) :=
  match out.extend bytes with
  | some out => .ok out
  | none => .error .bufferFull

/-- Append a byte. -/
def pushByte (out : ByteVec capacity) (byte : UInt8) : Except CodecError (ByteVec capacity) :=
  out.pushSlice [byte]

/-- Bytes that fit are appended. -/
theorem pushSlice_eq_ok (out : ByteVec capacity) {bytes : List UInt8}
    (h : (out.bytes ++ bytes).length ≤ capacity) :
    out.pushSlice bytes = .ok ⟨out.bytes ++ bytes, h⟩ := by
  have hextend : out.extend bytes = some ⟨out.bytes ++ bytes, h⟩ := dif_pos h
  rw [pushSlice, hextend]

/-- What follows goes on with the bytes appended. -/
theorem pushSlice_bind (out : ByteVec capacity) {bytes : List UInt8}
    (h : (out.bytes ++ bytes).length ≤ capacity)
    (f : ByteVec capacity → Except CodecError (ByteVec capacity)) :
    (out.pushSlice bytes >>= f) = f ⟨out.bytes ++ bytes, h⟩ := by
  rw [pushSlice_eq_ok out h]
  rfl

end ByteVec

/-- The bytes of a word, the lowest first. -/
def toLeBytes32 (x : UInt32) : List UInt8 :=
  [UInt8.ofNat x.toNat, UInt8.ofNat (x.toNat / 2 ^ 8), UInt8.ofNat (x.toNat / 2 ^ 16),
    UInt8.ofNat (x.toNat / 2 ^ 24)]

/-- The bytes of a half word, the lowest first. -/
def toLeBytes16 (x : UInt16) : List UInt8 :=
  [UInt8.ofNat x.toNat, UInt8.ofNat (x.toNat / 2 ^ 8)]

/-- The word of four bytes. -/
def fromLeBytes32 (a b c d : UInt8) : UInt32 :=
  UInt32.ofNat (a.toNat + 2 ^ 8 * b.toNat + 2 ^ 16 * c.toNat + 2 ^ 24 * d.toNat)

/-- The half word of two bytes. -/
def fromLeBytes16 (a b : UInt8) : UInt16 := UInt16.ofNat (a.toNat + 2 ^ 8 * b.toNat)

@[simp] theorem length_toLeBytes32 (x : UInt32) : (toLeBytes32 x).length = 4 := rfl

theorem toLeBytes32_fromLeBytes32 (a b c d : UInt8) :
    toLeBytes32 (fromLeBytes32 a b c d) = [a, b, c, d] := by
  have ha := a.toNat_lt
  have hb := b.toNat_lt
  have hc := c.toNat_lt
  have hd := d.toNat_lt
  have hvalue : (fromLeBytes32 a b c d).toNat
      = a.toNat + 2 ^ 8 * b.toNat + 2 ^ 16 * c.toNat + 2 ^ 24 * d.toNat :=
    UInt32.toNat_ofNat_of_lt' (show _ < 2 ^ 32 by omega)
  rw [toLeBytes32, hvalue]
  congr 1
  · exact UInt8.toNat_inj.1 (by rw [UInt8.toNat_ofNat']; omega)
  congr 1
  · exact UInt8.toNat_inj.1 (by rw [UInt8.toNat_ofNat']; omega)
  congr 1
  · exact UInt8.toNat_inj.1 (by rw [UInt8.toNat_ofNat']; omega)
  congr 1
  exact UInt8.toNat_inj.1 (by rw [UInt8.toNat_ofNat']; omega)

theorem toLeBytes16_fromLeBytes16 (a b : UInt8) : toLeBytes16 (fromLeBytes16 a b) = [a, b] := by
  have ha := a.toNat_lt
  have hb := b.toNat_lt
  have hvalue : (fromLeBytes16 a b).toNat = a.toNat + 2 ^ 8 * b.toNat :=
    UInt16.toNat_ofNat_of_lt' (show _ < 2 ^ 16 by omega)
  rw [toLeBytes16, hvalue]
  congr 1
  · exact UInt8.toNat_inj.1 (by rw [UInt8.toNat_ofNat']; omega)
  congr 1
  exact UInt8.toNat_inj.1 (by rw [UInt8.toNat_ofNat']; omega)

theorem fromLeBytes32_toLeBytes32 (x : UInt32) :
    fromLeBytes32 (UInt8.ofNat x.toNat) (UInt8.ofNat (x.toNat / 2 ^ 8))
      (UInt8.ofNat (x.toNat / 2 ^ 16)) (UInt8.ofNat (x.toNat / 2 ^ 24)) = x := by
  have hx := x.toNat_lt
  apply UInt32.toNat_inj.1
  simp only [fromLeBytes32, UInt8.toNat_ofNat', UInt32.toNat_ofNat']
  omega

theorem fromLeBytes16_toLeBytes16 (x : UInt16) :
    fromLeBytes16 (UInt8.ofNat x.toNat) (UInt8.ofNat (x.toNat / 2 ^ 8)) = x := by
  have hx := x.toNat_lt
  apply UInt16.toNat_inj.1
  simp only [fromLeBytes16, UInt8.toNat_ofNat', UInt16.toNat_ofNat']
  omega

/-! ## The checksum -/

/-- The polynomial of the checksum, the highest power in the lowest place. -/
def crcPolynomial : UInt32 := 0xEDB88320

/-- One bit of the checksum. -/
def crcShift (crc : UInt32) : UInt32 :=
  let mask := -(crc &&& 1)
  (crc >>> 1) ^^^ (crcPolynomial &&& mask)

/-- One byte of the checksum. -/
def crcByte (crc : UInt32) (byte : UInt8) : UInt32 := crcShift^[8] (crc ^^^ byte.toUInt32)

/-- The checksum of bytes. -/
def crc32 (data : List UInt8) : UInt32 := ~~~data.foldl crcByte 0xFFFFFFFF

-- the checksum of the nine digits
example : crc32 [49, 50, 51, 52, 53, 54, 55, 56, 57] = 0xCBF43926 := by decide +kernel

/-- The bits of a byte, the lowest first: the order in which the checksum takes them. -/
def byteBits (byte : UInt8) : List Bool :=
  (List.range 8).map fun i => byte.toBitVec.getLsbD i

/-- The bits of bytes. -/
def bits (bytes : List UInt8) : List Bool := bytes.flatMap byteBits

@[simp] theorem length_byteBits (byte : UInt8) : (byteBits byte).length = 8 := rfl

@[simp] theorem bits_append (a b : List UInt8) : bits (a ++ b) = bits a ++ bits b :=
  List.flatMap_append

theorem bits_cons (byte : UInt8) (bytes : List UInt8) :
    bits (byte :: bytes) = byteBits byte ++ bits bytes :=
  List.flatMap_cons

theorem length_bits (bytes : List UInt8) : (bits bytes).length = 8 * bytes.length := by
  induction bytes with
  | nil => rfl
  | cons byte bytes ih =>
    rw [bits_cons, List.length_append, length_byteBits, List.length_cons, ih]
    ring

/-- A shift of the checksum is one of the register. -/
theorem toBitVec_crcShift (crc : UInt32) :
    (crcShift crc).toBitVec = shift crcPolynomial.toBitVec crc.toBitVec := by
  have hlow : crc.toBitVec &&& 1#32
      = BitVec.setWidth 32 (BitVec.ofBool (crc.toBitVec.getLsbD 0)) :=
    BitVec.and_one_eq_setWidth_ofBool_getLsbD
  have hmask : (crcShift crc).toBitVec
      = (crc.toBitVec >>> 1) ^^^ (crcPolynomial.toBitVec &&& -(crc.toBitVec &&& 1#32)) := rfl
  rw [hmask, hlow, shift]
  cases crc.toBitVec.getLsbD 0 with
  | false => simp
  | true => simp [crcPolynomial]

theorem getD_byteBits (byte : UInt8) {i : ℕ} (hi : i < 8) :
    (byteBits byte).getD i false = byte.toNat.testBit i := by
  rw [byteBits, List.getD_eq_getElem _ _ (by simpa using hi), List.getElem_map,
    List.getElem_range]
  rfl

/-- A bit of bytes is one of its byte. -/
theorem getD_bits (bytes : List UInt8) (i : ℕ) :
    (bits bytes).getD i false = (bytes.getD (i / 8) 0).toNat.testBit (i % 8) := by
  induction bytes generalizing i with
  | nil => simp [bits]
  | cons byte bytes ih =>
    rw [bits_cons]
    by_cases hi : i < 8
    · rw [List.getD_append _ _ _ _ (by simpa using hi), getD_byteBits byte hi,
        Nat.div_eq_of_lt hi, Nat.mod_eq_of_lt hi, List.getD_cons_zero]
    · obtain ⟨j, rfl⟩ := Nat.exists_eq_add_of_le (not_lt.1 hi)
      rw [List.getD_append_right _ _ _ _ (by simp), length_byteBits, Nat.add_sub_cancel_left,
        ih j, Nat.add_div_left j (by decide), Nat.add_mod_left, List.getD_cons_succ]

theorem word_byteBits (byte : UInt8) : word 32 (byteBits byte) = byte.toUInt32.toBitVec := by
  apply BitVec.eq_of_getLsbD_eq
  intro i hi
  have hbyte : byte.toUInt32.toBitVec = byte.toBitVec.setWidth 32 := rfl
  rw [getLsbD_word 32 _ hi, hbyte, BitVec.getLsbD_setWidth]
  by_cases hlow : i < 8
  · rw [getD_byteBits byte hlow, decide_eq_true hi, Bool.true_and]
    rfl
  · rw [List.getD_eq_default _ _ (by simpa using hlow),
      BitVec.getLsbD_of_ge _ _ (not_lt.1 hlow), Bool.and_false]

/-- The bytes of a word, taken in as bits, are the word. -/
theorem word_toLeBytes32 (x : UInt32) : word 32 (bits (toLeBytes32 x)) = x.toBitVec := by
  apply BitVec.eq_of_getLsbD_eq
  intro i hi
  have hbit : x.toBitVec.getLsbD i = x.toNat.testBit i := rfl
  have hquot : i / 8 = 0 ∨ i / 8 = 1 ∨ i / 8 = 2 ∨ i / 8 = 3 := by omega
  have hmod : i % 8 < 8 := Nat.mod_lt i (by decide)
  have hbyte (k : ℕ) (hk : i / 8 = k) :
      (UInt8.ofNat (x.toNat / 2 ^ (8 * k))).toNat.testBit (i % 8) = x.toNat.testBit i := by
    rw [UInt8.toNat_ofNat', Nat.testBit_mod_two_pow, decide_eq_true hmod, Bool.true_and,
      Nat.testBit_div_two_pow]
    congr 1
    omega
  rw [getLsbD_word 32 _ hi, getD_bits, hbit]
  rcases hquot with h | h | h | h
  · simpa [h, toLeBytes32] using hbyte 0 h
  · simpa [h, toLeBytes32] using hbyte 1 h
  · simpa [h, toLeBytes32] using hbyte 2 h
  · simpa [h, toLeBytes32] using hbyte 3 h

/-- The checksum of bytes is what the register holds after their bits. -/
theorem toBitVec_foldl_crcByte (crc : UInt32) (data : List UInt8) :
    (data.foldl crcByte crc).toBitVec
      = feed crcPolynomial.toBitVec crc.toBitVec (bits data) := by
  have hshifts (n : ℕ) (crc : UInt32) :
      (crcShift^[n] crc).toBitVec = (shift crcPolynomial.toBitVec)^[n] crc.toBitVec := by
    induction n generalizing crc with
    | zero => rfl
    | succ n ih =>
      rw [Function.iterate_succ_apply, ih, toBitVec_crcShift, Function.iterate_succ_apply]
  induction data generalizing crc with
  | nil => rfl
  | cons byte data ih =>
    rw [List.foldl_cons, ih, bits_cons, feed_append,
      feed_eq _ _ (show (byteBits byte).length ≤ 32 by rw [length_byteBits]; decide),
      word_byteBits, length_byteBits, crcByte, hshifts]
    rfl

/-- Bytes with their checksum leave the register the same, whatever they are. -/
theorem feed_checked (data : List UInt8) :
    feed crcPolynomial.toBitVec (0xFFFFFFFF : UInt32).toBitVec
        (bits (data ++ toLeBytes32 (crc32 data)))
      = (shift crcPolynomial.toBitVec)^[32] (BitVec.allOnes 32) := by
  have hcrc : (crc32 data).toBitVec
      = ~~~(data.foldl crcByte 0xFFFFFFFF).toBitVec := rfl
  have hlen : (bits (toLeBytes32 (crc32 data))).length = 32 := by
    rw [length_bits, length_toLeBytes32]
  rw [bits_append, feed_append, feed_eq _ _ hlen.le, hlen, word_toLeBytes32, hcrc,
    ← toBitVec_foldl_crcByte]
  congr 1
  apply BitVec.eq_of_getLsbD_eq
  intro i hi
  rw [BitVec.getLsbD_xor, BitVec.getLsbD_not, decide_eq_true hi, Bool.true_and,
    BitVec.getLsbD_allOnes, decide_eq_true hi, Bool.xor_not_self]

/-! ## Frames -/

/-- The bytes of a frame that are not payload. -/
def frameOverhead : ℕ := 11

/-- Where the payload begins. -/
def headerLen : ℕ := 7

/-- The longest payload: its length is a half word. -/
def maxPayloadLen : ℕ := 65535

/-- Write a frame, with what appends the payload. -/
def frame {capacity : ℕ} (magic : UInt32) (version : UInt8) (payloadLen : ℕ)
    (out : ByteVec capacity)
    (encodePayload : ByteVec capacity → Except CodecError (ByteVec capacity)) :
    Except CodecError (ByteVec capacity) :=
  if payloadLen > maxPayloadLen then .error .badLength
  else do
    let out ← out.clear.pushSlice (toLeBytes32 magic)
    let out ← out.pushByte version
    let out ← out.pushSlice (toLeBytes16 (UInt16.ofNat payloadLen))
    let out ← encodePayload out
    out.pushSlice (toLeBytes32 (crc32 out.bytes))

/-- A byte, where the length has been looked at. -/
def byteAt (bytes : List UInt8) (i : ℕ) : UInt8 := bytes.getD i 0

/-- The word at a place. -/
def wordAt (bytes : List UInt8) (i : ℕ) : UInt32 :=
  fromLeBytes32 (byteAt bytes i) (byteAt bytes (i + 1)) (byteAt bytes (i + 2))
    (byteAt bytes (i + 3))

/-- The length that a header gives for the payload. -/
def payloadLenOf (bytes : List UInt8) : ℕ :=
  (fromLeBytes16 (byteAt bytes 5) (byteAt bytes 6)).toNat

/-- Check a frame, and take the payload out. -/
def unframe (magic : UInt32) (version : UInt8) (frameBytes : List UInt8) :
    Except CodecError (List UInt8) :=
  if frameBytes.length < frameOverhead then .error .badLength
  else if wordAt frameBytes 0 ≠ magic then .error .badMagic
  else if byteAt frameBytes 4 ≠ version then .error .badVersion
  else
    let payloadEnd := headerLen + payloadLenOf frameBytes
    if frameBytes.length ≠ payloadEnd + 4 then .error .badLength
    else if crc32 (frameBytes.take payloadEnd) ≠ wordAt frameBytes payloadEnd then .error .badCrc
    else .ok ((frameBytes.take payloadEnd).drop headerLen)

/-- How much of a frame there is. -/
inductive FrameProgress
  | needMore
  | badHeader
  /-- The frame is of so many bytes. -/
  | total (bytes : ℕ)
  deriving DecidableEq, Repr

/-- How much of a frame its first bytes are. -/
def frameProgress (magic : UInt32) (version : UInt8) (frameMaxLen : ℕ) (buf : List UInt8) :
    FrameProgress :=
  if buf.length < headerLen then .needMore
  else if wordAt buf 0 ≠ magic ∨ byteAt buf 4 ≠ version then .badHeader
  else
    let total := headerLen + payloadLenOf buf + 4
    if total > frameMaxLen then .badHeader else .total total

/-- What is before the payload. -/
def header (magic : UInt32) (version : UInt8) (payloadLen : ℕ) : List UInt8 :=
  toLeBytes32 magic ++ version :: toLeBytes16 (UInt16.ofNat payloadLen)

/-- A frame, byte for byte. -/
def framed (magic : UInt32) (version : UInt8) (payload : List UInt8) : List UInt8 :=
  header magic version payload.length ++ payload
    ++ toLeBytes32 (crc32 (header magic version payload.length ++ payload))

section

variable {magic : UInt32} {version : UInt8} {payload bytes : List UInt8}

@[simp] theorem length_header (magic : UInt32) (version : UInt8) (n : ℕ) :
    (header magic version n).length = headerLen := rfl

@[simp] theorem length_framed (magic : UInt32) (version : UInt8) (payload : List UInt8) :
    (framed magic version payload).length = payload.length + frameOverhead := by
  rw [framed, List.length_append, List.length_append, length_header, length_toLeBytes32]
  unfold headerLen frameOverhead
  omega

/-- What appends the payload does so, where there is room. -/
def Appends {capacity : ℕ} (encodePayload : ByteVec capacity → Except CodecError (ByteVec capacity))
    (payload : List UInt8) : Prop :=
  ∀ (out : ByteVec capacity) (h : (out.bytes ++ payload).length ≤ capacity),
    encodePayload out = .ok ⟨out.bytes ++ payload, h⟩

/-- Bytes that are appended as they are. -/
theorem appends_pushSlice (capacity : ℕ) (payload : List UInt8) :
    Appends (fun out : ByteVec capacity => out.pushSlice payload) payload :=
  fun out h => out.pushSlice_eq_ok h

/-- The frame that is written. -/
theorem frame_eq_ok {capacity : ℕ} (magic : UInt32) (version : UInt8) (out : ByteVec capacity)
    {encodePayload : ByteVec capacity → Except CodecError (ByteVec capacity)}
    (hencode : Appends encodePayload payload) (hlen : payload.length ≤ maxPayloadLen)
    (hcap : (framed magic version payload).length ≤ capacity) :
    frame magic version payload.length out encodePayload
      = .ok ⟨framed magic version payload, hcap⟩ := by
  have hroom : payload.length + 11 ≤ capacity := by rwa [length_framed] at hcap
  have hmagic : (out.clear.bytes ++ toLeBytes32 magic).length ≤ capacity := by
    rw [List.length_append, length_toLeBytes32]
    exact (show 0 + 4 ≤ capacity by omega)
  have hversion : (out.clear.bytes ++ toLeBytes32 magic ++ [version]).length ≤ capacity := by
    exact (show 5 ≤ capacity by omega)
  have hlength : (out.clear.bytes ++ toLeBytes32 magic ++ [version]
      ++ toLeBytes16 (UInt16.ofNat payload.length)).length ≤ capacity := by
    exact (show 7 ≤ capacity by omega)
  have hpayload : (header magic version payload.length ++ payload).length ≤ capacity := by
    rw [List.length_append, length_header, headerLen]
    omega
  rw [frame, if_neg (not_lt.2 hlen), ByteVec.pushSlice_bind _ hmagic, ByteVec.pushByte,
    ByteVec.pushSlice_bind _ hversion, ByteVec.pushSlice_bind _ hlength]
  have hheader : out.clear.bytes ++ toLeBytes32 magic ++ [version]
      ++ toLeBytes16 (UInt16.ofNat payload.length) = header magic version payload.length := rfl
  simp only [hheader]
  rw [hencode _ hpayload]
  exact ByteVec.pushSlice_eq_ok _ hcap

/-! ## What a header says -/

theorem wordAt_header (magic : UInt32) (version : UInt8) (n : ℕ) (rest : List UInt8) :
    wordAt (header magic version n ++ rest) 0 = magic :=
  fromLeBytes32_toLeBytes32 magic

theorem byteAt_header (magic : UInt32) (version : UInt8) (n : ℕ) (rest : List UInt8) :
    byteAt (header magic version n ++ rest) 4 = version :=
  rfl

theorem payloadLenOf_header (magic : UInt32) (version : UInt8) {n : ℕ} (hn : n ≤ maxPayloadLen)
    (rest : List UInt8) : payloadLenOf (header magic version n ++ rest) = n := by
  have hlength : payloadLenOf (header magic version n ++ rest) = (UInt16.ofNat n).toNat :=
    congrArg UInt16.toNat (fromLeBytes16_toLeBytes16 (UInt16.ofNat n))
  rw [hlength]
  exact UInt16.toNat_ofNat_of_lt' (Nat.lt_succ_of_le hn)

/-- A header, from the bytes that it is read from. -/
theorem eq_header (bytes : List UInt8) (hlen : headerLen ≤ bytes.length) :
    bytes = header (wordAt bytes 0) (byteAt bytes 4) (payloadLenOf bytes)
      ++ bytes.drop headerLen := by
  match bytes, hlen with
  | m₀ :: m₁ :: m₂ :: m₃ :: v :: l₀ :: l₁ :: rest, _ =>
    have hmagic : toLeBytes32 (wordAt (m₀ :: m₁ :: m₂ :: m₃ :: v :: l₀ :: l₁ :: rest) 0)
        = [m₀, m₁, m₂, m₃] := toLeBytes32_fromLeBytes32 m₀ m₁ m₂ m₃
    have hlength : toLeBytes16 (UInt16.ofNat
        (payloadLenOf (m₀ :: m₁ :: m₂ :: m₃ :: v :: l₀ :: l₁ :: rest))) = [l₀, l₁] := by
      rw [payloadLenOf, UInt16.ofNat_toNat]
      exact toLeBytes16_fromLeBytes16 l₀ l₁
    rw [header, hmagic, hlength]
    rfl

theorem payloadLenOf_le (bytes : List UInt8) : payloadLenOf bytes ≤ maxPayloadLen :=
  Nat.le_of_lt_succ (UInt16.toNat_lt _)

/-- **What becomes of bytes with the right header and of the right length**: the checksum
decides. -/
theorem unframe_header (hlen : payload.length ≤ maxPayloadLen) (a b c d : UInt8) :
    unframe magic version (header magic version payload.length ++ payload ++ [a, b, c, d])
      = if crc32 (header magic version payload.length ++ payload) = fromLeBytes32 a b c d
        then .ok payload else .error .badCrc := by
  set checked := header magic version payload.length ++ payload with hchecked
  have hlength : checked.length = headerLen + payload.length := by
    rw [hchecked, List.length_append, length_header]
  have htotal : (checked ++ [a, b, c, d]).length = headerLen + payload.length + 4 := by
    rw [List.length_append, hlength]
    rfl
  have hshort : ¬(checked ++ [a, b, c, d]).length < frameOverhead := by
    rw [htotal, headerLen, frameOverhead]
    omega
  have hassoc : checked ++ [a, b, c, d]
      = header magic version payload.length ++ (payload ++ [a, b, c, d]) :=
    List.append_assoc _ _ _
  have hmagic : wordAt (checked ++ [a, b, c, d]) 0 = magic := by
    rw [hassoc, wordAt_header]
  have hversion : byteAt (checked ++ [a, b, c, d]) 4 = version := by
    rw [hassoc, byteAt_header]
  have hpayload : payloadLenOf (checked ++ [a, b, c, d]) = payload.length := by
    rw [hassoc, payloadLenOf_header magic version hlen]
  have hbyte (i : ℕ) : byteAt (checked ++ [a, b, c, d]) (headerLen + payload.length + i)
      = [a, b, c, d].getD i 0 := by
    rw [← hlength, byteAt, List.getD_append_right _ _ _ _ (Nat.le_add_right _ i),
      Nat.add_sub_cancel_left]
  have hcrc : wordAt (checked ++ [a, b, c, d]) (headerLen + payload.length)
      = fromLeBytes32 a b c d := by
    rw [wordAt, hbyte 1, hbyte 2, hbyte 3]
    exact congrArg (fromLeBytes32 · b c d) (hbyte 0)
  have htake : (checked ++ [a, b, c, d]).take (headerLen + payload.length) = checked :=
    List.take_left' hlength
  have hdrop : checked.drop headerLen = payload := List.drop_left' (length_header _ _ _)
  unfold unframe
  rw [if_neg hshort, if_neg (not_not.2 hmagic), if_neg (not_not.2 hversion), hpayload]
  dsimp only
  rw [if_neg (not_not.2 htotal), htake, hcrc, hdrop, ite_not]

/-- A frame that is read has the right header and is of the right length. -/
theorem length_of_unframe (h : unframe magic version bytes = .ok payload) :
    wordAt bytes 0 = magic ∧ byteAt bytes 4 = version
      ∧ bytes.length = headerLen + payloadLenOf bytes + 4 := by
  unfold unframe at h
  dsimp only at h
  split_ifs at h with hshort hmagic hversion hlength hcrc
  exact ⟨not_not.1 hmagic, not_not.1 hversion, not_not.1 hlength⟩

/-- **What is read is what is written**: a reader takes a frame and nothing else. -/
theorem unframe_eq_ok_iff : unframe magic version bytes = .ok payload
    ↔ payload.length ≤ maxPayloadLen ∧ bytes = framed magic version payload := by
  constructor
  · intro h
    obtain ⟨hmagic, hversion, hlength⟩ := length_of_unframe h
    have hheader := eq_header bytes (by rw [hlength]; omega)
    rw [hmagic, hversion] at hheader
    -- the payload and the checksum, as they lie behind the header
    set n := payloadLenOf bytes with hn
    have hle : n ≤ maxPayloadLen := payloadLenOf_le bytes
    set rest := bytes.drop headerLen with hrest
    have hrestlen : rest.length = n + 4 := by
      rw [hrest, List.length_drop, hlength]
      omega
    obtain ⟨a, b, c, d, htail⟩ : ∃ a b c d, rest.drop n = [a, b, c, d] := by
      have hfour : (rest.drop n).length = 4 := by
        rw [List.length_drop, hrestlen]
        omega
      match rest.drop n, hfour with
      | [a, b, c, d], _ => exact ⟨a, b, c, d, rfl⟩
    have htake : (rest.take n).length = n := List.length_take_of_le (by omega)
    have hbytes : bytes = header magic version (rest.take n).length ++ rest.take n
        ++ [a, b, c, d] := by
      rw [htake, List.append_assoc, ← htail, List.take_append_drop]
      exact hheader
    rw [hbytes, unframe_header (by rw [htake]; exact hle)] at h
    split at h
    · obtain rfl : rest.take n = payload := Except.ok.inj h
      refine ⟨by rw [htake]; exact hle, ?_⟩
      rw [framed, ‹crc32 _ = _›, toLeBytes32_fromLeBytes32]
      exact hbytes
    · cases h
  · rintro ⟨hlen, rfl⟩
    rw [framed, toLeBytes32, unframe_header hlen, if_pos (fromLeBytes32_toLeBytes32 _).symm]

/-! ## Parts of a frame -/

/-- The first bytes of a frame, from its header on. -/
theorem take_framed (magic : UInt32) (version : UInt8) (payload : List UInt8) {n : ℕ}
    (hn : headerLen ≤ n) :
    (framed magic version payload).take n = header magic version payload.length
      ++ (payload ++ toLeBytes32 (crc32 (header magic version payload.length ++ payload))).take
        (n - headerLen) := by
  rw [framed, List.append_assoc, List.take_append, length_header,
    List.take_of_length_le (by rwa [length_header])]

/-- **The length of a frame is known from its header on**, and not before. -/
theorem frameProgress_take (magic : UInt32) (version : UInt8) {frameMaxLen : ℕ}
    (hlen : payload.length ≤ maxPayloadLen)
    (hmax : (framed magic version payload).length ≤ frameMaxLen) {n : ℕ}
    (hn : n ≤ (framed magic version payload).length) :
    frameProgress magic version frameMaxLen ((framed magic version payload).take n)
      = if n < headerLen then .needMore else .total (framed magic version payload).length := by
  have htake : ((framed magic version payload).take n).length = n := List.length_take_of_le hn
  unfold frameProgress
  rw [htake]
  by_cases hshort : n < headerLen
  · rw [if_pos hshort, if_pos hshort]
  · have htotal : headerLen + payload.length + 4 = (framed magic version payload).length := by
      rw [length_framed, headerLen, frameOverhead]
      omega
    rw [if_neg hshort, if_neg hshort, take_framed magic version payload (not_lt.1 hshort),
      wordAt_header, byteAt_header, payloadLenOf_header magic version hlen, if_neg (by simp)]
    dsimp only
    rw [htotal, if_neg (not_lt.2 hmax)]

/-- A part of a frame is not read. -/
theorem unframe_take (magic : UInt32) (version : UInt8) (hlen : payload.length ≤ maxPayloadLen)
    {n : ℕ} (hn : n < (framed magic version payload).length) :
    ∃ e, unframe magic version ((framed magic version payload).take n) = .error e := by
  cases hread : unframe magic version ((framed magic version payload).take n) with
  | error e => exact ⟨e, rfl⟩
  | ok other =>
    have hlength := (length_of_unframe hread).2.2
    rw [List.length_take_of_le hn.le] at hlength
    rw [take_framed magic version payload (by omega),
      payloadLenOf_header magic version hlen] at hlength
    rw [length_framed, frameOverhead] at hn
    rw [headerLen] at hlength
    omega

/-! ## Flipped bits -/

/-- Some bits have been flipped, all of them within as many in a row as the checksum is long. -/
structure Burst (sent received : List UInt8) : Prop where
  /-- No byte is lost. -/
  length_eq : received.length = sent.length
  /-- Some bit is flipped. -/
  ne : received ≠ sent
  /-- The flipped bits are near each other. -/
  confined : ∃ start, ∀ i, (bits received)[i]? ≠ (bits sent)[i]? → start ≤ i ∧ i < start + 32

theorem byteBits_injective : Function.Injective byteBits := by
  intro a b h
  have hword : a.toUInt32.toBitVec = b.toUInt32.toBitVec := by
    rw [← word_byteBits, ← word_byteBits, h]
  have hnat := congrArg BitVec.toNat hword
  exact UInt8.toNat_inj.1 hnat

theorem bits_injective {a b : List UInt8} (hlen : a.length = b.length) (h : bits a = bits b) :
    a = b := by
  induction a generalizing b with
  | nil => exact (List.length_eq_zero_iff.1 hlen.symm).symm
  | cons x a ih =>
    cases b with
    | nil => exact absurd hlen (Nat.succ_ne_zero _)
    | cons y b =>
      rw [bits_cons, bits_cons] at h
      obtain ⟨hbyte, hrest⟩ := List.append_inj h rfl
      rw [byteBits_injective hbyte, ih (Nat.succ_injective hlen) hrest]

/-- Frames of one length leave the register the same. -/
theorem feed_framed (magic : UInt32) (version : UInt8) (payload : List UInt8) :
    feed crcPolynomial.toBitVec (0xFFFFFFFF : UInt32).toBitVec
        (bits (framed magic version payload))
      = (shift crcPolynomial.toBitVec)^[32] (BitVec.allOnes 32) :=
  feed_checked _

theorem msb_crcPolynomial : crcPolynomial.toBitVec.msb = true := by decide

/-- **A burst of flipped bits is found.** -/
theorem unframe_burst {received : List UInt8} (h : Burst (framed magic version payload) received) :
    ∃ e, unframe magic version received = .error e := by
  cases hread : unframe magic version received with
  | error e => exact ⟨e, rfl⟩
  | ok other =>
    have hreceived := (unframe_eq_ok_iff.1 hread).2
    have hsame : feed crcPolynomial.toBitVec (0xFFFFFFFF : UInt32).toBitVec (bits received)
        = feed crcPolynomial.toBitVec (0xFFFFFFFF : UInt32).toBitVec
          (bits (framed magic version payload)) := by
      rw [hreceived, feed_framed, feed_framed]
    obtain ⟨start, hconfined⟩ := h.confined
    have hbits := eq_of_feed_eq msb_crcPolynomial
      (by rw [length_bits, length_bits, h.length_eq]) hconfined hsame
    exact absurd (bits_injective h.length_eq hbits) h.ne

/-! ### The highest bit first -/

/-- The bits of bytes, of each byte the highest first. -/
def bitsDown (bytes : List UInt8) : List Bool := bytes.flatMap fun byte => (byteBits byte).reverse

/-- The place of a bit when the bits of its byte are reversed. -/
def mirrored (i : ℕ) : ℕ := 8 * (i / 8) + (7 - i % 8)

/-- A run of bits has been flipped, of each byte the highest first. -/
structure Run (sent received : List UInt8) (start n : ℕ) : Prop where
  /-- No byte is lost. -/
  length_eq : received.length = sent.length
  /-- The run is not empty. -/
  pos : 0 < n
  /-- The run is no longer than the checksum. -/
  le : n ≤ 32
  /-- It is a run of the bits that were sent. -/
  within : start + n ≤ 8 * sent.length
  /-- All bits of it are flipped, and no others. -/
  flips : ∀ i < 8 * sent.length, (bitsDown received).getD i false
    = ((bitsDown sent).getD i false ^^ decide (start ≤ i ∧ i < start + n))

theorem getD_bitsDown (bytes : List UInt8) (i : ℕ) :
    (bitsDown bytes).getD i false = (bits bytes).getD (mirrored i) false := by
  induction bytes generalizing i with
  | nil => simp [bits, bitsDown]
  | cons byte bytes ih =>
    rw [bits_cons, bitsDown, List.flatMap_cons]
    by_cases hi : i < 8
    · have hmirror : mirrored i = 7 - i := by
        rw [mirrored]
        omega
      have hlen : i < (byteBits byte).reverse.length := by simpa using hi
      rw [List.getD_append _ _ _ _ hlen, hmirror,
        List.getD_append _ _ _ _ (by rw [length_byteBits]; omega),
        List.getD_eq_getElem _ _ hlen, List.getElem_reverse,
        List.getD_eq_getElem _ _ (by rw [length_byteBits]; omega)]
      rfl
    · obtain ⟨j, rfl⟩ := Nat.exists_eq_add_of_le (not_lt.1 hi)
      have hmirror : mirrored (8 + j) = 8 + mirrored j := by
        rw [mirrored, mirrored]
        omega
      rw [List.getD_append_right _ _ _ _ (by simp), hmirror,
        List.getD_append_right _ _ _ _ (by simp), List.length_reverse, length_byteBits,
        Nat.add_sub_cancel_left, Nat.add_sub_cancel_left, ← bitsDown, ih j]

/-- The bits of a run, as the checksum takes them. -/
def runBits (start n m : ℕ) : List Bool :=
  (List.range m).map fun j => decide (start ≤ mirrored j ∧ mirrored j < start + n)

/-- No run leaves the register empty, wherever in a byte it begins. -/
theorem feed_runBits_ne : ∀ s < 8, ∀ n < 33, 0 < n →
    feed crcPolynomial.toBitVec 0#32 (runBits s n (8 * ((s + n + 7) / 8))) ≠ 0#32 := by
  decide +kernel

theorem length_runBits (start n m : ℕ) : (runBits start n m).length = m := by
  rw [runBits, List.length_map, List.length_range]

/-- A run, and the clear bits about it. -/
theorem runBits_eq {start n rest : ℕ} :
    runBits start n (8 * (start / 8) + (8 * ((start % 8 + n + 7) / 8) + rest))
      = List.replicate (8 * (start / 8)) false
        ++ (runBits (start % 8) n (8 * ((start % 8 + n + 7) / 8)) ++ List.replicate rest false) := by
  have hmirror (i : ℕ) : i / 8 * 8 ≤ mirrored i ∧ mirrored i < i / 8 * 8 + 8 := by
    rw [mirrored]
    omega
  have hbefore : (List.range (8 * (start / 8))).map
      (fun j => decide (start ≤ mirrored j ∧ mirrored j < start + n))
        = List.replicate (8 * (start / 8)) false := by
    rw [List.eq_replicate_iff, List.length_map, List.length_range]
    refine ⟨rfl, fun b hb => ?_⟩
    obtain ⟨j, hj, rfl⟩ := List.mem_map.1 hb
    have hlt := List.mem_range.1 hj
    have hnear := hmirror j
    exact decide_eq_false (by omega)
  have hbehind : (List.range rest).map (((fun j => decide (start ≤ mirrored j
      ∧ mirrored j < start + n)) ∘ (8 * (start / 8) + ·)) ∘ (8 * ((start % 8 + n + 7) / 8) + ·))
        = List.replicate rest false := by
    rw [List.eq_replicate_iff, List.length_map, List.length_range]
    refine ⟨rfl, fun b hb => ?_⟩
    obtain ⟨j, -, rfl⟩ := List.mem_map.1 hb
    have hnear := hmirror (8 * (start / 8) + (8 * ((start % 8 + n + 7) / 8) + j))
    exact decide_eq_false (by dsimp only [Function.comp_apply]; omega)
  have hrun : ((fun j => decide (start ≤ mirrored j ∧ mirrored j < start + n))
      ∘ (8 * (start / 8) + ·))
        = fun j => decide (start % 8 ≤ mirrored j ∧ mirrored j < start % 8 + n) := by
    funext j
    have hmove : mirrored (8 * (start / 8) + j) = 8 * (start / 8) + mirrored j := by
      rw [mirrored, mirrored]
      omega
    dsimp only [Function.comp_apply]
    rw [hmove, decide_eq_decide]
    omega
  rw [runBits, List.range_add, List.map_append, hbefore, List.range_add, List.map_append,
    List.map_append, List.map_map, List.map_map, List.map_map, hbehind, hrun]
  rfl

/-- A run of flipped bits is a sum. -/
theorem bits_of_run {sent received : List UInt8} {start n : ℕ} (h : Run sent received start n) :
    bits received
      = List.zipWith xor (bits sent) (runBits start n (8 * sent.length)) := by
  apply List.ext_getElem
  · rw [List.length_zipWith, length_bits, length_bits, length_runBits, h.length_eq, Nat.min_self]
  · intro i hi hi'
    have hlt : i < 8 * sent.length := by rwa [length_bits, h.length_eq] at hi
    have hmirror : mirrored i < 8 * sent.length := by
      rw [mirrored]
      omega
    have hback : mirrored (mirrored i) = i := by
      rw [mirrored, mirrored]
      omega
    have hflip := h.flips (mirrored i) hmirror
    rw [getD_bitsDown, getD_bitsDown, hback, List.getD_eq_getElem _ _ hi,
      List.getD_eq_getElem _ _ (by rwa [length_bits])] at hflip
    rw [hflip, List.getElem_zipWith]
    congr 1
    simp only [runBits, List.getElem_map, List.getElem_range]

/-- **A run of flipped bits is found**, where the highest bit of a byte comes first. -/
theorem unframe_run {received : List UInt8} {start n : ℕ}
    (h : Run (framed magic version payload) received start n) :
    ∃ e, unframe magic version received = .error e := by
  cases hread : unframe magic version received with
  | error e => exact ⟨e, rfl⟩
  | ok other =>
    have hreceived := (unframe_eq_ok_iff.1 hread).2
    set sent := framed magic version payload with hsent
    set register : BitVec 32 := (0xFFFFFFFF : UInt32).toBitVec with hregister
    have hsame : feed crcPolynomial.toBitVec register (bits received)
        = feed crcPolynomial.toBitVec register (bits sent) := by
      rw [hreceived, feed_framed, feed_framed]
    have hsum : feed crcPolynomial.toBitVec (register ^^^ 0#32) (bits received)
        = feed crcPolynomial.toBitVec register (bits sent)
          ^^^ feed crcPolynomial.toBitVec 0#32 (runBits start n (8 * sent.length)) := by
      rw [bits_of_run h]
      exact feed_xor _ _ _ (by rw [length_bits, length_runBits])
    rw [BitVec.xor_zero, hsame] at hsum
    have hzero : feed crcPolynomial.toBitVec 0#32 (runBits start n (8 * sent.length)) = 0#32 := by
      rw [← BitVec.xor_right_inj, ← hsum, BitVec.xor_zero]
    obtain ⟨rest, hrest⟩ : ∃ rest, 8 * sent.length
        = 8 * (start / 8) + (8 * ((start % 8 + n + 7) / 8) + rest) := by
      have hwithin := h.within
      exact ⟨8 * sent.length - (8 * (start / 8) + 8 * ((start % 8 + n + 7) / 8)), by omega⟩
    rw [hrest, runBits_eq, feed_append, feed_replicate_false, feed_append] at hzero
    have hrun : feed crcPolynomial.toBitVec 0#32
        (runBits (start % 8) n (8 * ((start % 8 + n + 7) / 8))) = 0#32 := by
      refine feed_injective msb_crcPolynomial (List.replicate rest false) ?_
      exact hzero.trans (feed_replicate_false _ rest).symm
    exact absurd hrun (feed_runBits_ne _ (Nat.mod_lt _ (by decide)) n (Nat.lt_succ_of_le h.le) h.pos)

/-! ## A frame of a payload -/

/-- What is asked of the frame of a payload. -/
structure SoundFrame (magic : UInt32) (version : UInt8) (frameMaxLen : ℕ)
    (payload bytes : List UInt8) : Prop where
  /-- The payload is read back. -/
  reads : unframe magic version bytes = .ok payload
  /-- Its first bytes tell how long it is from the header on, and nothing before. -/
  progress : ∀ n ≤ bytes.length, frameProgress magic version frameMaxLen (bytes.take n)
    = if n < headerLen then .needMore else .total bytes.length
  /-- A part of it is not read. -/
  truncated : ∀ n < bytes.length, ∃ e, unframe magic version (bytes.take n) = .error e
  /-- Nor is it with bits flipped that are near each other. -/
  burst : ∀ received, Burst bytes received → ∃ e, unframe magic version received = .error e
  /-- Nor with a run of bits flipped, where the highest bit of a byte comes first. -/
  run : ∀ received start n, Run bytes received start n →
    ∃ e, unframe magic version received = .error e

/-- **The frame of a payload** that fits is written, and is sound. -/
theorem frame_sound {capacity frameMaxLen : ℕ} (magic : UInt32) (version : UInt8)
    (out : ByteVec capacity)
    {encodePayload : ByteVec capacity → Except CodecError (ByteVec capacity)}
    (hencode : Appends encodePayload payload) (hlen : payload.length ≤ maxPayloadLen)
    (hcap : payload.length + frameOverhead ≤ capacity)
    (hmax : payload.length + frameOverhead ≤ frameMaxLen) :
    ∃ written, frame magic version payload.length out encodePayload = .ok written
      ∧ SoundFrame magic version frameMaxLen payload written.bytes := by
  have hwritten := length_framed magic version payload
  refine ⟨_, frame_eq_ok magic version out hencode hlen (hwritten.trans_le hcap), ?_⟩
  exact
    { reads := unframe_eq_ok_iff.2 ⟨hlen, rfl⟩
      progress := fun n hn => frameProgress_take magic version hlen (hwritten.trans_le hmax) hn
      truncated := fun n hn => unframe_take magic version hlen hn
      burst := fun received h => unframe_burst h
      run := fun received start n h => unframe_run h }

/-- A payload of three bytes. -/
theorem frame_sound_threeBytes : ∃ written,
    frame 0x12345678 1 3 (ByteVec.empty 64) (·.pushSlice [0xAA, 0xBB, 0xCC]) = .ok written
      ∧ SoundFrame 0x12345678 1 64 [0xAA, 0xBB, 0xCC] written.bytes :=
  frame_sound 0x12345678 1 (ByteVec.empty 64) (appends_pushSlice 64 [0xAA, 0xBB, 0xCC])
    (by decide) (by decide) (by decide)

end

end Galdr.Storage
