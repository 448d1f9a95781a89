import Galdr.SettingsRecord

/-!
# The upload of the settings

The record of the settings comes over the link as hex text, in chunks, since it is longer than a
line. The receiver puts the chunks together and knows from the header when the record is complete.
How the text is cut makes no difference, as long as no byte is cut: a chunk with half a byte is
refused. What the receiver has answered for good, with the settings or with an error, leaves nothing
behind for the next upload.
-/

namespace Galdr.Storage

/-! ## Hex text -/

/-- A digit of the text. -/
def hexDigit (n : UInt8) : UInt8 := if n < 10 then n + 48 else n + 55

/-- The text of bytes. -/
def hexText (bytes : List UInt8) : List UInt8 :=
  bytes.flatMap fun byte : UInt8 => [hexDigit (byte >>> 4), hexDigit (byte &&& 0x0F)]

/-- The value of a digit. -/
def hexNibble (c : UInt8) : Option UInt8 :=
  if 48 ≤ c ∧ c ≤ 57 then some (c - 48)
  else if 97 ≤ c ∧ c ≤ 102 then some (c - 97 + 10)
  else if 65 ≤ c ∧ c ≤ 70 then some (c - 65 + 10)
  else none

variable {capacity : ℕ}

/-- Append the bytes of digits, two by two. -/
def decodePairs : List UInt8 → ByteVec capacity → Option (ByteVec capacity)
  | c :: d :: rest, out =>
    match hexNibble c, hexNibble d with
    | some high, some low =>
      match out.extend [high <<< 4 ||| low] with
      | some out => decodePairs rest out
      | none => none
    | _, _ => none
  | _, out => some out

/-- Append the bytes of a text. What a text that is refused has left is dropped by the caller. -/
def decodeHex (hex : List UInt8) (out : ByteVec capacity) : Option (ByteVec capacity) :=
  if hex.length % 2 = 0 then decodePairs hex out else none

theorem length_hexText (bytes : List UInt8) : (hexText bytes).length = 2 * bytes.length := by
  induction bytes with
  | nil => rfl
  | cons byte bytes ih =>
    rw [hexText, List.flatMap_cons, List.length_append, ← hexText, ih, List.length_cons]
    exact (Nat.mul_succ 2 bytes.length).symm ▸ Nat.add_comm 2 _

theorem hexText_append (a b : List UInt8) : hexText (a ++ b) = hexText a ++ hexText b :=
  List.flatMap_append

/-- The digits of a byte are read as the byte. -/
theorem hexNibble_hexDigit : ∀ byte : UInt8,
    hexNibble (hexDigit (byte >>> 4)) = some (byte >>> 4)
      ∧ hexNibble (hexDigit (byte &&& 0x0F)) = some (byte &&& 0x0F)
      ∧ (byte >>> 4) <<< 4 ||| (byte &&& 0x0F) = byte := by
  decide +kernel

/-- The text of bytes is read as the bytes, where they fit. -/
theorem decodePairs_hexText (bytes : List UInt8) (out : ByteVec capacity)
    (h : (out.bytes ++ bytes).length ≤ capacity) :
    decodePairs (hexText bytes) out = some ⟨out.bytes ++ bytes, h⟩ := by
  induction bytes generalizing out with
  | nil => simp [hexText, decodePairs]
  | cons byte bytes ih =>
    obtain ⟨hhigh, hlow, hbyte⟩ := hexNibble_hexDigit byte
    have hassoc : out.bytes ++ byte :: bytes = out.bytes ++ [byte] ++ bytes :=
      (List.append_assoc out.bytes [byte] bytes).symm
    have hroom : (out.bytes ++ [byte] ++ bytes).length ≤ capacity := by rwa [← hassoc]
    have hfits : (out.bytes ++ [byte]).length ≤ capacity := by
      rw [List.length_append] at hroom
      omega
    have hextend : out.extend [byte] = some ⟨out.bytes ++ [byte], hfits⟩ := dif_pos hfits
    have htext : hexText (byte :: bytes)
        = hexDigit (byte >>> 4) :: hexDigit (byte &&& 0x0F) :: hexText bytes := rfl
    rw [htext, decodePairs, hhigh, hlow]
    dsimp only
    rw [hbyte, hextend]
    dsimp only
    rw [ih ⟨out.bytes ++ [byte], hfits⟩ hroom]
    simp only [hassoc]

theorem decodeHex_hexText (bytes : List UInt8) (out : ByteVec capacity)
    (h : (out.bytes ++ bytes).length ≤ capacity) :
    decodeHex (hexText bytes) out = some ⟨out.bytes ++ bytes, h⟩ := by
  have heven : (hexText bytes).length % 2 = 0 := by
    rw [length_hexText]
    exact Nat.mul_mod_right 2 _
  rw [decodeHex, if_pos heven, decodePairs_hexText bytes out h]

/-- An even part of a text is the text of a part. -/
theorem hexText_split {bytes chunk rest : List UInt8} (h : chunk ++ rest = hexText bytes)
    (heven : chunk.length % 2 = 0) :
    chunk = hexText (bytes.take (chunk.length / 2))
      ∧ rest = hexText (bytes.drop (chunk.length / 2)) := by
  have hsplit : hexText (bytes.take (chunk.length / 2)) ++ hexText (bytes.drop (chunk.length / 2))
      = hexText bytes := by
    rw [← hexText_append, List.take_append_drop]
  have hlength : chunk.length ≤ 2 * bytes.length := by
    rw [← length_hexText, ← h, List.length_append]
    omega
  have hpart : (hexText (bytes.take (chunk.length / 2))).length = chunk.length := by
    rw [length_hexText, List.length_take_of_le (by omega)]
    omega
  exact List.append_inj (h.trans hsplit.symm) hpart.symm

/-! ## The receiver -/

/-- What a chunk comes to. -/
inductive PbChunkResult
  | needMore
  | complete (settings : Settings)
  | error

/-- The receiver. -/
structure PbReceiver where
  /-- The bytes so far. -/
  buf : ByteVec frameMaxLen

namespace PbReceiver

/-- A receiver that has nothing. -/
def new : PbReceiver := ⟨.empty frameMaxLen⟩

/-- Drop what there is. -/
def reset (_ : PbReceiver) : PbReceiver := new

/-- One chunk. -/
def acceptHex (codec : Codec) (r : PbReceiver) (hex : List UInt8) : PbReceiver × PbChunkResult :=
  match decodeHex hex r.buf with
  | none => (r.reset, .error)
  | some buf =>
    match progress buf.bytes with
    | .needMore => (⟨buf⟩, .needMore)
    | .badHeader => (r.reset, .error)
    | .total total =>
      if buf.bytes.length < total then (⟨buf⟩, .needMore)
      else
        let result :=
          if buf.bytes.length = total then decode codec buf.bytes else .error .badLength
        match result with
        | .ok settings => (r.reset, .complete settings)
        | .error _ => (r.reset, .error)

/-- Chunks, one after the other: the receiver behind them, and the answers. -/
def run (codec : Codec) (r : PbReceiver) : List (List UInt8) → PbReceiver × List PbChunkResult
  | [] => (r, [])
  | chunk :: chunks =>
    let fed := r.acceptHex codec chunk
    let tail := run codec fed.1 chunks
    (tail.1, fed.2 :: tail.2)

/-! ## The upload of a record -/

variable {codec : Codec} {s : Settings} {n : ℕ}

/-- The receiver with the first bytes of a record. -/
def holding (h : codec.RoundTrips (toProto s)) (n : ℕ) : PbReceiver :=
  ⟨⟨(record codec s).take n, (List.length_take_le' n _).trans h.length_record_le⟩⟩

/-- A chunk that is not the last is put to the others, and the last completes the record. -/
theorem acceptHex_holding (h : codec.RoundTrips (toProto s)) {k : ℕ}
    (hk : n + k ≤ (record codec s).length) :
    (holding h n).acceptHex codec (hexText (((record codec s).drop n).take k))
      = if n + k < (record codec s).length then (holding h (n + k), .needMore)
        else (new, .complete s.sanitized) := by
  have hbytes : (record codec s).take n ++ ((record codec s).drop n).take k
      = (record codec s).take (n + k) := List.take_add.symm
  have hlength : ((record codec s).take (n + k)).length = n + k := List.length_take_of_le hk
  have hdecode : decodeHex (hexText (((record codec s).drop n).take k)) (holding h n).buf
      = some (holding h (n + k)).buf := by
    rw [decodeHex_hexText _ _ (by rw [holding, hbytes]; exact (holding h (n + k)).buf.fits)]
    simp only [holding, hbytes]
  have hprogress := progress_take_record h hk
  unfold acceptHex
  rw [hdecode]
  dsimp only [holding]
  rw [hprogress, hlength]
  by_cases hheader : n + k < headerLen
  · have hshort : n + k < (record codec s).length := by
      rw [record, length_framed, frameOverhead]
      rw [headerLen] at hheader
      omega
    rw [if_pos hheader, if_pos hshort]
  · rw [if_neg hheader]
    dsimp only
    by_cases hshort : n + k < (record codec s).length
    · rw [if_pos hshort, if_pos hshort]
    · have hall : n + k = (record codec s).length := le_antisymm hk (not_lt.1 hshort)
      rw [if_neg hshort, if_neg hshort, if_pos hall, hall, List.take_length, decode_record h]
      rfl

/-- The answers to the chunks of a record. -/
def uploaded (s : Settings) (chunks : List (List UInt8)) : List PbChunkResult :=
  List.replicate (chunks.length - 1) .needMore ++ [.complete s.sanitized]

/-- **The record is put together**, from any part of it that has come. -/
theorem run_holding (h : codec.RoundTrips (toProto s)) (hn : n < (record codec s).length)
    {chunks : List (List UInt8)} (htext : chunks.flatten = hexText ((record codec s).drop n))
    (heven : ∀ chunk ∈ chunks, chunk.length % 2 = 0)
    (hlast : ∀ chunk ∈ chunks.getLast?, chunk ≠ []) :
    (holding h n).run codec chunks = (new, uploaded s chunks) := by
  induction chunks generalizing n with
  | nil =>
    have hlength := congrArg List.length htext
    rw [length_hexText, List.length_drop, List.flatten_nil, List.length_nil] at hlength
    omega
  | cons chunk chunks ih =>
    rw [List.flatten_cons] at htext
    obtain ⟨hchunk, hrest⟩ := hexText_split htext (heven chunk List.mem_cons_self)
    set k := chunk.length / 2 with hkdef
    have hwhole := congrArg List.length htext
    rw [List.length_append, length_hexText, List.length_drop] at hwhole
    have hk : n + k ≤ (record codec s).length := by omega
    rw [List.drop_drop] at hrest
    rw [run, hchunk, acceptHex_holding h hk]
    cases chunks with
    | nil =>
      have hall : ¬n + k < (record codec s).length := by
        have hzero := congrArg List.length hrest
        rw [length_hexText, List.length_drop, List.flatten_nil, List.length_nil] at hzero
        omega
      rw [if_neg hall]
      rfl
    | cons next chunks =>
      have hmore : n + k < (record codec s).length := by
        by_contra hdone
        have hnil : (next :: chunks).flatten = [] := by
          rw [hrest, List.drop_eq_nil_of_le (not_lt.1 hdone)]
          rfl
        have hlast' : ∀ chunk ∈ (next :: chunks).getLast?, chunk ≠ [] := fun c hc =>
          hlast c (by rwa [List.getLast?_cons_cons])
        obtain ⟨last, hmem⟩ := Option.isSome_iff_exists.1
          (List.getLast?_isSome.2 (List.cons_ne_nil next chunks))
        exact hlast' last hmem (List.flatten_eq_nil_iff.1 hnil last (List.mem_of_getLast? hmem))
      rw [if_pos hmore]
      dsimp only
      rw [ih hmore hrest (fun c hc => heven c (List.mem_cons_of_mem _ hc))
        fun c hc => hlast c (by rwa [List.getLast?_cons_cons])]
      rfl

/-! ## What other chunks come to -/

variable {r : PbReceiver} {chunk : List UInt8}

/-- Half a byte is refused. -/
theorem acceptHex_of_odd (codec : Codec) (r : PbReceiver) (hodd : ¬chunk.length % 2 = 0) :
    r.acceptHex codec chunk = (new, .error) := by
  have hdecode : decodeHex chunk r.buf = none := if_neg hodd
  unfold acceptHex
  rw [hdecode]
  rfl

/-- There is more of the record to come. -/
def Incomplete (r : PbReceiver) : Prop :=
  progress r.buf.bytes = .needMore
    ∨ ∃ total, progress r.buf.bytes = .total total ∧ r.buf.bytes.length < total

theorem incomplete_new : Incomplete new := .inl rfl

/-- **What is answered for good leaves nothing behind**, and what is not is incomplete. -/
theorem acceptHex_cases (codec : Codec) (r : PbReceiver) (chunk : List UInt8) :
    ((r.acceptHex codec chunk).2 = .needMore ∧ Incomplete (r.acceptHex codec chunk).1)
      ∨ ((r.acceptHex codec chunk).2 ≠ .needMore ∧ (r.acceptHex codec chunk).1 = new) := by
  unfold acceptHex
  cases decodeHex chunk r.buf with
  | none => exact .inr ⟨PbChunkResult.noConfusion, rfl⟩
  | some buf =>
    dsimp only
    cases hprogress : progress buf.bytes with
    | needMore => exact .inl ⟨rfl, .inl hprogress⟩
    | badHeader => exact .inr ⟨PbChunkResult.noConfusion, rfl⟩
    | total total =>
      dsimp only
      by_cases hshort : buf.bytes.length < total
      · rw [if_pos hshort]
        exact .inl ⟨rfl, .inr ⟨total, hprogress, hshort⟩⟩
      · rw [if_neg hshort]
        generalize (if buf.bytes.length = total then decode codec buf.bytes
          else .error .badLength) = result
        cases result with
        | ok settings => exact .inr ⟨PbChunkResult.noConfusion, rfl⟩
        | error e => exact .inr ⟨PbChunkResult.noConfusion, rfl⟩

theorem incomplete_acceptHex (codec : Codec) (r : PbReceiver) (chunk : List UInt8) :
    Incomplete (r.acceptHex codec chunk).1 := by
  rcases acceptHex_cases codec r chunk with ⟨-, h⟩ | ⟨-, h⟩
  · exact h
  · rw [h]
    exact incomplete_new

/-- A chunk without text completes nothing. -/
theorem acceptHex_nil (codec : Codec) (h : Incomplete r) :
    (r.acceptHex codec []).2 = .needMore := by
  have hdecode : decodeHex [] r.buf = some r.buf := rfl
  unfold acceptHex
  rw [hdecode]
  dsimp only
  rcases h with h | ⟨total, h, hshort⟩
  · rw [h]
  · rw [h]
    dsimp only
    rw [if_pos hshort]

theorem run_append (codec : Codec) (r : PbReceiver) (a b : List (List UInt8)) :
    r.run codec (a ++ b)
      = (((r.run codec a).1.run codec b).1,
        (r.run codec a).2 ++ ((r.run codec a).1.run codec b).2) := by
  induction a generalizing r with
  | nil => rfl
  | cons chunk a ih =>
    rw [List.cons_append, run, ih, run]
    rfl

theorem incomplete_run (codec : Codec) (chunks : List (List UInt8)) (h : Incomplete r) :
    Incomplete (r.run codec chunks).1 := by
  induction chunks generalizing r with
  | nil => exact h
  | cons chunk chunks ih => exact ih (incomplete_acceptHex codec r chunk)

/-- Half a byte in any chunk is answered with an error. -/
theorem error_mem_run (codec : Codec) {chunks : List (List UInt8)} (hmem : chunk ∈ chunks)
    (hodd : ¬chunk.length % 2 = 0) : PbChunkResult.error ∈ (r.run codec chunks).2 := by
  induction chunks generalizing r with
  | nil => exact absurd hmem List.not_mem_nil
  | cons first chunks ih =>
    rcases List.mem_cons.1 hmem with rfl | hmem
    · rw [run, acceptHex_of_odd codec r hodd]
      exact List.mem_cons_self
    · exact List.mem_cons_of_mem _ (ih hmem)

/-- The chunks of a record are answered as they should be just if no byte is cut and the last is not
empty. -/
theorem run_new_iff (h : codec.RoundTrips (toProto s)) {chunks : List (List UInt8)}
    (htext : chunks.flatten = hexText (record codec s)) :
    (new.run codec chunks).2 = uploaded s chunks
      ↔ (∀ chunk ∈ chunks, chunk.length % 2 = 0) ∧ ∀ last ∈ chunks.getLast?, last ≠ [] := by
  constructor
  · intro hrun
    constructor
    · intro chunk hmem
      by_contra hodd
      have herror : PbChunkResult.error ∈ (new.run codec chunks).2 := error_mem_run codec hmem hodd
      rw [hrun, uploaded, List.mem_append] at herror
      rcases herror with herror | herror
      · exact PbChunkResult.noConfusion (List.eq_of_mem_replicate herror)
      · exact PbChunkResult.noConfusion (List.mem_singleton.1 herror)
    · rintro last hlast rfl
      obtain ⟨before, rfl⟩ := List.getLast?_eq_some_iff.1 hlast
      have hend := acceptHex_nil codec (incomplete_run codec before incomplete_new)
      rw [run_append, uploaded] at hrun
      have hlast := (List.append_inj' hrun rfl).2
      rw [run, run, hend] at hlast
      exact PbChunkResult.noConfusion (List.head_eq_of_cons_eq hlast)
  · rintro ⟨heven, hlast⟩
    have hpos : 0 < (record codec s).length := by
      rw [record, length_framed, frameOverhead]
      omega
    exact congrArg (·.2) (run_holding h hpos htext heven hlast)

/-- **The upload of the settings.** The record, in any chunks that cut no byte and of which the last
is not empty, comes to the repaired settings; behind an answer for good the receiver is a new one. -/
theorem upload (h : codec.RoundTrips (toProto s)) {out written : ByteVec frameMaxLen}
    (hwritten : encode codec s out = .ok written) :
    (∀ chunks : List (List UInt8), chunks.flatten = hexText written.bytes →
        ((new.run codec chunks).2 = uploaded s chunks
          ↔ (∀ chunk ∈ chunks, chunk.length % 2 = 0) ∧ ∀ last ∈ chunks.getLast?, last ≠ []))
      ∧ ∀ (r : PbReceiver) (before : List (List UInt8)) (chunk : List UInt8)
        (after : List (List UInt8)),
        ((r.run codec before).1.acceptHex codec chunk).2 ≠ .needMore →
          r.run codec (before ++ chunk :: after)
            = ((new.run codec after).1, (r.run codec (before ++ [chunk])).2
              ++ (new.run codec after).2) := by
  have hrecord : written.bytes = record codec s := by
    rw [encode_eq_ok h] at hwritten
    exact congrArg ByteVec.bytes (Except.ok.inj hwritten).symm
  refine ⟨fun chunks htext => run_new_iff h (hrecord ▸ htext), fun r before chunk after hgood => ?_⟩
  rcases acceptHex_cases codec (r.run codec before).1 chunk with ⟨hmore, -⟩ | ⟨-, hnew⟩
  · exact absurd hmore hgood
  · rw [run_append, run_append, run, run, run, hnew, List.append_assoc]
    rfl

/-! ## Settings in two chunks -/

/-- The settings of a machine that only homes. -/
def bareSettings : Settings where
  stepPulseUs := 10
  stepIdleDelayMs := 0
  stepInvertMask := 0
  dirInvertMask := 0
  limitInvert := false
  probeInvert := false
  probePullupDisable := false
  statusReportMask := 0
  junctionDeviationMm := F32.zero
  arcToleranceMm := F32.zero
  softLimitsEnable := false
  hardLimitFlags := 0
  homingFlags := 1
  homingDirInvertMask := 0
  homingFeedMmMin := F32.zero
  homingSeekMmMin := F32.zero
  homingDebounceMs := 0
  homingPulloffMm := F32.zero
  spindleRpmMax := F32.zero
  spindleRpmMin := F32.zero
  spindleOnDelayS := F32.zero
  spindleReverseDwellS := F32.zero
  autoReportIntervalMs := 0
  stepsPerMm := fun _ => F32.zero
  maxRateMmMin := fun _ => F32.zero
  accelMmS2 := fun _ => F32.zero
  maxTravelMm := fun _ => F32.zero
  runCurrentMa := fun _ => 0
  microsteps := fun _ => 0
  holdCurrentMa := fun _ => 0
  tmcIholdDelay := 0
  tmcTpowerdown := 0
  tmcTpwmthrs := 0
  tmcSendDelay := 0
  tmcRSenseOhms := F32.zero
  rotaryMask := 0

/-- A codec that has one message: the two fields that are not zero, each as a tag and a number. -/
def bareCodec : Codec where
  size _ := 4
  encode _ := [0x08, 10, 0x50, 1]
  decode bytes := if bytes = [0x08, 10, 0x50, 1] then some (toProto bareSettings) else none

theorem roundTrips_bareCodec : bareCodec.RoundTrips (toProto bareSettings) :=
  ⟨by simp [bareCodec], rfl, by decide⟩

/-- The text of the settings, cut behind some digits. -/
def cutChunks (n : ℕ) : List (List UInt8) :=
  [(hexText (record bareCodec bareSettings)).take n, (hexText (record bareCodec bareSettings)).drop n]

theorem flatten_cutChunks (n : ℕ) :
    (cutChunks n).flatten = hexText (record bareCodec bareSettings) := by
  simp [cutChunks]

/-- **A text that is cut within a byte is refused.** -/
theorem not_chunkIndependent : ¬ ∀ (codec : Codec) (s : Settings) (chunks : List (List UInt8)),
    codec.RoundTrips (toProto s) → chunks.flatten = hexText (record codec s) → chunks ≠ [] →
      (new.run codec chunks).2 = uploaded s chunks := by
  intro h
  have hrun := h bareCodec bareSettings (cutChunks 1) roundTrips_bareCodec (flatten_cutChunks 1)
    (List.cons_ne_nil _ _)
  have herror : PbChunkResult.error ∈ (new.run bareCodec (cutChunks 1)).2 :=
    error_mem_run bareCodec List.mem_cons_self (by decide)
  rw [hrun, uploaded, List.mem_append] at herror
  rcases herror with herror | herror
  · exact PbChunkResult.noConfusion (List.eq_of_mem_replicate herror)
  · exact PbChunkResult.noConfusion (List.mem_singleton.1 herror)

/-- Cut behind four bytes, the settings are put together again. -/
theorem upload_bareSettings :
    (new.run bareCodec (cutChunks 8)).2 = [.needMore, .complete bareSettings.sanitized] :=
  ((upload roundTrips_bareCodec (encode_eq_ok roundTrips_bareCodec (.empty _))).1 (cutChunks 8)
    (flatten_cutChunks 8)).2 (by decide)

end PbReceiver

end Galdr.Storage
