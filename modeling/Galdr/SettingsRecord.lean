import Galdr.Settings
import Galdr.StorageFrame

/-!
# The record of the settings

The settings are kept as a message in a frame. A message has a field for each axis of a setting and
no field narrower than a word; a value that is read and does not fit is the largest that does, which
the repair of the record then deals with. How a message is encoded is left open: a codec is any way
to turn messages into bytes, and what is asked of it is that it reads back what it has written.
-/

namespace Galdr.Storage

/-! ## The message -/

/-- The message of the settings, with the fields of the schema. -/
structure SettingsProto where
  stepPulseUs : UInt32
  stepIdleDelayMs : UInt32
  stepInvertMask : UInt32
  dirInvertMask : UInt32
  statusReportMask : UInt32
  junctionDeviationMm : F32
  arcToleranceMm : F32
  softLimitsEnable : Bool
  hardLimitFlags : UInt32
  homingFlags : UInt32
  homingDirInvertMask : UInt32
  homingFeedMmMin : F32
  homingSeekMmMin : F32
  homingDebounceMs : UInt32
  homingPulloffMm : F32
  spindleRpmMax : F32
  spindleRpmMin : F32
  stepsPerMmX : F32
  stepsPerMmY : F32
  stepsPerMmZ : F32
  maxRateMmMinX : F32
  maxRateMmMinY : F32
  maxRateMmMinZ : F32
  accelMmS2X : F32
  accelMmS2Y : F32
  accelMmS2Z : F32
  maxTravelMmX : F32
  maxTravelMmY : F32
  maxTravelMmZ : F32
  runCurrentMaX : UInt32
  runCurrentMaY : UInt32
  runCurrentMaZ : UInt32
  holdCurrentMaX : UInt32
  holdCurrentMaY : UInt32
  holdCurrentMaZ : UInt32
  microstepsX : UInt32
  microstepsY : UInt32
  microstepsZ : UInt32
  tmcIholdDelay : UInt32
  tmcTpowerdown : UInt32
  tmcTpwmthrs : UInt32
  tmcSendDelay : UInt32
  tmcRSenseOhms : F32
  probeInvert : Bool
  probePullupDisable : Bool
  autoReportIntervalMs : UInt32
  limitInvert : Bool
  spindleOnDelayS : F32
  spindleReverseDwellS : F32
  stepsPerMmA : F32
  maxRateMmMinA : F32
  accelMmS2A : F32
  maxTravelMmA : F32
  runCurrentMaA : UInt32
  holdCurrentMaA : UInt32
  microstepsA : UInt32
  rotaryMask : UInt32

/-- A word as a half word; one that is too large is the largest. -/
def saturatingU16 (value : UInt32) : UInt16 := (min value 65535).toUInt16

/-- A word as a byte; one that is too large is the largest. -/
def saturatingU8 (value : UInt32) : UInt8 := (min value 255).toUInt8

/-- The settings as a message. -/
def toProto (s : Settings) : SettingsProto where
  stepPulseUs := s.stepPulseUs
  stepIdleDelayMs := s.stepIdleDelayMs
  stepInvertMask := s.stepInvertMask.toUInt32
  dirInvertMask := s.dirInvertMask.toUInt32
  statusReportMask := s.statusReportMask.toUInt32
  junctionDeviationMm := s.junctionDeviationMm
  arcToleranceMm := s.arcToleranceMm
  softLimitsEnable := s.softLimitsEnable
  hardLimitFlags := s.hardLimitFlags.toUInt32
  homingFlags := s.homingFlags.toUInt32
  homingDirInvertMask := s.homingDirInvertMask.toUInt32
  homingFeedMmMin := s.homingFeedMmMin
  homingSeekMmMin := s.homingSeekMmMin
  homingDebounceMs := s.homingDebounceMs
  homingPulloffMm := s.homingPulloffMm
  spindleRpmMax := s.spindleRpmMax
  spindleRpmMin := s.spindleRpmMin
  stepsPerMmX := s.stepsPerMm xAxis
  stepsPerMmY := s.stepsPerMm yAxis
  stepsPerMmZ := s.stepsPerMm zAxis
  maxRateMmMinX := s.maxRateMmMin xAxis
  maxRateMmMinY := s.maxRateMmMin yAxis
  maxRateMmMinZ := s.maxRateMmMin zAxis
  accelMmS2X := s.accelMmS2 xAxis
  accelMmS2Y := s.accelMmS2 yAxis
  accelMmS2Z := s.accelMmS2 zAxis
  maxTravelMmX := s.maxTravelMm xAxis
  maxTravelMmY := s.maxTravelMm yAxis
  maxTravelMmZ := s.maxTravelMm zAxis
  runCurrentMaX := (s.runCurrentMa xAxis).toUInt32
  runCurrentMaY := (s.runCurrentMa yAxis).toUInt32
  runCurrentMaZ := (s.runCurrentMa zAxis).toUInt32
  holdCurrentMaX := (s.holdCurrentMa xAxis).toUInt32
  holdCurrentMaY := (s.holdCurrentMa yAxis).toUInt32
  holdCurrentMaZ := (s.holdCurrentMa zAxis).toUInt32
  microstepsX := (s.microsteps xAxis).toUInt32
  microstepsY := (s.microsteps yAxis).toUInt32
  microstepsZ := (s.microsteps zAxis).toUInt32
  tmcIholdDelay := s.tmcIholdDelay.toUInt32
  tmcTpowerdown := s.tmcTpowerdown.toUInt32
  tmcTpwmthrs := s.tmcTpwmthrs
  tmcSendDelay := s.tmcSendDelay.toUInt32
  tmcRSenseOhms := s.tmcRSenseOhms
  probeInvert := s.probeInvert
  probePullupDisable := s.probePullupDisable
  autoReportIntervalMs := s.autoReportIntervalMs
  limitInvert := s.limitInvert
  spindleOnDelayS := s.spindleOnDelayS
  spindleReverseDwellS := s.spindleReverseDwellS
  stepsPerMmA := s.stepsPerMm aAxis
  maxRateMmMinA := s.maxRateMmMin aAxis
  accelMmS2A := s.accelMmS2 aAxis
  maxTravelMmA := s.maxTravelMm aAxis
  runCurrentMaA := (s.runCurrentMa aAxis).toUInt32
  holdCurrentMaA := (s.holdCurrentMa aAxis).toUInt32
  microstepsA := (s.microsteps aAxis).toUInt32
  rotaryMask := s.rotaryMask.toUInt32

/-- A message as settings. -/
def fromProto (proto : SettingsProto) : Settings where
  stepPulseUs := proto.stepPulseUs
  stepIdleDelayMs := proto.stepIdleDelayMs
  stepInvertMask := saturatingU8 proto.stepInvertMask
  dirInvertMask := saturatingU8 proto.dirInvertMask
  limitInvert := proto.limitInvert
  probeInvert := proto.probeInvert
  probePullupDisable := proto.probePullupDisable
  statusReportMask := saturatingU8 proto.statusReportMask
  junctionDeviationMm := proto.junctionDeviationMm
  arcToleranceMm := proto.arcToleranceMm
  softLimitsEnable := proto.softLimitsEnable
  hardLimitFlags := saturatingU8 proto.hardLimitFlags
  homingFlags := saturatingU8 proto.homingFlags
  homingDirInvertMask := saturatingU8 proto.homingDirInvertMask
  homingFeedMmMin := proto.homingFeedMmMin
  homingSeekMmMin := proto.homingSeekMmMin
  homingDebounceMs := proto.homingDebounceMs
  homingPulloffMm := proto.homingPulloffMm
  spindleRpmMax := proto.spindleRpmMax
  spindleRpmMin := proto.spindleRpmMin
  spindleOnDelayS := proto.spindleOnDelayS
  spindleReverseDwellS := proto.spindleReverseDwellS
  autoReportIntervalMs := proto.autoReportIntervalMs
  stepsPerMm := ![proto.stepsPerMmX, proto.stepsPerMmY, proto.stepsPerMmZ, proto.stepsPerMmA]
  maxRateMmMin :=
    ![proto.maxRateMmMinX, proto.maxRateMmMinY,
      proto.maxRateMmMinZ, proto.maxRateMmMinA]
  accelMmS2 := ![proto.accelMmS2X, proto.accelMmS2Y, proto.accelMmS2Z, proto.accelMmS2A]
  maxTravelMm := ![proto.maxTravelMmX, proto.maxTravelMmY, proto.maxTravelMmZ, proto.maxTravelMmA]
  runCurrentMa :=
    ![saturatingU16 proto.runCurrentMaX, saturatingU16 proto.runCurrentMaY,
      saturatingU16 proto.runCurrentMaZ, saturatingU16 proto.runCurrentMaA]
  microsteps :=
    ![saturatingU16 proto.microstepsX, saturatingU16 proto.microstepsY,
      saturatingU16 proto.microstepsZ, saturatingU16 proto.microstepsA]
  holdCurrentMa :=
    ![saturatingU16 proto.holdCurrentMaX, saturatingU16 proto.holdCurrentMaY,
      saturatingU16 proto.holdCurrentMaZ, saturatingU16 proto.holdCurrentMaA]
  tmcIholdDelay := saturatingU8 proto.tmcIholdDelay
  tmcTpowerdown := saturatingU8 proto.tmcTpowerdown
  tmcTpwmthrs := proto.tmcTpwmthrs
  tmcSendDelay := saturatingU8 proto.tmcSendDelay
  tmcRSenseOhms := proto.tmcRSenseOhms
  rotaryMask := saturatingU8 proto.rotaryMask

@[simp] theorem saturatingU16_toUInt32 (x : UInt16) : saturatingU16 x.toUInt32 = x := by
  have hle : x.toUInt32 ≤ 65535 := by
    rw [UInt32.le_iff_toNat_le, UInt16.toNat_toUInt32]
    exact Nat.le_of_lt_succ x.toNat_lt
  have hmin : min x.toUInt32 65535 = x.toUInt32 := if_pos hle
  rw [saturatingU16, hmin, UInt16.toUInt16_toUInt32]

@[simp] theorem saturatingU8_toUInt32 (x : UInt8) : saturatingU8 x.toUInt32 = x := by
  have hle : x.toUInt32 ≤ 255 := by
    rw [UInt32.le_iff_toNat_le, UInt8.toNat_toUInt32]
    exact Nat.le_of_lt_succ x.toNat_lt
  have hmin : min x.toUInt32 255 = x.toUInt32 := if_pos hle
  rw [saturatingU8, hmin, UInt8.toUInt8_toUInt32]

/-- A value for each axis, axis by axis. -/
theorem axes_eq {α : Type} (x : Axes α) : ![x xAxis, x yAxis, x zAxis, x aAxis] = x := by
  funext axis
  fin_cases axis <;> rfl

/-- The message of settings is read as the settings. -/
theorem fromProto_toProto (s : Settings) : fromProto (toProto s) = s := by
  simp only [fromProto, toProto, saturatingU8_toUInt32, saturatingU16_toUInt32, axes_eq]

/-! ## The record -/

/-- The magic number of the settings. -/
def settingsMagic : UInt32 := 0x47645331

/-- The version of the record. -/
def schemaVersion : UInt8 := 1

/-- The longest message. -/
def settingsMaxLen : ℕ := 512

/-- The longest frame. -/
def frameMaxLen : ℕ := settingsMaxLen + frameOverhead

/-- A codec of messages. -/
structure Codec where
  /-- The bytes that a message will take. -/
  size : SettingsProto → ℕ
  /-- The bytes of a message. -/
  encode : SettingsProto → List UInt8
  /-- The message of bytes, if it is one. -/
  decode : List UInt8 → Option SettingsProto

/-- A message is read back as it was, and is of the length that was told, which is within bounds. -/
structure Codec.RoundTrips (codec : Codec) (proto : SettingsProto) : Prop where
  /-- The message is read back. -/
  decode_encode : codec.decode (codec.encode proto) = some proto
  /-- The length is the one that was told. -/
  size_eq : codec.size proto = (codec.encode proto).length
  /-- The length is within bounds. -/
  length_le : (codec.encode proto).length ≤ settingsMaxLen

variable {capacity : ℕ} {codec : Codec} {s : Settings}

/-- Append a message. -/
def encodeSettingsInto (codec : Codec) (proto : SettingsProto) (out : ByteVec capacity) :
    Except CodecError (ByteVec capacity) :=
  out.pushSlice (codec.encode proto)

/-- Write the record of settings. -/
def encode (codec : Codec) (s : Settings) (out : ByteVec capacity) :
    Except CodecError (ByteVec capacity) :=
  let proto := toProto s
  frame settingsMagic schemaVersion (codec.size proto) out (encodeSettingsInto codec proto)

/-- Read a record of settings, and repair it. -/
def decode (codec : Codec) (frameBytes : List UInt8) : Except CodecError Settings :=
  match unframe settingsMagic schemaVersion frameBytes with
  | .error e => .error e
  | .ok payload =>
    match codec.decode payload with
    | none => .error .badPayload
    | some proto => .ok (fromProto proto).sanitized

/-- How much of a record its first bytes are. -/
def progress (buf : List UInt8) : FrameProgress :=
  frameProgress settingsMagic schemaVersion frameMaxLen buf

/-- The record of settings, byte for byte. -/
def record (codec : Codec) (s : Settings) : List UInt8 :=
  framed settingsMagic schemaVersion (codec.encode (toProto s))

theorem Codec.RoundTrips.length_record_le (h : codec.RoundTrips (toProto s)) :
    (record codec s).length ≤ frameMaxLen := by
  rw [record, length_framed, frameMaxLen]
  exact Nat.add_le_add_right h.length_le frameOverhead

theorem Codec.RoundTrips.length_le_maxPayloadLen (h : codec.RoundTrips (toProto s)) :
    (codec.encode (toProto s)).length ≤ maxPayloadLen :=
  h.length_le.trans (by decide)

/-- The record is what is written. -/
theorem encode_eq_ok (h : codec.RoundTrips (toProto s)) (out : ByteVec frameMaxLen) :
    encode codec s out = .ok ⟨record codec s, h.length_record_le⟩ := by
  rw [encode, h.size_eq]
  exact frame_eq_ok settingsMagic schemaVersion out (appends_pushSlice frameMaxLen _)
    h.length_le_maxPayloadLen _

/-- The record is read back, and repaired. -/
theorem decode_record (h : codec.RoundTrips (toProto s)) :
    decode codec (record codec s) = .ok s.sanitized := by
  have hread : unframe settingsMagic schemaVersion (record codec s)
      = .ok (codec.encode (toProto s)) :=
    unframe_eq_ok_iff.2 ⟨h.length_le_maxPayloadLen, rfl⟩
  simp only [decode, hread, h.decode_encode, fromProto_toProto]

/-- The length of a record is known from its header on. -/
theorem progress_take_record (h : codec.RoundTrips (toProto s)) {n : ℕ}
    (hn : n ≤ (record codec s).length) :
    progress ((record codec s).take n)
      = if n < headerLen then .needMore else .total (record codec s).length :=
  frameProgress_take settingsMagic schemaVersion h.length_le_maxPayloadLen h.length_record_le hn

end Galdr.Storage
