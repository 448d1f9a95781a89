import Galdr.MotionSteps

/-!
# The pulse hardware

A burst is encoded into one list of symbols for each channel, a symbol for each
tick and an end marker, and the channels are started together. The hardware
stops a channel at the first symbol with a zero length, so that a silent tick
is split in two parts. A decorator counts the ticks of the bursts that went
through.

The sink has four channels and encodes three. On X, Y and Z what is sent is
what was asked for (`sent_linear`); the buffer of the A channel keeps the end
markers it was made with, so that the channel sends nothing while the counter
follows its steps (`burst_conserved_iff`).
-/

namespace Galdr

/-- The level of a pulse. -/
inductive Level
  | low
  | high
  deriving DecidableEq

/-- A symbol: two levels and how long each is held. -/
structure PulseCode where
  /-- The first level. -/
  level1 : Level
  /-- Its length. -/
  length1 : ℕ
  /-- The second level. -/
  level2 : Level
  /-- Its length. -/
  length2 : ℕ
  deriving DecidableEq

namespace PulseCode

/-- The symbol that ends a transmission. -/
def endMarker : PulseCode := ⟨.low, 0, .low, 0⟩

/-- The hardware stops at a symbol with a zero length. -/
def isEndMarker (code : PulseCode) : Bool := code.length1 == 0 || code.length2 == 0

/-- A symbol whose lengths are cut to their fields. -/
def newClamped (level1 : Level) (length1 : ℕ) (level2 : Level) (length2 : ℕ) : PulseCode :=
  ⟨level1, min length1 rmtMaxFieldLen, level2, min length2 rmtMaxFieldLen⟩

/-- How long a symbol lasts. -/
def duration (code : PulseCode) : ℕ := code.length1 + code.length2

/-- The number of step pulses a channel puts out: its high symbols before it stops. -/
def pulses (symbols : List PulseCode) : ℕ :=
  (symbols.takeWhile fun code => !code.isEndMarker).countP fun code => code.level1 = .high

end PulseCode

/-- `clamp_len`: a length cut to its field. -/
def clampLen (ticks : ℕ) : ℕ :=
  if rmtMaxFieldLen < ticks then rmtMaxFieldLen else ticks

/-- Why a burst was given up. -/
inductive TruncationSource
  /-- A channel could not be started. -/
  | transmitStart (axis : Fin 4)
  /-- A channel ended with an error. -/
  | waitError (axis : Fin 4)
  /-- The burst has too many ticks. -/
  | burstTooLong (axis : Fin 4)
  deriving DecidableEq

/-- What the hardware does with a burst: the channels that start, and the ones that
complete without error. -/
structure RmtResponse where
  /-- The channels that start. -/
  starts : Axes Bool
  /-- The channels that complete. -/
  completes : Axes Bool

/-- The sink over the pulse hardware. -/
structure RmtStepSink where
  /-- The channels at hand. -/
  channels : Axes Bool
  /-- The direction outputs. -/
  dir : Axes Bool
  /-- The width of a step pulse, `$0`. -/
  stepPulseTicks : ℕ
  /-- The direction last latched. -/
  lastDir : Option DirState
  /-- The symbols of each channel. -/
  scratch : Axes (Vector PulseCode (maxSymbolsPerBurst + 1))
  /-- The number of bursts since boot. -/
  burstSeq : UInt32
  /-- Why the last burst was given up. -/
  lastError : Option TruncationSource

namespace RmtStepSink

/-- A sink with all its channels. -/
def new (stepPulseTicks : ℕ) : RmtStepSink where
  channels := fun _ => true
  dir := fun _ => false
  stepPulseTicks := stepPulseTicks
  lastDir := none
  scratch := fun _ => Vector.replicate _ .endMarker
  burstSeq := 0
  lastError := none

/-- The last error, which is then forgotten. -/
def takeLastError (sink : RmtStepSink) : Option TruncationSource × RmtStepSink :=
  (sink.lastError, { sink with lastError := none })

/-- The symbol of a tick: a pulse and its rest when the axis steps, two silent parts
when it does not. -/
def encodeTick (stepPulseTicks : ℕ) (axis : Fin 4) (event : StepEvent) : PulseCode :=
  let period := max event.periodTicks (stepPulseTicks + 1)
  if event.step axis then
    .newClamped .high (clampLen stepPulseTicks) .low (clampLen (period - stepPulseTicks))
  else
    let (a, b) := silentSymbolHalves period
    .newClamped .low (clampLen a) .low (clampLen b)

/-- Encode the ticks of a burst for one channel, and end them. -/
def encodeChannel (sink : RmtStepSink) (axis : Fin 4) (ticks : List StepEvent) :
    RmtStepSink :=
  { sink with
    scratch := Function.update sink.scratch axis (Vector.ofFn fun i =>
      match ticks[i.val]? with
      | some event => encodeTick sink.stepPulseTicks axis event
      | none => if i.val = ticks.length then .endMarker else (sink.scratch axis)[i]) }

/-- Latch the direction outputs. -/
def setDirection (dir : DirState) (sink : RmtStepSink) :
    Except StepError Unit × RmtStepSink :=
  (.ok (), { sink with dir := dir.dir, lastDir := some dir })

/-- Start the channels in order. A channel that cannot be started is lost, and so are
the ones started before it. -/
def startTransmits (response : RmtResponse) :
    List (Fin 4) → RmtStepSink → Except StepError Unit × RmtStepSink
  | [], sink => (.ok (), sink)
  | axis :: axes, sink =>
    if sink.channels axis then
      let sink := { sink with channels := Function.update sink.channels axis false }
      if response.starts axis then startTransmits response axes sink
      else (.error .transport, { sink with lastError := some (.transmitStart axis) })
    else (.error .transport, { sink with lastError := some (.transmitStart axis) })

/-- Wait for the channels in order. Each is handed back, with an error or without. -/
def waitTransmits (response : RmtResponse) :
    List (Fin 4) → Except StepError Unit × RmtStepSink → Except StepError Unit × RmtStepSink
  | [], run => run
  | axis :: axes, (result, sink) =>
    let sink := { sink with channels := Function.update sink.channels axis true }
    if response.completes axis then waitTransmits response axes (result, sink)
    else waitTransmits response axes
      (.error .transport, { sink with lastError := some (.waitError axis) })

/-- Encode the three linear channels of a burst. -/
def encodeBurst (sink : RmtStepSink) (ticks : List StepEvent) : RmtStepSink :=
  ((sink.encodeChannel xAxis ticks).encodeChannel yAxis ticks).encodeChannel zAxis ticks

/-- Emit a burst: encode it, start every channel, and wait for all of them. -/
def emitBurst (response : RmtResponse) (ticks : List StepEvent) (sink : RmtStepSink) :
    Except StepError Unit × RmtStepSink :=
  if maxSymbolsPerBurst < ticks.length then
    (.error .burstTooLong, { sink with lastError := some (.burstTooLong xAxis) })
  else if ticks = [] then (.ok (), sink)
  else
    let sink := { sink with burstSeq := sink.burstSeq + 1 }
    match startTransmits response (List.finRange 4) (sink.encodeBurst ticks) with
    | (.error e, sink) => (.error e, sink)
    | (.ok (), sink) => waitTransmits response (List.finRange 4) (.ok (), sink)

/-- What was sent on a channel for the last burst, given its ticks: nothing for an
empty burst. -/
def sent (sink : RmtStepSink) (ticks : List StepEvent) (axis : Fin 4) : List PulseCode :=
  if ticks = [] then [] else (sink.scratch axis).toList.take (ticks.length + 1)

/-! ## What is encoded -/

theorem scratch_encodeChannel_self (sink : RmtStepSink) (axis : Fin 4)
    {ticks : List StepEvent} (h : ticks.length ≤ maxSymbolsPerBurst) :
    ((sink.encodeChannel axis ticks).scratch axis).toList.take (ticks.length + 1)
      = ticks.map (encodeTick sink.stepPulseTicks axis) ++ [.endMarker] := by
  unfold encodeChannel
  dsimp only
  rw [Function.update_self]
  have hlen : ticks.length + 1 ≤ maxSymbolsPerBurst + 1 := Nat.succ_le_succ h
  apply List.ext_getElem
  · rw [List.length_take, Vector.length_toList, Nat.min_eq_left hlen, List.length_append,
      List.length_map, List.length_singleton]
  · intro i h1 h2
    rw [List.getElem_take, Vector.getElem_toList, Vector.getElem_ofFn]
    dsimp only
    by_cases hi : i < ticks.length
    · rw [List.getElem?_eq_getElem hi, List.getElem_append_left (by rwa [List.length_map]),
        List.getElem_map]
    · have hlast : i = ticks.length := by
        rw [List.length_append, List.length_map, List.length_singleton] at h2
        omega
      subst hlast
      rw [List.getElem?_eq_none (le_refl _)]
      simp

/-- Encoding a channel leaves the others as they were. -/
theorem scratch_encodeChannel_of_ne (sink : RmtStepSink) {axis other : Fin 4}
    (h : other ≠ axis) (ticks : List StepEvent) :
    (sink.encodeChannel axis ticks).scratch other = sink.scratch other :=
  Function.update_of_ne h _ _

/-- **A linear channel carries one symbol for each tick**, and its end marker. -/
theorem scratch_encodeBurst_linear (sink : RmtStepSink) {axis : Fin 4} (haxis : axis ≠ aAxis)
    {ticks : List StepEvent} (h : ticks.length ≤ maxSymbolsPerBurst) :
    ((sink.encodeBurst ticks).scratch axis).toList.take (ticks.length + 1)
      = ticks.map (encodeTick sink.stepPulseTicks axis) ++ [.endMarker] := by
  unfold encodeBurst
  fin_cases axis
  · rw [scratch_encodeChannel_of_ne _ (by decide), scratch_encodeChannel_of_ne _ (by decide)]
    exact scratch_encodeChannel_self sink xAxis h
  · rw [scratch_encodeChannel_of_ne _ (by decide)]
    exact scratch_encodeChannel_self (sink.encodeChannel xAxis ticks) yAxis h
  · exact scratch_encodeChannel_self
      ((sink.encodeChannel xAxis ticks).encodeChannel yAxis ticks) zAxis h
  · exact absurd rfl haxis

/-- **The A channel is not encoded.** -/
theorem scratch_encodeBurst_rotary (sink : RmtStepSink) (ticks : List StepEvent) :
    (sink.encodeBurst ticks).scratch aAxis = sink.scratch aAxis := by
  unfold encodeBurst
  rw [scratch_encodeChannel_of_ne _ (by decide), scratch_encodeChannel_of_ne _ (by decide),
    scratch_encodeChannel_of_ne _ (by decide)]

/-- Starting channels leaves the symbols. -/
theorem scratch_startTransmits (response : RmtResponse) (axes : List (Fin 4))
    (sink : RmtStepSink) : (startTransmits response axes sink).2.scratch = sink.scratch := by
  induction axes generalizing sink with
  | nil => rfl
  | cons axis axes ih =>
    unfold startTransmits
    split
    · dsimp only
      split
      · exact ih _
      · rfl
    · rfl

theorem scratch_waitTransmits (response : RmtResponse) (axes : List (Fin 4))
    (run : Except StepError Unit × RmtStepSink) :
    (waitTransmits response axes run).2.scratch = run.2.scratch := by
  induction axes generalizing run with
  | nil => rfl
  | cons axis axes ih =>
    unfold waitTransmits
    dsimp only
    split
    · exact ih _
    · exact ih _

/-- **The symbols after a burst**: what the encoder put there, when the burst was not
too long. -/
theorem scratch_emitBurst (response : RmtResponse) {ticks : List StepEvent}
    (sink : RmtStepSink) (hlen : ticks.length ≤ maxSymbolsPerBurst) (hne : ticks ≠ []) :
    (emitBurst response ticks sink).2.scratch = (sink.encodeBurst ticks).scratch := by
  unfold emitBurst
  rw [if_neg (not_lt.2 hlen), if_neg hne]
  have hstart := scratch_startTransmits response (List.finRange 4)
    ({ sink with burstSeq := sink.burstSeq + 1 }.encodeBurst ticks)
  dsimp only
  cases hrun : startTransmits response (List.finRange 4)
      ({ sink with burstSeq := sink.burstSeq + 1 }.encodeBurst ticks) with
  | mk result sink' =>
    rw [hrun] at hstart
    cases result with
    | error e => exact hstart
    | ok _ =>
      dsimp only
      rw [scratch_waitTransmits]
      exact hstart

end RmtStepSink

/-! ## The counting sink -/

/-- The sink with the step counter that follows it and the position published for the
status report. -/
structure CountingSink where
  /-- The hardware. -/
  inner : RmtStepSink
  /-- The counter. -/
  counter : StepCounter
  /-- Publish after every burst. -/
  publishPerBurst : Bool
  /-- The published position. -/
  livePosition : Axes Int32

/-- A burst with what happens around it: a reset that is pending, and what the
hardware does. -/
structure BurstCall where
  /-- A soft reset is pending. -/
  resetPending : Bool
  /-- The response of the hardware. -/
  response : RmtResponse
  /-- The ticks. -/
  ticks : List StepEvent

namespace CountingSink

/-- Latch the directions on the counter and on the hardware. -/
def setDirection (dir : DirState) (sink : CountingSink) :
    Except StepError Unit × CountingSink :=
  let counter := sink.counter.setDirection dir
  match sink.inner.setDirection dir with
  | (result, inner) => (result, { sink with inner, counter })

/-- Emit a burst, then count it. Nothing is emitted when a reset is pending, and
nothing is counted when the hardware failed. -/
def emitBurst (call : BurstCall) (sink : CountingSink) :
    Except StepError Unit × CountingSink :=
  if call.resetPending then (.error .transport, sink)
  else
    match sink.inner.emitBurst call.response call.ticks with
    | (.error e, inner) => (.error e, { sink with inner })
    | (.ok (), inner) =>
      let counter := sink.counter.follow call.ticks
      (.ok (), { sink with
        inner, counter
        livePosition := if sink.publishPerBurst then counter.position
          else sink.livePosition })

/-- **What an accepted burst did**: it was not too long, the hardware took it, and
the counter followed it. -/
theorem emitBurst_ok {call : BurstCall} {sink : CountingSink}
    (h : (sink.emitBurst call).1 = .ok ()) :
    call.ticks.length ≤ maxSymbolsPerBurst
      ∧ (sink.emitBurst call).2.inner
        = (sink.inner.emitBurst call.response call.ticks).2
      ∧ (sink.emitBurst call).2.counter = sink.counter.follow call.ticks := by
  have hlen : call.ticks.length ≤ maxSymbolsPerBurst := by
    by_contra hlong
    have hrun : sink.inner.emitBurst call.response call.ticks
        = (.error .burstTooLong, { sink.inner with lastError := some (.burstTooLong xAxis) }) := by
      unfold RmtStepSink.emitBurst
      rw [if_pos (not_le.1 hlong)]
    unfold emitBurst at h
    rw [hrun] at h
    split at h
    · cases h
    · cases h
  refine ⟨hlen, ?_⟩
  unfold emitBurst at h ⊢
  split at h
  · cases h
  · rename_i hreset
    rw [if_neg hreset]
    cases hrun : sink.inner.emitBurst call.response call.ticks with
    | mk result inner =>
      rw [hrun] at h
      cases result with
      | error e => cases h
      | ok _ => exact ⟨rfl, rfl⟩

/-- What happens to the sink over time. -/
inductive Op
  /-- `set_direction`. -/
  | setDirection (dir : DirState)
  /-- `emit_burst`. -/
  | emitBurst (call : BurstCall)
  /-- The counter is put at a position. -/
  | syncTo (position : Axes Int32)

/-- The sink after an operation. -/
def apply (sink : CountingSink) : Op → CountingSink
  | .setDirection dir => (sink.setDirection dir).2
  | .emitBurst call => (sink.emitBurst call).2
  | .syncTo position => { sink with counter := sink.counter.syncTo position }

/-- The A channel has never been encoded. -/
def RotaryIdle (sink : CountingSink) : Prop :=
  sink.inner.scratch aAxis = Vector.replicate _ .endMarker

theorem RotaryIdle.apply {sink : CountingSink} (h : sink.RotaryIdle) (op : Op) :
    (sink.apply op).RotaryIdle := by
  cases op with
  | setDirection dir => exact h
  | syncTo position => exact h
  | emitBurst call =>
    show (sink.emitBurst call).2.inner.scratch aAxis = _
    have hinner : (sink.emitBurst call).2.inner = sink.inner
        ∨ (sink.emitBurst call).2.inner
          = (sink.inner.emitBurst call.response call.ticks).2 := by
      unfold emitBurst
      split
      · exact Or.inl rfl
      · right
        cases sink.inner.emitBurst call.response call.ticks with
        | mk result inner => cases result <;> rfl
    rcases hinner with hinner | hinner
    · rw [hinner]
      exact h
    · rw [hinner]
      by_cases hlen : call.ticks.length ≤ maxSymbolsPerBurst
      · by_cases hne : call.ticks = []
        · unfold RmtStepSink.emitBurst
          rw [if_neg (not_lt.2 hlen), if_pos hne]
          exact h
        · rw [RmtStepSink.scratch_emitBurst _ _ hlen hne,
            RmtStepSink.scratch_encodeBurst_rotary]
          exact h
      · unfold RmtStepSink.emitBurst
        rw [if_pos (not_le.1 hlen)]
        exact h

theorem RotaryIdle.run {sink : CountingSink} (h : sink.RotaryIdle) (ops : List Op) :
    (ops.foldl CountingSink.apply sink).RotaryIdle := by
  induction ops generalizing sink with
  | nil => exact h
  | cons op ops ih => exact ih (h.apply op)

end CountingSink

/-! ## What is sent -/

/-- A tick can be encoded: the pulse and the rest each fit their field. -/
def Encodable (stepPulseTicks : ℕ) (event : StepEvent) : Prop :=
  1 ≤ stepPulseTicks ∧ stepPulseTicks ≤ rmtMaxFieldLen
    ∧ stepPulseTicks < event.periodTicks
    ∧ event.periodTicks ≤ rmtMaxFieldLen + stepPulseTicks

theorem clampLen_of_le {ticks : ℕ} (h : ticks ≤ rmtMaxFieldLen) : clampLen ticks = ticks :=
  if_neg (not_lt.2 h)

/-- The two parts of a silent symbol are not zero, fit their fields, and make up the
period. -/
theorem silentSymbolHalves_spec {period : ℕ} (hlow : 2 ≤ period)
    (hhigh : period ≤ rmtMaxFieldLen + rmtMaxFieldLen) :
    1 ≤ (silentSymbolHalves period).1 ∧ (silentSymbolHalves period).1 ≤ rmtMaxFieldLen
      ∧ 1 ≤ (silentSymbolHalves period).2 ∧ (silentSymbolHalves period).2 ≤ rmtMaxFieldLen
      ∧ (silentSymbolHalves period).1 + (silentSymbolHalves period).2 = period := by
  unfold rmtMaxFieldLen at hhigh ⊢
  simp only [silentSymbolHalves]
  omega

/-- **A tick is encoded for exactly its period**, in a symbol that is no end marker
and has a pulse when the axis steps. -/
theorem encodeTick_spec {stepPulseTicks : ℕ} {event : StepEvent}
    (h : Encodable stepPulseTicks event) (axis : Fin 4) :
    (RmtStepSink.encodeTick stepPulseTicks axis event).duration = event.periodTicks
      ∧ (RmtStepSink.encodeTick stepPulseTicks axis event).isEndMarker = false
      ∧ ((RmtStepSink.encodeTick stepPulseTicks axis event).level1 = .high
        ↔ event.step axis = true) := by
  obtain ⟨hpulse, hfield, hperiod, hlong⟩ := h
  have hmax : max event.periodTicks (stepPulseTicks + 1) = event.periodTicks :=
    max_eq_left hperiod
  unfold RmtStepSink.encodeTick
  rw [hmax]
  cases hstep : event.step axis with
  | true =>
    have hrest : event.periodTicks - stepPulseTicks ≤ rmtMaxFieldLen := by omega
    rw [if_pos rfl, clampLen_of_le hfield, clampLen_of_le hrest]
    simp only [PulseCode.newClamped, PulseCode.duration, PulseCode.isEndMarker,
      min_eq_left hfield, min_eq_left hrest, Bool.or_eq_false_iff, beq_eq_false_iff_ne,
      ne_eq]
    exact ⟨by omega, by omega, by simp⟩
  | false =>
    have hlow : 2 ≤ event.periodTicks := by omega
    obtain ⟨ha, ha', hb, hb', hsum⟩ := silentSymbolHalves_spec hlow (by omega)
    rw [if_neg Bool.false_ne_true]
    dsimp only
    rw [clampLen_of_le ha', clampLen_of_le hb']
    simp only [PulseCode.newClamped, PulseCode.duration, PulseCode.isEndMarker,
      min_eq_left ha', min_eq_left hb', Bool.or_eq_false_iff, beq_eq_false_iff_ne, ne_eq]
    exact ⟨hsum, by omega, by simp⟩

/-- A channel carries what was asked for: as many pulses as its axis has steps, each
tick for its period, and no end marker before the last symbol. -/
structure ChannelConserved (sink : RmtStepSink) (ticks : List StepEvent) (axis : Fin 4) :
    Prop where
  /-- The pulses are the steps. -/
  pulses : PulseCode.pulses (sink.sent ticks axis) = stepCount ticks axis
  /-- Each tick lasts its period. -/
  periods : (sink.sent ticks axis).dropLast.map PulseCode.duration
    = ticks.map StepEvent.periodTicks
  /-- The channel does not stop early. -/
  markers : ∀ code ∈ (sink.sent ticks axis).dropLast, code.isEndMarker = false

/-- How long a channel transmits. -/
def channelDuration (sink : RmtStepSink) (ticks : List StepEvent) (axis : Fin 4) : ℕ :=
  ((sink.sent ticks axis).map PulseCode.duration).sum

/-- A burst conserves the steps of an axis: its channel carries them, lasts as long
as the others, and the counter moves by the pulses that were sent. -/
structure BurstConserved (before after : CountingSink) (ticks : List StepEvent)
    (axis : Fin 4) : Prop where
  /-- The channel carries what was asked for. -/
  channel : ChannelConserved after.inner ticks axis
  /-- The channels are aligned. -/
  aligned : ∀ other, channelDuration after.inner ticks axis
    = channelDuration after.inner ticks other
  /-- The counter moves by the pulses. -/
  counter : (after.counter.position axis).toInt = (before.counter.position axis).toInt
    + signedCount (before.counter.dir axis) (PulseCode.pulses (after.inner.sent ticks axis))

/-- What is sent of ticks that can be encoded. -/
theorem channelConserved_of_encode {sink : RmtStepSink} {ticks : List StepEvent}
    {axis : Fin 4} {stepPulseTicks : ℕ}
    (hsent : sink.sent ticks axis
      = ticks.map (RmtStepSink.encodeTick stepPulseTicks axis) ++ [.endMarker])
    (hticks : ∀ event ∈ ticks, Encodable stepPulseTicks event) :
    ChannelConserved sink ticks axis where
  pulses := by
    rw [hsent]
    unfold PulseCode.pulses
    rw [List.takeWhile_append_of_pos]
    · show List.countP _ (_ ++ []) = _
      rw [List.append_nil, List.countP_map]
      refine List.countP_congr fun event hevent => ?_
      show decide _ = true ↔ _
      rw [decide_eq_true_iff]
      exact (encodeTick_spec (hticks event hevent) axis).2.2
    · intro code hcode
      obtain ⟨event, hevent, rfl⟩ := List.mem_map.1 hcode
      rw [(encodeTick_spec (hticks event hevent) axis).2.1]
      rfl
  periods := by
    rw [hsent, List.dropLast_concat, List.map_map]
    exact List.map_congr_left fun event hevent =>
      (encodeTick_spec (hticks event hevent) axis).1
  markers code hcode := by
    rw [hsent, List.dropLast_concat] at hcode
    obtain ⟨event, hevent, rfl⟩ := List.mem_map.1 hcode
    exact (encodeTick_spec (hticks event hevent) axis).2.1

namespace CountingSink

/-- What a linear channel sends for an accepted burst of ticks that can be encoded is
what was asked for. -/
theorem sent_linear {sink : CountingSink} {call : BurstCall}
    (hok : (sink.emitBurst call).1 = .ok ())
    (hticks : ∀ event ∈ call.ticks, Encodable sink.inner.stepPulseTicks event)
    {axis : Fin 4} (haxis : axis ≠ aAxis) :
    ChannelConserved (sink.emitBurst call).2.inner call.ticks axis := by
  obtain ⟨hlen, hinner, _⟩ := emitBurst_ok hok
  rw [hinner]
  by_cases hne : call.ticks = []
  · refine ⟨?_, ?_, ?_⟩ <;> rw [hne, RmtStepSink.sent, if_pos rfl]
    · rfl
    · rfl
    · exact fun code h => absurd h List.not_mem_nil
  · refine channelConserved_of_encode ?_ hticks
    unfold RmtStepSink.sent
    rw [if_neg hne, RmtStepSink.scratch_emitBurst _ _ hlen hne]
    exact RmtStepSink.scratch_encodeBurst_linear sink.inner haxis hlen

/-- **What the A channel sends is end markers.** -/
theorem sent_rotary {sink : CountingSink} (hidle : sink.RotaryIdle) {call : BurstCall}
    (hok : (sink.emitBurst call).1 = .ok ()) :
    (sink.emitBurst call).2.inner.sent call.ticks aAxis
      = if call.ticks = [] then [] else List.replicate (call.ticks.length + 1) .endMarker := by
  obtain ⟨hlen, hinner, _⟩ := emitBurst_ok hok
  rw [hinner]
  unfold RmtStepSink.sent
  split
  · rfl
  · rename_i hne
    rw [RmtStepSink.scratch_emitBurst _ _ hlen hne, RmtStepSink.scratch_encodeBurst_rotary,
      hidle, Vector.toList_replicate, List.take_replicate,
      Nat.min_eq_left (Nat.succ_le_succ hlen)]

/-- **A burst conserves the steps of every axis only when it is empty.** The A
channel sends nothing in any burst. The linear channels carry what they are
asked for, and the counter follows them, cut to the 32-bit range. -/
theorem burst_conserved_iff (start : CountingSink) (stepPulseTicks : ℕ)
    (hstart : start.inner = .new stepPulseTicks) (ops : List Op) (call : BurstCall)
    (hok : ((ops.foldl apply start).emitBurst call).1 = .ok ()) :
    ((∀ axis, BurstConserved (ops.foldl apply start)
        ((ops.foldl apply start).emitBurst call).2 call.ticks axis) ↔ call.ticks = [])
      ∧ PulseCode.pulses
          (((ops.foldl apply start).emitBurst call).2.inner.sent call.ticks aAxis) = 0
      ∧ ((∀ event ∈ call.ticks,
          Encodable (ops.foldl apply start).inner.stepPulseTicks event) →
        ∀ axis ≠ aAxis,
          ChannelConserved ((ops.foldl apply start).emitBurst call).2.inner call.ticks axis
          ∧ (((((ops.foldl apply start).emitBurst call).2.counter).position axis).toInt
            = clampI32 (((ops.foldl apply start).counter.position axis).toInt
              + signedCount ((ops.foldl apply start).counter.dir axis)
                (PulseCode.pulses
                  (((ops.foldl apply start).emitBurst call).2.inner.sent call.ticks
                    axis))))) := by
  have hidle : (ops.foldl apply start).RotaryIdle := by
    refine RotaryIdle.run ?_ ops
    unfold RotaryIdle
    rw [hstart]
    rfl
  set sink := ops.foldl apply start with hsink
  obtain ⟨_, _, hcounter⟩ := emitBurst_ok hok
  have hrotary := sent_rotary hidle hok
  refine ⟨⟨fun h => ?_, fun hempty => ?_⟩, ?_, fun hticks axis haxis => ?_⟩
  · by_contra hne
    have hmarkers := (h aAxis).channel.markers
    rw [hrotary, if_neg hne, List.dropLast_replicate] at hmarkers
    have hmem : PulseCode.endMarker ∈ List.replicate (call.ticks.length + 1 - 1) .endMarker :=
      List.mem_replicate.2 ⟨by simpa using hne, rfl⟩
    exact absurd (hmarkers _ hmem) (by decide)
  · have hsent : ∀ axis, (sink.emitBurst call).2.inner.sent call.ticks axis = [] := by
      intro axis
      unfold RmtStepSink.sent
      rw [if_pos hempty]
    intro axis
    refine ⟨⟨?_, ?_, ?_⟩, fun other => ?_, ?_⟩
    · rw [hsent, hempty]
      rfl
    · rw [hsent, hempty]
      rfl
    · rw [hsent]
      exact fun code h => absurd h List.not_mem_nil
    · unfold channelDuration
      rw [hsent, hsent]
    · rw [hsent, hcounter, hempty]
      show _ = _ + signedCount _ 0
      unfold signedCount
      simp [StepCounter.follow]
  · rw [hrotary]
    split
    · rfl
    · rw [List.replicate_succ]
      rfl
  · have hchannel := sent_linear hok hticks haxis
    refine ⟨hchannel, ?_⟩
    rw [hcounter, StepCounter.toInt_follow, hchannel.pulses]

/-- The sink at the start of a run, with pulses of 10 ticks. -/
def bench : CountingSink := ⟨.new 10, .new, true, fun _ => 0⟩

/-- One tick on an axis, that the hardware takes. -/
def stepOn (axis : Fin 4) : BurstCall :=
  ⟨false, ⟨fun _ => true, fun _ => true⟩, [⟨fun other => decide (other = axis), 100⟩]⟩

theorem burst_conserved_iff_bench :
    (¬∀ axis, BurstConserved bench (bench.emitBurst (stepOn xAxis)).2 (stepOn xAxis).ticks
        axis)
      ∧ ChannelConserved (bench.emitBurst (stepOn xAxis)).2.inner (stepOn xAxis).ticks
        xAxis := by
  have h := burst_conserved_iff bench 10 rfl [] (stepOn xAxis) (by decide)
  refine ⟨fun hall => absurd (h.1.1 hall) (by decide), (h.2.2 ?_ xAxis (by decide)).1⟩
  show ∀ event ∈ [(⟨fun other => decide (other = xAxis), 100⟩ : StepEvent)],
    Encodable 10 event
  rintro event hevent
  rw [List.mem_singleton.1 hevent]
  exact ⟨by decide, by decide, by decide, by decide⟩

/-- **A step of the A axis is counted and not sent.** -/
theorem rotary_step_lost :
    (bench.emitBurst (stepOn aAxis)).1 = .ok ()
      ∧ stepCount (stepOn aAxis).ticks aAxis = 1
      ∧ PulseCode.pulses
          ((bench.emitBurst (stepOn aAxis)).2.inner.sent (stepOn aAxis).ticks aAxis) = 0
      ∧ (bench.emitBurst (stepOn aAxis)).2.counter.position aAxis = 1
      ∧ ¬∀ axis, BurstConserved bench (bench.emitBurst (stepOn aAxis)).2
        (stepOn aAxis).ticks axis :=
  ⟨by decide, by decide, by decide, by decide,
    fun h => absurd (h aAxis).channel.pulses (by decide)⟩

end CountingSink

/-! ## The ticks of the generator can be encoded -/

section Generator

variable {K : Type} [Field K] [LinearOrder K] [FloorRing K] [Libm K]

theorem clampTicks_mem {lo hi ticks : ℕ} (h : lo ≤ hi) :
    lo ≤ clampTicks lo hi ticks ∧ clampTicks lo hi ticks ≤ hi :=
  ⟨le_max_left _ _, max_le h (min_le_right _ _)⟩

/-- A period of the generator is one the hardware can be given. -/
theorem periodTicks_mem (config : MotionConfig K) (block : Block K) (dominant : Fin 4)
    (vSq : K) :
    config.minPeriodTicks ≤ (StepTiming.forBlock config block dominant).periodTicks vSq
      ∧ (StepTiming.forBlock config block dominant).periodTicks vSq
        ≤ config.maxPeriodTicks := by
  have hle : config.minPeriodTicks ≤ config.maxPeriodTicks := le_max_right _ _
  unfold StepTiming.periodTicks
  dsimp only
  split_ifs <;> exact clampTicks_mem hle

/-- **Every tick the generator emits can be encoded**, when the pulse and the rest it
is configured with fit their fields. -/
theorem encodable_runBlockScaled {config : MotionConfig K} (husable : ¬config.Unusable)
    (hpulse : 1 ≤ config.stepPulseTicks) (hpulse' : config.stepPulseTicks ≤ rmtMaxFieldLen)
    (hlow : 1 ≤ config.minLowTicks) (hlow' : config.minLowTicks ≤ rmtMaxFieldLen)
    {block : Block K} (hevents : block.stepEventCount = dominantSteps block.steps)
    (hmove : block.stepEventCount ≠ 0) (exitSpeedSq overrideScale : K)
    (maxSpeedSq : WithTop K) :
    ∀ event ∈ (SegmentGenerator.runBlockScaled config block exitSpeedSq overrideScale
        maxSpeedSq RecordingSink.new).2.allTicks,
      Encodable config.stepPulseTicks event := by
  rw [SegmentGenerator.runBlockScaled_recording husable hevents hmove]
  intro event hevent
  have hflat : event ∈ (SegmentGenerator.toBursts [] (ddaEvents block.steps
      (SegmentGenerator.scaledPeriod config block exitSpeedSq overrideScale maxSpeedSq) 0
      block.stepEventCount)).flatten := hevent
  rw [SegmentGenerator.flatten_toBursts] at hflat
  obtain ⟨tick, _, rfl⟩ := List.mem_map.1 hflat
  obtain ⟨hmin, hmax⟩ := periodTicks_mem config block (dominantAxis block.steps)
    ((SegmentGenerator.scaledProfile block exitSpeedSq overrideScale
      maxSpeedSq).velocitySqAt _)
  refine ⟨hpulse, hpulse', lt_of_lt_of_le ?_ hmin, hmax.trans ?_⟩
  · unfold MotionConfig.minPeriodTicks
    omega
  · unfold MotionConfig.maxPeriodTicks MotionConfig.minPeriodTicks
    omega

theorem encodable_runBlockScaled_bench :
    ∃ event, Encodable 10 event ∧ event ∈ (SegmentGenerator.runBlockScaled
      (⟨1000000, 10, 2⟩ : MotionConfig ℚ) (Block.placeholder ![1, 0, 0, 0]) 0 1 ⊤
        RecordingSink.new).2.allTicks := by
  refine (List.exists_mem_of_ne_nil _ ?_).imp fun event hevent => ⟨encodable_runBlockScaled
    (by decide) (by decide) (by decide) (by decide) (by decide) rfl (by decide) 0 1 ⊤ event hevent,
    hevent⟩
  decide +kernel

end Generator

end Galdr
