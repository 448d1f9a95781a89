import Galdr.DriverManager

/-!
# Whether a driver that is online is configured

A driver is found configured by its counter of accepted writes, and after that the manager asks
only for its status. As long as no driver loses its power, from the first reading of the counter
on, each that is online holds the values it was configured with. A driver that has lost it after
that answers the status as cleanly as before, stays online with its registers at their reset
values, and is never configured again (`online_configured`).
-/

namespace Galdr.Tmc

section Wire

variable {wire : Wire} {node other : Fin axisCount} {bus bus' bus'' : Bus}

/-! ## What an exchange does -/

theorem readReg_snd (reg : Reg) :
    (readReg wire node reg bus).2 = exchanged wire bus node (powered wire bus node) := rfl

theorem readReg_ok {reg : Reg} {val : UInt32} (h : readReg wire node reg bus = (.ok val, bus')) :
    bus' = exchanged wire bus node (powered wire bus node)
      ∧ (wire.exchange bus.exchanges).heard = true
      ∧ val = if reg = .ifcnt then (powered wire bus node).ifcnt.toUInt32
        else ((powered wire bus node).regs.get reg).getD (wire.exchange bus.exchanges).raw := by
  refine ⟨(congrArg Prod.snd h).symm, ?_⟩
  have hval := congrArg Prod.fst h
  unfold readReg at hval
  cases hfailed : (wire.exchange bus.exchanges).failed with
  | some error =>
    simp only [hfailed] at hval
    exact nomatch hval
  | none =>
    cases hheard : (wire.exchange bus.exchanges).heard with
    | false =>
      simp only [hfailed, hheard] at hval
      exact nomatch hval
    | true =>
      simp only [hfailed, hheard] at hval
      exact ⟨rfl, (Except.ok.inj hval).symm⟩

theorem writeReg_snd (reg : Reg) (val : UInt32) :
    (writeReg wire node reg val bus).2 = exchanged wire bus node
      (if (wire.exchange bus.exchanges).heard then
        ⟨(powered wire bus node).regs.write reg val, (powered wire bus node).ifcnt + 1⟩
      else powered wire bus node) := rfl

/-- A driver has lost its power from one exchange until another. -/
def Lost (wire : Wire) (node : Fin axisCount) (since till : ℕ) : Prop :=
  ∃ k, since ≤ k ∧ k < till ∧ (wire.exchange k).lost node = true

theorem not_lost_self (n : ℕ) : ¬Lost wire node n n := by
  rintro ⟨k, hle, hlt, -⟩
  omega

theorem Lost.mono {a b c d : ℕ} (h : Lost wire node a b) (hca : c ≤ a) (hbd : b ≤ d) :
    Lost wire node c d := by
  obtain ⟨k, hle, hlt, hlost⟩ := h
  exact ⟨k, hca.trans hle, hlt.trans_le hbd, hlost⟩

theorem lost_trans_iff {a b c : ℕ} (hab : a ≤ b) (hbc : b ≤ c) :
    Lost wire node a c ↔ Lost wire node a b ∨ Lost wire node b c := by
  constructor
  · rintro ⟨k, hle, hlt, hlost⟩
    rcases Nat.lt_or_ge k b with hkb | hkb
    · exact .inl ⟨k, hle, hkb, hlost⟩
    · exact .inr ⟨k, hkb, hlt, hlost⟩
  · rintro (h | h)
    · exact h.mono le_rfl hbc
    · exact h.mono hab le_rfl

theorem lost_succ_iff (n : ℕ) :
    Lost wire node n (n + 1) ↔ (wire.exchange n).lost node = true := by
  constructor
  · rintro ⟨k, hle, hlt, hlost⟩
    obtain rfl : k = n := by omega
    exact hlost
  · exact fun h => ⟨n, le_rfl, Nat.lt_succ_self n, h⟩

/-- A driver that was not written to holds what it held, unless it has lost its power. -/
structure Passed (wire : Wire) (node : Fin axisCount) (bus bus' : Bus) : Prop where
  le : bus.exchanges ≤ bus'.exchanges
  kept : ¬Lost wire node bus.exchanges bus'.exchanges → bus'.drivers node = bus.drivers node
  reset : Lost wire node bus.exchanges bus'.exchanges → bus'.drivers node = ⟨wire.reset, 0⟩

theorem Passed.refl (bus : Bus) : Passed wire node bus bus :=
  ⟨le_rfl, fun _ => rfl, fun h => absurd h (not_lost_self _)⟩

theorem Passed.trans (h : Passed wire node bus bus') (h' : Passed wire node bus' bus'') :
    Passed wire node bus bus'' := by
  refine ⟨h.le.trans h'.le, ?_, ?_⟩
  · rw [lost_trans_iff h.le h'.le]
    intro hnot
    rw [h'.kept fun hlost => hnot (.inr hlost), h.kept fun hlost => hnot (.inl hlost)]
  · rw [lost_trans_iff h.le h'.le]
    intro hlost
    by_cases hlast : Lost wire node bus'.exchanges bus''.exchanges
    · exact h'.reset hlast
    · rw [h'.kept hlast, h.reset (hlost.resolve_right hlast)]

/-- At an exchange a driver that is not written to is powered or reset. -/
theorem passed_of_eq (hexchanges : bus'.exchanges = bus.exchanges + 1)
    (hdriver : bus'.drivers node = powered wire bus node) : Passed wire node bus bus' := by
  rw [powered] at hdriver
  refine ⟨by omega, ?_, ?_⟩
  · rw [hexchanges, lost_succ_iff]
    intro hnot
    rw [hdriver, if_neg hnot]
  · rw [hexchanges, lost_succ_iff]
    intro hlost
    rw [hdriver, if_pos hlost]

/-- A driver that the exchanges were not with. -/
structure Untouched (wire : Wire) (node : Fin axisCount) (bus bus' : Bus) : Prop extends
    Passed wire node bus bus' where
  answered : bus'.answered node = bus.answered node
  answeredAt : bus'.answeredAt node = bus.answeredAt node

theorem Untouched.refl (bus : Bus) : Untouched wire node bus bus := ⟨.refl bus, rfl, rfl⟩

theorem Untouched.trans (h : Untouched wire node bus bus') (h' : Untouched wire node bus' bus'') :
    Untouched wire node bus bus'' :=
  ⟨h.toPassed.trans h'.toPassed, h'.answered.trans h.answered, h'.answeredAt.trans h.answeredAt⟩

/-- An exchange does not touch the drivers it is not with. -/
theorem untouched_exchanged (hne : other ≠ node) (driver : Driver) :
    Untouched wire other bus (exchanged wire bus node driver) := by
  refine ⟨passed_of_eq rfl ?_, ?_, ?_⟩
  · exact Function.update_of_ne hne _ _
  all_goals
    unfold exchanged
    dsimp only
    split
    · exact Function.update_of_ne hne _ _
    · rfl

/-- A read leaves the driver as it is. -/
theorem passed_readReg (reg : Reg) : Passed wire node bus (readReg wire node reg bus).2 :=
  passed_of_eq rfl (Function.update_self _ _ _)

/-! ## Writing a table -/

theorem writeAll_untouched (hne : other ≠ node) (table : List (Reg × UInt32)) (bus : Bus) :
    Untouched wire other bus (writeAll wire node table bus).2 := by
  induction table generalizing bus with
  | nil => exact .refl bus
  | cons entry rest ih =>
    have hwrite : Untouched wire other bus (writeReg wire node entry.1 entry.2 bus).2 :=
      untouched_exchanged hne _
    unfold writeAll
    cases hresult : writeReg wire node entry.1 entry.2 bus with
    | mk result next =>
      rw [hresult] at hwrite
      cases result with
      | ok => exact hwrite.trans (ih next)
      | error error => exact hwrite

/-- **A table that was written with no failure.** As many exchanges as it has writes, and while the
driver keeps its power its counter has counted those it accepted; when it accepted all, its
registers are those of the table. -/
theorem writeAll_ok {table : List (Reg × UInt32)}
    (h : writeAll wire node table bus = (.ok (), bus')) :
    bus'.exchanges = bus.exchanges + table.length
      ∧ (¬Lost wire node bus.exchanges bus'.exchanges → ∃ accepted ≤ table.length,
        (bus'.drivers node).ifcnt = (bus.drivers node).ifcnt + UInt8.ofNat accepted
          ∧ (accepted = table.length →
            (bus'.drivers node).regs = (bus.drivers node).regs.writeAll table)) := by
  induction table generalizing bus with
  | nil =>
    obtain rfl : bus = bus' := congrArg Prod.snd h
    exact ⟨rfl, fun _ => ⟨0, le_rfl, (UInt8.add_zero _).symm, fun _ => rfl⟩⟩
  | cons entry rest ih =>
    have hsnd : (writeReg wire node entry.1 entry.2 bus).2 = _ := writeReg_snd entry.1 entry.2
    unfold writeAll at h
    cases hresult : writeReg wire node entry.1 entry.2 bus with
    | mk result next =>
      rw [hresult] at h hsnd
      cases result with
      | error error => exact nomatch congrArg Prod.fst h
      | ok =>
        obtain ⟨hexchanges, hcount⟩ := ih h
        have hnext : next.exchanges = bus.exchanges + 1 := by
          rw [show next = _ from hsnd]
          rfl
        refine ⟨by rw [hexchanges, hnext, List.length_cons]; omega, fun hkept => ?_⟩
        rw [lost_trans_iff (b := next.exchanges) (by omega) (by omega)] at hkept
        obtain ⟨accepted, hle, hifcnt, hregs⟩ := hcount fun hlost => hkept (.inr hlost)
        have hpowered : powered wire bus node = bus.drivers node := by
          rw [powered, if_neg]
          rw [← lost_succ_iff, ← hnext]
          exact fun hlost => hkept (.inl hlost)
        have hdriver : next.drivers node = if (wire.exchange bus.exchanges).heard then
            ⟨(bus.drivers node).regs.write entry.1 entry.2, (bus.drivers node).ifcnt + 1⟩
            else bus.drivers node := by
          rw [show next = _ from hsnd, hpowered]
          exact Function.update_self _ _ _
        cases hheard : (wire.exchange bus.exchanges).heard with
        | true =>
          rw [hheard, if_pos rfl] at hdriver
          rw [hdriver] at hifcnt hregs
          refine ⟨accepted + 1, Nat.succ_le_succ hle, ?_, fun hall => hregs (Nat.succ.inj hall)⟩
          rw [hifcnt, UInt8.ofNat_add, UInt8.add_comm (UInt8.ofNat accepted), ← UInt8.add_assoc]
          rfl
        | false =>
          rw [hheard, if_neg Bool.false_ne_true] at hdriver
          rw [hdriver] at hifcnt
          refine ⟨accepted, hle.trans (Nat.le_succ _), hifcnt, fun hall => ?_⟩
          rw [List.length_cons] at hall
          omega

end Wire

/-! ## Initializing an axis -/

section Manager

variable {K : Type} [Field K] [LinearOrder K] [FloorRing K] {wire : Wire} {config : TmcConfig K}
  {axis : Fin axisCount} {other : Fin axisCount} {bus bus' : Bus}

/-- The exchanges of an initialization from the first reading of the counter on. -/
def programExchanges : ℕ := 9

/-- The registers hold what the driver of an axis is configured with. -/
def Configured (config : TmcConfig K) (axis : Fin axisCount) (regs : Registers) : Prop :=
  ∃ table ∈ writeTable config axis, regs.Holds table

theorem writeConfig_ok {writes : UInt8}
    (h : writeConfig wire config axis bus = (.ok writes, bus')) :
    ∃ table ∈ writeTable config axis, writes = UInt8.ofNat table.length
      ∧ writeAll wire (config.axes axis).node table bus = (.ok (), bus') := by
  unfold writeConfig at h
  cases htable : writeTable config axis with
  | none =>
    simp only [htable] at h
    exact nomatch congrArg Prod.fst h
  | some table =>
    simp only [htable] at h
    cases hall : writeAll wire (config.axes axis).node table bus with
    | mk result next =>
      rw [hall] at h
      cases result with
      | error error => exact nomatch congrArg Prod.fst h
      | ok =>
        obtain ⟨hwrites, rfl⟩ := Prod.mk.inj h
        exact ⟨table, rfl, (Except.ok.inj hwrites).symm, hall⟩

/-- What a driver that has been programmed has done. -/
theorem programAxis_ok (h : programAxis wire config axis bus = (.ok (), bus')) :
    ∃ (before after : UInt32) (table : List (Reg × UInt32)) (first last : Bus),
      table ∈ writeTable config axis
      ∧ readReg wire (config.axes axis).node .ifcnt bus = (.ok before, first)
      ∧ writeAll wire (config.axes axis).node table first = (.ok (), last)
      ∧ readReg wire (config.axes axis).node .ifcnt last = (.ok after, bus')
      ∧ ifcnt after - ifcnt before = UInt8.ofNat table.length := by
  unfold programAxis at h
  dsimp only at h
  cases hbefore : readReg wire (config.axes axis).node .ifcnt bus with
  | mk result first =>
    rw [hbefore] at h
    cases result with
    | error error => exact nomatch congrArg Prod.fst h
    | ok before =>
      dsimp only at h
      cases hconfig : writeConfig wire config axis first with
      | mk result last =>
        rw [hconfig] at h
        cases result with
        | error error => exact nomatch congrArg Prod.fst h
        | ok writes =>
          dsimp only at h
          cases hafter : readReg wire (config.axes axis).node .ifcnt last with
          | mk result next =>
            rw [hafter] at h
            cases result with
            | error error => exact nomatch congrArg Prod.fst h
            | ok after =>
              dsimp only at h
              obtain ⟨table, htable, hwrites, hall⟩ := writeConfig_ok hconfig
              by_cases hdelta : ifcnt after - ifcnt before ≠ writes
              · rw [if_pos hdelta] at h
                exact nomatch congrArg Prod.fst h
              · rw [if_neg hdelta] at h
                obtain rfl : next = bus' := congrArg Prod.snd h
                exact ⟨before, after, table, first, last, htable, rfl, hall, hafter,
                  (not_not.1 hdelta).trans hwrites⟩

/-- **A driver that kept its power while it was programmed is configured.** Its counter has counted
eight writes, so that it has accepted all of them. -/
theorem configured_of_programAxis (h : programAxis wire config axis bus = (.ok (), bus')) :
    programExchanges ≤ bus'.exchanges
      ∧ bus'.answeredAt (config.axes axis).node = bus'.exchanges
      ∧ bus'.answered (config.axes axis).node = (bus'.drivers (config.axes axis).node).regs
      ∧ (¬Lost wire (config.axes axis).node (bus'.exchanges - programExchanges) bus'.exchanges →
        Configured config axis (bus'.drivers (config.axes axis).node).regs) := by
  obtain ⟨before, after, table, first, last, htable, hbefore, hall, hafter, hdelta⟩ :=
    programAxis_ok h
  have hlength := length_writeTable htable
  obtain ⟨hfirst, -, hvalBefore⟩ := readReg_ok hbefore
  obtain ⟨hlast, hheard, hvalAfter⟩ := readReg_ok hafter
  obtain ⟨hexchanges, hcount⟩ := writeAll_ok hall
  rw [hlength] at hexchanges
  have hfirstExchanges : first.exchanges = bus.exchanges + 1 := by
    rw [hfirst]
    rfl
  have hlastExchanges : bus'.exchanges = last.exchanges + 1 := by
    rw [hlast]
    rfl
  have hstart : bus'.exchanges - programExchanges = first.exchanges := by
    unfold programExchanges
    omega
  refine ⟨by unfold programExchanges; omega, ?_, ?_, ?_⟩
  · rw [hlast]
    unfold exchanged
    rw [hheard]
    exact Function.update_self _ _ _
  · rw [hlast]
    unfold exchanged
    rw [hheard]
    dsimp only
    rw [if_pos rfl, Function.update_self, Function.update_self]
  · rw [hstart, lost_trans_iff (b := last.exchanges) (by omega) (by omega)]
    intro hkept
    obtain ⟨accepted, hle, hifcnt, hregs⟩ := hcount fun hlost => hkept (.inl hlost)
    have hpassed : Passed wire (config.axes axis).node last
        (readReg wire (config.axes axis).node .ifcnt last).2 := passed_readReg .ifcnt
    rw [hafter] at hpassed
    have hdriver := hpassed.kept fun hlost => hkept (.inr hlost)
    have hfirstDriver : first.drivers (config.axes axis).node
        = powered wire bus (config.axes axis).node := by
      rw [hfirst]
      exact Function.update_self _ _ _
    have hlastDriver : bus'.drivers (config.axes axis).node
        = powered wire last (config.axes axis).node := by
      rw [hlast]
      exact Function.update_self _ _ _
    rw [if_pos rfl, ← hfirstDriver] at hvalBefore
    rw [if_pos rfl, ← hlastDriver, hdriver] at hvalAfter
    have haccepted : accepted = table.length := by
      unfold ifcnt at hdelta
      rw [hvalBefore, hvalAfter, UInt8.toUInt8_toUInt32, UInt8.toUInt8_toUInt32, hifcnt] at hdelta
      have hnat := congrArg UInt8.toNat hdelta
      rw [UInt8.add_comm, UInt8.add_sub_cancel, hlength] at hnat
      rw [hlength] at hle ⊢
      rw [UInt8.toNat_ofNat', UInt8.toNat_ofNat', Nat.mod_eq_of_lt (by omega)] at hnat
      exact hnat
    rw [hdriver, hregs haccepted]
    exact ⟨table, htable, holds_writeAll htable _⟩

theorem readReg_untouched {node : Fin axisCount} (hne : other ≠ node) (reg : Reg) (bus : Bus) :
    Untouched wire other bus (readReg wire node reg bus).2 :=
  untouched_exchanged hne _

theorem writeConfig_untouched (hne : other ≠ (config.axes axis).node) (bus : Bus) :
    Untouched wire other bus (writeConfig wire config axis bus).2 := by
  unfold writeConfig
  cases writeTable config axis with
  | none => exact .refl bus
  | some table =>
    have hall : Untouched wire other bus (writeAll wire (config.axes axis).node table bus).2 :=
      writeAll_untouched hne table bus
    dsimp only
    cases hresult : writeAll wire (config.axes axis).node table bus with
    | mk result next =>
      rw [hresult] at hall
      cases result <;> exact hall

theorem programAxis_untouched (hne : other ≠ (config.axes axis).node) (bus : Bus) :
    Untouched wire other bus (programAxis wire config axis bus).2 := by
  unfold programAxis
  dsimp only
  have hbefore : Untouched wire other bus (readReg wire (config.axes axis).node .ifcnt bus).2 :=
    readReg_untouched hne .ifcnt bus
  cases hresult : readReg wire (config.axes axis).node .ifcnt bus with
  | mk result first =>
    rw [hresult] at hbefore
    cases result with
    | error error => exact hbefore
    | ok before =>
      dsimp only
      have hconfig : Untouched wire other bus (writeConfig wire config axis first).2 :=
        hbefore.trans (writeConfig_untouched hne first)
      cases hresult : writeConfig wire config axis first with
      | mk result last =>
        rw [hresult] at hconfig
        cases result with
        | error error => exact hconfig
        | ok writes =>
          dsimp only
          have hafter := hconfig.trans (readReg_untouched hne .ifcnt last)
          cases hresult : readReg wire (config.axes axis).node .ifcnt last with
          | mk result next =>
            rw [hresult] at hafter
            cases result with
            | error error => exact hafter
            | ok after =>
              dsimp only
              split <;> exact hafter

theorem initAxis_untouched (hne : other ≠ (config.axes axis).node) (bus : Bus) :
    Untouched wire other bus (initAxis wire config axis bus).2 := by
  unfold initAxis
  dsimp only
  have hversion : Untouched wire other bus (readReg wire (config.axes axis).node .ioin bus).2 :=
    readReg_untouched hne .ioin bus
  cases hresult : readReg wire (config.axes axis).node .ioin bus with
  | mk result first =>
    rw [hresult] at hversion
    cases result with
    | error error => cases error <;> exact hversion
    | ok raw =>
      dsimp only
      split
      · exact hversion
      · have hprogram : Untouched wire other bus (programAxis wire config axis first).2 :=
          hversion.trans (programAxis_untouched hne first)
        cases hresult : programAxis wire config axis first with
        | mk result last =>
          rw [hresult] at hprogram
          cases result <;> exact hprogram

/-- A driver that is found present has been programmed. -/
theorem initAxis_ok {report : AxisReport} (h : initAxis wire config axis bus = (.ok report, bus'))
    (hpresent : report.present = true) :
    ∃ first, programAxis wire config axis first = (.ok (), bus') := by
  unfold initAxis at h
  dsimp only at h
  cases hversion : readReg wire (config.axes axis).node .ioin bus with
  | mk result first =>
    rw [hversion] at h
    cases result with
    | error error =>
      cases error with
      | timeout =>
        obtain ⟨hreport, -⟩ := Prod.mk.inj h
        rw [← Except.ok.inj hreport] at hpresent
        exact nomatch hpresent
      | _ => exact nomatch congrArg Prod.fst h
    | ok raw =>
      dsimp only at h
      by_cases hexpected : ioinVersion raw ≠ expectedVersion
      · rw [if_pos hexpected] at h
        obtain ⟨hreport, -⟩ := Prod.mk.inj h
        rw [← Except.ok.inj hreport] at hpresent
        exact nomatch hpresent
      · rw [if_neg hexpected] at h
        cases hprogram : programAxis wire config axis first with
        | mk result last =>
          rw [hprogram] at h
          cases result with
          | error error => exact nomatch congrArg Prod.fst h
          | ok =>
            obtain rfl : last = bus' := congrArg Prod.snd h
            exact ⟨first, hprogram⟩

/-! ## Every run -/

/-- What holds of the driver of an axis since it was configured, at the exchanges until `till`. -/
structure Since (wire : Wire) (config : TmcConfig K) (axis : Fin axisCount) (programmed till : ℕ)
    (regs : Registers) : Prop where
  le : programmed ≤ till
  kept : ¬Lost wire (config.axes axis).node (programmed - programExchanges) till →
    Configured config axis regs
  reset : Lost wire (config.axes axis).node programmed till → regs = wire.reset

/-- What holds of an axis that is present: its driver, and what it held when it last took part. -/
structure Kept (wire : Wire) (config : TmcConfig K) (axis : Fin axisCount) (s : Manager) :
    Prop where
  start : programExchanges ≤ s.programmedAt axis
  now : Since wire config axis (s.programmedAt axis) s.bus.exchanges
    (s.bus.drivers (config.axes axis).node).regs
  last : Since wire config axis (s.programmedAt axis)
    (s.bus.answeredAt (config.axes axis).node) (s.bus.answered (config.axes axis).node)

theorem Since.passed {programmed : ℕ}
    (h : Since wire config axis programmed bus.exchanges
      (bus.drivers (config.axes axis).node).regs)
    (hpassed : Passed wire (config.axes axis).node bus bus') :
    Since wire config axis programmed bus'.exchanges
      (bus'.drivers (config.axes axis).node).regs := by
  refine ⟨h.le.trans hpassed.le, ?_, ?_⟩
  · intro hnot
    rw [hpassed.kept fun hlost => hnot (hlost.mono (by have := h.le; omega) le_rfl)]
    exact h.kept fun hlost => hnot (hlost.mono le_rfl hpassed.le)
  · rw [lost_trans_iff h.le hpassed.le]
    intro hlost
    by_cases hlast : Lost wire (config.axes axis).node bus.exchanges bus'.exchanges
    · rw [hpassed.reset hlast]
    · rw [hpassed.kept hlast]
      exact h.reset (hlost.resolve_right hlast)

/-- What holds of one axis: it is online only if it is present, and present it has kept its
configuration. -/
structure AxisInv (wire : Wire) (config : TmcConfig K) (s : Manager) (axis : Fin axisCount) :
    Prop where
  online : s.onlineMask axis = true → s.present axis = true
  kept : s.present axis = true → Kept wire config axis s

/-- An axis after the exchanges of another. -/
theorem AxisInv.untouched {s s' : Manager} (h : AxisInv wire config s axis)
    (honline : s'.onlineMask axis = s.onlineMask axis)
    (hpresent : s'.present axis = s.present axis)
    (hprogrammed : s'.programmedAt axis = s.programmedAt axis)
    (hbus : Untouched wire (config.axes axis).node s.bus s'.bus) :
    AxisInv wire config s' axis := by
  refine ⟨?_, ?_⟩
  · rw [honline, hpresent]
    exact h.online
  · rw [hpresent]
    intro hp
    obtain ⟨hstart, hnow, hlast⟩ := h.kept hp
    refine ⟨?_, ?_, ?_⟩
    · rw [hprogrammed]
      exact hstart
    · rw [hprogrammed]
      exact hnow.passed hbus.toPassed
    · rw [hprogrammed, hbus.answered, hbus.answeredAt]
      exact hlast

/-- Initializations of an axis so far: one in each round until one has configured its driver, and
until then the axis is not online. -/
def Tried (rounds : ℕ) (s : Manager) (axis : Fin axisCount) : Prop :=
  (s.present axis = true
      ∧ ∃ failures < rounds, s.reports axis = List.replicate failures false ++ [true])
    ∨ s.present axis = false ∧ s.onlineMask axis = false
      ∧ s.reports axis = List.replicate rounds false

/-- What the initialization of an axis does to it. -/
theorem probe_own {s : Manager} {rounds : ℕ} (hinv : AxisInv wire config s axis)
    (htried : Tried rounds s axis) (habsent : s.present axis = false) :
    AxisInv wire config (probe wire config s axis) axis
      ∧ Tried (rounds + 1) (probe wire config s axis) axis := by
  have hoffline : s.onlineMask axis = false := by
    rw [← Bool.not_eq_true]
    intro honline
    rw [hinv.online honline] at habsent
    exact nomatch habsent
  have hreports : s.reports axis = List.replicate rounds false := by
    obtain ⟨hpresent, -⟩ | ⟨-, -, hreports⟩ := htried
    · rw [habsent] at hpresent
      exact nomatch hpresent
    · exact hreports
  unfold probe
  cases hresult : initAxis wire config axis s.bus with
  | mk result bus =>
    have hfailed : AxisInv wire config (Manager.mk bus s.present s.onlineMask
        (Function.update s.reports axis (s.reports axis ++ [false])) s.programmedAt) axis
        ∧ Tried (rounds + 1) (Manager.mk bus s.present s.onlineMask
          (Function.update s.reports axis (s.reports axis ++ [false])) s.programmedAt) axis := by
      refine ⟨⟨hinv.online, fun hpresent => ?_⟩, .inr ⟨habsent, hoffline, ?_⟩⟩
      · rw [show s.present axis = true from hpresent] at habsent
        exact nomatch habsent
      · dsimp only
        rw [Function.update_self, hreports, List.replicate_succ']
    cases result with
    | error error => exact hfailed
    | ok report =>
      cases hpresent : report.present with
      | false =>
        simp only [hpresent, Bool.false_eq_true, if_false]
        exact hfailed
      | true =>
        obtain ⟨first, hprogram⟩ := initAxis_ok hresult hpresent
        obtain ⟨hstart, hat, hanswered, hconfigured⟩ := configured_of_programAxis hprogram
        have hsince : Since wire config axis bus.exchanges bus.exchanges
            (bus.drivers (config.axes axis).node).regs :=
          ⟨le_rfl, hconfigured, fun hlost => absurd hlost (not_lost_self _)⟩
        simp only [hpresent, if_true]
        refine ⟨⟨fun _ => Function.update_self _ _ _, fun _ => ⟨?_, ?_, ?_⟩⟩,
          .inl ⟨Function.update_self _ _ _, rounds, Nat.lt_succ_self _, ?_⟩⟩
        · dsimp only
          rw [Function.update_self]
          exact hstart
        · dsimp only
          rw [Function.update_self]
          exact hsince
        · dsimp only
          rw [Function.update_self, hat, hanswered]
          exact hsince
        · dsimp only
          rw [Function.update_self, hreports]

/-- What the initialization of an axis does to another. -/
theorem probe_other {s : Manager} {rounds : ℕ} (hne : other ≠ axis)
    (hinv : AxisInv wire config s other) (htried : Tried rounds s other) :
    AxisInv wire config (probe wire config s axis) other
      ∧ Tried rounds (probe wire config s axis) other := by
  have hbus : Untouched wire (config.axes other).node s.bus (initAxis wire config axis s.bus).2 :=
    initAxis_untouched (config.node_injective.ne hne) s.bus
  have hreports : (probe wire config s axis).reports other = s.reports other :=
    Function.update_of_ne hne _ _
  have hsame {α : Type} (b : Bool) (f : Fin axisCount → α) (a : α) :
      (if b then Function.update f axis a else f) other = f other := by
    cases b with
    | false => rfl
    | true => exact Function.update_of_ne hne _ _
  refine ⟨hinv.untouched (hsame _ _ _) (hsame _ _ _) (hsame _ _ _) hbus, ?_⟩
  have honline : (probe wire config s axis).onlineMask other = s.onlineMask other := hsame _ _ _
  have hpresent : (probe wire config s axis).present other = s.present other := hsame _ _ _
  unfold Tried
  rw [hpresent, honline, hreports]
  exact htried

/-- What a round does to an axis. -/
theorem poll_own {s : Manager} {rounds : ℕ} (hinv : AxisInv wire config s axis)
    (htried : Tried rounds s axis) :
    AxisInv wire config (poll wire config s axis) axis
      ∧ Tried (rounds + 1) (poll wire config s axis) axis := by
  unfold poll
  cases hpresent : s.present axis with
  | false =>
    rw [if_neg Bool.false_ne_true]
    exact probe_own hinv htried hpresent
  | true =>
    rw [if_pos rfl]
    obtain ⟨hstart, hnow, hlast⟩ := hinv.kept hpresent
    have hreports : ∃ failures < rounds + 1,
        s.reports axis = List.replicate failures false ++ [true] := by
      obtain ⟨-, failures, hlt, hreports⟩ | ⟨habsent, -⟩ := htried
      · exact ⟨failures, hlt.trans (Nat.lt_succ_self _), hreports⟩
      · rw [habsent] at hpresent
        exact nomatch hpresent
    have hpassed : Passed wire (config.axes axis).node s.bus
        (readReg wire (config.axes axis).node .drvStatus s.bus).2 := passed_readReg .drvStatus
    have hnow' := hnow.passed hpassed
    have hkept : Kept wire config axis
        { s with bus := (readReg wire (config.axes axis).node .drvStatus s.bus).2 } := by
      refine ⟨hstart, hnow', ?_⟩
      rw [readReg_snd] at hnow' ⊢
      unfold exchanged at hnow' ⊢
      dsimp only at hnow' ⊢
      cases hheard : (wire.exchange s.bus.exchanges).heard with
      | false => exact hlast
      | true =>
        rw [if_pos rfl, if_pos rfl, Function.update_self, Function.update_self]
        rw [Function.update_self] at hnow'
        exact hnow'
    have hany (mask : Fin axisCount → Bool) :
        AxisInv wire config { s with
            bus := (readReg wire (config.axes axis).node .drvStatus s.bus).2
            onlineMask := mask } axis
          ∧ Tried (rounds + 1) { s with
            bus := (readReg wire (config.axes axis).node .drvStatus s.bus).2
            onlineMask := mask } axis :=
      ⟨⟨fun _ => hpresent, fun _ => ⟨hkept.start, hkept.now, hkept.last⟩⟩, .inl ⟨hpresent, hreports⟩⟩
    cases hresult : readReg wire (config.axes axis).node .drvStatus s.bus with
    | mk result bus =>
      rw [hresult] at hany
      cases result with
      | error error => exact hany _
      | ok status => exact hany _

/-- What a round does to an axis when it polls another. -/
theorem poll_other {s : Manager} {rounds : ℕ} (hne : other ≠ axis)
    (hinv : AxisInv wire config s other) (htried : Tried rounds s other) :
    AxisInv wire config (poll wire config s axis) other
      ∧ Tried rounds (poll wire config s axis) other := by
  unfold poll
  cases s.present axis with
  | false =>
    rw [if_neg Bool.false_ne_true]
    exact probe_other hne hinv htried
  | true =>
    rw [if_pos rfl]
    have hbus : Untouched wire (config.axes other).node s.bus
        (readReg wire (config.axes axis).node .drvStatus s.bus).2 :=
      readReg_untouched (config.node_injective.ne hne) .drvStatus s.bus
    have hany (online : Bool) :
        AxisInv wire config { s with
            bus := (readReg wire (config.axes axis).node .drvStatus s.bus).2
            onlineMask := Function.update s.onlineMask axis online } other
          ∧ Tried rounds { s with
            bus := (readReg wire (config.axes axis).node .drvStatus s.bus).2
            onlineMask := Function.update s.onlineMask axis online } other := by
      refine ⟨hinv.untouched (Function.update_of_ne hne _ _) rfl rfl hbus, ?_⟩
      unfold Tried
      dsimp only
      rw [Function.update_of_ne hne]
      exact htried
    cases hresult : readReg wire (config.axes axis).node .drvStatus s.bus with
    | mk result bus =>
      rw [hresult] at hany
      cases result with
      | error error => exact hany _
      | ok status => exact hany _

end Manager

/-! ## Folding over the axes -/

section Fold

variable {S ι : Type} {f : S → ι → S} {P Q : S → ι → Prop}

theorem foldl_other (hother : ∀ {s i j}, i ≠ j → Q s i → Q (f s j) i) {i : ι} (l : List ι)
    (hnot : i ∉ l) {s : S} (h : Q s i) : Q (l.foldl f s) i := by
  induction l generalizing s with
  | nil => exact h
  | cons j rest ih =>
    rw [List.mem_cons, not_or] at hnot
    exact ih hnot.2 (hother hnot.1 h)

/-- **Each member of a list is stepped once.** A step makes of what held of its own member what is
to hold, and leaves both to the others. -/
theorem foldl_each (hown : ∀ {s i}, P s i → Q (f s i) i)
    (hbefore : ∀ {s i j}, i ≠ j → P s i → P (f s j) i)
    (hafter : ∀ {s i j}, i ≠ j → Q s i → Q (f s j) i) (l : List ι) (hnodup : l.Nodup) {s : S}
    (h : ∀ i ∈ l, P s i) : ∀ i ∈ l, Q (l.foldl f s) i := by
  induction l generalizing s with
  | nil => exact fun _ hi => nomatch hi
  | cons j rest ih =>
    obtain ⟨hj, hrest⟩ := List.nodup_cons.1 hnodup
    intro i hi
    rcases List.mem_cons.1 hi with rfl | hi
    · exact foldl_other hafter rest hj (hown (h i List.mem_cons_self))
    · refine ih hrest (fun k hk => ?_) i hi
      have hne : k ≠ j := by
        rintro rfl
        exact hj hk
      exact hbefore hne (h k (List.mem_cons_of_mem _ hk))

end Fold

section Manager

variable {K : Type} [Field K] [LinearOrder K] [FloorRing K] {wire : Wire} {config : TmcConfig K}

/-- **What holds of every axis after every round.** -/
theorem run_inv (drivers : Fin axisCount → Driver) (rounds : ℕ) (axis : Fin axisCount) :
    AxisInv wire config (runTmcManager wire config drivers rounds) axis
      ∧ Tried (rounds + 1) (runTmcManager wire config drivers rounds) axis := by
  induction rounds generalizing axis with
  | zero =>
    refine foldl_each (P := fun s i => AxisInv wire config s i ∧ Tried 0 s i)
      (Q := fun s i => AxisInv wire config s i ∧ Tried 1 s i) ?_ ?_ ?_ _ (List.nodup_finRange _) ?_
      axis (List.mem_finRange axis)
    · rintro s i ⟨hinv, htried⟩
      refine probe_own hinv htried ?_
      obtain ⟨-, failures, hlt, -⟩ | ⟨habsent, -⟩ := htried
      · exact absurd hlt (Nat.not_lt_zero _)
      · exact habsent
    · rintro s i j hne ⟨hinv, htried⟩
      exact probe_other hne hinv htried
    · rintro s i j hne ⟨hinv, htried⟩
      exact probe_other hne hinv htried
    · intro i _
      exact ⟨⟨(nomatch ·), (nomatch ·)⟩, .inr ⟨rfl, rfl, rfl⟩⟩
  | succ rounds ih =>
    refine foldl_each (P := fun s i => AxisInv wire config s i ∧ Tried (rounds + 1) s i)
      (Q := fun s i => AxisInv wire config s i ∧ Tried (rounds + 1 + 1) s i) ?_ ?_ ?_ _
      (List.nodup_finRange _) (fun i _ => ih i) axis (List.mem_finRange axis)
    · rintro s i ⟨hinv, htried⟩
      exact poll_own hinv htried
    · rintro s i j hne ⟨hinv, htried⟩
      exact poll_other hne hinv htried
    · rintro s i j hne ⟨hinv, htried⟩
      exact poll_other hne hinv htried

/-- **An axis that is online has a configured driver, unless the driver has lost its power.** While
it has not from the first reading of its counter on, it holds what it was configured with; when it
has since it was configured, it does not. An axis whose driver could not be configured is not
online, and it is initialized in every round until it is. -/
theorem online_configured (hreset : wire.reset.gconf ≠ gconfUartControl)
    (drivers : Fin axisCount → Driver) (rounds : ℕ) (axis : Fin axisCount) :
    let s := runTmcManager wire config drivers rounds
    let node := (config.axes axis).node
    (s.onlineMask axis = true →
      (¬Lost wire node (s.programmedAt axis - programExchanges) (s.bus.answeredAt node) →
          Configured config axis (s.bus.answered node))
        ∧ (Lost wire node (s.programmedAt axis) (s.bus.answeredAt node) →
          ¬Configured config axis (s.bus.answered node)))
      ∧ Tried (rounds + 1) s axis := by
  obtain ⟨hinv, htried⟩ := @run_inv K _ _ _ wire config drivers rounds axis
  refine ⟨fun honline => ?_, htried⟩
  have hlast := (hinv.kept (hinv.online honline)).last
  refine ⟨hlast.kept, fun hlost => ?_⟩
  rintro ⟨table, htable, hholds⟩
  rw [hlast.reset hlost] at hholds
  exact hreset (gconf_of_holds htable hholds)

/-- Drivers that always answer, of which the first loses its power before these exchanges. -/
def answering (lost : ℕ → Bool) : Wire where
  reset := ⟨0x101, 0, 0, 20, 0, 0x10000053, 0xC10D0024⟩
  exchange k := ⟨fun node => lost k && node.val == 0, true, none, 0x21000000⟩

/-- The task with the default configuration after so many rounds, from drivers after a reset. -/
def defaultRun (lost : ℕ → Bool) (rounds : ℕ) : Manager :=
  runTmcManager (answering lost) (TmcConfig.default : TmcConfig ℚ)
    (fun _ => ⟨(answering lost).reset, 0⟩) rounds

/-- The axis of that driver. -/
def firstAxis : Fin axisCount := ⟨0, by decide⟩

theorem defaultRun_configured : Configured (TmcConfig.default : TmcConfig ℚ) firstAxis
    ((defaultRun (fun _ => false) 1).bus.answered firstAxis) :=
  ((@online_configured ℚ _ _ _ (answering fun _ => false) TmcConfig.default (by decide)
    (fun _ => ⟨(answering fun _ => false).reset, 0⟩) 1 firstAxis).1 (by decide +kernel)).1
    (by rintro ⟨k, -, -, hlost⟩; exact nomatch hlost)

/-- **A driver that is online and not configured.** It has lost its power after it was
initialized, and answered the first reading of its status. -/
theorem stale_online : ¬∀ axis, (defaultRun (· == 44) 1).onlineMask axis = true →
    Configured (TmcConfig.default : TmcConfig ℚ) axis
      ((defaultRun (· == 44) 1).bus.answered axis) := by
  intro h
  obtain ⟨table, htable, hholds⟩ := h firstAxis (by decide +kernel)
  have hreset : ((defaultRun (· == 44) 1).bus.answered firstAxis).gconf = 0x101 := by
    decide +kernel
  rw [gconf_of_holds htable hholds] at hreset
  exact absurd hreset (by decide)

end Manager

end Galdr.Tmc
