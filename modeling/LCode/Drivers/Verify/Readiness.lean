import LCode.Drivers.Verify.Calls

/-!
# Nothing is written to a device that is not ready

The keyboard controller takes a byte when its input buffer is empty and gives one when its
output buffer is full; the UART takes one when its holding register is empty. Whatever the
devices answer, and whichever calls fail, the process has read that they are ready right
before it writes to them or takes a byte from the controller.
-/

namespace LCode

/-- Not about interrupt lines. -/
def Sys.offLine : Sys → Prop
  | irqsetpolicy _ _ _ => False
  | irqrmpolicy _ => False
  | _ => True

namespace Driver

open Contract

/-! ## The rule -/

/-- What the last status has shown: the two buffers of the controller, the divisor latch of
the UART and its holding register. -/
structure Shown where
  inputEmpty : Bool
  outputFull : Bool
  dlab : Bool
  txReady : Bool
  deriving DecidableEq, Repr

namespace Shown

/-- Before anything was read. -/
def nothing : Shown := ⟨false, false, false, false⟩

/-- A read of the controller's status. -/
def kbcStatus (s : Shown) : Option UInt32 → Shown
  | none => { s with inputEmpty := false, outputFull := false }
  | some w => { s with
      inputEmpty := UInt8.ofNat w.toNat &&& kbcStIbf = 0
      outputFull := UInt8.ofNat w.toNat &&& Kbc.stObf ≠ 0 }

/-- A read of the line status. -/
def lineStatus (s : Shown) : Option UInt32 → Shown
  | none => { s with txReady := false }
  | some w => { s with txReady := UInt8.ofNat w.toNat &&& lsrTxReady ≠ 0 }

def afterIn (s : Shown) (port : Nat) (x : Option UInt32) : Shown :=
  if port = kbcStatusReg then s.kbcStatus x
  else if port = kbcDataReg then { s with outputFull := false }
  else if port = com1Base + lsr then s.lineStatus x
  else s

/-- What was shown holds for one write. -/
def afterOut (s : Shown) (port : Nat) (v : UInt8) (done : Bool) : Shown :=
  if port = kbcStatusReg ∨ port = kbcDataReg then { s with inputEmpty := false, outputFull := false }
  else if port = com1Base + thr then { s with txReady := false }
  else if port = com1Base + lcr then { s with dlab := if done then v &&& lcrDlabBit ≠ 0 else s.dlab }
  else s

end Shown

/-- A call is allowed if the last status has shown the device to be ready for it. -/
def readiness : Contract Sys.Ans Shown where
  allows
    | s, .inb port => port = kbcDataReg → s.outputFull = true
    | s, .outb port _ => (port = kbcStatusReg ∨ port = kbcDataReg → s.inputEmpty = true) ∧
        (port = com1Base + thr → s.dlab = true ∨ s.txReady = true)
    | _, _ => True
  gives _ _ _ := True
  after
    | s, .inb port, x => s.afterIn port x
    | s, .outb port v, done => s.afterOut port v done
    | s, .tickdelay _, _ => { s with inputEmpty := false, outputFull := false, txReady := false }
    | s, _, _ => s

theorem readiness_silent : Silent readiness := ⟨fun _ _ => trivial, fun _ _ _ => rfl⟩

/-- The same without the calls that set up interrupt lines. -/
def offLine : Contract Sys.Ans Shown where
  allows s c := readiness.allows s c ∧ c.offLine
  gives := readiness.gives
  after := readiness.after

theorem offLine_silent : Silent offLine :=
  ⟨fun _ _ => ⟨trivial, trivial⟩, fun _ _ _ => rfl⟩

/-! ## Routines that keep it -/

variable {α β : Type} {k : IrqLines} {st : Statics} {s : Shown} {p : Driver α}

/-- The divisor latch is closed, and the lines are as they were. -/
def Settled (k : IrqLines) (st : Statics) (s : Shown) : Prop := s.dlab = false ∧ st.irq = k

/-- A routine that keeps to the rule while the divisor latch is closed, leaves it so, and
leaves the interrupt lines alone. -/
abbrev Careful (k : IrqLines) (p : Driver α) : Prop := offLine.Keeps (Settled k) p

namespace Careful

theorem modify (f : Statics → Statics) (hf : ∀ st, (f st).irq = st.irq) :
    Careful k (Routine.modify f) := fun st _ hs => ⟨hs.1, (hf st).trans hs.2⟩

theorem fail (e : ErrorType) (msg : String) : Careful k (Driver.fail e msg : Driver α) :=
  fun _ _ hs => tries_fail offLine_silent hs

theorem orFail (h : Careful k p) (e : ErrorType) (msg : String) :
    Careful k (Driver.orFail p e msg) :=
  Contract.Keeps.orElse h (fail e msg)

theorem tickdelay (micros : Nat) : Careful k (Driver.tickdelay micros) :=
  fun _ _ hs => tries_tickdelay ⟨trivial, trivial⟩ fun _ => hs

end Careful

theorem Shown.afterIn_dlab (s : Shown) (port : Nat) (x : Option UInt32) :
    (s.afterIn port x).dlab = s.dlab := by
  unfold afterIn
  split
  · cases x <;> rfl
  split
  · rfl
  split
  · cases x <;> rfl
  · rfl

/-- Every register but the controller's data may be read at any time. -/
theorem Careful.sysInb {port : Nat} (hport : port ≠ kbcDataReg) :
    Careful k (Driver.sysInb port) := by
  intro st s hs
  have hafter (x : Option UInt32) : Settled k st (s.afterIn port x) :=
    ⟨(s.afterIn_dlab port x).trans hs.1, hs.2⟩
  exact tries_sysInb ⟨fun h => absurd h hport, trivial⟩ (fun _ => hafter none)
    fun w _ => hafter (some w)

theorem Careful.utilSysInb {port : Nat} (hport : port ≠ kbcDataReg) :
    Careful k (Driver.utilSysInb port) :=
  (Careful.sysInb hport).bind fun _ => .pure _

/-- Registers of no such device may be written at any time. -/
theorem Careful.sysOutb {port : Nat} {v : UInt8} (hkbc : port ≠ kbcStatusReg ∧ port ≠ kbcDataReg)
    (hthr : port ≠ com1Base + thr) (hlcr : port ≠ com1Base + lcr) :
    Careful k (Driver.sysOutb port v) := by
  intro st s hs
  have hafter (done : Bool) : s.afterOut port v done = s := by
    simp [Shown.afterOut, hkbc.1, hkbc.2, hthr, hlcr]
  have hsettled (done : Bool) : Settled k st (s.afterOut port v done) := by
    rw [hafter]
    exact hs
  exact tries_sysOutb ⟨⟨fun h => absurd h (not_or.2 hkbc), fun h => absurd h hthr⟩, trivial⟩
    (fun _ => hsettled false) fun _ => hsettled true

/-! ## The keyboard controller -/

/-- The wait for the input buffer ends with the buffer shown empty. -/
theorem waitInputEmpty_ready (tries : Nat) (hs : Settled k st s) :
    offLine.Tries (waitInputEmpty tries) st s (Settled k)
      fun _ st s => Settled k st s ∧ s.inputEmpty = true := by
  induction tries generalizing st s with
  | zero => exact tries_fail offLine_silent hs
  | succ tries ih =>
    have hread : offLine.Tries (utilSysInb kbcStatusReg) st s (Settled k)
        fun status st s => Settled k st s ∧ s.inputEmpty = decide (status &&& kbcStIbf = 0) :=
      tries_utilSysInb ⟨fun h => absurd h (by decide), trivial⟩ (fun _ => hs) fun w _ => ⟨hs, rfl⟩
    refine (tries_orFail offLine_silent hread).bind ?_
    rintro status st₁ s₁ ⟨hs₁, hempty⟩
    by_cases hibf : status &&& kbcStIbf = 0
    · rw [if_pos hibf]
      exact ⟨hs₁, hempty.trans (decide_eq_true hibf)⟩
    · rw [if_neg hibf]
      refine (Careful.tickdelay _ st₁ s₁ hs₁).bind ?_
      intro _ st₂ s₂ hs₂
      exact ih hs₂

theorem kbcWaitInputEmpty_ready (hs : Settled k st s) :
    offLine.Tries kbcWaitInputEmpty st s (Settled k)
      fun _ st s => Settled k st s ∧ s.inputEmpty = true :=
  waitInputEmpty_ready kbcMaxTries hs

/-- A write to the controller behind the wait for it. -/
theorem Careful.write {port : Nat} {v : UInt8} (hport : port = kbcStatusReg ∨ port = kbcDataReg)
    (e e' : ErrorType) (msg msg' : String) {f : Unit → Driver α} (hf : Careful k (f ())) :
    Careful k (Driver.orFail kbcWaitInputEmpty e msg >>= fun _ =>
      Driver.orFail (Driver.sysOutb port v) e' msg' >>= f) := by
  intro st s hs
  refine (tries_orFail offLine_silent (kbcWaitInputEmpty_ready hs)).bind ?_
  rintro - st₁ s₁ ⟨hs₁, hempty⟩
  have hthr : port ≠ com1Base + thr := by
    rcases hport with rfl | rfl
    all_goals decide
  have hwrite : offLine.Tries (Driver.sysOutb port v) st₁ s₁ (Settled k)
      fun _ => Settled k := by
    have hsettled (done : Bool) : Settled k st₁ (s₁.afterOut port v done) := by
      rw [Shown.afterOut, if_pos hport]
      exact hs₁
    exact tries_sysOutb ⟨⟨fun _ => hempty, fun h => absurd h hthr⟩, trivial⟩
      (fun _ => hsettled false) fun _ => hsettled true
  refine (tries_orFail offLine_silent hwrite).bind ?_
  intro _ st₂ s₂ hs₂
  exact hf st₂ s₂ hs₂

/-- The data register is read once the output buffer is shown full. -/
theorem data_ready (hs : Settled k st s) (hfull : s.outputFull = true) :
    offLine.Tries (utilSysInb kbcDataReg) st s (Settled k)
      fun _ => Settled k :=
  tries_utilSysInb ⟨fun _ => hfull, trivial⟩ (fun _ => hs) fun _ _ => hs

/-- A status read shows whether the output buffer is full. -/
theorem status_ready (hs : Settled k st s) :
    offLine.Tries (utilSysInb kbcStatusReg) st s (Settled k)
      fun status st s => Settled k st s ∧ s.outputFull = decide (status &&& Kbc.stObf ≠ 0) :=
  tries_utilSysInb ⟨fun h => absurd h (by decide), trivial⟩ (fun _ => hs) fun w _ => ⟨hs, rfl⟩

theorem careful_waitOutputFull (tries : Nat) : Careful k (waitOutputFull tries) := by
  induction tries with
  | zero => exact Careful.fail _ _
  | succ tries ih =>
    intro st s hs
    refine (tries_orFail offLine_silent (status_ready hs)).bind ?_
    rintro status st₁ s₁ ⟨hs₁, hfull⟩
    by_cases hobf : status &&& Kbc.stObf ≠ 0
    · rw [if_pos hobf]
      exact tries_orFail offLine_silent (data_ready hs₁ (hfull.trans (decide_eq_true hobf)))
    · rw [if_neg hobf]
      refine (Careful.tickdelay _ st₁ s₁ hs₁).bind ?_
      intro _ st₂ s₂ hs₂
      exact ih st₂ s₂ hs₂

theorem careful_kbcWaitOutputFull : Careful k kbcWaitOutputFull := careful_waitOutputFull _

/-! ## The mouse and the keyboard -/

theorem careful_writeCommand (cmd : UInt8) (attempts : Nat) :
    Careful k (writeCommand cmd attempts) := by
  induction attempts with
  | zero => exact Careful.fail _ _
  | succ attempts ih =>
    refine .write (.inl rfl) _ _ _ _ ?_
    refine .write (.inr rfl) _ _ _ _ ?_
    refine (careful_kbcWaitOutputFull.orFail _ _).bind fun response => ?_
    exact .ite (.pure ()) (.ite (Careful.fail _ _) ih)

theorem careful_mouseWriteCommand (cmd : UInt8) : Careful k (mouseWriteCommand cmd) :=
  careful_writeCommand cmd mouseMaxTries

theorem careful_setSampleRates (rates : List UInt8) : Careful k (setSampleRates rates) := by
  induction rates with
  | nil => exact .pure ()
  | cons rate rates ih =>
    refine (careful_mouseWriteCommand _).bind fun _ => ?_
    exact (careful_mouseWriteCommand rate).bind fun _ => ih

theorem careful_mouseEnableWheelMode : Careful k mouseEnableWheelMode := by
  refine (careful_setSampleRates _).bind fun _ => ?_
  refine (careful_mouseWriteCommand _).bind fun _ => ?_
  refine (careful_kbcWaitOutputFull.orFail _ _).bind fun id => ?_
  refine Contract.Keeps.bind (Careful.modify _ ?_) fun _ => careful_mouseWriteCommand _
  exact fun _ => rfl

theorem careful_keyboardIh : Careful k keyboardIh := by
  refine Contract.Keeps.always fun st s hs => ?_
  refine (tries_orFail offLine_silent (status_ready hs)).bind ?_
  rintro status st₁ s₁ ⟨hs₁, hfull⟩
  by_cases hobf : status &&& Kbc.stObf = 0
  · rw [if_pos hobf]
    exact tries_fail offLine_silent hs₁
  rw [if_neg hobf]
  refine tries_ite (Careful.fail _ _ st₁ s₁ hs₁) ?_
  refine (tries_orFail offLine_silent (data_ready hs₁ (hfull.trans (decide_eq_true hobf)))).bind ?_
  exact fun data => Careful.modify _ fun _ => rfl

/-- The loop of `mouse_ih` ends with the status that was read last. -/
theorem mouseWaitObf_ready (tries : Nat) {status : UInt8} (hs : Settled k st s)
    (hfull : s.outputFull = decide (status &&& Kbc.stObf ≠ 0)) :
    offLine.Tries (mouseWaitObf status tries) st s (Settled k)
      fun status st s => Settled k st s ∧ s.outputFull = decide (status &&& Kbc.stObf ≠ 0) := by
  induction tries generalizing st s status with
  | zero => exact ⟨hs, hfull⟩
  | succ tries ih =>
    unfold mouseWaitObf
    split
    · exact ⟨hs, hfull⟩
    · refine (Careful.tickdelay _ st s hs).bind ?_
      intro _ st₁ s₁ hs₁
      refine (tries_orFail offLine_silent (status_ready hs₁)).bind ?_
      rintro status₂ st₂ s₂ ⟨hs₂, hfull₂⟩
      exact ih hs₂ hfull₂

theorem careful_mouseReadByte : Careful k mouseReadByte := by
  intro st s hs
  refine (tries_orFail offLine_silent (status_ready hs)).bind ?_
  rintro status st₁ s₁ ⟨hs₁, hfull₁⟩
  refine (mouseWaitObf_ready 10 hs₁ hfull₁).bind ?_
  rintro status₂ st₂ s₂ ⟨hs₂, hfull₂⟩
  by_cases hobf : status₂ &&& Kbc.stObf = 0
  · rw [if_pos hobf]
    exact tries_fail offLine_silent hs₂
  rw [if_neg hobf]
  refine tries_ite (Careful.fail _ _ st₂ s₂ hs₂) (tries_ite (Contract.Keeps.giveUp st₂ s₂ hs₂) ?_)
  exact tries_orFail offLine_silent (data_ready hs₂ (hfull₂.trans (decide_eq_true hobf)))

theorem careful_mouseIh : Careful k mouseIh := by
  refine careful_mouseReadByte.result.bind fun data => ?_
  cases data with
  | none => exact .pure ()
  | some data =>
    refine Contract.Keeps.get.bind fun st => ?_
    cases mouseTake st.mouse data with
    | none => exact .giveUp
    | some mouse => exact Careful.modify _ fun _ => rfl

/-! ## The serial port -/

/-- A character is written once the holding register is shown empty. -/
theorem careful_writeChar (data : UInt8) (tries : Nat) : Careful k (writeChar data tries) := by
  induction tries with
  | zero => exact .giveUp
  | succ tries ih =>
    intro st s hs
    have hread : offLine.Tries (utilSysInb (com1Base + lsr)) st s (Settled k)
        fun status st s => Settled k st s ∧ s.txReady = decide (status &&& lsrTxReady ≠ 0) :=
      tries_utilSysInb ⟨fun h => absurd h (by decide), trivial⟩ (fun _ => hs) fun w _ => ⟨hs, rfl⟩
    refine hread.bind ?_
    rintro status st₁ s₁ ⟨hs₁, hready⟩
    by_cases htx : status &&& lsrTxReady ≠ 0
    · rw [if_pos htx]
      have hallows : offLine.allows s₁ (.outb (com1Base + thr) data) :=
        ⟨⟨fun h => absurd h (by decide), fun _ => .inr (hready.trans (decide_eq_true htx))⟩,
          trivial⟩
      exact tries_sysOutb hallows (fun _ => hs₁) fun _ => hs₁
    · rw [if_neg htx]
      refine (Careful.tickdelay _ st₁ s₁ hs₁).bind ?_
      intro _ st₂ s₂ hs₂
      exact ih st₂ s₂ hs₂

theorem careful_sendBytes (bytes : List UInt8) : Careful k (sendBytes bytes) := by
  induction bytes with
  | nil => exact .pure ()
  | cons c bytes ih => exact (careful_writeChar c 100).always.bind fun _ => ih

theorem careful_drainFifo (lsrVal data : UInt8) (fuel : Nat) :
    Careful k (drainFifo lsrVal data fuel) := by
  induction fuel generalizing lsrVal data with
  | zero => exact .giveUp
  | succ fuel ih =>
    refine Contract.Keeps.get.bind fun st => .ite (.pure ()) ?_
    refine (Careful.utilSysInb (by decide)).result.bind fun byte => ?_
    have hrest (x : Unit) : Careful k ((utilSysInb (com1Base + lsr)).result >>= fun status =>
        drainFifo (status.getD lsrVal) (byte.getD data) fuel) :=
      (Careful.utilSysInb (by decide)).result.bind fun _ => ih _ _
    split
    · refine Contract.Keeps.get.bind fun st => ?_
      cases st.rxQueue.push (byte.getD data) with
      | none => exact Contract.Keeps.giveUp.bind hrest
      | some q =>
        obtain ⟨_, rxQueue⟩ := q
        refine Contract.Keeps.bind (Careful.modify _ ?_) hrest
        exact fun _ => rfl
    · exact (Contract.Keeps.pure ()).bind hrest

theorem careful_serialIh (data : UInt8) (fuel : Nat) : Careful k (serialIh data fuel) := by
  refine (Careful.utilSysInb (by decide)).result.bind fun iirVal => ?_
  cases iirVal with
  | none => exact .pure ()
  | some iirVal =>
    refine .ite (.pure ()) (.ite ?_ (.pure ()))
    refine (Careful.utilSysInb (by decide)).result.bind fun lsrVal => ?_
    cases lsrVal with
    | none => exact .pure ()
    | some lsrVal => exact careful_drainFifo lsrVal data fuel

/-- A write to the UART's line control opens or closes the divisor latch. -/
theorem lcr_ready {v : UInt8} {E : Statics → Shown → Prop} (hE : ∀ st s, E st s) :
    readiness.Tries (sysOutb (com1Base + lcr) v) st s E
      fun _ _ s => s.dlab = decide (v &&& lcrDlabBit ≠ 0) := by
  refine tries_sysOutb ⟨fun h => absurd h (by decide), fun h => absurd h (by decide)⟩
    (fun _ => hE _ _) fun _ => ?_
  rfl

/-- A write to the divisor latch, or to a register that is ready at any time. -/
theorem register_ready {port : Nat} {v : UInt8} {dlab : Bool} {E : Statics → Shown → Prop}
    (hE : ∀ st s, E st s) (hkbc : ¬(port = kbcStatusReg ∨ port = kbcDataReg))
    (hlcr : port ≠ com1Base + lcr) (hthr : port = com1Base + thr → dlab = true)
    (hs : s.dlab = dlab) :
    readiness.Tries (sysOutb port v) st s E fun _ _ s => s.dlab = dlab := by
  refine tries_sysOutb ⟨fun h => absurd h hkbc, fun h => .inl (hs.trans (hthr h))⟩
    (fun _ => hE _ _) fun _ => ?_
  change (s.afterOut port v true).dlab = dlab
  simp only [Shown.afterOut, if_neg hkbc, if_neg hlcr]
  split
  · exact hs
  · exact hs

/-- `serial_init` leaves the divisor latch closed. -/
theorem serialInit_ready (hs : s.dlab = false) :
    readiness.Tries serialInit st s (fun _ _ => True) fun _ _ s => s.dlab = false := by
  have hE (_ : Statics) (_ : Shown) : True := trivial
  rw [serialInit, tries_bind, tries_get]
  split
  · exact hs
  rw [tries_bind, tries_modify]
  refine (lcr_ready hE).bind ?_
  intro _ st₁ s₁ hs₁
  refine (register_ready hE (by decide) (by decide) (fun _ => rfl) hs₁).bind ?_
  intro _ st₂ s₂ hs₂
  refine (register_ready hE (by decide) (by decide) (fun _ => rfl) hs₂).bind ?_
  intro _ st₃ s₃ hs₃
  refine (lcr_ready hE).bind ?_
  intro _ st₄ s₄ hs₄
  refine (register_ready hE (by decide) (by decide) (fun h => absurd h (by decide)) hs₄).bind ?_
  intro _ st₅ s₅ hs₅
  refine (register_ready hE (by decide) (by decide) (fun h => absurd h (by decide)) hs₅).bind ?_
  intro _ st₆ s₆ hs₆
  exact hs₆

/-! ## The timer and the clock -/

/-- A port of the timer or of the clock is none of the two devices'. -/
theorem Careful.sysOutb_low {port : Nat} {v : UInt8} (hport : port < kbcDataReg) :
    Careful k (Driver.sysOutb port v) := by
  have hlow : kbcDataReg = 0x60 ∧ kbcStatusReg = 0x64 ∧ com1Base + thr = 0x3F8 ∧
      com1Base + lcr = 0x3FB := by decide
  exact .sysOutb (by omega) (by omega) (by omega)

theorem careful_timerGetConf {timer : UInt8} (htimer : timer.toNat < 3) :
    Careful k (timerGetConf timer) := by
  have hport : timer0 + timer.toNat ≠ kbcDataReg := by
    have hnum : timer0 = 0x40 ∧ kbcDataReg = 0x60 := by decide
    omega
  refine ((Careful.sysOutb_low (by decide)).orFail _ _).bind fun _ => ?_
  exact (Careful.utilSysInb hport).orFail _ _

theorem careful_timerSetFrequency {timer : UInt8} (htimer : timer.toNat < 3) (freq : UInt32) :
    Careful k (timerSetFrequency timer freq) := by
  have hport : timer0 + timer.toNat < kbcDataReg := by
    have hnum : timer0 = 0x40 ∧ kbcDataReg = 0x60 := by decide
    omega
  refine .ite (Careful.fail _ _) (((careful_timerGetConf htimer).orFail _ _).bind fun st => ?_)
  cases timerSel timer with
  | none => exact Careful.fail _ _
  | some sel =>
    refine ((Careful.sysOutb_low (by decide)).orFail _ _).bind fun _ => ?_
    refine ((Careful.sysOutb_low hport).orFail _ _).bind fun _ => ?_
    exact (Careful.sysOutb_low hport).orFail _ _

theorem careful_rtcReadReg (reg : UInt8) : Careful k (rtcReadReg reg) := by
  have hout : Careful k (sysOutb rtcAddrReg reg) :=
    .sysOutb ⟨by decide, by decide⟩ (by decide) (by decide)
  refine (hout.orFail _ _).bind fun _ => ?_
  exact ((Careful.sysInb (by decide)).orFail _ _).bind fun _ => .pure _

theorem careful_rtcWaitUpdate (fuel : Nat) : Careful k (rtcWaitUpdate fuel) := by
  induction fuel with
  | zero => exact .giveUp
  | succ fuel ih =>
    refine (Careful.tickdelay _).bind fun _ => ?_
    exact ((careful_rtcReadReg _).orFail _ _).bind fun _ => .ite ih (.pure ())

theorem careful_rtcReadDate (fuel : Nat) : Careful k (rtcReadDate fuel) := by
  have hreg (reg : UInt8) (msg : String) : Careful k (orFail (rtcReadReg reg) .rtc msg) :=
    (careful_rtcReadReg reg).orFail _ _
  refine (careful_rtcWaitUpdate fuel).bind fun _ => (hreg _ _).bind fun regB => ?_
  refine (hreg _ _).bind fun seconds => (hreg _ _).bind fun minutes => ?_
  refine (hreg _ _).bind fun hours => (hreg _ _).bind fun day => ?_
  refine (hreg _ _).bind fun month => (hreg _ _).bind fun year => ?_
  exact .ite (.pure _) (.pure _)

theorem careful_timeUpdate (fuel : Nat) : Careful k (timeUpdate fuel) :=
  (careful_rtcReadDate fuel).result.bind fun _ => Careful.modify _ fun _ => rfl

/-! ## Interrupt lines -/

/-- A routine that keeps to the rule while the divisor latch is closed, and leaves it so. -/
abbrev Ready (p : Driver α) : Prop := readiness.Keeps (fun _ s => s.dlab = false) p

theorem Careful.ready (h : ∀ k, Careful k p) : Ready p := by
  intro st s hs
  have hallow : readiness.Tries p st s (Settled st.irq) fun _ => Settled st.irq :=
    (h st.irq st s ⟨hs, rfl⟩).allow (A := readiness.allows) fun _ _ hc => hc.1
  exact hallow.mono (fun _ _ hs => hs.1) fun _ _ _ hs => hs.1

theorem ready_modify (f : Statics → Statics) : Ready (Routine.modify f) := fun _ _ hs => hs

theorem ready_fail (e : ErrorType) (msg : String) : Ready (fail e msg : Driver α) :=
  Careful.ready fun _ => Careful.fail e msg

theorem ready_subscribeInt (hook : Hook) (irq policy : Nat) (e : ErrorType) (msg : String) :
    Ready (subscribeInt hook irq policy e msg) := by
  refine Contract.Keeps.get.bind fun st => ?_
  have hask : Ready (Routine.ask (Sys.irqsetpolicy irq policy (hook.read st.irq)) :
      Driver (Option Int)) := fun st s hs => tries_ask.2 ⟨trivial, fun _ _ => hs⟩
  refine hask.bind fun answer => ?_
  cases answer with
  | none => exact ready_fail _ _
  | some h => exact (ready_modify _).bind fun _ => .pure _

theorem ready_unsubscribeInt (hook : Hook) (e : ErrorType) (msg : String) :
    Ready (unsubscribeInt hook e msg) := by
  refine Contract.Keeps.get.bind fun st => ?_
  have hask : Ready (Routine.ask (Sys.irqrmpolicy (hook.read st.irq)) : Driver Bool) :=
    fun st s hs => tries_ask.2 ⟨trivial, fun _ _ => hs⟩
  exact hask.bind fun done => .ite (.pure ()) (ready_fail _ _)

theorem ready_subscribeInterrupts : Ready subscribeInterrupts := by
  have htimer : Ready timerUnsubscribeInt.always := (ready_unsubscribeInt _ _ _).always
  have hkeyboard : Ready keyboardUnsubscribeInt.always := (ready_unsubscribeInt _ _ _).always
  have hmouse : Ready mouseUnsubscribeInt.always := (ready_unsubscribeInt _ _ _).always
  have hcommand (cmd : UInt8) : Ready (mouseWriteCommand cmd) :=
    Careful.ready fun _ => careful_mouseWriteCommand cmd
  have hwheel : Ready mouseEnableWheelMode := Careful.ready fun _ => careful_mouseEnableWheelMode
  have hall (e : ErrorType) (msg : String) : Ready (do
      timerUnsubscribeInt.always
      keyboardUnsubscribeInt.always
      mouseUnsubscribeInt.always
      fail e msg : Driver Unit) :=
    htimer.bind fun _ => hkeyboard.bind fun _ => hmouse.bind fun _ => ready_fail e msg
  have hset (f : IrqLines → IrqLines) : Ready (setIrq f) := ready_modify _
  refine ((ready_subscribeInt _ _ _ _ _).orElse (ready_fail _ _)).bind fun _ => ?_
  refine (hset _).bind fun _ => ?_
  refine ((ready_subscribeInt _ _ _ _ _).orElse
    (htimer.bind fun _ => ready_fail _ _)).bind fun _ => ?_
  refine (hset _).bind fun _ => ?_
  refine ((ready_subscribeInt _ _ _ _ _).orElse
    (htimer.bind fun _ => hkeyboard.bind fun _ => ready_fail _ _)).bind fun _ => ?_
  refine (hwheel.orElse (hall _ _)).bind fun _ => ((hcommand _).orElse (hall _ _)).bind fun _ => ?_
  refine (hset _).bind fun _ => ?_
  refine ((ready_subscribeInt _ _ _ _ _).orElse (htimer.bind fun _ => hkeyboard.bind fun _ =>
    hmouse.bind fun _ => (hcommand _).always.bind fun _ => ready_fail _ _)).bind fun _ => ?_
  exact hset _

theorem ready_unsubscribeStep {p : Driver Unit} (hp : Ready p) (e : ErrorType)
    (msg : String) : Ready (unsubscribeStep p e msg) := by
  refine (hp.orElse (ready_fail e msg)).result.bind fun r => ?_
  cases r with
  | none => exact .pure true
  | some _ => exact .pure false

theorem ready_unsubscribeInterrupts : Ready unsubscribeInterrupts := by
  have hstep (hook : Hook) (e e' : ErrorType) (msg msg' : String) :
      Ready (unsubscribeStep (unsubscribeInt hook e msg) e' msg') :=
    ready_unsubscribeStep (ready_unsubscribeInt hook e msg) e' msg'
  have hreporting : Ready mouseDisableDataReporting :=
    Careful.ready fun _ => careful_mouseWriteCommand _
  refine (hstep _ _ _ _ _).bind fun _ => (hstep _ _ _ _ _).bind fun _ => ?_
  refine (hstep _ _ _ _ _).bind fun _ => (ready_unsubscribeStep hreporting _ _).bind fun _ => ?_
  exact (hstep _ _ _ _ _).bind fun _ => .ite .giveUp (.pure ())

/-! ## The process -/

theorem careful_work (w : Work) : Careful k (work w) := by
  cases w with
  | keyboard => exact careful_keyboardIh
  | mouse => exact careful_mouseIh
  | serial data fuel => exact careful_serialIh data fuel
  | clock fuel => exact careful_timeUpdate fuel
  | send bytes => exact careful_sendBytes bytes

theorem careful_loop (ws : List Work) : Careful k (loop ws) := by
  induction ws with
  | nil => exact .pure ()
  | cons w ws ih => exact (careful_work w).always.bind fun _ => ih

theorem startUp_ready (hs : s.dlab = false) :
    readiness.Tries startUp st s (fun _ _ => True) fun _ _ s => s.dlab = false := by
  have hweak {p : Driver Unit} (hp : Ready p) {st : Statics} {s : Shown} (hs : s.dlab = false) :
      readiness.Tries p st s (fun _ _ => True) fun _ _ s => s.dlab = false :=
    (hp st s hs).mono (fun _ _ _ => trivial) fun _ _ _ h => h
  refine (tries_orFail readiness_silent (serialInit_ready hs)).bind ?_
  intro _ st₁ s₁ hs₁
  refine (hweak (ready_subscribeInterrupts.orElse (ready_fail _ _)) hs₁).bind ?_
  intro _ st₂ s₂ hs₂
  have htimer : Ready (timerSetFrequency 0 (UInt32.ofNat timerHz)) :=
    Careful.ready fun _ => careful_timerSetFrequency (by decide) _
  refine hweak (htimer.orElse ?_) hs₂
  exact ready_unsubscribeInterrupts.always.bind fun _ => ready_fail _ _

/-- Whatever the devices answer, from the start of the process to its end: nothing is
written to the keyboard controller or the UART unless the last status, read since the last
such write and the last delay, has shown it ready; nor is a byte taken from the controller. -/
theorem projMainLoop_readiness (ws : List Work) (st : Statics) (dev : Device Sys.Ans) :
    readiness.Kept .nothing ((projMainLoop ws st).exec dev []).2 := by
  have hdev : readiness.Fair .nothing dev := fun _ _ _ => trivial
  have hrun : readiness.Tries (projMainLoop ws) st .nothing (fun _ _ => True)
      fun _ _ _ => True := by
    refine (startUp_ready rfl).bind ?_
    intro _ st₁ s₁ hs₁
    have hrest : Ready (loop ws >>= fun _ => shutDown) :=
      (Careful.ready fun _ => careful_loop ws).bind fun _ =>
        ready_unsubscribeInterrupts.orElse (ready_fail _ _)
    exact (hrest st₁ s₁ hs₁).mono (fun _ _ _ => trivial) fun _ _ _ _ => trivial
  exact (hrun.exec hdev).1

end Driver

end LCode
