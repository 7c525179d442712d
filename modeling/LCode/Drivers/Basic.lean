import LCode.App.Events
import LCode.Lib.Proc

/-!
# The drivers at the ports

The drivers of `framework/src` as they go to the I/O ports and to the kernel: what they
write and read there, what they wait for, how often they try, and what they say when they
give up. A C function that returns its status is a routine that may give up; a `void` one
does not.
-/

namespace LCode

/-! ## Calls of the system -/

/-- What a driver asks of the system. -/
inductive Sys where
  | inb (port : Nat)
  | outb (port : Nat) (value : UInt8)
  | tickdelay (micros : Nat)
  | irqsetpolicy (irq : Nat) (policy : Nat) (hook : Int)
  | irqrmpolicy (hook : Int)
  | stderr (text : String)
  deriving DecidableEq, Repr

namespace Sys

/-- What it is answered: `none` and `false` are errors. `irqsetpolicy` gives the hook it
writes back. -/
abbrev Ans : Sys → Type
  | inb _ => Option UInt32
  | outb _ _ => Bool
  | tickdelay _ => Unit
  | irqsetpolicy _ _ _ => Option Int
  | irqrmpolicy _ => Bool
  | stderr _ => Unit

end Sys

/-! ## Static state -/

/-- The `hook_id`s of the drivers and the masks of `ih.c`. -/
structure IrqLines where
  timerHook : Int
  keyboardHook : Int
  mouseHook : Int
  serialHook : Int
  irqTimer : UInt8
  irqKeyboard : UInt8
  irqMouse : UInt8
  irqSerial : UInt8
  deriving DecidableEq, Repr

/-- The static variables of the drivers, of `ih.c` and of `clock.c`. -/
structure Statics where
  irq : IrqLines
  keyboard : Keyboard
  mouse : MouseDriver
  serialInitialized : Bool
  rxQueue : Serial.Queue
  timeBuf : List UInt8
  deriving DecidableEq

/-- Before `main`. -/
def Statics.initial : Statics where
  irq := ⟨0, 1, 2, 4, 0, 0, 0, 0⟩
  keyboard := .static
  mouse := ⟨3, 0, false, List.replicate 4 0⟩
  serialInitialized := false
  rxQueue := ⟨List.replicate Serial.queueSize 0, 0, 0, 0⟩
  timeBuf := List.replicate 16 0

abbrev Driver (α : Type) := Routine Sys.Ans Statics α

namespace Driver

/-! ## Utilities -/

/-- `ErrorType`. -/
inductive ErrorType where
  | warn
  | err
  | rtc
  | timer
  | kbc
  | keyboard
  | mouse
  | video
  | serial
  deriving DecidableEq, Repr

/-- The line of `print_err_type`; there is none for a serial error. -/
def errTypeText : ErrorType → Option String
  | .warn => some "\nWarning\n"
  | .err => some "\nError\n"
  | .rtc => some "\nRTC Error\n"
  | .timer => some "\nTimer Error\n"
  | .kbc => some "\nKBC Error\n"
  | .keyboard => some "\nKeyboard Error\n"
  | .mouse => some "\nMouse Error\n"
  | .video => some "\nVideo Error\n"
  | .serial => none

/-- `print_err_type`. -/
def printErrType (e : ErrorType) : Driver Unit :=
  match errTypeText e with
  | none => pure ()
  | some text => Routine.ask (Sys.stderr text)

/-- `fail`, and the caller's return of what it returns. -/
def fail {α : Type} (e : ErrorType) (msg : String) : Driver α := do
  printErrType e
  Routine.ask (Sys.stderr (msg ++ "\n"))
  Routine.giveUp

/-- `if (p != OK) return fail(e, msg);` -/
def orFail {α : Type} (p : Driver α) (e : ErrorType) (msg : String) : Driver α :=
  p.orElse (fail e msg)

/-- `sys_inb`. -/
def sysInb (port : Nat) : Driver UInt32 := do
  let answer : Option UInt32 ← Routine.ask (Sys.inb port)
  answer.elim Routine.giveUp pure

/-- `util_sys_inb`. -/
def utilSysInb (port : Nat) : Driver UInt8 := do
  return UInt8.ofNat (← sysInb port).toNat

/-- `sys_outb`. -/
def sysOutb (port : Nat) (value : UInt8) : Driver Unit := do
  let done : Bool ← Routine.ask (Sys.outb port value)
  if done then return () else Routine.giveUp

/-- `tickdelay(micros_to_ticks(micros))`. -/
def tickdelay (micros : Nat) : Driver Unit := Routine.ask (Sys.tickdelay micros)

/-! ## The keyboard controller -/

def kbcStatusReg : Nat := 0x64
def kbcDataReg : Nat := 0x60
def kbcStIbf : UInt8 := 2
def kbcMaxTries : Nat := 10
def kbcRetryDelay : Nat := 20000

/-- The loop of `kbc_wait_input_empty`. -/
def waitInputEmpty : Nat → Driver Unit
  | 0 => fail .kbc "kbc_wait_input_empty: timeout"
  | tries + 1 => do
    let status ← orFail (utilSysInb kbcStatusReg) .kbc
      "kbc_wait_input_empty: failed to read status"
    if status &&& kbcStIbf = 0 then return ()
    else do
      tickdelay kbcRetryDelay
      waitInputEmpty tries

/-- `kbc_wait_input_empty`. -/
def kbcWaitInputEmpty : Driver Unit := waitInputEmpty kbcMaxTries

/-- The loop of `kbc_wait_output_full`, whose last message is its neighbour's. -/
def waitOutputFull : Nat → Driver UInt8
  | 0 => fail .kbc "kbc_wait_input_empty: timeout"
  | tries + 1 => do
    let status ← orFail (utilSysInb kbcStatusReg) .kbc
      "kbc_wait_output_full: failed to read status"
    if status &&& Kbc.stObf ≠ 0 then
      orFail (utilSysInb kbcDataReg) .kbc "kbc_wait_output_full: failed to read data"
    else do
      tickdelay kbcRetryDelay
      waitOutputFull tries

/-- `kbc_wait_output_full`. -/
def kbcWaitOutputFull : Driver UInt8 := waitOutputFull kbcMaxTries

/-! ## The keyboard -/

/-- `keyboard_ih`. -/
def keyboardIh : Driver Unit := Routine.always do
  let status ← orFail (utilSysInb kbcStatusReg) .keyboard
    "keyboard_ih: failed to read status register"
  if status &&& Kbc.stObf = 0 then fail .keyboard "keyboard_ih: output buffer not full"
  else if status &&& (Kbc.parErr ||| Kbc.toutErr) ≠ 0 then
    fail .keyboard "keyboard_ih: parity or timeout error"
  else do
    let data ← orFail (utilSysInb kbcDataReg) .keyboard "keyboard_ih: failed to read data register"
    Routine.modify fun st => { st with keyboard := { st.keyboard with scancode := data } }

/-! ## The mouse -/

def mouseCommand : UInt8 := 0xD4
def enableDr : UInt8 := 0xF4
def disableDr : UInt8 := 0xF5
def success : UInt8 := 0xFA
def failure : UInt8 := 0xFE
def setSampleRate : UInt8 := 0xF3
def getDeviceId : UInt8 := 0xF2
def mouseMaxTries : Nat := 5

/-- The loop of `mouse_ih` that waits for the output buffer: the last status. -/
def mouseWaitObf (status : UInt8) : Nat → Driver UInt8
  | 0 => return status
  | tries + 1 =>
    if status &&& Kbc.stObf ≠ 0 then return status
    else do
      tickdelay 20000
      let status ← orFail (utilSysInb kbcStatusReg) .mouse
        "mouse_ih: failed to re-read status register"
      mouseWaitObf status tries

/-- The byte that `mouse_ih` reads, if it comes that far. -/
def mouseReadByte : Driver UInt8 := do
  let status ← orFail (utilSysInb kbcStatusReg) .mouse "mouse_ih: failed to read status register"
  let status ← mouseWaitObf status 10
  if status &&& Kbc.stObf = 0 then fail .mouse "mouse_ih: output buffer not full"
  else if status &&& (Kbc.parErr ||| Kbc.toutErr) ≠ 0 then
    fail .mouse "mouse_ih: parity or timeout error"
  else if status &&& Kbc.mouseData = 0 then Routine.giveUp
  else orFail (utilSysInb kbcDataReg) .mouse "mouse_ih: failed to read data register"

/-- What `mouse_ih` makes of the byte; the store faults outside the packet. -/
def mouseTake (d : MouseDriver) (data : UInt8) : Option MouseDriver :=
  -- bit 3 of the first byte is always set
  if d.packetIndex = 0 ∧ data &&& 8 = 0 then some d
  else do
    let d := { d with
      packetBytes := ← Block.store d.packetBytes d.packetIndex [data]
      packetIndex := d.packetIndex + 1 }
    if d.packetIndex = d.packetSize then return { d with packetReady := true, packetIndex := 0 }
    else return { d with packetReady := false }

/-- `mouse_ih`: it gives up at a fault only. -/
def mouseIh : Driver Unit := do
  match ← mouseReadByte.result with
  | none => return ()
  | some data =>
    let st ← Routine.get
    match mouseTake st.mouse data with
    | none => Routine.giveUp
    | some mouse => Routine.modify fun st => { st with mouse }

/-- The loop of `mouse_write_command`. -/
def writeCommand (cmd : UInt8) : Nat → Driver Unit
  | 0 => fail .mouse "mouse_write_command: retries exceeded"
  | attempts + 1 => do
    -- the controller is told that the next byte is for the mouse
    orFail kbcWaitInputEmpty .mouse "mouse_write_command: input buffer not empty (write cmd)"
    orFail (sysOutb kbcStatusReg mouseCommand) .mouse
      "mouse_write_command: failed to send mouse command"
    orFail kbcWaitInputEmpty .mouse "mouse_write_command: input buffer not empty (write data)"
    orFail (sysOutb kbcDataReg cmd) .mouse "mouse_write_command: failed to write command"
    let response ← orFail kbcWaitOutputFull .mouse "mouse_write_command: failed to read response"
    if response = success then return ()
    else if response ≠ failure then fail .mouse "mouse_write_command: unexpected response"
    else writeCommand cmd attempts

/-- `mouse_write_command`. -/
def mouseWriteCommand (cmd : UInt8) : Driver Unit := writeCommand cmd mouseMaxTries

/-- The loop of `mouse_enable_wheel_mode` over the sample rates. -/
def setSampleRates : List UInt8 → Driver Unit
  | [] => return ()
  | rate :: rates => do
    mouseWriteCommand setSampleRate
    mouseWriteCommand rate
    setSampleRates rates

/-- `mouse_enable_wheel_mode`. -/
def mouseEnableWheelMode : Driver Unit := do
  setSampleRates [200, 100, 80]
  mouseWriteCommand getDeviceId
  let id ← orFail kbcWaitOutputFull .mouse "mouse_enable_wheel_mode: failed to read device id"
  Routine.modify fun st => { st with mouse := { st.mouse with
    packetSize := if 3 ≤ id then 4 else 3, packetIndex := 0, packetReady := false } }
  mouseWriteCommand enableDr

/-- `my_mouse_enable_data_reporting`. -/
def mouseEnableDataReporting : Driver Unit := mouseWriteCommand enableDr

/-- `my_mouse_disable_data_reporting`. -/
def mouseDisableDataReporting : Driver Unit := mouseWriteCommand disableDr

/-! ## The serial port -/

def com1Base : Nat := 0x3F8
def rbr : Nat := 0
def thr : Nat := 0
def ier : Nat := 1
def iir : Nat := 2
def fcr : Nat := 2
def lcr : Nat := 3
def lsr : Nat := 5
def dll : Nat := 0
def dlm : Nat := 1
def iirNoInt : UInt8 := 1
def iirIntIdMask : UInt8 := 0x0E
def lsrRxReady : UInt8 := 1
def lsrErrors : UInt8 := 2 ||| 4 ||| 8
def lsrTxReady : UInt8 := 32
def lcrDlabBit : UInt8 := 128
def uartFreq : Nat := 115200
def bitRate : Nat := 115200
def confFcr : UInt8 := 1 ||| 2 ||| 4 ||| 0x80
def confLcr : UInt8 := 3
def confIer : UInt8 := 1

/-- The loop of `serial_write_char`. -/
def writeChar (data : UInt8) : Nat → Driver Unit
  | 0 => Routine.giveUp
  | i + 1 => do
    let lsrVal ← utilSysInb (com1Base + lsr)
    if lsrVal &&& lsrTxReady ≠ 0 then sysOutb (com1Base + thr) data
    else do
      tickdelay 50
      writeChar data i

/-- `serial_write_char`. -/
def serialWriteChar (data : UInt8) : Driver Unit := writeChar data 100

/-- The loop of `send_packet`: a byte that could not be written is passed over. -/
def sendBytes : List UInt8 → Driver Unit
  | [] => return ()
  | c :: bytes => do
    (serialWriteChar c).always
    sendBytes bytes

/-- The loop of `serial_ih`; the bound on its rounds is not in the source. No read is
checked: one that fails leaves the variable as it is. -/
def drainFifo (lsrVal data : UInt8) : Nat → Driver Unit
  | 0 => Routine.giveUp
  | fuel + 1 => do
    let st ← Routine.get
    if lsrVal &&& lsrRxReady = 0 ∨ st.rxQueue.isFull then return ()
    else do
      let data := (← (utilSysInb (com1Base + rbr)).result).getD data
      if lsrVal &&& lsrErrors = 0 then do
        let st ← Routine.get
        match st.rxQueue.push data with
        | none => Routine.giveUp
        | some (_, rxQueue) => Routine.modify fun st => { st with rxQueue }
      else pure ()
      let lsrVal := (← (utilSysInb (com1Base + lsr)).result).getD lsrVal
      drainFifo lsrVal data fuel

/-- `serial_ih`; `data` is what the variable holds at first. -/
def serialIh (data : UInt8) (fuel : Nat) : Driver Unit := do
  match ← (utilSysInb (com1Base + iir)).result with
  | none => return ()
  | some iirVal =>
    if iirVal &&& iirNoInt ≠ 0 then return ()
    else
      let intOrigin := iirVal &&& iirIntIdMask
      if intOrigin = 2 ∨ intOrigin = 6 then
        match ← (utilSysInb (com1Base + lsr)).result with
        | none => return ()
        | some lsrVal => drainFifo lsrVal data fuel
      else return ()

/-- `serial_init`. -/
def serialInit : Driver Unit := do
  let st ← Routine.get
  if st.serialInitialized then return ()
  else do
    Routine.modify fun st => { st with rxQueue := .init st.rxQueue.buffer }
    let divisor := uartFreq / bitRate
    sysOutb (com1Base + lcr) lcrDlabBit
    sysOutb (com1Base + dll) (UInt8.ofNat divisor)
    sysOutb (com1Base + dlm) (UInt8.ofNat (divisor / 256))
    sysOutb (com1Base + lcr) confLcr
    sysOutb (com1Base + fcr) confFcr
    sysOutb (com1Base + ier) confIer
    Routine.modify fun st => { st with serialInitialized := true }

/-! ## The timer -/

def timerFreq : Nat := 1193182
def timer0 : Nat := 0x40
def timerCtrl : Nat := 0x43
def timerLsbMsb : UInt8 := 0x30
def timerRbCmd : UInt8 := 0xC0
def timerRbCount : UInt8 := 0x20

/-- `TIMER_RB_SEL(n)`, that is `BIT(n + 1)` as a byte. -/
def timerRbSel (n : UInt8) : UInt8 := UInt8.ofNat (2 ^ (n.toNat + 1))

/-- `timer_get_conf`. -/
def timerGetConf (timer : UInt8) : Driver UInt8 := do
  orFail (sysOutb timerCtrl (timerRbCmd ||| timerRbCount ||| timerRbSel timer)) .timer
    "timer_get_conf: failed to send read-back command"
  orFail (utilSysInb (timer0 + timer.toNat)) .timer "timer_get_conf: failed to read timer status"

/-- The selection of a timer in its control word. -/
def timerSel (timer : UInt8) : Option UInt8 :=
  if timer = 0 then some 0x00
  else if timer = 1 then some 0x40
  else if timer = 2 then some 0x80
  else none

/-- `timer_set_frequency`; the count is cut to 16 bits. -/
def timerSetFrequency (timer : UInt8) (freq : UInt32) : Driver Unit := do
  if freq.toNat = 0 ∨ timerFreq < freq.toNat then
    fail .timer "timer_set_frequency: invalid frequency"
  else do
    let st ← orFail (timerGetConf timer) .timer "timer_set_frequency: failed to get timer config"
    let counter := UInt16.ofNat (timerFreq / freq.toNat)
    match timerSel timer with
    | none => fail .timer "timer_set_frequency: invalid timer id"
    | some sel => do
      let control := st &&& 0x0F ||| timerLsbMsb ||| sel
      orFail (sysOutb timerCtrl control) .timer
        "timer_set_frequency: failed to write control word"
      orFail (sysOutb (timer0 + timer.toNat) counter.toUInt8) .timer
        "timer_set_frequency: failed to write LSB"
      orFail (sysOutb (timer0 + timer.toNat) (counter >>> 8).toUInt8) .timer
        "timer_set_frequency: failed to write MSB"

/-! ## The clock -/

def rtcAddrReg : Nat := 0x70
def rtcDataReg : Nat := 0x71
def rtcRegA : UInt8 := 0x0A
def rtcRegB : UInt8 := 0x0B
def rtcRegSeconds : UInt8 := 0x00
def rtcRegMinutes : UInt8 := 0x02
def rtcRegHours : UInt8 := 0x04
def rtcRegDay : UInt8 := 0x07
def rtcRegMonth : UInt8 := 0x08
def rtcRegYear : UInt8 := 0x09
def rtcUipMsk : UInt8 := 128
def rtcDmMsk : UInt8 := 4

/-- `rtc_date`. -/
structure RtcDate where
  seconds : UInt8
  minutes : UInt8
  hours : UInt8
  day : UInt8
  month : UInt8
  year : UInt8
  deriving DecidableEq, Repr

/-- `bcd_to_bin`, as its callers store it. -/
def bcdToBin (bcd : UInt8) : UInt8 := (bcd >>> 4) * 10 + (bcd &&& 0x0F)

/-- `rtc_read_reg`. -/
def rtcReadReg (reg : UInt8) : Driver UInt8 := do
  orFail (sysOutb rtcAddrReg reg) .rtc "rtc_read_reg: failed to write RTC address register"
  let tmp ← orFail (sysInb rtcDataReg) .rtc "rtc_read_reg: failed to read RTC data register"
  return UInt8.ofNat tmp.toNat

/-- The loop of `rtc_read_date` until no update is in progress; the bound on its rounds
is not in the source. -/
def rtcWaitUpdate : Nat → Driver Unit
  | 0 => Routine.giveUp
  | fuel + 1 => do
    tickdelay 50
    let regA ← orFail (rtcReadReg rtcRegA) .rtc "rtc_read_date: failed to read register A"
    if regA &&& rtcUipMsk ≠ 0 then rtcWaitUpdate fuel else return ()

/-- `rtc_read_date`. -/
def rtcReadDate (fuel : Nat) : Driver RtcDate := do
  rtcWaitUpdate fuel
  let regB ← orFail (rtcReadReg rtcRegB) .rtc "rtc_read_date: failed to read register B"
  let seconds ← orFail (rtcReadReg rtcRegSeconds) .rtc "rtc_read_date: failed to read seconds"
  let minutes ← orFail (rtcReadReg rtcRegMinutes) .rtc "rtc_read_date: failed to read minutes"
  let hours ← orFail (rtcReadReg rtcRegHours) .rtc "rtc_read_date: failed to read hours"
  let day ← orFail (rtcReadReg rtcRegDay) .rtc "rtc_read_date: failed to read day"
  let month ← orFail (rtcReadReg rtcRegMonth) .rtc "rtc_read_date: failed to read month"
  let year ← orFail (rtcReadReg rtcRegYear) .rtc "rtc_read_date: failed to read year"
  if regB &&& rtcDmMsk = 0 then
    return ⟨bcdToBin seconds, bcdToBin minutes, bcdToBin hours, bcdToBin day, bcdToBin month,
      bcdToBin year⟩
  else return ⟨seconds, minutes, hours, day, month, year⟩

end Driver

end LCode
