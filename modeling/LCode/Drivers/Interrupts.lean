import LCode.Drivers.Basic

/-!
# Interrupt lines, start and end

The subscriptions of the drivers, `subscribe_interrupts` and `unsubscribe_interrupts` of
`ih.c`, the reads of its handlers, and what `proj_main_loop` does with the drivers around
its loop.
-/

namespace LCode

namespace Driver

/-! ## Lines -/

def irqReenable : Nat := 1
def irqExclusive : Nat := 2
def timer0Irq : Nat := 0
def keyboardIrq : Nat := 1
def com1Irq : Nat := 4
def kbdAuxIrq : Nat := 12

/-- A static `hook_id`: how it is read and written. -/
structure Hook where
  read : IrqLines → Int
  write : Int → IrqLines → IrqLines

def timerHook : Hook := ⟨IrqLines.timerHook, fun h irq => { irq with timerHook := h }⟩
def keyboardHook : Hook := ⟨IrqLines.keyboardHook, fun h irq => { irq with keyboardHook := h }⟩
def mouseHook : Hook := ⟨IrqLines.mouseHook, fun h irq => { irq with mouseHook := h }⟩
def serialHook : Hook := ⟨IrqLines.serialHook, fun h irq => { irq with serialHook := h }⟩

/-- An assignment to these variables. -/
def setIrq (f : IrqLines → IrqLines) : Driver Unit :=
  Routine.modify fun st => { st with irq := f st.irq }

/-- The body of a `*_subscribe_int`: `bit_no`. The kernel writes the hook back. -/
def subscribeInt (hook : Hook) (irq policy : Nat) (e : ErrorType) (msg : String) :
    Driver UInt8 := do
  let bitNo := hook.read (← Routine.get).irq
  let answer : Option Int ← Routine.ask (Sys.irqsetpolicy irq policy bitNo)
  match answer with
  | none => fail e msg
  | some h => do
    setIrq (hook.write h)
    return UInt8.ofNat (bitNo % 256).toNat

/-- The body of a `*_unsubscribe_int`. -/
def unsubscribeInt (hook : Hook) (e : ErrorType) (msg : String) : Driver Unit := do
  let hookId := hook.read (← Routine.get).irq
  let done : Bool ← Routine.ask (Sys.irqrmpolicy hookId)
  if done then return () else fail e msg

/-- `timer_subscribe_int`. -/
def timerSubscribeInt : Driver UInt8 :=
  subscribeInt timerHook timer0Irq irqReenable .timer "timer_subscribe_int: irqsetpolicy failed"

/-- `timer_unsubscribe_int`. -/
def timerUnsubscribeInt : Driver Unit :=
  unsubscribeInt timerHook .timer "timer_unsubscribe_int: irqrmpolicy failed"

/-- `keyboard_subscribe_int`. -/
def keyboardSubscribeInt : Driver UInt8 :=
  subscribeInt keyboardHook keyboardIrq (irqReenable ||| irqExclusive) .keyboard
    "keyboard_subscribe_int: sys_irqsetpolicy failed"

/-- `keyboard_unsubscribe_int`. -/
def keyboardUnsubscribeInt : Driver Unit :=
  unsubscribeInt keyboardHook .keyboard "keyboard_unsubscribe_int: sys_irqrmpolicy failed"

/-- `mouse_subscribe_int`. -/
def mouseSubscribeInt : Driver UInt8 :=
  subscribeInt mouseHook kbdAuxIrq (irqReenable ||| irqExclusive) .mouse
    "mouse_subscribe_int: sys_irqsetpolicy failed"

/-- `mouse_unsubscribe_int`. -/
def mouseUnsubscribeInt : Driver Unit :=
  unsubscribeInt mouseHook .mouse "mouse_unsubscribe_int: sys_irqrmpolicy failed"

/-- `serial_subscribe_int`. -/
def serialSubscribeInt : Driver UInt8 :=
  subscribeInt serialHook com1Irq (irqReenable ||| irqExclusive) .serial
    "serial_subscribe_int: sys_irqsetpolicy failed"

/-- `serial_unsubscribe_int`. -/
def serialUnsubscribeInt : Driver Unit :=
  unsubscribeInt serialHook .serial "serial_unsubscribe_int: sys_irqrmpolicy failed"

/-- `BIT(bit_no)`, as a byte. -/
def bit (bitNo : UInt8) : UInt8 := UInt8.ofNat (2 ^ bitNo.toNat)

/-- `subscribe_interrupts`. -/
def subscribeInterrupts : Driver Unit := do
  let bitNo ← orFail timerSubscribeInt .timer
    "subscribe_interrupts: unable to subscribe timer interrupt"
  setIrq fun irq => { irq with irqTimer := bit bitNo }
  let bitNo ← keyboardSubscribeInt.orElse do
    timerUnsubscribeInt.always
    fail .keyboard "subscribe_interrupts: unable to subscribe keyboard interrupt"
  setIrq fun irq => { irq with irqKeyboard := bit bitNo }
  let bitNo ← mouseSubscribeInt.orElse do
    timerUnsubscribeInt.always
    keyboardUnsubscribeInt.always
    fail .mouse "subscribe_interrupts: unable to subscribe mouse interrupt"
  mouseEnableWheelMode.orElse do
    timerUnsubscribeInt.always
    keyboardUnsubscribeInt.always
    mouseUnsubscribeInt.always
    fail .mouse "subscribe_interrupts: unable to enable wheel mode"
  mouseEnableDataReporting.orElse do
    timerUnsubscribeInt.always
    keyboardUnsubscribeInt.always
    mouseUnsubscribeInt.always
    fail .mouse "subscribe_interrupts: unable to enable data reporting"
  setIrq fun irq => { irq with irqMouse := bit bitNo }
  let bitNo ← serialSubscribeInt.orElse do
    timerUnsubscribeInt.always
    keyboardUnsubscribeInt.always
    mouseUnsubscribeInt.always
    mouseDisableDataReporting.always
    fail .serial "subscribe_interrupts: unable to subscribe serial interrupt"
  setIrq fun irq => { irq with irqSerial := bit bitNo }

/-- One step of `unsubscribe_interrupts`: whether there was an error, and its message. -/
def unsubscribeStep (p : Driver Unit) (e : ErrorType) (msg : String) : Driver Bool := do
  match ← (orFail p e msg).result with
  | none => return true
  | some _ => return false

/-- `unsubscribe_interrupts`: every step is taken. -/
def unsubscribeInterrupts : Driver Unit := do
  let mouse ← unsubscribeStep mouseUnsubscribeInt .mouse
    "unsubscribe_interrupts: unable to unsubscribe mouse interrupt"
  let keyboard ← unsubscribeStep keyboardUnsubscribeInt .keyboard
    "unsubscribe_interrupts: unable to unsubscribe keyboard interrupt"
  let timer ← unsubscribeStep timerUnsubscribeInt .timer
    "unsubscribe_interrupts: unable to unsubscribe timer interrupt"
  let reporting ← unsubscribeStep mouseDisableDataReporting .mouse
    "unsubscribe_interrupts: unable to disable mouse data reporting"
  let serial ← unsubscribeStep serialUnsubscribeInt .serial
    "unsubscribe_interrupts: unable to unsubscribe serial interrupt"
  if mouse || keyboard || timer || reporting || serial then Routine.giveUp else return ()

/-! ## The clock's text -/

/-- `%02d`. -/
def twoDigits (n : Nat) : List UInt8 :=
  if n < 10 then [48, UInt8.ofNat (48 + n)]
  else (Nat.toDigits 10 n).map fun c => UInt8.ofNat c.toNat

/-- `snprintf` with `%02d:%02d:%02d` into a buffer of `n` bytes. -/
def formatTime (n hours minutes seconds : Nat) : List UInt8 :=
  (twoDigits hours ++ 58 :: twoDigits minutes ++ 58 :: twoDigits seconds).take (n - 1) ++ [0]

/-- `time_update`: `last_second` is never written. -/
def timeUpdate (fuel : Nat) : Driver Unit := do
  let date := (← (rtcReadDate fuel).result).getD ⟨0, 0, 0, 0, 0, 0⟩
  let text := formatTime 16 date.hours.toNat date.minutes.toNat date.seconds.toNat
  Routine.modify fun st => { st with timeBuf := text ++ st.timeBuf.drop text.length }

/-- The start of `proj_main_loop`, from the serial port on. -/
def startUp : Driver Unit := do
  orFail serialInit .serial "proj_main_loop: unable to initialize serial port"
  orFail subscribeInterrupts .err "proj_main_loop: unable to subscribe interrupts"
  (timerSetFrequency 0 (UInt32.ofNat timerHz)).orElse do
    unsubscribeInterrupts.always
    fail .timer "proj_main_loop: unable to set timer frequency"

/-- Its end, after the loop. -/
def shutDown : Driver Unit :=
  orFail unsubscribeInterrupts .err "proj_main_loop: unable to unsubscribe interrupts"

/-- What the loop asks of the drivers: the interrupt handlers, the clock of the timer's
handler, and the packets of the commands. -/
inductive Work where
  | keyboard
  | mouse
  | serial (data : UInt8) (fuel : Nat)
  | clock (fuel : Nat)
  | send (bytes : List UInt8)
  deriving DecidableEq, Repr

def work : Work → Driver Unit
  | .keyboard => keyboardIh
  | .mouse => mouseIh
  | .serial data fuel => serialIh data fuel
  | .clock fuel => timeUpdate fuel
  | .send bytes => sendBytes bytes

/-- The work of the loop, one after the other. -/
def loop : List Work → Driver Unit
  | [] => return ()
  | w :: ws => do
    (work w).always
    loop ws

/-- `proj_main_loop`, from the serial port on. -/
def projMainLoop (ws : List Work) : Driver Unit := do
  startUp
  loop ws
  shutDown

end Driver

end LCode
