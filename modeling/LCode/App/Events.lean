import LCode.Commands.Basic
import Mathlib.Logic.Function.Basic
import Mathlib.Algebra.GroupWithZero.Nat

/-!
# The main loop and its events

The event queue of `events.c`, the keyboard and mouse drivers with the handlers
that turn their bytes into events, `interrupts_handler` and the loop of
`proj_main_loop`. What the ports give to a read is an input. A handler yields the
events it pushes, in order; no handler looks at the queue.
-/

namespace LCode

inductive InputEvent where
  | key (ev : KeyEvent)
  | mouse (me : MouseEvent)
  | serial (se : SerialEvent)
  deriving DecidableEq, Repr

abbrev inputEventQueueSize : Nat := 64

/-- The static state of `events.c`; the indices wrap at its size. -/
structure EventQueue where
  queue : Fin inputEventQueueSize → InputEvent
  head : Fin inputEventQueueSize
  tail : Fin inputEventQueueSize
  count : Nat

namespace EventQueue

scoped instance : NeZero inputEventQueueSize := ⟨by decide⟩

/-- `input_event_push`: a full queue drops its oldest event. -/
def push (q : EventQueue) (ev : InputEvent) : EventQueue :=
  let q := if inputEventQueueSize ≤ q.count then { q with head := q.head + 1, count := q.count - 1 }
    else q
  { q with queue := Function.update q.queue q.tail ev, tail := q.tail + 1, count := q.count + 1 }

/-- `input_event_pop`: the event, if there is one. -/
def pop (q : EventQueue) : Option InputEvent × EventQueue :=
  if q.count = 0 then (none, q)
  else (some (q.queue q.head), { q with head := q.head + 1, count := q.count - 1 })

/-- `input_events_clear`. -/
def clear (q : EventQueue) : EventQueue := { q with head := 0, tail := 0, count := 0 }

/-- One push after the other. -/
def pushAll (q : EventQueue) (evs : List InputEvent) : EventQueue := evs.foldl push q

end EventQueue

/-! ## The keyboard -/

/-- What reads of the KBC registers give: the successive status bytes and the
data byte; `none` is a failed read. -/
structure KbcPort where
  statusAt : Nat → Option UInt8
  data : Option UInt8

namespace Kbc

def stObf : UInt8 := 1
def mouseData : UInt8 := 32
def toutErr : UInt8 := 64
def parErr : UInt8 := 128

end Kbc

def twoByte : UInt8 := 0xE0

structure PacketScancode where
  make : Bool
  twoByte : Bool
  size : Nat
  bytes : UInt8 × UInt8
  deriving DecidableEq, Repr

/-- The static state of `keyboard.c`, driver and controller, with the `ps` of `ih.c`. -/
structure Keyboard where
  scancode : UInt8
  ps : PacketScancode
  ctrl : Bool
  shift : Bool
  altgr : Bool
  deriving DecidableEq, Repr

namespace Keyboard

def static : Keyboard := ⟨0, ⟨false, false, 0, 0, 0⟩, false, false, false⟩

/-- `keyboard_ih`: a read that fails leaves the scancode. -/
def keyboardIh (kb : Keyboard) (port : KbcPort) : Keyboard :=
  match port.statusAt 0, port.data with
  | some status, some data =>
    if status &&& Kbc.stObf = 0 then kb
    else if status &&& (Kbc.parErr ||| Kbc.toutErr) ≠ 0 then kb
    else { kb with scancode := data }
  | _, _ => kb

/-- `build_scancode`; no result when it fails. -/
def buildScancode (ps : PacketScancode) (byte : UInt8) : Option PacketScancode :=
  if 2 < ps.size then none
  else if byte = LCode.twoByte then some { ps with twoByte := true, bytes := (byte, ps.bytes.2) }
  else
    let ps := if ps.twoByte then
        { ps with bytes := (ps.bytes.1, byte), size := 2, twoByte := false }
      else { ps with bytes := (byte, ps.bytes.2), size := 1 }
    some { ps with make := byte &&& 0x80 = 0 }

def scLower : List UInt8 :=
  [0, 0] ++ ascii "1234567890'" ++ [0, 0, 9] ++ ascii "qwertyuiop+" ++ [0, 0, 0] ++
    ascii "asdfghjkl" ++ [0, 0] ++ ascii "\\" ++ [0] ++ ascii "~zxcvbnm,.-" ++ [0, 0, 0] ++ ascii " "

def scUpper : List UInt8 :=
  [0, 0] ++ ascii "!\"#$%&/()=?" ++ [0, 0, 9] ++ ascii "QWERTYUIOP*" ++ [0, 0, 0] ++
    ascii "ASDFGHJKL" ++ [0, 0] ++ ascii "|" ++ [0] ++ ascii "^ZXCVBNM;:_" ++ [0, 0, 0] ++ ascii " "

def scAltgr : List UInt8 :=
  [0, 0] ++ ascii "1@3456\x7b[]\x7d'" ++ [0, 0, 9] ++ ascii "qwertyuiop+" ++ [0, 0, 0] ++
    ascii "asdfghjkl" ++ [0, 0] ++ ascii "\\" ++ [0] ++ ascii "~zxcvbnm,.-" ++ [0, 0, 0] ++ ascii " "

/-- `translate_char`. -/
def translateChar (kb : Keyboard) (code : UInt8) : UInt8 :=
  if 58 ≤ code then 0
  else (if kb.altgr then scAltgr else if kb.shift then scUpper else scLower).getD code.toNat 0

/-- `make_event`. -/
def makeEvent (kb : Keyboard) : KeyEvent :=
  ⟨0, kb.ctrl, kb.shift, kb.altgr, false, false, false, .none⟩

/-- The direction of an extended scancode. -/
def direction (code : UInt8) : Direction :=
  if code = 0x4B then .left
  else if code = 0x4D then .right
  else if code = 0x48 then .up
  else if code = 0x50 then .down
  else if code = 0x47 then .home
  else if code = 0x4F then .end
  else .none

/-- `handle_extended`: the event it pushes, if any. -/
def handleExtended (kb : Keyboard) (ps : PacketScancode) : Keyboard × Option KeyEvent :=
  let code := ps.bytes.2 &&& 0x7F
  if code = 0x1D then ({ kb with ctrl := ps.make }, none)
  else if code = 0x38 then ({ kb with altgr := ps.make }, none)
  else if !ps.make then (kb, none)
  else if direction code = .none then (kb, none)
  else (kb, some { kb.makeEvent with dir := direction code })

/-- `keyboard_process`: the event it pushes, if any. -/
def keyboardProcess (kb : Keyboard) (ps : PacketScancode) : Keyboard × Option KeyEvent :=
  if ps.size = 2 then kb.handleExtended ps
  else
    let code := ps.bytes.1 &&& 0x7F
    if code = 0x1D then ({ kb with ctrl := ps.make }, none)
    else if code = 0x2A ∨ code = 0x36 then ({ kb with shift := ps.make }, none)
    else if !ps.make then (kb, none)
    else
      let ev := kb.makeEvent
      let ev := if code = 0x01 then { ev with escape := true }
        else if code = 0x0E then { ev with backspace := true }
        else if code = 0x1C then { ev with enter := true }
        else { ev with c := kb.translateChar code }
      -- scancodes without a character make no event
      if ev.escape || ev.backspace || ev.enter || ev.dir != .none || ev.c != 0 then (kb, some ev)
      else (kb, none)

/-- `keyboard_handler`: the events it pushes. -/
def keyboardHandler (kb : Keyboard) (port : KbcPort) : Keyboard × List InputEvent :=
  let kb := kb.keyboardIh port
  match buildScancode kb.ps kb.scancode with
  | none => (kb, [])
  | some ps =>
    let kb := { kb with ps }
    if ps.twoByte then (kb, [])
    else
      let (kb, ev) := kb.keyboardProcess ps
      (kb, ev.toList.map .key)

end Keyboard

/-! ## The mouse -/

/-- The static state of the mouse driver. -/
structure MouseDriver where
  packetSize : Nat
  packetIndex : Nat
  packetReady : Bool
  packetBytes : List UInt8
  deriving DecidableEq, Repr

/-- The fields of `mouse_packet` that `mouse_process` reads. -/
structure MousePacket where
  lb : Bool
  deltaX : Int
  deltaY : Int
  deltaZ : Int
  deriving DecidableEq, Repr

namespace MouseDriver

/-- The driver after `mouse_enable_wheel_mode`, for the device's id. -/
def start (id : UInt8) : MouseDriver :=
  ⟨if 3 ≤ id then 4 else 3, 0, false, List.replicate 4 0⟩

/-- The loop of `mouse_ih` that waits for the output buffer: the last status,
after the `n`th read. -/
def waitObf (port : KbcPort) (status : UInt8) (n : Nat) : Nat → Option UInt8
  | 0 => some status
  | tries + 1 =>
    if status &&& Kbc.stObf ≠ 0 then some status
    else do waitObf port (← port.statusAt n) (n + 1) tries

/-- The byte `mouse_ih` reads, if it comes that far. -/
def readByte (port : KbcPort) : Option UInt8 := do
  let status ← waitObf port (← port.statusAt 0) 1 10
  if status &&& Kbc.stObf = 0 then none
  else if status &&& (Kbc.parErr ||| Kbc.toutErr) ≠ 0 then none
  else if status &&& Kbc.mouseData = 0 then none
  else port.data

/-- `mouse_ih`. -/
def mouseIh (d : MouseDriver) (port : KbcPort) : Option MouseDriver :=
  match readByte port with
  | none => some d
  | some data =>
    -- bit 3 of the first byte is always set
    if d.packetIndex = 0 ∧ data &&& 8 = 0 then some d
    else do
      let d := { d with
        packetBytes := ← Block.store d.packetBytes d.packetIndex [data]
        packetIndex := d.packetIndex + 1 }
      if d.packetIndex = d.packetSize then return { d with packetReady := true, packetIndex := 0 }
      else return { d with packetReady := false }

/-- `mouse_parse_packet`. -/
def mouseParsePacket (d : MouseDriver) : Option MousePacket := do
  let b0 ← Block.read d.packetBytes 0
  let b1 ← Block.read d.packetBytes 1
  let b2 ← Block.read d.packetBytes 2
  let b3 ← Block.read d.packetBytes 3
  return {
    lb := b0 &&& 1 ≠ 0
    deltaX := if b0 &&& 16 ≠ 0 then b1.toNat - 256 else b1.toNat
    deltaY := if b0 &&& 32 ≠ 0 then b2.toNat - 256 else b2.toNat
    deltaZ := if d.packetSize = 4 then b3.toInt8.toInt else 0 }

end MouseDriver

/-- The static state of the controller's `mouse.c`. -/
structure Pointer where
  x : Int
  y : Int
  initialized : Bool
  prevLb : Bool
  deriving DecidableEq, Repr

namespace Pointer

def static : Pointer := ⟨0, 0, false, false⟩

/-- `if (v < 0) v = 0; if (v >= res) v = res - 1;` -/
def clamp (res v : Int) : Int :=
  let v := if v < 0 then 0 else v
  if res ≤ v then res - 1 else v

/-- `mouse_process`: whether it moved, and the events it pushes. -/
def mouseProcess (m : Pointer) (hRes vRes : Int) (pp : MousePacket) :
    Pointer × Bool × List MouseEvent :=
  let m := if m.initialized then m
    else { m with x := hRes.tdiv 2, y := vRes.tdiv 2, initialized := true }
  let moved := decide (pp.deltaX ≠ 0 ∨ pp.deltaY ≠ 0)
  let m := { m with x := clamp hRes (m.x + pp.deltaX), y := clamp vRes (m.y - pp.deltaY) }
  let button : List MouseEvent :=
    if pp.lb && !m.prevLb then [⟨true, false, m.x, m.y, pp.deltaZ⟩]
    else if pp.lb then [⟨false, true, m.x, m.y, pp.deltaZ⟩]
    else []
  let scroll : List MouseEvent :=
    if pp.deltaZ ≠ 0 then [⟨false, false, m.x, m.y, pp.deltaZ⟩] else []
  ({ m with prevLb := pp.lb }, moved, button ++ scroll)

end Pointer

/-! ## The main loop -/

/-- The process with its drivers and queues. -/
structure Proj where
  app : App
  events : EventQueue
  intCounter : UInt32
  keyboard : Keyboard
  mouse : MouseDriver
  pointer : Pointer
  port : Serial.Port

/-- A hardware notification: the mask, what the KBC gives to each handler, the
bytes that came to the UART, whether IIR passes the test of `serial_ih`, and the
stack of the serial events. -/
structure Notify where
  interrupts : UInt32
  keyboard : KbcPort
  mouse : KbcPort
  arrivals : List Serial.UartByte
  rxInterrupt : Bool
  stackAt : Nat → Serial.Stack

/-- What `driver_receive` gives. -/
inductive Proj.Message where
  | failed
  | other
  | notify (n : Notify)

def irqTimer : UInt32 := 1
def irqKeyboard : UInt32 := 2
def irqMouse : UInt32 := 4
def irqSerial : UInt32 := 16

namespace CommandBar

/-- `command_bar_tick`: whether the status message went away. -/
def tick (bar : CommandBar) : Bool × CommandBar :=
  if bar.statusTicks = 0 then (false, bar)
  else if bar.statusTicks - 1 = 0 then (true, { bar with statusTicks := 0, statusMsg := [] })
  else (false, { bar with statusTicks := bar.statusTicks - 1 })

end CommandBar

namespace Proj

/-- `timer_handler`. -/
def timerHandler (s : Proj) : Proj :=
  let s := { s with intCounter := s.intCounter + 1 }
  let (expired, bar) := s.app.bar.tick
  let app := { s.app with bar }
  let app := if expired then app.setRender .status else app
  { s with app := if s.intCounter.toNat % timerHz = 0 then app.setRender .status else app }

/-- `mouse_handler`: the events it pushes. -/
def mouseHandler (s : Proj) (port : KbcPort) : Option (Proj × List InputEvent) := do
  let mouse ← s.mouse.mouseIh port
  if !mouse.packetReady then return ({ s with mouse }, [])
  else do
    let pp ← mouse.mouseParsePacket
    let (pointer, moved, evs) := s.pointer.mouseProcess s.app.scene.hRes s.app.scene.vRes pp
    let app := if moved then s.app.setRender .mouse else s.app
    return ({ s with app, mouse := { mouse with packetReady := false }, pointer },
      evs.map .mouse)

/-- `keyboard_handler`: the events it pushes. -/
def keyboardHandler (s : Proj) (port : KbcPort) : Option (Proj × List InputEvent) :=
  let (keyboard, evs) := s.keyboard.keyboardHandler port
  some ({ s with keyboard }, evs)

/-- `serial_process`: the events it pushes. -/
def serialHandler (s : Proj) (rxInterrupt : Bool) (stackAt : Nat → Serial.Stack) :
    Option (Proj × List InputEvent) := do
  let (port, evs) ← Serial.process s.port rxInterrupt stackAt
  return ({ s with port }, evs.map .serial)

/-- `if (irq_mask & irq) handler();` with its pushes. -/
def onIrq (irq mask : UInt32) (handler : Proj → Option (Proj × List InputEvent)) (s : Proj) :
    Option (Proj × List InputEvent) :=
  if mask &&& irq = 0 then some (s, [])
  else do
    let (s, evs) ← handler s
    return ({ s with events := s.events.pushAll evs }, evs)

/-- `interrupts_handler`: the state, and the events it pushed. -/
def interruptsHandler (s : Proj) (n : Notify) : Option (Proj × List InputEvent) := do
  let s := { s with port := { s.port with uart := s.port.uart ++ n.arrivals } }
  let (s, _) ← onIrq irqTimer n.interrupts (fun s => some (s.timerHandler, [])) s
  let (s, keys) ← onIrq irqKeyboard n.interrupts (keyboardHandler · n.keyboard) s
  let (s, packets) ← onIrq irqSerial n.interrupts (serialHandler · n.rxInterrupt n.stackAt) s
  let (s, clicks) ← onIrq irqMouse n.interrupts (mouseHandler · n.mouse) s
  return (s, keys ++ packets ++ clicks)

/-- One event of the queue. -/
def dispatchEvent (app : App) : InputEvent → Option App
  | .key ev => Commands.dispatch app ev
  | .mouse me => Commands.dispatchMouse app me
  | .serial se => Commands.dispatchSerial app se

/-- The loop of `input_dispatch`, with a bound on its rounds. -/
def dispatchLoop : Nat → App → EventQueue → Option (App × EventQueue)
  | 0, _, _ => none
  | fuel + 1, app, q =>
    match q.pop with
    | (none, q) => some (app, q)
    | (some ev, q) => do dispatchLoop fuel (← dispatchEvent app ev) q

/-- `input_dispatch`. -/
def inputDispatch (s : Proj) : Option Proj := do
  let (app, events) ← dispatchLoop (s.events.count + 1) s.app s.events
  return { s with app, events }

/-- `if (get_render()) view_render();` -/
def render (s : Proj) : Proj :=
  if s.app.renderMode = .none then s else { s with app := s.app.viewRender }

/-- One round of the loop of `proj_main_loop`: the events pushed in it. -/
def round (s : Proj) : Message → Option (Proj × List InputEvent)
  | .failed => some (s, [])
  | .other => do return ((← s.inputDispatch).render, [])
  | .notify n => do
    let (s, evs) ← s.interruptsHandler n
    return ((← s.inputDispatch).render, evs)

/-- The loop itself: it ends when a handler asked to quit. -/
def mainLoop (s : Proj) : List Message → Option Proj
  | [] => some s
  | msg :: msgs =>
    if s.app.quit then some s
    else do mainLoop (← s.round msg).1 msgs

/-- Before the loop, for what the start of `proj_main_loop` made of the
application and the mouse's id. -/
def start (app : App) (id : UInt8) : Proj where
  app
  events := ⟨fun _ => .key ⟨0, false, false, false, false, false, false, .none⟩, 0, 0, 0⟩
  intCounter := 0
  keyboard := .static
  mouse := .start id
  pointer := .static
  port := ⟨[], .init (List.replicate Serial.queueSize 0), .start⟩

end Proj

end LCode
