import LCode.Editor.Line

/-!
# The serial protocol

The packet builder and the byte decoder of `serial.c`, and the software queue
its bytes come through (`queue.c`, `serial_port.c`). A packet is 0xFE, a
command, a payload length and the payload; nothing is escaped.
-/

namespace LCode

/-- The commands of `serial.h`. -/
inductive SerialCommand where
  | insertChar
  | deleteChar
  | moveCursor
  | replaceBlock
  | updateLine
  | fileStart
  | fileLine
  deriving DecidableEq, Repr

/-- The command byte. -/
def SerialCommand.code : SerialCommand → UInt8
  | .insertChar => 0x01
  | .deleteChar => 0x02
  | .moveCursor => 0x03
  | .replaceBlock => 0x05
  | .updateLine => 0x06
  | .fileStart => 0x10
  | .fileLine => 0x11

structure SerialEvent where
  cmd : UInt8
  payloadBuf : List UInt8
  payloadLen : UInt8
  deriving DecidableEq, Repr

namespace Serial

def pktStartByte : UInt8 := 0xFE

/-- `n & 0xFF`. -/
def loByte (n : Int) : UInt8 := UInt8.ofNat (n % 256).toNat

/-- `(n >> 8) & 0xFF`. -/
def hiByte (n : Int) : UInt8 := loByte (n / 256)

/-- `hi << 8 | lo`. -/
def word (hi lo : UInt8) : Int := hi.toNat * 256 + lo.toNat

/-! ## Sending -/

/-- The bytes `send_packet` hands to the UART for a packet with this payload. -/
def packet (cmd : SerialCommand) (payload : List UInt8) : List UInt8 :=
  pktStartByte :: cmd.code :: UInt8.ofNat payload.length :: payload

/-- The length a text is cut to before it is sent. -/
def clampLen (limit len : Int) : Int := if limit < len then limit else len

/-- `build_packet_serial`: the bytes it sends. -/
def buildPacketSerial (cmd : SerialCommand) (payload : Buf) (len numLines : Int) :
    Option (List UInt8) := do
  match cmd with
  | .insertChar => return packet cmd (← payload.slice 0 1)
  | .deleteChar => return packet cmd []
  | .moveCursor => return packet cmd (← payload.slice 0 4)
  | .replaceBlock => return packet cmd (← payload.slice 0 6)
  | .updateLine | .fileStart =>
    let text ← payload.slice 0 (clampLen 250 len)
    return packet cmd (hiByte numLines :: loByte numLines :: text)
  | .fileLine => return packet cmd (← payload.slice 0 (clampLen 252 len))

/-! ## Receiving -/

inductive ProtocolState where
  | waitStart
  | readCmd
  | readLen
  | readPayload
  deriving DecidableEq, Repr

/-- The static state of the decoder. -/
structure Decoder where
  state : ProtocolState
  currentCmd : UInt8
  payloadLen : UInt8
  payloadBuf : List UInt8
  payloadIdx : Int
  deriving DecidableEq, Repr

/-- The decoder before any byte. -/
def Decoder.start : Decoder := ⟨.waitStart, 0, 0, List.replicate 256 0, 0⟩

/-- The bytes a fresh `InputEvent` on the stack holds. -/
abbrev Stack := Fin 256 → UInt8

/-- `serial_handle_byte`: the event it pushes, if any. `stack` is what the
uninitialised `payload_buf` of that event holds. -/
def handleByte (dec : Decoder) (byte : UInt8) (stack : Stack) :
    Option (Decoder × Option SerialEvent) :=
  match dec.state with
  | .waitStart =>
    if byte = pktStartByte then some ({ dec with state := .readCmd }, none) else some (dec, none)
  | .readCmd => some ({ dec with currentCmd := byte, state := .readLen }, none)
  | .readLen =>
    let dec := { dec with payloadLen := byte, payloadIdx := 0 }
    if byte = 0 then
      -- the payload bytes of the event are left as they are
      some ({ dec with state := .waitStart }, some ⟨dec.currentCmd, List.ofFn stack, byte⟩)
    else some ({ dec with state := .readPayload }, none)
  | .readPayload => do
    let payloadBuf ← Block.store dec.payloadBuf dec.payloadIdx [byte]
    let dec := { dec with payloadBuf, payloadIdx := dec.payloadIdx + 1 }
    if (dec.payloadLen.toNat : Int) ≤ dec.payloadIdx then do
      let eventBuf ← Block.store (List.ofFn stack) 0
        (← Block.slice dec.payloadBuf 0 dec.payloadLen.toNat)
      return ({ dec with state := .waitStart },
        some ⟨dec.currentCmd, eventBuf, dec.payloadLen⟩)
    else return (dec, none)

/-! ## The software queue and the interrupt handler -/

def queueSize : Nat := 16

/-- `queue_t`. -/
structure Queue where
  buffer : List UInt8
  head : Nat
  tail : Nat
  count : Nat
  deriving DecidableEq, Repr

namespace Queue

/-- `queue_init`: the buffer keeps its bytes. -/
def init (buffer : List UInt8) : Queue := ⟨buffer, 0, 0, 0⟩

def isFull (q : Queue) : Bool := q.count == queueSize

/-- `queue_push`. -/
def push (q : Queue) (data : UInt8) : Option (Bool × Queue) :=
  if q.isFull then some (false, q)
  else do
    let buffer ← Block.store q.buffer q.tail [data]
    return (true, { q with buffer, tail := (q.tail + 1) % queueSize, count := q.count + 1 })

/-- `queue_pop`: the byte, if there is one. -/
def pop (q : Queue) : Option (Option UInt8 × Queue) :=
  if q.count = 0 then some (none, q)
  else do
    let data ← Block.read q.buffer q.head
    return (some data, { q with head := (q.head + 1) % queueSize, count := q.count - 1 })

end Queue

/-- A byte waiting in the UART, and whether its line status has an error bit. -/
structure UartByte where
  data : UInt8
  lineError : Bool
  deriving DecidableEq, Repr

/-- The bytes the UART holds, the software queue and the decoder. -/
structure Port where
  uart : List UartByte
  rxQueue : Queue
  dec : Decoder

/-- The loop of `serial_ih`: bytes without a line error go from the UART to the
software queue, until the UART is empty or the queue is full. -/
def drainUart : List UartByte → Queue → Option (List UartByte × Queue)
  | [], q => some ([], q)
  | b :: uart, q =>
    if q.isFull then some (b :: uart, q)
    else if b.lineError then drainUart uart q
    else do
      let (_, q) ← q.push b.data
      drainUart uart q

/-- The loop of `serial_process`: bytes are popped and decoded until the queue
is empty. `stackAt` gives the stack contents of the coming events. -/
def drainQueue : Nat → Queue → Decoder → (Nat → Stack) →
    Option (Queue × Decoder × List SerialEvent)
  | 0, _, _, _ => none
  | fuel + 1, q, dec, stackAt => do
    match ← q.pop with
    | (none, q) => return (q, dec, [])
    | (some data, q) =>
      let (dec, ev) ← handleByte dec data (stackAt 0)
      let (q, dec, evs) ← drainQueue fuel q dec (fun k => stackAt (k + 1))
      return (q, dec, ev.toList ++ evs)

/-- `serial_process`: the events it pushes. `rxInterrupt` is whether IIR passes the
test of `serial_ih`, bit 0 clear and 2 or 6 under the mask. -/
def process (p : Port) (rxInterrupt : Bool) (stackAt : Nat → Stack) :
    Option (Port × List SerialEvent) := do
  let (uart, q) ← if rxInterrupt then drainUart p.uart p.rxQueue else some (p.uart, p.rxQueue)
  let (q, dec, evs) ← drainQueue (q.count + 1) q p.dec stackAt
  return (⟨uart, q, dec⟩, evs)

end Serial

end LCode
