import LCode.Commands.Basic
import LCode.Lib.Machine
import LCode.Serial.Verify.Decoder

/-!
# Two processes and the line between them

A peer is a process with its decoder. A local input runs the dispatcher of its
kind and yields the bytes handed to the UART; a byte of the other peer runs
`serial_handle_byte` and, when that makes an event, `commands_dispatch_serial`.
The line is lossless and in order.
-/

namespace LCode

/-- A local input of the main loop. -/
inductive Input where
  | key (ev : KeyEvent)
  | mouse (me : MouseEvent)
  | render
  deriving DecidableEq, Repr

/-- One local input. -/
def App.handle (app : App) : Input → Option App
  | .key ev => Commands.dispatch app ev
  | .mouse me => Commands.dispatchMouse app me
  | .render => some app.viewRender

/-- One local input after the other. -/
def App.run (app : App) (inputs : List Input) : Option App := inputs.foldlM App.handle app

/-- Before an input: the UART has taken what was sent. -/
def App.flush (app : App) : App := { app with sent := [] }

structure Peer where
  app : App
  dec : Serial.Decoder

namespace Peer

/-- A local input: the peer after it and the bytes it sends. -/
def act (p : Peer) (i : Input) : Option (Peer × List UInt8) := do
  let app ← p.app.flush.handle i
  return ({ p with app }, app.sent)

/-- A byte from the line, with what the stack holds when it is handled. -/
def deliver (p : Peer) (b : UInt8) (stack : Serial.Stack) : Option Peer := do
  let (dec, ev) ← Serial.handleByte p.dec b stack
  match ev with
  | none => return { p with dec }
  | some ev => return { app := ← Commands.dispatchSerial p.app ev, dec }

/-- Bytes from the line, one after the other. -/
def deliverAll (p : Peer) : List (UInt8 × Serial.Stack) → Option Peer
  | [] => some p
  | (b, stack) :: ins => do deliverAll (← p.deliver b stack) ins

end Peer

/-- Bytes with what the stack holds when each is handled. -/
def withStacks (bytes : List UInt8) (stackAt : Nat → Serial.Stack) :
    List (UInt8 × Serial.Stack) :=
  bytes.zipIdx.map fun b => (b.1, stackAt b.2)

/-! ## Taking turns -/

inductive Side where
  | left
  | right
  deriving DecidableEq, Repr

/-- A local input of one side, and what the stack of the other side holds while it
handles the bytes sent. -/
structure Turn where
  side : Side
  input : Input
  stackAt : Nat → Serial.Stack

/-- An input of `p`; all it sends is delivered to `q`. -/
def Peer.exchange (p q : Peer) (turn : Turn) : Option (Peer × Peer) := do
  let (p, bytes) ← p.act turn.input
  return (p, ← q.deliverAll (withStacks bytes turn.stackAt))

/-- Two peers with nothing on its way between them. -/
structure Pair where
  a : Peer
  b : Peer

namespace Pair

def turn (s : Pair) (turn : Turn) : Option Pair :=
  match turn.side with
  | .left => do
    let (a, b) ← s.a.exchange s.b turn
    return { a, b }
  | .right => do
    let (b, a) ← s.b.exchange s.a turn
    return { a, b }

/-- One turn after the other. -/
def run (s : Pair) (turns : List Turn) : Option Pair := turns.foldlM turn s

end Pair

/-! ## Any interleaving -/

/-- Two peers and the bytes on their way from `a` to `b` and from `b` to `a`. -/
structure Net where
  a : Peer
  b : Peer
  ab : List UInt8
  ba : List UInt8

/-- What can happen next: a local input of one side, or a byte reaching it. -/
inductive Action where
  | input (side : Side) (i : Input)
  | deliver (side : Side) (stack : Serial.Stack)

namespace Net

/-- One step; with nothing on its way a delivery does nothing. -/
def step (n : Net) : Action → Option Net
  | .input .left i => do
    let (a, bytes) ← n.a.act i
    return { n with a, ab := n.ab ++ bytes }
  | .input .right i => do
    let (b, bytes) ← n.b.act i
    return { n with b, ba := n.ba ++ bytes }
  | .deliver .left stack =>
    match n.ba with
    | [] => some n
    | byte :: ba => do return { n with a := ← n.a.deliver byte stack, ba }
  | .deliver .right stack =>
    match n.ab with
    | [] => some n
    | byte :: ab => do return { n with b := ← n.b.deliver byte stack, ab }

/-- One step after the other. -/
def run (n : Net) (actions : List Action) : Option Net := actions.foldlM step n

end Net

end LCode
