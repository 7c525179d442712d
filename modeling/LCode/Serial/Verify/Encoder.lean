import LCode.Editor.Verify.Line
import LCode.Serial.Verify.Decoder

/-!
# Packets and the decoder

A packet is one frame, so the decoder gives back the calls of
`build_packet_serial` that made a stream, one event for each.
-/

namespace LCode.Serial

/-- The big-endian bytes of a number are the number modulo 65536. -/
theorem word_bytes (n : Int) : word (hiByte n) (loByte n) = n % 65536 := by
  simp only [word, hiByte, loByte, UInt8.toNat_ofNat']
  omega

theorem word_bytes_of_lt {n : Nat} (h : n < 65536) : word (hiByte n) (loByte n) = n := by
  rw [word_bytes]
  omega

/-! ## One packet -/

section Packet

variable {dec : Decoder} {ins : List (UInt8 × Stack)} {cmd : SerialCommand} {body : List UInt8}

/-- A packet is decoded to its event. -/
theorem run_packet (h : Idle dec) (hlen : body.length < 256)
    (hins : ins.map Prod.fst = packet cmd body) :
    ∃ dec' stack, Machine.run decoder dec ins = some (dec', [frameEvent cmd.code body stack]) ∧
      Idle dec' ∧ ins.getLast?.map Prod.snd = some stack :=
  run_frame h hins (by simp [Nat.mod_eq_of_lt hlen])

end Packet

/-! ## Streams of packets -/

/-- What one packet carries. -/
structure Message where
  cmd : SerialCommand
  body : List UInt8
  deriving DecidableEq, Repr

/-- The bytes of a message. -/
def Message.bytes (m : Message) : List UInt8 := packet m.cmd m.body

/-- The event of a message. -/
def Message.Event (m : Message) (ev : SerialEvent) : Prop := ev.Carries m.cmd.code m.body

/-- Messages one after the other. -/
def stream (ms : List Message) : List UInt8 := ms.flatMap Message.bytes

theorem stream_append (ms ns : List Message) : stream (ms ++ ns) = stream ms ++ stream ns :=
  List.flatMap_append

theorem stream_singleton (m : Message) : stream [m] = m.bytes := by
  simp [stream]

/-- A stream is decoded to one event for each message, in order; each is the
frame of its message over what the stack held. -/
theorem run_messages_frames {dec : Decoder} (h : Idle dec) {ms : List Message}
    (hlen : ∀ m ∈ ms, m.body.length < 256) {ins : List (UInt8 × Stack)}
    (hins : ins.map Prod.fst = stream ms) :
    ∃ dec' evs, Machine.run decoder dec ins = some (dec', evs) ∧ Idle dec' ∧
      List.Forall₂ (fun (m : Message) ev => ∃ stack, ev = frameEvent m.cmd.code m.body stack)
        ms evs := by
  induction ms generalizing dec ins with
  | nil =>
    obtain rfl := List.map_eq_nil_iff.1 hins
    exact ⟨dec, [], rfl, h, .nil⟩
  | cons m ms ih =>
    obtain ⟨ins₁, ins₂, rfl, h₁, h₂⟩ := List.map_eq_append_iff.1 hins
    obtain ⟨dec₁, stack, hrun₁, hidle₁, -⟩ := run_packet h (hlen m (by simp)) h₁
    obtain ⟨dec', evs, hrun, hidle, hevs⟩ :=
      ih hidle₁ (fun n hn => hlen n (List.mem_cons_of_mem m hn)) h₂
    exact ⟨dec', _, Machine.run_append hrun₁ hrun, hidle, .cons ⟨stack, rfl⟩ hevs⟩

/-- A stream is decoded to one event for each message, in order. -/
theorem run_messages {dec : Decoder} (h : Idle dec) {ms : List Message}
    (hlen : ∀ m ∈ ms, m.body.length < 256) {ins : List (UInt8 × Stack)}
    (hins : ins.map Prod.fst = stream ms) :
    ∃ dec' evs, Machine.run decoder dec ins = some (dec', evs) ∧ Idle dec' ∧
      List.Forall₂ Message.Event ms evs := by
  obtain ⟨dec', evs, hrun, hidle, hevs⟩ := run_messages_frames h hlen hins
  refine ⟨dec', evs, hrun, hidle, ?_⟩
  clear hins hrun
  induction hevs with
  | nil => exact .nil
  | @cons m ev ms evs hm _ ih =>
    obtain ⟨stack, rfl⟩ := hm
    exact .cons (frameEvent_carries (hlen m (by simp)) stack)
      (ih fun n hn => hlen n (List.mem_cons_of_mem m hn))

/-- Messages, each with the stack on which its event is made. -/
def handled (ms : List (Message × Stack)) : List (UInt8 × Stack) :=
  ms.flatMap fun m => m.1.bytes.map fun b => (b, m.2)

/-- With one stack for each message the events are known. -/
theorem run_handled {dec : Decoder} (h : Idle dec) {ms : List (Message × Stack)}
    (hlen : ∀ m ∈ ms, m.1.body.length < 256) :
    ∃ dec', Machine.run decoder dec (handled ms) =
        some (dec', ms.map fun m => frameEvent m.1.cmd.code m.1.body m.2) ∧ Idle dec' := by
  induction ms generalizing dec with
  | nil => exact ⟨dec, rfl, h⟩
  | cons m ms ih =>
    have hfst : (m.1.bytes.map fun b => (b, m.2)).map Prod.fst = m.1.bytes := by
      rw [List.map_map]
      exact List.map_id _
    obtain ⟨dec₁, stack, hrun₁, hidle₁, hlast⟩ := run_packet h (hlen m (by simp)) hfst
    obtain ⟨dec', hrun, hidle⟩ := ih hidle₁ fun n hn => hlen n (List.mem_cons_of_mem m hn)
    have hstack : stack = m.2 := by
      rw [List.getLast?_map, Option.map_map] at hlast
      obtain ⟨_, _, hs⟩ := Option.map_eq_some_iff.1 hlast
      exact hs.symm
    subst hstack
    exact ⟨dec', Machine.run_append hrun₁ hrun, hidle⟩

/-! ## Messages on their way -/

/-- The decoder makes the messages `ms` of the bytes on their way, and then waits
for a frame. -/
def Pending (dec : Decoder) (bytes : List UInt8) (ms : List Message) : Prop :=
  ∀ ins : List (UInt8 × Stack), ins.map Prod.fst = bytes →
    ∃ dec' evs, Machine.run decoder dec ins = some (dec', evs) ∧ Idle dec' ∧
      List.Forall₂ Message.Event ms evs

namespace Pending

variable {dec : Decoder} {bytes : List UInt8} {ms : List Message} {b : UInt8}

theorem of_idle (h : Idle dec) : Pending dec [] [] := by
  intro ins hins
  obtain rfl := List.map_eq_nil_iff.1 hins
  exact ⟨dec, [], rfl, h, .nil⟩

/-- With no byte on its way there is no message. -/
theorem idle (h : Pending dec [] ms) : Idle dec ∧ ms = [] := by
  obtain ⟨dec', evs, hrun, hidle, hevs⟩ := h [] rfl
  simp only [Machine.run_nil, Option.some.injEq, Prod.mk.injEq] at hrun
  obtain ⟨rfl, rfl⟩ := hrun
  cases hevs
  exact ⟨hidle, rfl⟩

/-- A packet is sent after what is on its way. -/
theorem send (h : Pending dec bytes ms) {m : Message} (hlen : m.body.length < 256) :
    Pending dec (bytes ++ m.bytes) (ms ++ [m]) := by
  intro ins hins
  obtain ⟨ins₁, ins₂, rfl, h₁, h₂⟩ := List.map_eq_append_iff.1 hins
  obtain ⟨dec₁, evs, hrun, hidle, hevs⟩ := h ins₁ h₁
  obtain ⟨dec₂, stack, hrun', hidle', -⟩ := run_packet hidle hlen h₂
  refine ⟨dec₂, _, Machine.run_append hrun hrun', hidle', List.rel_append hevs (.cons ?_ .nil)⟩
  exact frameEvent_carries hlen stack

/-- A byte arrives: either the frame goes on, or it was the last byte of the
first message. -/
theorem deliver (h : Pending dec (b :: bytes) ms) (stack : Stack) :
    ∃ dec' ev, handleByte dec b stack = some (dec', ev) ∧
      match ev with
      | none => Pending dec' bytes ms
      | some se => ∃ m ms', ms = m :: ms' ∧ m.Event se ∧ Pending dec' bytes ms' := by
  have hstep {ins : List (UInt8 × Stack)} (hins : ins.map Prod.fst = bytes) :
      ∃ dec' ev dec'' evs, handleByte dec b stack = some (dec', ev) ∧
        Machine.run decoder dec' ins = some (dec'', evs) ∧ Idle dec'' ∧
        List.Forall₂ Message.Event ms (ev.toList ++ evs) := by
    obtain ⟨dec'', evs, hrun, hidle, hevs⟩ := h ((b, stack) :: ins) (by rw [List.map_cons, hins])
    simp only [Machine.run, decoder, Option.bind_eq_bind, Option.bind_eq_some_iff, Prod.exists,
      Option.pure_def, Option.some.injEq, Prod.mk.injEq, Option.map_eq_some_iff] at hrun
    obtain ⟨_, _, ⟨dec', ev, hbyte, rfl, rfl⟩, _, evs', hrest, rfl, rfl⟩ := hrun
    exact ⟨dec', ev, _, evs', hbyte, hrest, hidle, hevs⟩
  obtain ⟨dec', ev, _, _, hbyte, -, -, hevs⟩ := hstep (by
    have hfst : (bytes.map fun b => (b, stack)).map Prod.fst = bytes := by
      rw [List.map_map]
      exact List.map_id bytes
    exact hfst)
  refine ⟨dec', ev, hbyte, ?_⟩
  cases ev with
  | none =>
    intro ins hins
    obtain ⟨dec₁, ev₁, dec'', evs, hbyte₁, hrun, hidle, hevs⟩ := hstep hins
    rw [hbyte, Option.some.injEq, Prod.mk.injEq] at hbyte₁
    obtain ⟨rfl, rfl⟩ := hbyte₁
    exact ⟨dec'', evs, hrun, hidle, hevs⟩
  | some se =>
    cases hevs with
    | @cons m _ ms' _ hse hevs =>
      refine ⟨m, ms', rfl, hse, ?_⟩
      intro ins hins
      obtain ⟨dec₁, ev₁, dec'', evs, hbyte₁, hrun, hidle, hevs⟩ := hstep hins
      rw [hbyte, Option.some.injEq, Prod.mk.injEq] at hbyte₁
      obtain ⟨rfl, rfl⟩ := hbyte₁
      cases hevs with
      | cons _ hevs => exact ⟨dec'', evs, hrun, hidle, hevs⟩

end Pending

/-! ## Calls of the packet builder -/

/-- One call of `build_packet_serial`. -/
structure Call where
  cmd : SerialCommand
  payload : Buf
  len : Int
  numLines : Int
  deriving DecidableEq, Repr

namespace Call

/-- The memory the payload pointer leads to. -/
def mem (c : Call) : List UInt8 :=
  match c.payload with
  | .block bytes => bytes
  | _ => []

/-- The memory holds what the command reads. -/
def Ok (c : Call) : Prop :=
  match c.cmd with
  | .insertChar => 1 ≤ c.mem.length
  | .deleteChar => True
  | .moveCursor => 4 ≤ c.mem.length
  | .replaceBlock => 6 ≤ c.mem.length
  | .updateLine | .fileStart | .fileLine => 0 ≤ c.len ∧ c.len ≤ c.mem.length

/-- What the packet carries. -/
def body (c : Call) : List UInt8 :=
  match c.cmd with
  | .insertChar => c.mem.take 1
  | .deleteChar => []
  | .moveCursor => c.mem.take 4
  | .replaceBlock => c.mem.take 6
  | .updateLine | .fileStart =>
    hiByte c.numLines :: loByte c.numLines :: c.mem.take (min c.len 250).toNat
  | .fileLine => c.mem.take (min c.len 252).toNat

/-- The bytes it sends. -/
def emit (c : Call) : Option (List UInt8) :=
  buildPacketSerial c.cmd c.payload c.len c.numLines

theorem clampLen_eq (limit len : Int) : clampLen limit len = min len limit := by
  unfold clampLen
  split <;> omega

theorem slice_eq_take (c : Call) {n : Int} (h0 : 0 ≤ n) (h : n ≤ c.mem.length) :
    c.payload.slice 0 n = some (c.mem.take n.toNat) := by
  cases hp : c.payload with
  | block bytes =>
    have hm : c.mem = bytes := by simp [mem, hp]
    rw [hm] at h ⊢
    exact Buf.slice_prefix (z := bytes.drop n.toNat) (by simp) (by rw [List.length_take]; omega)
  | null | dangling =>
    have hm : c.mem = [] := by simp [mem, hp]
    rw [hm] at h ⊢
    obtain rfl : n = 0 := by simp only [List.length_nil] at h; omega
    rfl

/-- A call on enough memory sends one packet with its body. -/
theorem Ok.emit_eq {c : Call} (h : c.Ok) :
    c.emit = some (packet c.cmd c.body) ∧ c.body.length < 256 := by
  unfold Ok at h
  have hlt (n : Int) (hn : n ≤ 252) : (c.mem.take n.toNat).length ≤ 252 := by
    rw [List.length_take]
    omega
  cases hcmd : c.cmd with
  | insertChar =>
    simp only [hcmd] at h
    have := c.slice_eq_take (n := 1) (by omega) (by omega)
    exact ⟨by simp [emit, buildPacketSerial, hcmd, this, body], by simp only [body, hcmd, List.length_take]; omega⟩
  | deleteChar => exact ⟨by simp [emit, buildPacketSerial, hcmd, body], by simp [body, hcmd]⟩
  | moveCursor =>
    simp only [hcmd] at h
    have := c.slice_eq_take (n := 4) (by omega) (by omega)
    exact ⟨by simp [emit, buildPacketSerial, hcmd, this, body], by simp only [body, hcmd, List.length_take]; omega⟩
  | replaceBlock =>
    simp only [hcmd] at h
    have := c.slice_eq_take (n := 6) (by omega) (by omega)
    exact ⟨by simp [emit, buildPacketSerial, hcmd, this, body], by simp only [body, hcmd, List.length_take]; omega⟩
  | updateLine | fileStart =>
    simp only [hcmd] at h
    have hslice := c.slice_eq_take (n := min c.len 250) (by omega) (by omega)
    have hshort := hlt (min c.len 250) (by omega)
    exact ⟨by simp [emit, buildPacketSerial, hcmd, clampLen_eq, hslice, body],
      by simp only [body, hcmd, List.length_cons]; omega⟩
  | fileLine =>
    simp only [hcmd] at h
    have hslice := c.slice_eq_take (n := min c.len 252) (by omega) (by omega)
    have hshort := hlt (min c.len 252) (by omega)
    exact ⟨by simp [emit, buildPacketSerial, hcmd, clampLen_eq, hslice, body],
      by simp only [body, hcmd]; omega⟩

end Call

/-- The bytes of a list of calls. -/
def emitAll : List Call → Option (List UInt8)
  | [] => some []
  | c :: cs => do return (← c.emit) ++ (← emitAll cs)

/-- What a call sends. -/
def Call.message (c : Call) : Message := ⟨c.cmd, c.body⟩

theorem emitAll_eq {calls : List Call} (ok : ∀ c ∈ calls, c.Ok) :
    emitAll calls = some (stream (calls.map Call.message)) := by
  induction calls with
  | nil => rfl
  | cons c calls ih =>
    have hc := (ok c (by simp)).emit_eq.1
    have hcs := ih fun d hd => ok d (List.mem_cons_of_mem c hd)
    simp [emitAll, hc, hcs, stream, Message.bytes, Call.message]

/-- Decoding undoes encoding: one event for each call, in order. -/
theorem decode_encode (calls : List Call) (ok : ∀ c ∈ calls, c.Ok) :
    ∃ bytes, emitAll calls = some bytes ∧
      ∀ dec, Idle dec → ∀ ins : List (UInt8 × Stack), ins.map Prod.fst = bytes →
        ∃ dec' evs, Machine.run decoder dec ins = some (dec', evs) ∧ Idle dec' ∧
          List.Forall₂ (fun (c : Call) ev => ev.Carries c.cmd.code c.body) calls evs := by
  refine ⟨_, emitAll_eq ok, ?_⟩
  intro dec h ins hins
  have hlen : ∀ m ∈ calls.map Call.message, m.body.length < 256 := by
    intro m hm
    obtain ⟨c, hc, rfl⟩ := List.mem_map.1 hm
    exact (ok c hc).emit_eq.2
  obtain ⟨dec', evs, hrun, hidle, hevs⟩ := run_messages h hlen hins
  rw [List.forall₂_map_left_iff] at hevs
  exact ⟨dec', evs, hrun, hidle, hevs⟩

/-- A start byte typed, then a row that begins with one. -/
theorem decode_encode_start_byte :
    ∃ bytes, emitAll [⟨.insertChar, .block [0xFE], 1, 0⟩, ⟨.fileLine, .block [0xFE, 1, 0], 2, 0⟩] =
        some bytes ∧
      ∃ dec' evs, Machine.run decoder .start (bytes.map fun b => (b, fun _ => 0)) =
          some (dec', evs) ∧ Idle dec' ∧
        List.Forall₂ (fun (c : Call) ev => ev.Carries c.cmd.code c.body)
          [⟨.insertChar, .block [0xFE], 1, 0⟩, ⟨.fileLine, .block [0xFE, 1, 0], 2, 0⟩] evs := by
  obtain ⟨bytes, hemit, hdec⟩ := decode_encode
    [⟨.insertChar, .block [0xFE], 1, 0⟩, ⟨.fileLine, .block [0xFE, 1, 0], 2, 0⟩] (by
      simp [Call.Ok, Call.mem])
  exact ⟨bytes, hemit, hdec .start ⟨rfl, List.length_replicate⟩ _ (by
    rw [List.map_map]
    exact List.map_id bytes)⟩

end LCode.Serial
