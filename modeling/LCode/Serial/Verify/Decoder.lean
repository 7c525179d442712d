import LCode.Lib.Framing
import LCode.Lib.Machine
import LCode.Serial.Basic
import Mathlib.Data.List.Induction

/-!
# The byte decoder

`serial_handle_byte` as a machine over bytes, each given with what the stack
holds at the time. It never faults, and from STATE_WAIT_START it emits exactly
the frames of the stream.
-/

namespace LCode

/-- The event carries this command and payload, whatever its unset bytes are. -/
structure SerialEvent.Carries (ev : SerialEvent) (cmd : UInt8) (payload : List UInt8) : Prop where
  cmd_eq : ev.cmd = cmd
  payloadLen_eq : ev.payloadLen.toNat = payload.length
  payload_eq : ev.payloadBuf.take payload.length = payload

namespace Serial

/-- `serial_handle_byte` over a stream. -/
def decoder : Machine Decoder (UInt8 × Stack) SerialEvent := fun dec i =>
  (handleByte dec i.1 i.2).map fun r => (r.1, r.2.toList)

/-- The event of a frame that ends with these bytes on the stack. -/
def frameEvent (cmd : UInt8) (payload : List UInt8) (stack : Stack) : SerialEvent :=
  ⟨cmd, payload ++ (List.ofFn stack).drop payload.length, UInt8.ofNat payload.length⟩

theorem frameEvent_carries {cmd : UInt8} {payload : List UInt8} (h : payload.length < 256)
    (stack : Stack) : (frameEvent cmd payload stack).Carries cmd payload := by
  unfold frameEvent
  generalize List.ofFn stack = junk
  exact ⟨rfl, by simp [Nat.mod_eq_of_lt h], by simp⟩

/-! ## The decoder's invariant -/

/-- The payload buffer has its size, and in STATE_READ_PAYLOAD its index is below
the length that is awaited. -/
structure Wf (dec : Decoder) : Prop where
  size : dec.payloadBuf.length = 256
  index : dec.state = .readPayload → 0 ≤ dec.payloadIdx ∧ dec.payloadIdx < dec.payloadLen.toNat

theorem wf_start : Wf .start := ⟨List.length_replicate, fun h => nomatch h⟩

theorem ofFn_stack_length (stack : Stack) : (List.ofFn stack).length = 256 := List.length_ofFn

section Bytes

variable {d : Decoder} (stack : Stack)

/-- A byte between frames. -/
theorem handleByte_gap (hstate : d.state = .waitStart) {b : UInt8} (hb : b ≠ pktStartByte) :
    handleByte d b stack = some (d, none) := by
  simp only [handleByte, hstate, hb, if_false]

theorem handleByte_start (hstate : d.state = .waitStart) :
    handleByte d pktStartByte stack = some ({ d with state := .readCmd }, none) := by
  simp only [handleByte, hstate, if_true]

theorem handleByte_cmd (hstate : d.state = .readCmd) (b : UInt8) :
    handleByte d b stack = some ({ d with currentCmd := b, state := .readLen }, none) := by
  simp only [handleByte, hstate]

/-- The length of an empty frame. -/
theorem handleByte_empty (hstate : d.state = .readLen) :
    handleByte d 0 stack =
      some ({ d with payloadLen := 0, payloadIdx := 0, state := .waitStart },
        some (frameEvent d.currentCmd [] stack)) := by
  have hzero : UInt8.ofNat 0 = 0 := rfl
  simp only [handleByte, hstate, if_true, frameEvent, List.nil_append, List.length_nil,
    List.drop_zero, hzero]

theorem handleByte_len (hstate : d.state = .readLen) {b : UInt8} (hb : b ≠ 0) :
    handleByte d b stack =
      some ({ d with payloadLen := b, payloadIdx := 0, state := .readPayload }, none) := by
  simp only [handleByte, hstate, hb, if_false]

/-- A payload byte that is not the last one. -/
theorem handleByte_payload {a z : List UInt8} {x : UInt8}
    (hstate : d.state = .readPayload) (hbuf : d.payloadBuf = a ++ x :: z)
    (hidx : d.payloadIdx = a.length) (hlt : a.length + 1 < d.payloadLen.toNat)
    (b : UInt8) :
    handleByte d b stack =
      some ({ d with payloadBuf := a ++ b :: z, payloadIdx := a.length + 1 }, none) := by
  have hstore := Block.store_cell hbuf hidx (y := b)
  rw [hidx] at hstore
  simp only [handleByte, hstate, hidx, hstore, Option.bind_eq_bind, Option.bind_some]
  rw [if_neg (by omega)]
  rfl

/-- The last payload byte. -/
theorem handleByte_last {a z : List UInt8} {x : UInt8}
    (hstate : d.state = .readPayload) (hbuf : d.payloadBuf = a ++ x :: z)
    (hsize : d.payloadBuf.length = 256) (hidx : d.payloadIdx = a.length)
    (hlast : a.length + 1 = d.payloadLen.toNat) (b : UInt8) :
    handleByte d b stack =
      some ({ d with
        payloadBuf := a ++ b :: z, payloadIdx := a.length + 1, state := .waitStart },
        some (frameEvent d.currentCmd (a ++ [b]) stack)) := by
  have hstore := Block.store_cell hbuf hidx (y := b)
  rw [hidx] at hstore
  have hslice : Block.slice (a ++ b :: z) 0 d.payloadLen.toNat = some (a ++ [b]) :=
    Block.slice_prefix (z := z) (by simp) (by simp [← hlast])
  have hevent : Block.store (List.ofFn stack) 0 (a ++ [b]) =
      some (a ++ [b] ++ (List.ofFn stack).drop (a ++ [b]).length) :=
    Block.store_prefix (by rw [ofFn_stack_length, ← hsize, hbuf]; simp)
  have hlen : UInt8.ofNat (a ++ [b]).length = d.payloadLen := by
    rw [List.length_append, List.length_singleton, hlast, UInt8.ofNat_toNat]
  simp only [handleByte, hstate, hstore, hidx, Option.bind_eq_bind, Option.bind_some]
  rw [if_pos (by omega), hslice]
  simp only [Option.bind_some, hevent, frameEvent, hlen]
  rfl

/-- A byte keeps the invariant. -/
theorem Wf.handleByte (h : Wf d) (b : UInt8) :
    ∃ dec' ev, handleByte d b stack = some (dec', ev) ∧ Wf dec' := by
  obtain ⟨size, index⟩ := h
  cases hstate : d.state with
  | waitStart =>
    by_cases hb : b = pktStartByte
    · rw [hb]
      exact ⟨_, _, handleByte_start stack hstate, size, fun h => nomatch h⟩
    · exact ⟨d, none, handleByte_gap stack hstate hb, size, index⟩
  | readCmd => exact ⟨_, _, handleByte_cmd stack hstate b, size, fun h => nomatch h⟩
  | readLen =>
    by_cases hb : b = 0
    · rw [hb]
      exact ⟨_, _, handleByte_empty stack hstate, size, fun h => nomatch h⟩
    · refine ⟨_, _, handleByte_len stack hstate hb, size, fun _ => ?_⟩
      have hpos : b.toNat ≠ 0 := fun h0 => hb (UInt8.toNat_inj.1 (by simpa using h0))
      exact ⟨Int.le_refl _, by simp only; omega⟩
  | readPayload =>
    obtain ⟨h0, hlt⟩ := index hstate
    have hbound := d.payloadLen.toNat_lt
    obtain ⟨a, z, hbuf, ha⟩ := exists_eq_append_cons (t := d.payloadBuf)
      (i := d.payloadIdx.toNat) (by omega)
    have hidx : d.payloadIdx = a.length := by omega
    by_cases hlast : a.length + 1 < d.payloadLen.toNat
    · refine ⟨_, _, handleByte_payload stack hstate hbuf hidx hlast b, ?_, fun _ => ?_⟩
      · rw [← size, hbuf]
        simp
      · exact ⟨by simp only; omega, by simp only; omega⟩
    · refine ⟨_, _, handleByte_last stack hstate hbuf size hidx (by omega) b, ?_,
        fun h => nomatch h⟩
      rw [← size, hbuf]
      simp

end Bytes

/-- No stream makes the decoder fault. -/
theorem Wf.run {dec : Decoder} (h : Wf dec) (ins : List (UInt8 × Stack)) :
    ∃ dec' evs, Machine.run decoder dec ins = some (dec', evs) ∧ Wf dec' :=
  Machine.run_invariant (fun dec i hdec => by
    obtain ⟨dec', ev, hstep, hdec'⟩ := hdec.handleByte i.2 i.1
    exact ⟨dec', ev.toList, by simp [decoder, hstep], hdec'⟩) h ins

/-! ## Frames -/

section Frames

variable {d dec : Decoder} {i ins : List (UInt8 × Stack)}

/-- The decoder waits for a frame. -/
def Idle (dec : Decoder) : Prop := dec.state = .waitStart ∧ dec.payloadBuf.length = 256

theorem run_step {b : UInt8} {stack : Stack} {dec' dec'' : Decoder} {ev : Option SerialEvent}
    {evs : List SerialEvent} (h : handleByte dec b stack = some (dec', ev))
    (hrun : Machine.run decoder dec' ins = some (dec'', evs)) :
    Machine.run decoder dec ((b, stack) :: ins) = some (dec'', ev.toList ++ evs) :=
  Machine.run_cons (by simp [decoder, h]) hrun

/-- Bytes of a payload short of its end. -/
theorem run_partial {a z : List UInt8} (hstate : d.state = .readPayload)
    (hbuf : d.payloadBuf = a ++ z) (hidx : d.payloadIdx = a.length)
    (hsize : d.payloadBuf.length = 256) (hlt : a.length + i.length < d.payloadLen.toNat) :
    Machine.run decoder d i = some ({ d with
      payloadBuf := a ++ i.map Prod.fst ++ z.drop i.length
      payloadIdx := a.length + i.length }, []) := by
  induction i generalizing d a z with
  | nil => simp [← hbuf, ← hidx]
  | cons j i ih =>
    have hbound := d.payloadLen.toNat_lt
    cases z with
    | nil => simp [hbuf] at hsize; omega
    | cons x z =>
      simp only [List.length_cons] at hlt
      have hstep := handleByte_payload j.2 hstate hbuf hidx (by omega) j.1
      refine (run_step hstep (ih (a := a ++ [j.1]) (z := z) hstate (by simp) (by simp) ?_
        (by simp; omega))).trans ?_
      · rw [← hsize, hbuf]
        simp
      · simp
        omega

/-- The rest of a payload ends its frame. -/
theorem run_payload {a z p : List UInt8} (hstate : d.state = .readPayload)
    (hbuf : d.payloadBuf = a ++ z) (hidx : d.payloadIdx = a.length)
    (hsize : d.payloadBuf.length = 256) (hins : i.map Prod.fst = p) (hne : p ≠ [])
    (hlen : a.length + p.length = d.payloadLen.toNat) :
    ∃ dec' stack, Machine.run decoder d i =
        some (dec', [frameEvent d.currentCmd (a ++ p) stack]) ∧ Idle dec' ∧
      i.getLast?.map Prod.snd = some stack := by
  subst hins
  induction i using List.reverseRecOn with
  | nil => simp at hne
  | append_singleton i j =>
    have hbound := d.payloadLen.toNat_lt
    simp only [List.map_append, List.map_cons, List.map_nil, List.length_append, List.length_map,
      List.length_singleton] at hlen
    have hrun := run_partial hstate hbuf hidx hsize (show a.length + i.length < _ by omega)
    have hz : i.length < z.length := by
      have := congrArg List.length hbuf
      rw [List.length_append] at this
      omega
    obtain ⟨x, z', hx⟩ := List.exists_cons_of_length_pos (l := z.drop i.length)
      (by rw [List.length_drop]; omega)
    rw [hx] at hrun
    have hfull : (a ++ i.map Prod.fst ++ x :: z').length = 256 := by
      have := congrArg List.length hx
      rw [List.length_drop, List.length_cons] at this
      rw [← hsize, hbuf]
      simp
      omega
    have hlast := handleByte_last j.2 (d := { d with
        payloadBuf := a ++ i.map Prod.fst ++ x :: z', payloadIdx := a.length + i.length })
      (a := a ++ i.map Prod.fst) (x := x) (z := z') hstate rfl hfull (by simp) (by simp; omega)
      j.1
    have hall := Machine.run_append hrun (run_step hlast (Machine.run_nil _ _))
    refine ⟨_, j.2, by simpa using hall, ⟨rfl, ?_⟩, by simp⟩
    rw [← hfull]
    simp

/-- A whole frame: one event, with the stack of its last byte. -/
theorem run_frame {cmd n : UInt8} {p : List UInt8} (h : Idle dec)
    (hins : ins.map Prod.fst = pktStartByte :: cmd :: n :: p) (hlen : p.length = n.toNat) :
    ∃ dec' stack, Machine.run decoder dec ins = some (dec', [frameEvent cmd p stack]) ∧
      Idle dec' ∧ ins.getLast?.map Prod.snd = some stack := by
  obtain ⟨⟨b₀, stack₀⟩, ins, rfl, rfl, hins₁⟩ := List.map_eq_cons_iff.1 hins
  obtain ⟨⟨b₁, stack₁⟩, ins, rfl, rfl, hins₂⟩ := List.map_eq_cons_iff.1 hins₁
  obtain ⟨⟨b₂, stack₂⟩, ins, rfl, rfl, hins₃⟩ := List.map_eq_cons_iff.1 hins₂
  have hs := handleByte_start stack₀ h.1
  have hc := handleByte_cmd (d := { dec with state := .readCmd }) stack₁ rfl b₁
  by_cases hn : b₂ = 0
  · subst hn
    obtain rfl : p = [] := List.eq_nil_of_length_eq_zero hlen
    obtain rfl := List.map_eq_nil_iff.1 hins₃
    have hl := handleByte_empty (d := { dec with currentCmd := b₁, state := .readLen }) stack₂ rfl
    exact ⟨_, stack₂, run_step hs (run_step hc (run_step hl (Machine.run_nil _ _))), ⟨rfl, h.2⟩,
      rfl⟩
  · have hl :=
      handleByte_len (d := { dec with currentCmd := b₁, state := .readLen }) stack₂ rfl hn
    have hne : p ≠ [] := by
      rintro rfl
      exact hn (UInt8.toNat_inj.1 (by simpa using hlen.symm))
    obtain ⟨dec', stack, hrun, hidle, hstack⟩ := run_payload (a := [])
      (z := dec.payloadBuf) (p := p)
      (d := { dec with
        currentCmd := b₁, payloadLen := b₂, payloadIdx := 0, state := .readPayload })
      rfl rfl rfl h.2 hins₃ hne (by simpa using hlen)
    refine ⟨dec', stack, run_step hs (run_step hc (run_step hl hrun)), hidle, ?_⟩
    rw [← hstack]
    have hins' : ins ≠ [] := by
      rintro rfl
      exact hne hins₃.symm
    obtain ⟨j, js, rfl⟩ := List.exists_cons_of_ne_nil hins'
    simp

end Frames

/-! ## The way back to STATE_WAIT_START -/

section Back

variable {dec : Decoder} {ins : List (UInt8 × Stack)}

/-- Within `n` of these bytes the decoder is back in STATE_WAIT_START. -/
def Returns (dec : Decoder) (ins : List (UInt8 × Stack)) (n : Nat) : Prop :=
  ∃ k dec' evs, 0 < k ∧ k ≤ n ∧ Machine.run decoder dec (ins.take k) = some (dec', evs) ∧
    dec'.state = .waitStart

/-- Back after one byte and the way from there. -/
theorem Returns.step {b : UInt8} {stack : Stack} {dec' : Decoder} {ev : Option SerialEvent}
    {n : Nat} (h : handleByte dec b stack = some (dec', ev)) (hret : Returns dec' ins n) :
    Returns dec ((b, stack) :: ins) (n + 1) := by
  obtain ⟨k, dec'', evs, -, hk', hrun, hstate⟩ := hret
  exact ⟨k + 1, dec'', _, by omega, by omega, run_step h hrun, hstate⟩

end Back

end Serial

end LCode
