import LCode.Drivers.Verify.Calls
import LCode.Serial.Verify.Encoder
import LCode.Serial.Verify.Port

/-!
# The serial port

Sending: what reaches the holding register is a part of the packet in order, and the whole
packet where the UART gets ready in time. Receiving: `serial_ih`, read by read, is the loop
over the waiting bytes that the rest of the model is built on.
-/

namespace LCode

namespace Driver

open Contract

variable {α : Type} {st : Statics}

/-! ## Sending -/

/-- The bytes that the holding register took; the UART may answer as it likes. -/
def wire : Contract Sys.Ans (List UInt8) where
  allows _ _ := True
  gives _ _ _ := True
  after
    | out, .outb port v, done => if port = com1Base + thr ∧ done then out ++ [v] else out
    | out, _, _ => out

theorem wire_timeless : Timeless wire := ⟨fun _ _ => trivial, fun _ _ _ => rfl⟩

theorem writeChar_wire (data : UInt8) (tries : Nat) (out : List UInt8) :
    wire.Tries (writeChar data tries) st out (fun st' out' => st' = st ∧ out' = out)
      fun _ st' out' => st' = st ∧ out' = out ++ [data] := by
  induction tries with
  | zero => exact ⟨rfl, rfl⟩
  | succ tries ih =>
    have hread : wire.Tries (utilSysInb (com1Base + lsr)) st out
        (fun st' out' => st' = st ∧ out' = out) fun _ st' out' => st' = st ∧ out' = out :=
      tries_utilSysInb trivial (fun _ => ⟨rfl, rfl⟩) fun _ _ => ⟨rfl, rfl⟩
    refine hread.bind ?_
    rintro status _ _ ⟨rfl, rfl⟩
    refine tries_ite ?_ ?_
    · refine tries_sysOutb trivial (fun _ => ⟨rfl, ?_⟩) fun _ => ⟨rfl, ?_⟩
      · simp [wire]
      · simp [wire]
    · refine (tries_delay wire_timeless 50).bind ?_
      rintro - _ _ ⟨rfl, rfl⟩
      exact ih

/-- What reaches the UART of some bytes is a part of them in order. -/
theorem sendBytes_wire (bytes out : List UInt8) {E : Statics → List UInt8 → Prop} :
    wire.Tries (sendBytes bytes) st out E
      fun _ st' out' => st' = st ∧ ∃ part, part.Sublist bytes ∧ out' = out ++ part := by
  induction bytes generalizing out with
  | nil => exact ⟨rfl, [], List.Sublist.refl _, (List.append_nil out).symm⟩
  | cons c bytes ih =>
    have hchar : wire.Tries (serialWriteChar c).always st out E fun _ st' out' =>
        st' = st ∧ (out' = out ∨ out' = out ++ [c]) := by
      refine Tries.always ((writeChar_wire c 100 out).mono ?_ ?_)
      · exact fun _ _ h => ⟨h.1, .inl h.2⟩
      · exact fun _ _ _ h => ⟨h.1, .inr h.2⟩
    refine hchar.bind ?_
    rintro - _ out' ⟨rfl, h⟩
    refine (ih out').mono (fun _ _ h => h) ?_
    rintro - _ _ ⟨rfl, part, hpart, rfl⟩
    rcases h with rfl | rfl
    · exact ⟨rfl, part, hpart.cons c, rfl⟩
    · exact ⟨rfl, c :: part, hpart.cons_cons c, by simp⟩

/-- How often the line status was read since the last byte, and the bytes so far. -/
structure Polled where
  polls : Nat
  out : List UInt8

/-- A UART that is ready for each byte by the hundredth look at its status. -/
def prompt : Contract Sys.Ans Polled where
  allows _ _ := True
  gives
    | r, .inb port, x => port = com1Base + lsr →
        ∃ w, x = some w ∧ (UInt8.ofNat w.toNat &&& lsrTxReady = 0 → r.polls + 1 < 100)
    | _, .outb port _, done => port = com1Base + thr → done = true
    | _, _, _ => True
  after
    | r, .inb port, _ => if port = com1Base + lsr then { r with polls := r.polls + 1 } else r
    | r, .outb port v, done => if port = com1Base + thr ∧ done then ⟨0, r.out ++ [v]⟩ else r
    | r, _, _ => r

theorem prompt_timeless : Timeless prompt := ⟨fun _ _ => trivial, fun _ _ _ => rfl⟩

theorem writeChar_prompt (data : UInt8) (tries : Nat) {r : Polled} (hr : r.polls + tries = 100)
    (hpolls : r.polls < 100) {E : Statics → Polled → Prop} :
    prompt.Tries (writeChar data tries) st r E
      fun _ st' r' => st' = st ∧ r' = ⟨0, r.out ++ [data]⟩ := by
  induction tries generalizing r with
  | zero => omega
  | succ tries ih =>
    have hread : prompt.Tries (utilSysInb (com1Base + lsr)) st r E fun status st' r' =>
        st' = st ∧ r' = { r with polls := r.polls + 1 } ∧
          (status &&& lsrTxReady = 0 → r.polls + 1 < 100) := by
      refine tries_utilSysInb trivial (fun h => ?_) fun w h => ⟨rfl, rfl, ?_⟩
      · obtain ⟨w, hw, -⟩ := h rfl
        cases hw
      · obtain ⟨w', hw, hready⟩ := h rfl
        obtain rfl := Option.some.inj hw
        exact hready
    refine hread.bind ?_
    rintro status _ _ ⟨rfl, rfl, hready⟩
    by_cases htx : status &&& lsrTxReady ≠ 0
    · rw [if_pos htx]
      refine tries_sysOutb trivial (fun h => ?_) fun _ => ⟨rfl, rfl⟩
      cases h rfl
    · rw [if_neg htx]
      have hlt := hready (Decidable.not_not.1 htx)
      refine (tries_delay prompt_timeless 50).bind ?_
      rintro - _ _ ⟨rfl, rfl⟩
      refine @ih { r with polls := r.polls + 1 } ?_ hlt
      exact (Nat.succ_add_eq_add_succ _ _).trans hr

theorem sendBytes_prompt (bytes : List UInt8) {r : Polled} (hr : r.polls = 0)
    {E : Statics → Polled → Prop} :
    prompt.Tries (sendBytes bytes) st r E
      fun _ st' r' => st' = st ∧ r' = ⟨0, r.out ++ bytes⟩ := by
  induction bytes generalizing r with
  | nil =>
    obtain ⟨polls, out⟩ := r
    obtain rfl : polls = 0 := hr
    exact ⟨rfl, by rw [List.append_nil]⟩
  | cons c bytes ih =>
    have hchar : prompt.Tries (serialWriteChar c).always st r E fun _ st' r' =>
        st' = st ∧ r' = ⟨0, r.out ++ [c]⟩ := by
      refine Tries.always (writeChar_prompt c 100 ?_ ?_)
      · rw [hr]
      · rw [hr]
        decide
    refine hchar.bind ?_
    rintro - _ _ ⟨rfl, rfl⟩
    refine (@ih ⟨0, r.out ++ [c]⟩ rfl).mono (fun _ _ h => h) ?_
    rintro - _ _ ⟨rfl, rfl⟩
    exact ⟨rfl, by rw [List.append_assoc, List.singleton_append]⟩

theorem prompt_out (h : List (Exchange Sys.Ans)) (r : Polled) :
    (prompt.seen r h).out = wire.seen r.out h := by
  induction h generalizing r with
  | nil => rfl
  | cons e h ih =>
    refine (ih _).trans ?_
    rw [seen, seen, List.foldl_cons]
    congr 1
    obtain ⟨c, x⟩ := e
    cases c with
    | inb port =>
      change (if port = com1Base + lsr then { r with polls := r.polls + 1 } else r).out = r.out
      split
      · rfl
      · rfl
    | outb port v =>
      change (if port = com1Base + thr ∧ x then (⟨0, r.out ++ [v]⟩ : Polled) else r).out =
        if port = com1Base + thr ∧ x then r.out ++ [v] else r.out
      split
      · rfl
      · rfl
    | _ => rfl

theorem sendBytes_ready (bytes : List UInt8) (st : Statics) {dev : Device Sys.Ans}
    (hdev : prompt.Fair ⟨0, []⟩ dev) :
    wire.seen [] ((sendBytes bytes st).exec dev []).2 = bytes := by
  have hsend : prompt.Tries (sendBytes bytes) st ⟨0, []⟩ (fun _ _ => False) _ :=
    sendBytes_prompt bytes rfl
  have hrun := (hsend.exec hdev).2
  rw [← prompt_out _ ⟨0, []⟩]
  cases hr : ((sendBytes bytes st).exec dev []).1.1 with
  | none =>
    rw [hr] at hrun
    exact hrun.elim
  | some _ =>
    rw [hr] at hrun
    rw [hrun.2]
    rfl

/-- A byte is lost where the UART is not ready in time, and the packet goes on without it;
where it always is, all bytes go out. -/
theorem sendBytes_out (bytes : List UInt8) (st : Statics) (dev : Device Sys.Ans) :
    (wire.seen [] ((sendBytes bytes st).exec dev []).2).Sublist bytes ∧
      (prompt.Fair ⟨0, []⟩ dev → wire.seen [] ((sendBytes bytes st).exec dev []).2 = bytes) := by
  refine ⟨?_, sendBytes_ready bytes st⟩
  have hdev : wire.Fair [] dev := fun _ _ _ => trivial
  have hsend : wire.Tries (sendBytes bytes) st [] (fun _ _ => False) _ := sendBytes_wire bytes []
  have hrun := (hsend.exec hdev).2
  cases hr : ((sendBytes bytes st).exec dev []).1.1 with
  | none =>
    rw [hr] at hrun
    exact hrun.elim
  | some _ =>
    rw [hr] at hrun
    obtain ⟨-, part, hpart, hout⟩ := hrun
    rw [hout]
    exact hpart

/-! ## Receiving -/

/-- What a 16550 names in IIR as the origin of its interrupt. -/
inductive Origin where
  | modem
  | transmitter
  | received
  | line
  | timeout
  deriving DecidableEq, Repr

/-- Its code under the mask of IIR: bits 1 to 3, in their places. -/
def Origin.code : Origin → UInt8
  | .modem => 0x0
  | .transmitter => 0x2
  | .received => 0x4
  | .line => 0x6
  | .timeout => 0xC

/-- IIR reports `o`. -/
def Reports (iirVal : UInt8) (o : Origin) : Prop :=
  iirVal &&& iirNoInt = 0 ∧ iirVal &&& iirIntIdMask = o.code

/-- The test of `serial_ih` on IIR. Its comment asks for Data Ready (010) and FIFO Time-out
(110); these are bits 1 to 3 of IIR, and the test has them one place further down. -/
def drainsOn (iirVal : UInt8) : Bool :=
  iirVal &&& iirNoInt = 0 ∧ (iirVal &&& iirIntIdMask = 2 ∨ iirVal &&& iirIntIdMask = 6)

/-- Those are the codes of the transmitter and of the line. -/
theorem drainsOn_iff (iirVal : UInt8) :
    drainsOn iirVal = true ↔ Reports iirVal .transmitter ∨ Reports iirVal .line := by
  rw [drainsOn, decide_eq_true_iff]
  exact and_or_left

theorem not_drainsOn {iirVal : UInt8} (h : Reports iirVal .received ∨ Reports iirVal .timeout) :
    drainsOn iirVal = false := by
  rw [drainsOn, decide_eq_false_iff_not]
  rintro ⟨-, hcode⟩
  rcases h with h | h
  · rw [h.2] at hcode
    exact absurd hcode (by decide)
  · rw [h.2] at hcode
    exact absurd hcode (by decide)

/-- The bytes in the UART's FIFO, what IIR reads while that is known, and whether LSR was
read for the byte on top. -/
structure Rx where
  pending : List Serial.UartByte
  iirVal : Option UInt8
  looked : Bool

/-- At an interrupt nothing has been read yet. -/
def Rx.found (pending : List Serial.UartByte) (iirVal : UInt8) : Rx := ⟨pending, some iirVal, false⟩

/-- A UART whose registers show its FIFO. A read of IIR may clear the interrupt that it
reports, and one of LSR clears the errors. -/
def fifo : Contract Sys.Ans Rx where
  allows _ _ := True
  gives
    | r, .inb port, x =>
      (port = com1Base + iir → ∃ w, x = some w ∧ ∀ v ∈ r.iirVal, UInt8.ofNat w.toNat = v) ∧
      (port = com1Base + lsr → ∃ w, x = some w ∧
        (UInt8.ofNat w.toNat &&& lsrRxReady = 0 ↔ r.pending = []) ∧
        (r.looked = false → ∀ b ∈ r.pending.head?,
          b.lineError = decide (UInt8.ofNat w.toNat &&& lsrErrors ≠ 0))) ∧
      (port = com1Base + rbr → ∃ w, x = some w ∧
        ∀ b ∈ r.pending.head?, UInt8.ofNat w.toNat = b.data)
    | _, _, _ => True
  after
    | r, .inb port, _ =>
      if port = com1Base + iir then { r with iirVal := none }
      else if port = com1Base + lsr then { r with iirVal := none, looked := true }
      else if port = com1Base + rbr then ⟨r.pending.tail, none, false⟩
      else r
    | r, _, _ => r

/-- What a line status says of the FIFO. -/
def StatusOf (lsrVal : UInt8) (pending : List Serial.UartByte) : Prop :=
  (lsrVal &&& lsrRxReady = 0 ↔ pending = []) ∧
    ∀ b ∈ pending.head?, b.lineError = decide (lsrVal &&& lsrErrors ≠ 0)

/-- A read that does not fail, of a register of which the contract says `P`. -/
theorem read_fifo {port : Nat} {r r' : Rx} {P : UInt8 → Prop} {E : Statics → Rx → Prop}
    (hgives : ∀ x, fifo.gives r (.inb port) x → ∃ w, x = some w ∧ P (UInt8.ofNat w.toNat))
    (hafter : ∀ x, fifo.after r (.inb port) x = r') :
    fifo.Tries (utilSysInb port).result st r E fun x st' r'' =>
      st' = st ∧ r'' = r' ∧ ∃ v, x = some v ∧ P v := by
  refine Tries.result (tries_utilSysInb trivial (fun h => ?_) fun w h => ⟨rfl, hafter _, ?_⟩)
  · obtain ⟨w, hw, -⟩ := hgives _ h
    cases hw
  · obtain ⟨w', hw, hP⟩ := hgives _ h
    obtain rfl := Option.some.inj hw
    exact ⟨_, rfl, hP⟩

theorem lsr_fifo {pending : List Serial.UartByte} {E : Statics → Rx → Prop} :
    fifo.Tries (utilSysInb (com1Base + lsr)).result st ⟨pending, none, false⟩ E fun x st' r' =>
      st' = st ∧ r' = ⟨pending, none, true⟩ ∧ ∃ v, x = some v ∧ StatusOf v pending := by
  refine read_fifo (fun x h => ?_) fun _ => rfl
  obtain ⟨w, hw, hready, herrors⟩ := h.2.1 rfl
  exact ⟨w, hw, hready, herrors rfl⟩

theorem rbr_fifo {pending : List Serial.UartByte} {E : Statics → Rx → Prop} :
    fifo.Tries (utilSysInb (com1Base + rbr)).result st ⟨pending, none, true⟩ E fun x st' r' =>
      st' = st ∧ r' = ⟨pending.tail, none, false⟩ ∧
        ∃ v, x = some v ∧ ∀ b ∈ pending.head?, v = b.data :=
  read_fifo (fun _ h => h.2.2 rfl) fun _ => rfl

/-- The loop of `serial_ih` takes the bytes of the FIFO as `drainUart` does. -/
theorem drainFifo_fifo (fuel : Nat) {lsrVal data : UInt8} {pending uart : List Serial.UartByte}
    {q : Serial.Queue} (hstatus : StatusOf lsrVal pending) (hfuel : pending.length < fuel)
    (hrun : Serial.drainUart pending st.rxQueue = some (uart, q)) :
    fifo.Tries (drainFifo lsrVal data fuel) st ⟨pending, none, true⟩ (fun _ _ => False)
      fun _ st' r' => st' = { st with rxQueue := q } ∧ r' = ⟨uart, none, true⟩ := by
  induction fuel generalizing st lsrVal data pending with
  | zero => omega
  | succ fuel ih =>
    rw [drainFifo, tries_bind, tries_get]
    cases pending with
    | nil =>
      rw [Serial.drainUart, Option.some.injEq, Prod.mk.injEq] at hrun
      obtain ⟨rfl, rfl⟩ := hrun
      rw [if_pos (.inl (hstatus.1.2 rfl))]
      exact ⟨rfl, rfl⟩
    | cons b rest =>
      rw [Serial.drainUart] at hrun
      have hready : ¬ lsrVal &&& lsrRxReady = 0 := by
        rw [hstatus.1]
        simp
      have herror : b.lineError = decide (lsrVal &&& lsrErrors ≠ 0) := hstatus.2 b (by simp)
      cases hfull : st.rxQueue.isFull with
      | true =>
        rw [hfull, if_pos rfl, Option.some.injEq, Prod.mk.injEq] at hrun
        obtain ⟨rfl, rfl⟩ := hrun
        rw [if_pos (.inr rfl)]
        exact ⟨rfl, rfl⟩
      | false =>
        rw [hfull, if_neg (by simp)] at hrun
        rw [if_neg (by simp [hready])]
        refine rbr_fifo.bind ?_
        rintro x st _ ⟨rfl, rfl, v, rfl, hdata⟩
        have hv : v = b.data := hdata b (by simp)
        -- the rest of the loop, behind what was done with the byte
        have hrest : ∀ {q₁ : Serial.Queue}, Serial.drainUart rest q₁ = some (uart, q) →
            fifo.Tries (do
              let lsrVal' ← (utilSysInb (com1Base + lsr)).result
              drainFifo (lsrVal'.getD lsrVal) ((some v).getD data) fuel)
              { st with rxQueue := q₁ } ⟨rest, none, false⟩
              (fun _ _ => False) fun _ st' r' =>
                st' = { st with rxQueue := q } ∧ r' = ⟨uart, none, true⟩ := by
          intro q₁ hq₁
          refine lsr_fifo.bind ?_
          rintro x st₂ _ ⟨rfl, rfl, status, rfl, hstatus'⟩
          refine (ih hstatus' (by simpa using hfuel) hq₁).mono (fun _ _ h => h) ?_
          rintro - _ _ ⟨rfl, rfl⟩
          exact ⟨rfl, rfl⟩
        cases herr : b.lineError with
        | true =>
          have hbad : ¬ lsrVal &&& lsrErrors = 0 := of_decide_eq_true (herror.symm.trans herr)
          rw [herr, if_pos rfl] at hrun
          rw [if_neg hbad]
          exact hrest hrun
        | false =>
          have hgood : lsrVal &&& lsrErrors = 0 :=
            Decidable.not_not.1 (of_decide_eq_false (herror.symm.trans herr))
          rw [herr, if_neg (by simp)] at hrun
          obtain ⟨r₁, hpush, hrun⟩ := Option.bind_eq_some_iff.1 hrun
          obtain ⟨pushed, q₁⟩ := r₁
          rw [if_pos hgood, tries_bind, tries_get]
          simp only [Option.getD_some, hv, hpush]
          rw [tries_bind, tries_modify]
          have hnext := hrest hrun
          rw [hv] at hnext
          exact hnext

/-- `serial_ih` is the loop over the waiting bytes, where IIR passes its test, and nothing
otherwise. -/
theorem serialIh_fifo (data : UInt8) (fuel : Nat) {pending uart : List Serial.UartByte}
    {iirVal : UInt8} {q : Serial.Queue} (hfuel : pending.length < fuel)
    (hrun : (if drainsOn iirVal then Serial.drainUart pending st.rxQueue
      else some (pending, st.rxQueue)) = some (uart, q)) :
    fifo.Tries (serialIh data fuel) st (.found pending iirVal) (fun _ _ => False)
      fun _ st' r' => st' = { st with rxQueue := q } ∧ r'.pending = uart := by
  have hiir : fifo.Tries (utilSysInb (com1Base + iir)).result st (.found pending iirVal)
      (fun _ _ => False) fun x st' r' =>
        st' = st ∧ r' = ⟨pending, none, false⟩ ∧ ∃ v, x = some v ∧ iirVal = v := by
    refine read_fifo (fun x h => ?_) fun _ => rfl
    obtain ⟨w, hw, hval⟩ := h.1 rfl
    exact ⟨w, hw, (hval iirVal rfl).symm⟩
  refine hiir.bind ?_
  rintro x st r ⟨rfl, rfl, _, rfl, rfl⟩
  cases hdrains : drainsOn iirVal with
  | true =>
    obtain ⟨hnoInt, horigin⟩ := of_decide_eq_true hdrains
    rw [hdrains, if_pos rfl] at hrun
    simp only [hnoInt, ne_eq, not_true_eq_false, if_false, horigin, if_true]
    refine lsr_fifo.bind ?_
    rintro x st r ⟨rfl, rfl, status, rfl, hstatus⟩
    refine (drainFifo_fifo fuel hstatus hfuel hrun).mono (fun _ _ h => h) ?_
    rintro - _ _ ⟨rfl, rfl⟩
    exact ⟨rfl, rfl⟩
  | false =>
    have hno := of_decide_eq_false hdrains
    rw [hdrains, if_neg (by simp), Option.some.injEq, Prod.mk.injEq] at hrun
    obtain ⟨rfl, rfl⟩ := hrun
    by_cases hnoInt : iirVal &&& iirNoInt = 0
    · have horigin : ¬ (iirVal &&& iirIntIdMask = 2 ∨ iirVal &&& iirIntIdMask = 6) :=
        fun h => hno ⟨hnoInt, h⟩
      simp only [hnoInt, ne_eq, not_true_eq_false, if_false, horigin]
      exact ⟨rfl, rfl⟩
    · simp only [ne_eq, hnoInt, not_false_eq_true, if_true]
      exact ⟨rfl, rfl⟩

/-- Read by read, whatever the UART holds and IIR reads: where IIR passes its test,
`serial_ih` moves the good bytes in order to the software queue, as far as there is room,
and leaves the others; where not, it leaves all of them. The test is passed where the UART
reports its transmitter or its line, and not where it reports received data or the
time-out. -/
theorem serialIh_drains (data : UInt8) (fuel : Nat) {pending : List Serial.UartByte}
    {iirVal : UInt8} (hq : st.rxQueue.Wf) (hfuel : pending.length < fuel)
    {dev : Device Sys.Ans} (hdev : fifo.Fair (.found pending iirVal) dev) :
    ∃ uart q taken, (if drainsOn iirVal then Serial.drainUart pending st.rxQueue
        else some (pending, st.rxQueue)) = some (uart, q) ∧
      ((serialIh data fuel st).exec dev []).1 = (some (), { st with rxQueue := q }) ∧
      (fifo.seen (.found pending iirVal) ((serialIh data fuel st).exec dev []).2).pending = uart ∧
      q.contents = st.rxQueue.contents ++ taken ∧
      Serial.good pending = taken ++ Serial.good uart ∧
      (drainsOn iirVal = true ↔ Reports iirVal .transmitter ∨ Reports iirVal .line) ∧
      (Reports iirVal .received ∨ Reports iirVal .timeout →
        uart = pending ∧ q = st.rxQueue) := by
  obtain ⟨uart, q, taken, hrun, hcontents, hgood⟩ : ∃ uart q taken,
      (if drainsOn iirVal then Serial.drainUart pending st.rxQueue
        else some (pending, st.rxQueue)) = some (uart, q) ∧
      q.contents = st.rxQueue.contents ++ taken ∧
      Serial.good pending = taken ++ Serial.good uart := by
    split
    · obtain ⟨uart, q, taken, hdrain, -, hcontents, hgood, -⟩ := Serial.drainUart_eq pending hq
      exact ⟨uart, q, taken, hdrain, hcontents, hgood⟩
    · exact ⟨_, _, [], rfl, (List.append_nil _).symm, rfl⟩
  have hleft : Reports iirVal .received ∨ Reports iirVal .timeout →
      uart = pending ∧ q = st.rxQueue := by
    intro h
    rw [not_drainsOn h, if_neg (by simp), Option.some.injEq, Prod.mk.injEq] at hrun
    exact ⟨hrun.1.symm, hrun.2.symm⟩
  have hexec := ((serialIh_fifo data fuel hfuel hrun).exec hdev).2
  cases hr : ((serialIh data fuel st).exec dev []).1 with
  | mk res st' =>
    rw [hr] at hexec
    cases res with
    | none => exact hexec.elim
    | some _ =>
      exact ⟨uart, q, taken, hrun, congrArg (Prod.mk _) hexec.1, hexec.2, hcontents, hgood,
        drainsOn_iff iirVal, hleft⟩

/-- How a register shows the FIFO. -/
def register (r : Rx) (port : Nat) : UInt32 :=
  if port = com1Base + iir then UInt32.ofNat (r.iirVal.getD iirNoInt).toNat
  else if port = com1Base + lsr then
    r.pending.head?.elim 0 fun b => if b.lineError ∧ !r.looked then 3 else 1
  else r.pending.head?.elim 0 fun b => UInt32.ofNat b.data.toNat

theorem register_gives (r : Rx) (port : Nat) :
    fifo.gives r (.inb port) (some (register r port)) := by
  obtain ⟨pending, iirVal, looked⟩ := r
  refine ⟨?_, ?_, ?_⟩
  · rintro rfl
    refine ⟨_, rfl, ?_⟩
    intro v hv
    obtain rfl : iirVal = some v := hv
    have hreg : register ⟨pending, some v, looked⟩ (com1Base + iir) = UInt32.ofNat v.toNat := by
      rw [register, if_pos rfl]
      rfl
    rw [hreg]
    simp
  · rintro rfl
    have hlsr : ∀ bad : Bool,
        UInt8.ofNat (if bad then 3 else 1 : UInt32).toNat &&& lsrRxReady ≠ 0 ∧
          bad = decide (UInt8.ofNat (if bad then 3 else 1 : UInt32).toNat &&& lsrErrors ≠ 0) := by
      decide
    refine ⟨_, rfl, ?_⟩
    cases pending with
    | nil =>
      have hempty : register ⟨[], iirVal, looked⟩ (com1Base + lsr) = 0 := by
        rw [register, if_neg (by decide), if_pos rfl]
        rfl
      rw [hempty]
      exact ⟨⟨fun _ => rfl, fun _ => by decide⟩, by simp⟩
    | cons b rest =>
      have hreg : register ⟨b :: rest, iirVal, looked⟩ (com1Base + lsr) =
          if b.lineError && !looked then 3 else 1 := by
        rw [register, if_neg (by decide), if_pos rfl]
        simp
      rw [hreg]
      refine ⟨⟨fun h => absurd h (hlsr _).1, by simp⟩, ?_⟩
      rintro rfl b' hb
      obtain rfl := Option.some.inj hb
      have herror := (hlsr (b.lineError && !false)).2
      rwa [Bool.not_false, Bool.and_true] at herror ⊢
  · rintro rfl
    refine ⟨_, rfl, ?_⟩
    rintro b hb
    have hreg : register ⟨pending, iirVal, looked⟩ (com1Base + rbr) =
        UInt32.ofNat b.data.toNat := by
      rw [register, if_neg (by decide), if_neg (by decide)]
      simp only
      rw [Option.mem_def.1 hb]
      rfl
    rw [hreg]
    simp

/-- A UART that shows what it holds. -/
def uartOf (r : Rx) : Device Sys.Ans
  | h, .inb port => some (register (fifo.seen r h) port)
  | _, .outb _ _ => true
  | _, .tickdelay _ => ()
  | _, .irqsetpolicy _ _ _ => none
  | _, .irqrmpolicy _ => true
  | _, .stderr _ => ()

theorem uartOf_fair (r : Rx) : fifo.Fair r (uartOf r) := by
  intro h c _
  cases c with
  | inb port => exact register_gives _ _
  | _ => trivial

/-- A byte with an error on top, which IIR reports. -/
theorem serialIh_drains_error : ∃ uart q taken,
    (if drainsOn 0xC6 then
        Serial.drainUart [⟨66, true⟩, ⟨65, false⟩, ⟨67, false⟩] Statics.initial.rxQueue
      else some ([⟨66, true⟩, ⟨65, false⟩, ⟨67, false⟩], Statics.initial.rxQueue)) =
        some (uart, q) ∧
    ((serialIh 0 4 .initial).exec
      (uartOf (.found [⟨66, true⟩, ⟨65, false⟩, ⟨67, false⟩] 0xC6)) []).1 =
        (some (), { Statics.initial with rxQueue := q }) ∧
    (fifo.seen (.found [⟨66, true⟩, ⟨65, false⟩, ⟨67, false⟩] 0xC6) ((serialIh 0 4 .initial).exec
      (uartOf (.found [⟨66, true⟩, ⟨65, false⟩, ⟨67, false⟩] 0xC6)) []).2).pending = uart ∧
    q.contents = Statics.initial.rxQueue.contents ++ taken ∧
    Serial.good [⟨66, true⟩, ⟨65, false⟩, ⟨67, false⟩] = taken ++ Serial.good uart ∧
    (drainsOn 0xC6 = true ↔ Reports 0xC6 .transmitter ∨ Reports 0xC6 .line) ∧
    (Reports 0xC6 .received ∨ Reports 0xC6 .timeout →
      uart = [⟨66, true⟩, ⟨65, false⟩, ⟨67, false⟩] ∧ q = Statics.initial.rxQueue) :=
  serialIh_drains 0 4 (Serial.Queue.wf_init List.length_replicate) (by decide) (uartOf_fair _)

/-! ## Both ends -/

/-- What one machine sends over a UART that is ready in time, the other gets: whatever has
been taken from its UART by then, and however that was cut into interrupts, the events so
far are those of the first messages, and of all once nothing is left to take. -/
theorem link_delivers {ms : List Serial.Message} (hlen : ∀ m ∈ ms, m.body.length < 256)
    {dev : Device Sys.Ans} (hdev : prompt.Fair ⟨0, []⟩ dev) {rounds : List Serial.Round}
    (hwire : Serial.good (rounds.flatMap Serial.Round.arrivals) =
      wire.seen [] ((sendBytes (Serial.stream ms) st).exec dev []).2) :
    ∃ p evs, Machine.run Serial.receiver .start rounds = some (p, evs) ∧
      List.Forall₂ Serial.Message.Event (ms.take evs.length) evs ∧
      (Serial.good p.uart = [] → evs.length = ms.length) := by
  rw [sendBytes_ready _ st hdev] at hwire
  obtain ⟨p, evs, ins, hrounds, hp, hbytes, hrun⟩ :=
    Serial.receiver_run Serial.Port.wf_start rounds
  have hstart : Serial.good Serial.Port.start.uart = [] := rfl
  rw [hstart, List.nil_append, hwire] at hbytes
  -- let the rest arrive too
  let zero : Serial.Stack := fun _ => 0
  obtain ⟨dec, evs', hrest, -⟩ := hp.dec.run ((Serial.good p.uart).map fun b => (b, zero))
  have hins : (ins ++ (Serial.good p.uart).map fun b => (b, zero)).map Prod.fst =
      Serial.stream ms := by
    have hfst : ((Serial.good p.uart).map fun b => (b, zero)).map Prod.fst =
        Serial.good p.uart := by
      rw [List.map_map]
      exact List.map_id _
    rw [List.map_append, hfst, ← hbytes]
  obtain ⟨dec', all, hall, -, hevs⟩ :=
    Serial.run_messages ⟨rfl, Serial.wf_start.size⟩ hlen hins
  have hsame := (Machine.run_append hrun hrest).symm.trans hall
  rw [Option.some.injEq, Prod.mk.injEq] at hsame
  obtain ⟨-, rfl⟩ := hsame
  refine ⟨p, evs, hrounds, ?_, ?_⟩
  · have htake := List.forall₂_take evs.length hevs
    rwa [List.take_left] at htake
  · intro hnone
    rw [hnone, List.map_nil, Machine.run_nil, Option.some.injEq, Prod.mk.injEq] at hrest
    obtain ⟨-, rfl⟩ := hrest
    rw [hevs.length_eq, List.append_nil]

/-- A UART that is always ready. -/
def readyUart : Device Sys.Ans
  | _, .inb _ => some 0x20
  | _, .outb _ _ => true
  | _, .tickdelay _ => ()
  | _, .irqsetpolicy _ _ _ => none
  | _, .irqrmpolicy _ => true
  | _, .stderr _ => ()

theorem readyUart_fair : prompt.Fair ⟨0, []⟩ readyUart := by
  intro h c _
  cases c with
  | inb port =>
    have hready : UInt8.ofNat (0x20 : UInt32).toNat &&& lsrTxReady ≠ 0 := by decide
    exact fun _ => ⟨_, rfl, fun h => absurd h hready⟩
  | outb port v => exact fun _ => rfl
  | _ => trivial

/-- Two packets in three rounds, the second without an interrupt, and a byte with an error
inside the first packet. -/
theorem link_delivers_typed : ∃ p evs,
    Machine.run Serial.receiver .start
      [⟨[⟨0xFE, false⟩, ⟨1, false⟩, ⟨0, true⟩, ⟨1, false⟩], true, fun _ _ => 0⟩,
        ⟨[⟨65, false⟩, ⟨0xFE, false⟩], false, fun _ _ => 0⟩,
        ⟨[⟨2, false⟩, ⟨0, false⟩], true, fun _ _ => 0⟩] = some (p, evs) ∧
    List.Forall₂ Serial.Message.Event [⟨.insertChar, [65]⟩, ⟨.deleteChar, []⟩] evs := by
  obtain ⟨p, evs, hrun, hevs, hall⟩ :=
    @link_delivers .initial [⟨.insertChar, [65]⟩, ⟨.deleteChar, []⟩] (by decide) _ readyUart_fair
      [⟨[⟨0xFE, false⟩, ⟨1, false⟩, ⟨0, true⟩, ⟨1, false⟩], true, fun _ _ => 0⟩,
        ⟨[⟨65, false⟩, ⟨0xFE, false⟩], false, fun _ _ => 0⟩,
        ⟨[⟨2, false⟩, ⟨0, false⟩], true, fun _ _ => 0⟩]
      (by rw [sendBytes_ready _ _ readyUart_fair]; rfl)
  have huart : (Machine.run Serial.receiver .start
      [⟨[⟨0xFE, false⟩, ⟨1, false⟩, ⟨0, true⟩, ⟨1, false⟩], true, fun _ _ => 0⟩,
        ⟨[⟨65, false⟩, ⟨0xFE, false⟩], false, fun _ _ => 0⟩,
        ⟨[⟨2, false⟩, ⟨0, false⟩], true, fun _ _ => 0⟩]).map
      (fun r => Serial.good r.1.uart) = some [] := by decide +kernel
  rw [hrun, Option.map_some, Option.some.injEq] at huart
  rw [hall huart] at hevs
  exact ⟨p, evs, hrun, hevs⟩

end Driver

end LCode
