import LCode.Lib.Ring
import LCode.Serial.Verify.Decoder

/-!
# The software queue and `serial_process`

The queue is a first-in-first-out list of at most sixteen bytes. Calls of
`serial_process` lose no byte the UART reports without an error, and however
they cut a stream, the decoder sees the bytes in order.
-/

namespace LCode.Serial

/-! ## The ring buffer -/

namespace Queue

/-- The bytes in the queue, the oldest first. -/
def contents (q : Queue) : List UInt8 :=
  (List.range q.count).map fun i => q.buffer.getD ((q.head + i) % queueSize) 0

/-- The indices of the ring agree with its count. -/
structure Wf (q : Queue) : Prop where
  size : q.buffer.length = queueSize
  head_lt : q.head < queueSize
  tail_eq : q.tail = (q.head + q.count) % queueSize
  count_le : q.count ≤ queueSize

variable {q : Queue}

theorem wf_init {buffer : List UInt8} (h : buffer.length = queueSize) : Wf (init buffer) :=
  ⟨h, Nat.zero_lt_succ _, rfl, Nat.zero_le _⟩

theorem contents_eq (q : Queue) : q.contents =
    Ring.contents queueSize (fun j => q.buffer.getD j 0) q.head q.count := rfl

@[simp] theorem length_contents (q : Queue) : q.contents.length = q.count := by
  rw [contents_eq, Ring.length_contents]

theorem contents_nil (h : q.count = 0) : q.contents = [] := by
  rw [contents_eq, h, Ring.contents_zero]

theorem Wf.tail_lt (h : q.Wf) : q.tail < queueSize := h.tail_eq ▸ Nat.mod_lt _ (by decide)

/-- A push on a queue with room goes to its end. -/
theorem Wf.push (h : Wf q) (hroom : q.isFull = false) (b : UInt8) :
    ∃ q', q.push b = some (true, q') ∧ Wf q' ∧ q'.contents = q.contents ++ [b] ∧
      q'.count = q.count + 1 := by
  have hlt : q.count < queueSize := Nat.lt_of_le_of_ne h.count_le (by simpa [isFull] using hroom)
  have htail : q.tail < q.buffer.length := h.size.symm ▸ h.tail_lt
  have hstore : Block.store q.buffer q.tail [b] = some (q.buffer.set q.tail b) :=
    Block.store_set htail b
  refine ⟨{ q with
    buffer := q.buffer.set q.tail b, tail := (q.tail + 1) % queueSize, count := q.count + 1 },
    by simp [Queue.push, hroom, hstore], ⟨?_, h.head_lt, ?_, hlt⟩, ?_, rfl⟩
  · simpa using h.size
  · exact Ring.tail_push h.tail_eq
  · have hread : (q.buffer.set q.tail b).getD ((q.head + q.count) % queueSize) 0 = b := by
      rw [← h.tail_eq, List.getD, List.getElem?_set_self htail, Option.getD_some]
    simp only [contents_eq]
    rw [Ring.contents_push (fun j => q.buffer.getD j 0) _ hlt fun j _ hne => ?_, hread]
    rw [← h.tail_eq] at hne
    rw [List.getD, List.getElem?_set_ne hne.symm, List.getD]

/-- A pop takes the oldest byte. -/
theorem Wf.pop (h : Wf q) (hne : q.count ≠ 0) :
    ∃ b q', q.pop = some (some b, q') ∧ Wf q' ∧ q.contents = b :: q'.contents ∧
      q'.count + 1 = q.count := by
  obtain ⟨n, hn⟩ : ∃ n, q.count = n + 1 := ⟨q.count - 1, by omega⟩
  have hhead : q.head < q.buffer.length := h.size.symm ▸ h.head_lt
  have hread : Block.read q.buffer q.head = some q.buffer[q.head] := by
    rw [Block.read_natCast, List.getElem?_eq_getElem hhead]
  have hcount := h.count_le
  refine ⟨q.buffer[q.head], { q with head := (q.head + 1) % queueSize, count := q.count - 1 },
    by simp [Queue.pop, hne, hread], ⟨h.size, Nat.mod_lt _ (by decide), ?_, by simp only; omega⟩,
    ?_, by simp only; omega⟩
  · simp only [hn, Nat.add_sub_cancel]
    exact Ring.tail_pop (hn ▸ h.tail_eq)
  · simp only [contents_eq, hn, Nat.add_sub_cancel]
    rw [Ring.contents_pop, Nat.mod_eq_of_lt h.head_lt, List.getD,
      List.getElem?_eq_getElem hhead, Option.getD_some]

end Queue

/-! ## Draining -/

/-- The bytes the UART reports without an error. -/
def good (uart : List UartByte) : List UInt8 :=
  (uart.filter fun b => !b.lineError).map UartByte.data

/-- The interrupt handler moves good bytes to the queue, in order. -/
theorem drainUart_eq (uart : List UartByte) {q : Queue} (h : q.Wf) :
    ∃ uart' q' taken, drainUart uart q = some (uart', q') ∧ q'.Wf ∧
      q'.contents = q.contents ++ taken ∧ good uart = taken ++ good uart' ∧
      (uart' = [] ∨ q'.isFull = true) := by
  induction uart generalizing q with
  | nil => exact ⟨[], q, [], rfl, h, by simp, rfl, Or.inl rfl⟩
  | cons b uart ih =>
    cases hfull : q.isFull with
    | true => exact ⟨b :: uart, q, [], by simp [drainUart, hfull], h, by simp, rfl, Or.inr hfull⟩
    | false =>
      cases hb : b.lineError with
      | true =>
        obtain ⟨uart', q', taken, hdrain, hwf, hq, hgood, hend⟩ := ih h
        refine ⟨uart', q', taken, by simp [drainUart, hfull, hb, hdrain], hwf, hq, ?_, hend⟩
        rw [← hgood]
        simp [good, hb]
      | false =>
        obtain ⟨q₁, hpush, hwf₁, hq₁, -⟩ := h.push hfull b.data
        obtain ⟨uart', q', taken, hdrain, hwf, hq, hgood, hend⟩ := ih hwf₁
        refine ⟨uart', q', b.data :: taken, by simp [drainUart, hfull, hb, hpush, hdrain], hwf,
          by rw [hq, hq₁]; simp, ?_, hend⟩
        rw [List.cons_append, ← hgood]
        simp [good, hb]

/-- The loop of `serial_process` feeds the queue to the decoder. -/
theorem drainQueue_eq {q : Queue} {dec : Decoder} {fuel : Nat} (h : q.Wf) (hdec : Wf dec)
    (hfuel : q.count < fuel) (stackAt : Nat → Stack) :
    ∃ q' dec' evs ins, drainQueue fuel q dec stackAt = some (q', dec', evs) ∧ q'.Wf ∧
      q'.count = 0 ∧ Wf dec' ∧ ins.map Prod.fst = q.contents ∧
      Machine.run decoder dec ins = some (dec', evs) := by
  induction fuel generalizing q dec stackAt with
  | zero => omega
  | succ fuel ih =>
    by_cases h0 : q.count = 0
    · exact ⟨q, dec, [], [], by simp [drainQueue, Queue.pop, h0], h, h0, hdec,
        (Queue.contents_nil h0).symm, rfl⟩
    · obtain ⟨b, q₁, hpop, hwf₁, hq₁, hcount⟩ := h.pop h0
      obtain ⟨dec₁, ev, hbyte, hdec₁⟩ := hdec.handleByte (stackAt 0) b
      obtain ⟨q', dec', evs, ins, hdrain, hwf, hempty, hdec', hins, hrun⟩ :=
        ih hwf₁ hdec₁ (by omega) fun k => stackAt (k + 1)
      refine ⟨q', dec', ev.toList ++ evs, (b, stackAt 0) :: ins, ?_, hwf, hempty, hdec', ?_,
        run_step hbyte hrun⟩
      · simp [drainQueue, hpop, hbyte, hdrain]
      · rw [hq₁, List.map_cons, hins]

/-! ## Runs of `serial_process` -/

/-- One call of `serial_process`: what arrived at the UART before it, whether IIR
passes the test of `serial_ih`, and the stack of the events it makes. -/
structure Round where
  arrivals : List UartByte
  rxInterrupt : Bool
  stackAt : Nat → Stack

/-- `serial_process` over rounds. -/
def receiver : Machine Port Round SerialEvent := fun p r =>
  process { p with uart := p.uart ++ r.arrivals } r.rxInterrupt r.stackAt

/-- The port before any byte: `queue_init` on a zeroed buffer. -/
def Port.start : Port := ⟨[], .init (List.replicate queueSize 0), .start⟩

/-- Between two calls the software queue is empty. -/
structure Port.Wf (p : Port) : Prop where
  queue : p.rxQueue.Wf
  empty : p.rxQueue.count = 0
  dec : Serial.Wf p.dec

theorem Port.wf_start : Port.start.Wf :=
  ⟨Queue.wf_init List.length_replicate, rfl, Serial.wf_start⟩

/-- One call decodes the bytes it takes from the UART. -/
theorem receiver_step {p : Port} (h : p.Wf) (r : Round) :
    ∃ p' evs ins, receiver p r = some (p', evs) ∧ p'.Wf ∧
      good p.uart ++ good r.arrivals = ins.map Prod.fst ++ good p'.uart ∧
      Machine.run decoder p.dec ins = some (p'.dec, evs) := by
  have hgood : good (p.uart ++ r.arrivals) = good p.uart ++ good r.arrivals := by simp [good]
  obtain ⟨uart', q₁, taken, hdrain, hq₁, hcontents, htaken⟩ :
      ∃ uart' q₁ taken, (if r.rxInterrupt then drainUart (p.uart ++ r.arrivals) p.rxQueue
          else some (p.uart ++ r.arrivals, p.rxQueue)) = some (uart', q₁) ∧ q₁.Wf ∧
        q₁.contents = taken ∧ good (p.uart ++ r.arrivals) = taken ++ good uart' := by
    split
    · obtain ⟨uart', q₁, taken, hdrain, hq₁, hcontents, htaken, -⟩ :=
        drainUart_eq (p.uart ++ r.arrivals) h.queue
      rw [Queue.contents_nil h.empty, List.nil_append] at hcontents
      exact ⟨uart', q₁, taken, hdrain, hq₁, hcontents, htaken⟩
    · exact ⟨_, _, [], rfl, h.queue, Queue.contents_nil h.empty, rfl⟩
  obtain ⟨q₂, dec', evs, ins, hqueue, hq₂, hempty, hdec', hins, hrun⟩ :=
    drainQueue_eq hq₁ h.dec (Nat.lt_succ_self q₁.count) r.stackAt
  refine ⟨⟨uart', q₂, dec'⟩, evs, ins, ?_, ⟨hq₂, hempty, hdec'⟩, ?_, hrun⟩
  · simp only [receiver, process, Option.bind_eq_bind, ite_bind]
    rw [hdrain, Option.bind_some, hqueue]
    rfl
  · rw [← hgood, htaken, hins, hcontents]

/-- Any number of calls: no byte is lost, repeated or reordered. -/
theorem receiver_run {p : Port} (h : p.Wf) (rounds : List Round) :
    ∃ p' evs ins, Machine.run receiver p rounds = some (p', evs) ∧ p'.Wf ∧
      good p.uart ++ good (rounds.flatMap Round.arrivals) = ins.map Prod.fst ++ good p'.uart ∧
      Machine.run decoder p.dec ins = some (p'.dec, evs) := by
  induction rounds generalizing p with
  | nil => exact ⟨p, [], [], rfl, h, by simp [good], rfl⟩
  | cons r rounds ih =>
    obtain ⟨p₁, evs₁, ins₁, hstep, h₁, hbytes₁, hrun₁⟩ := receiver_step h r
    obtain ⟨p', evs, ins, hrounds, h', hbytes, hrun⟩ := ih h₁
    refine ⟨p', evs₁ ++ evs, ins₁ ++ ins, Machine.run_cons hstep hrounds, h', ?_,
      Machine.run_append hrun₁ hrun⟩
    have hgood : good ((r :: rounds).flatMap Round.arrivals) =
        good r.arrivals ++ good (rounds.flatMap Round.arrivals) := by simp [good]
    rw [hgood, ← List.append_assoc, hbytes₁, List.append_assoc, hbytes, List.map_append,
      List.append_assoc]

end LCode.Serial
