import LCode.App.Verify.Events

/-!
# The two queues

The software queue of the serial port and the event queue are bounded queues over
every run of their calls: a list of at most sixteen bytes that rejects a push when it
is full, and a list of at most 64 events that drops its oldest one instead.
-/

namespace LCode

/-! ## The software queue -/

namespace Serial.Queue

variable {q : Queue} {l : List UInt8}

/-- The calls on the queue; `queue_init` clears it. -/
def calls : Machine Queue (Ring.Op UInt8) (Ring.Reply UInt8)
  | q, .push b => do
    let (accepted, q) ← q.push b
    return (q, [.pushed accepted])
  | q, .pop => do
    let (b, q) ← q.pop
    return (q, [.popped b])
  | q, .clear => some (init q.buffer, [.cleared])

/-- The queue holds the bytes `l`. -/
structure Holds (q : Queue) (l : List UInt8) : Prop extends q.Wf where
  contents_eq : q.contents = l

theorem holds_init {buffer : List UInt8} (h : buffer.length = queueSize) :
    (init buffer).Holds [] :=
  ⟨wf_init h, contents_nil rfl⟩

theorem Holds.length_eq (h : q.Holds l) : l.length = q.count := by
  rw [← h.contents_eq, length_contents]

theorem Holds.push (h : q.Holds l) (b : UInt8) :
    ∃ q', q.push b = some ((Ring.Policy.reject.push queueSize l b).1, q') ∧
      q'.Holds (Ring.Policy.reject.push queueSize l b).2 := by
  have hlen := h.length_eq
  by_cases hfull : q.isFull = true
  · have hcount : q.count = queueSize := by simpa [isFull] using hfull
    rw [Ring.push_reject (by omega)]
    exact ⟨q, by simp [Queue.push, hfull], h⟩
  · have hroom : q.isFull = false := by simpa using hfull
    have hcount : q.count ≠ queueSize := by simpa [isFull] using hroom
    have hle := h.count_le
    rw [Ring.push_room (by omega)]
    obtain ⟨q', hpush, hwf, hcontents, -⟩ := h.toWf.push hroom b
    exact ⟨q', hpush, hwf, by rw [hcontents, h.contents_eq]⟩

theorem Holds.pop (h : q.Holds l) : ∃ q', q.pop = some (l.head?, q') ∧ q'.Holds l.tail := by
  have hlen := h.length_eq
  by_cases hempty : q.count = 0
  · have hnil : l = [] := List.eq_nil_of_length_eq_zero (by omega)
    subst hnil
    exact ⟨q, by simp [Queue.pop, hempty], h⟩
  · obtain ⟨b, q', hpop, hwf, hcontents, -⟩ := h.toWf.pop hempty
    have hl : l = b :: q'.contents := by rw [← hcontents, h.contents_eq]
    subst hl
    exact ⟨q', hpop, hwf, rfl⟩

/-- A call answers as the bounded queue does. -/
theorem Holds.calls (h : q.Holds l) (op : Ring.Op UInt8) :
    ∃ q' l' replies, calls q op = some (q', replies) ∧
      Ring.fifo .reject queueSize l op = some (l', replies) ∧ q'.Holds l' := by
  cases op with
  | push b =>
    obtain ⟨q', hpush, h'⟩ := h.push b
    exact ⟨q', _, _, by simp [Queue.calls, hpush], rfl, h'⟩
  | pop =>
    obtain ⟨q', hpop, h'⟩ := h.pop
    exact ⟨q', _, _, by simp [Queue.calls, hpop], rfl, h'⟩
  | clear => exact ⟨_, _, _, rfl, rfl, holds_init h.size⟩

end Serial.Queue

/-! ## The event queue -/

namespace EventQueue

variable {q : EventQueue} {l : List InputEvent}

/-- The calls on the queue; a push is always accepted. -/
def calls : Machine EventQueue (Ring.Op InputEvent) (Ring.Reply InputEvent)
  | q, .push ev => some (q.push ev, [.pushed true])
  | q, .pop => some (q.pop.2, [.popped q.pop.1])
  | q, .clear => some (q.clear, [.cleared])

/-- The queue holds the events `l`. -/
structure Holds (q : EventQueue) (l : List InputEvent) : Prop extends q.Wf where
  contents_eq : q.contents = l

theorem holds_clear (q : EventQueue) : q.clear.Holds [] :=
  ⟨⟨rfl, Nat.zero_le _⟩, contents_nil rfl⟩

theorem Holds.length_eq (h : q.Holds l) : l.length = q.count := by
  rw [← h.contents_eq, length_contents]

/-- A push on a full queue is one on the queue without its oldest event. -/
theorem push_full (h : q.count = inputEventQueueSize) (ev : InputEvent) :
    q.push ev = q.pop.2.push ev := by
  have hne : q.count ≠ 0 := by
    rw [h]
    decide
  have hpop : q.pop.2 = { q with head := q.head + 1, count := q.count - 1 } := by
    rw [EventQueue.pop, if_neg hne]
  have hroom : ¬ inputEventQueueSize ≤ q.count - 1 := by omega
  rw [EventQueue.push, if_pos (Nat.le_of_eq h.symm), hpop, EventQueue.push, if_neg hroom]

theorem Holds.pop (h : q.Holds l) : q.pop.1 = l.head? ∧ q.pop.2.Holds l.tail := by
  have hlen := h.length_eq
  by_cases hempty : q.count = 0
  · have hnil : l = [] := List.eq_nil_of_length_eq_zero (by omega)
    subst hnil
    rw [EventQueue.pop, if_pos hempty]
    exact ⟨rfl, h⟩
  · obtain ⟨ev, q', hpop, hwf, hcontents, -⟩ := h.toWf.pop hempty
    have hl : l = ev :: q'.contents := by rw [← hcontents, h.contents_eq]
    subst hl
    rw [hpop]
    exact ⟨rfl, hwf, rfl⟩

theorem Holds.pushRoom (h : q.Holds l) (hroom : q.count < inputEventQueueSize)
    (ev : InputEvent) : (q.push ev).Holds (l ++ [ev]) :=
  ⟨(h.toWf.push hroom ev).1, by rw [(h.toWf.push hroom ev).2, h.contents_eq]⟩

theorem Holds.push (h : q.Holds l) (ev : InputEvent) :
    Ring.Policy.dropOldest.push inputEventQueueSize l ev =
        (true, (Ring.Policy.dropOldest.push inputEventQueueSize l ev).2) ∧
      (q.push ev).Holds (Ring.Policy.dropOldest.push inputEventQueueSize l ev).2 := by
  have hlen := h.length_eq
  by_cases hroom : q.count < inputEventQueueSize
  · rw [Ring.push_room (by omega)]
    exact ⟨rfl, h.pushRoom hroom ev⟩
  · have hfull : q.count = inputEventQueueSize := by
      have := h.count_le
      omega
    have h' := h.pop.2
    have hcount := h'.length_eq
    rw [List.length_tail] at hcount
    have hpos : 0 < inputEventQueueSize := by decide
    have hroom' : q.pop.2.count < inputEventQueueSize := by omega
    rw [Ring.push_dropOldest (Nat.le_of_eq (hfull.symm.trans hlen.symm)), push_full hfull]
    exact ⟨rfl, h'.pushRoom hroom' ev⟩

/-- A call answers as the bounded queue does. -/
theorem Holds.calls (h : q.Holds l) (op : Ring.Op InputEvent) :
    ∃ q' l' replies, calls q op = some (q', replies) ∧
      Ring.fifo .dropOldest inputEventQueueSize l op = some (l', replies) ∧ q'.Holds l' := by
  cases op with
  | push ev =>
    obtain ⟨haccepted, h'⟩ := h.push ev
    refine ⟨q.push ev, _, [.pushed true], rfl, ?_, h'⟩
    rw [Ring.fifo, haccepted]
  | pop =>
    obtain ⟨hreply, h'⟩ := h.pop
    refine ⟨q.pop.2, _, [.popped l.head?], ?_, rfl, h'⟩
    rw [EventQueue.calls, hreply]
  | clear => exact ⟨q.clear, _, _, rfl, rfl, holds_clear q⟩

end EventQueue

/-! ## Runs -/

/-- Over every run of their calls, from any contents of their arrays, the two ring
buffers are first-in-first-out lists. -/
theorem ring_buffers_refine_fifo :
    (∀ (cells : Fin Serial.queueSize → UInt8) (ops : List (Ring.Op UInt8)), ∃ q l replies,
      Machine.run Serial.Queue.calls (.init (List.ofFn cells)) ops = some (q, replies) ∧
      Machine.run (Ring.fifo .reject Serial.queueSize) [] ops = some (l, replies) ∧
      q.contents = l ∧ q.count = l.length ∧ l.length ≤ 16 ∧ q.head < 16 ∧
      q.tail = (q.head + q.count) % 16) ∧
    ∀ (cells : Fin inputEventQueueSize → InputEvent) (ops : List (Ring.Op InputEvent)),
      ∃ q l replies,
      Machine.run EventQueue.calls ⟨cells, 0, 0, 0⟩ ops = some (q, replies) ∧
      Machine.run (Ring.fifo .dropOldest inputEventQueueSize) [] ops = some (l, replies) ∧
      q.contents = l ∧ q.count = l.length ∧ l.length ≤ 64 ∧
      (q.tail : Nat) = (q.head + q.count) % 64 := by
  refine ⟨fun cells ops => ?_, fun cells ops => ?_⟩
  · have hinit : (Serial.Queue.init (List.ofFn cells)).Holds [] :=
      Serial.Queue.holds_init (List.length_ofFn)
    obtain ⟨q, l, replies, hrun, hfifo, h⟩ :=
      Machine.run_simulates (R := Serial.Queue.Holds) (fun _ _ op h => h.calls op) hinit ops
    have hlen := h.length_eq
    exact ⟨q, l, replies, hrun, hfifo, h.contents_eq, hlen.symm, hlen ▸ h.count_le, h.head_lt,
      h.tail_eq⟩
  · have hinit : (⟨cells, 0, 0, 0⟩ : EventQueue).Holds [] :=
      EventQueue.holds_clear ⟨cells, 0, 0, 0⟩
    obtain ⟨q, l, replies, hrun, hfifo, h⟩ :=
      Machine.run_simulates (R := EventQueue.Holds) (fun _ _ op h => h.calls op) hinit ops
    have hlen := h.length_eq
    exact ⟨q, l, replies, hrun, hfifo, h.contents_eq, hlen.symm, hlen ▸ h.count_le,
      (EventQueue.wf_iff.1 h.toWf).1⟩

end LCode
