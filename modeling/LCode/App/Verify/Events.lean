import LCode.App.Events
import LCode.Commands.Verify.Files
import LCode.Serial.Verify.Port

/-!
# No event is dropped

The event queue is empty between two rounds of the main loop, and what one call of
`interrupts_handler` pushes fits into it: a key makes one event, a mouse packet two,
and the software queue holds sixteen bytes, of which each ends at most one packet.
`input_dispatch` then hands every event on, in the order of the pushes.
-/

namespace LCode

/-! ## The event queue -/

namespace EventQueue

/-- The events in the queue, the oldest first. -/
def contents (q : EventQueue) : List InputEvent :=
  (List.range q.count).map fun i => q.queue (q.head + Fin.ofNat inputEventQueueSize i)

/-- The indices of the ring agree with its count. -/
structure Wf (q : EventQueue) : Prop where
  tail_eq : q.tail = q.head + Fin.ofNat inputEventQueueSize q.count
  count_le : q.count ≤ inputEventQueueSize

variable {q : EventQueue} {ev : InputEvent} {evs : List InputEvent}

@[simp] theorem length_contents (q : EventQueue) : q.contents.length = q.count := by
  simp [contents]

theorem contents_nil (h : q.count = 0) : q.contents = [] := by
  simp [contents, h]

theorem contents_eq (q : EventQueue) : q.contents = Ring.contents inputEventQueueSize
    (fun j => q.queue (Fin.ofNat inputEventQueueSize j)) q.head q.count := by
  refine List.map_congr_left fun i _ => congrArg q.queue (Fin.ext ?_)
  simp [Fin.val_add]

theorem wf_iff : q.Wf ↔ (q.tail : Nat) = (q.head + q.count) % inputEventQueueSize ∧
    q.count ≤ inputEventQueueSize := by
  refine ⟨fun h => ⟨?_, h.count_le⟩, fun ⟨htail, hcount⟩ => ⟨Fin.ext ?_, hcount⟩⟩
  · rw [h.tail_eq]
    simp [Fin.val_add]
  · rw [htail]
    simp [Fin.val_add]

theorem val_add_one (i : Fin inputEventQueueSize) :
    ((i + 1 : Fin inputEventQueueSize) : Nat) = (i + 1) % inputEventQueueSize := by
  simp [Fin.val_add]

/-- A push on a queue with room goes to its end. -/
theorem Wf.push (h : q.Wf) (hroom : q.count < inputEventQueueSize) (ev : InputEvent) :
    (q.push ev).Wf ∧ (q.push ev).contents = q.contents ++ [ev] := by
  have hpush : q.push ev = { q with
      queue := Function.update q.queue q.tail ev, tail := q.tail + 1, count := q.count + 1 } := by
    rw [EventQueue.push, if_neg (Nat.not_le.2 hroom)]
  have htail := (wf_iff.1 h).1
  rw [hpush]
  refine ⟨wf_iff.2 ⟨?_, hroom⟩, ?_⟩
  · simp only [val_add_one]
    exact Ring.tail_push htail
  · have hlast : Fin.ofNat inputEventQueueSize ((q.head + q.count) % inputEventQueueSize) =
        q.tail := Fin.ext (by simp [htail])
    simp only [contents_eq]
    rw [Ring.contents_push (fun j => q.queue (Fin.ofNat inputEventQueueSize j)) _ hroom
      fun j hj hne => ?_, hlast, Function.update_self]
    refine Function.update_of_ne (fun heq => hne ?_) _ _
    rw [← htail, ← heq, Fin.val_ofNat, Nat.mod_eq_of_lt hj]

/-- Pushes that fit go to the end, in their order. -/
theorem Wf.pushAll (h : q.Wf) (hroom : q.count + evs.length ≤ inputEventQueueSize) :
    (q.pushAll evs).Wf ∧ (q.pushAll evs).contents = q.contents ++ evs := by
  induction evs generalizing q with
  | nil => exact ⟨h, (List.append_nil _).symm⟩
  | cons ev evs ih =>
    rw [List.length_cons] at hroom
    obtain ⟨h₁, hq₁⟩ := h.push (by omega) ev
    have hcount : (q.push ev).count = q.count + 1 := by
      rw [← length_contents, hq₁, List.length_append, length_contents, List.length_singleton]
    obtain ⟨h₂, hq₂⟩ := ih h₁ (by omega)
    refine ⟨h₂, ?_⟩
    show ((q.push ev).pushAll evs).contents = _
    rw [hq₂, hq₁, List.append_assoc, List.singleton_append]

theorem Wf.count_pushAll (h : q.Wf) (hroom : q.count + evs.length ≤ inputEventQueueSize) :
    (q.pushAll evs).count = q.count + evs.length := by
  rw [← length_contents, (h.pushAll hroom).2, List.length_append, length_contents]

/-- A pop takes the oldest event. -/
theorem Wf.pop (h : q.Wf) (hne : q.count ≠ 0) :
    ∃ ev q', q.pop = (some ev, q') ∧ q'.Wf ∧ q.contents = ev :: q'.contents ∧
      q'.count + 1 = q.count := by
  obtain ⟨n, hn⟩ : ∃ n, q.count = n + 1 := ⟨q.count - 1, by omega⟩
  have hcount := h.count_le
  refine ⟨q.queue q.head, { q with head := q.head + 1, count := q.count - 1 },
    by rw [EventQueue.pop, if_neg hne], wf_iff.2 ⟨?_, by simp only; omega⟩, ?_,
    by simp only; omega⟩
  · simp only [val_add_one, hn, Nat.add_sub_cancel]
    exact Ring.tail_pop (hn ▸ (wf_iff.1 h).1)
  · simp only [contents_eq, hn, Nat.add_sub_cancel, val_add_one]
    rw [Ring.contents_pop, Nat.mod_eq_of_lt q.head.isLt]
    congr 2
    exact Fin.ext (by simp)

theorem pushAll_append (q : EventQueue) (evs evs' : List InputEvent) :
    q.pushAll (evs ++ evs') = (q.pushAll evs).pushAll evs' :=
  List.foldl_append

end EventQueue

/-! ## The handlers -/

/-- The bytes of a mouse packet are stored inside its buffer. -/
structure MouseDriver.Wf (d : MouseDriver) : Prop where
  size : d.packetBytes.length = 4
  index : d.packetIndex < d.packetSize
  packet : d.packetSize ≤ 4

theorem MouseDriver.wf_start (id : UInt8) : (start id).Wf := by
  refine ⟨rfl, ?_, ?_⟩
  all_goals
    simp only [start]
    split <;> omega

theorem MouseDriver.Wf.mouseIh {d : MouseDriver} (h : d.Wf) (port : KbcPort) :
    ∃ d', d.mouseIh port = some d' ∧ d'.Wf := by
  obtain ⟨size, index, packet⟩ := h
  cases hread : readByte port with
  | none => exact ⟨d, by simp [MouseDriver.mouseIh, hread], size, index, packet⟩
  | some data =>
    by_cases hfirst : d.packetIndex = 0 ∧ data &&& 8 = 0
    · exact ⟨d, by simp [MouseDriver.mouseIh, hread, hfirst], size, index, packet⟩
    · obtain ⟨a, z, hbytes, ha⟩ := exists_eq_append_cons (t := d.packetBytes)
        (i := d.packetIndex) (by omega)
      have hstore := Block.store_cell (y := data) hbytes (by omega : (d.packetIndex : Int) = _)
      have hsize : (a ++ data :: z).length = 4 := by
        have := congrArg List.length hbytes
        simp only [List.length_append, List.length_cons] at this ⊢
        omega
      simp only [MouseDriver.mouseIh, hread, if_neg hfirst, hstore, Option.bind_eq_bind,
        Option.bind_some]
      split
      · exact ⟨_, rfl, hsize, by simp only; omega, packet⟩
      · exact ⟨_, rfl, hsize, by simp only at *; omega, packet⟩

theorem MouseDriver.Wf.mouseParsePacket {d : MouseDriver} (h : d.Wf) :
    ∃ pp, d.mouseParsePacket = some pp := by
  obtain ⟨b0, b1, b2, b3, hbytes⟩ : ∃ b0 b1 b2 b3, d.packetBytes = [b0, b1, b2, b3] := by
    match hb : d.packetBytes, h.size with
    | [b0, b1, b2, b3], _ => exact ⟨b0, b1, b2, b3, rfl⟩
  exact ⟨_, by rw [MouseDriver.mouseParsePacket, hbytes]; rfl⟩

/-- A scancode makes at most one event. -/
theorem Keyboard.length_keyboardHandler (kb : Keyboard) (port : KbcPort) :
    (kb.keyboardHandler port).2.length ≤ 1 := by
  rw [Keyboard.keyboardHandler]
  split
  · exact Nat.zero_le 1
  · split
    · exact Nat.zero_le 1
    · rw [List.length_map]
      exact Option.length_toList_le

/-- A mouse packet makes at most two events. -/
theorem Pointer.length_mouseProcess (m : Pointer) (hRes vRes : Int) (pp : MousePacket) :
    (m.mouseProcess hRes vRes pp).2.2.length ≤ 2 := by
  simp only [Pointer.mouseProcess, List.length_append]
  have hbutton : ∀ (p q : Prop) [Decidable p] [Decidable q] (a b : MouseEvent),
      (if p then [a] else if q then [b] else []).length ≤ 1 := by
    intro p q _ _ a b
    split
    · exact Nat.le_refl 1
    · split <;> simp
  have hscroll : ∀ (p : Prop) [Decidable p] (a : MouseEvent),
      (if p then [a] else []).length ≤ 1 := by
    intro p _ a
    split <;> simp
  exact Nat.add_le_add (hbutton _ _ _ _) (hscroll _ _)

namespace Serial

/-- A decoder makes at most one event a byte. -/
theorem length_run_le {dec dec' : Decoder} {ins : List (UInt8 × Stack)} {evs : List SerialEvent}
    (h : Machine.run decoder dec ins = some (dec', evs)) : evs.length ≤ ins.length :=
  Machine.length_run_le (fun dec i dec' evs h => by
    obtain ⟨⟨dec₁, ev⟩, -, h⟩ := Option.map_eq_some_iff.1 h
    obtain ⟨-, rfl⟩ := Prod.mk.inj h
    exact Option.length_toList_le) h

/-- One call of `serial_process` makes at most as many events as its queue has cells. -/
theorem Port.Wf.process {p : Port} (h : p.Wf) (rxInterrupt : Bool) (stackAt : Nat → Stack) :
    ∃ p' evs, process p rxInterrupt stackAt = some (p', evs) ∧ p'.Wf ∧
      evs.length ≤ queueSize := by
  obtain ⟨uart', q, hdrain, hq⟩ : ∃ uart' q, (if rxInterrupt then drainUart p.uart p.rxQueue
      else some (p.uart, p.rxQueue)) = some (uart', q) ∧ q.Wf := by
    cases rxInterrupt with
    | false => exact ⟨_, _, rfl, h.queue⟩
    | true =>
      obtain ⟨uart', q, -, hdrain, hq, -⟩ := drainUart_eq p.uart h.queue
      exact ⟨uart', q, hdrain, hq⟩
  obtain ⟨q', dec', evs, ins, hqueue, hq', hempty, hdec', hins, hrun⟩ :=
    drainQueue_eq hq h.dec (Nat.lt_succ_self q.count) stackAt
  refine ⟨⟨uart', q', dec'⟩, evs, ?_, ⟨hq', hempty, hdec'⟩, ?_⟩
  · simp only [Serial.process, Option.bind_eq_bind, ite_bind]
    rw [hdrain, Option.bind_some, hqueue]
    rfl
  · have hlen : ins.length = q.count := by
      rw [← List.length_map (f := Prod.fst), hins, Queue.contents, List.length_map,
        List.length_range]
    exact Nat.le_trans (length_run_le hrun) (hlen ▸ hq.count_le)

end Serial

namespace Proj

/-- What the handlers need of the drivers. -/
structure Drivers (s : Proj) : Prop where
  port : s.port.Wf
  mouse : s.mouse.Wf

/-- A handler keeps the drivers, leaves the queue to its caller and pushes at most
`bound` events. -/
def Handles (bound : Nat) (handler : Proj → Option (Proj × List InputEvent)) : Prop :=
  ∀ s : Proj, s.Drivers → ∃ s' evs, handler s = some (s', evs) ∧ s'.Drivers ∧
    s'.events = s.events ∧ evs.length ≤ bound

theorem handles_timer : Handles 0 fun s => some (s.timerHandler, []) :=
  fun _ h => ⟨_, _, rfl, ⟨h.port, h.mouse⟩, rfl, Nat.le_refl 0⟩

theorem handles_keyboard (port : KbcPort) : Handles 1 (keyboardHandler · port) :=
  fun s h => ⟨_, _, rfl, ⟨h.port, h.mouse⟩, rfl, s.keyboard.length_keyboardHandler port⟩

theorem handles_serial (rxInterrupt : Bool) (stackAt : Nat → Serial.Stack) :
    Handles 16 (serialHandler · rxInterrupt stackAt) := by
  intro s h
  obtain ⟨port, evs, hprocess, hport, hlen⟩ := h.port.process rxInterrupt stackAt
  refine ⟨{ s with port }, evs.map .serial, by simp [serialHandler, hprocess], ⟨hport, h.mouse⟩,
    rfl, ?_⟩
  rw [List.length_map]
  exact hlen

theorem handles_mouse (port : KbcPort) : Handles 2 (mouseHandler · port) := by
  intro s h
  obtain ⟨mouse, hih, hmouse⟩ := h.mouse.mouseIh port
  cases hready : mouse.packetReady with
  | false =>
    exact ⟨{ s with mouse }, [], by simp [mouseHandler, hih, hready], ⟨h.port, hmouse⟩, rfl,
      Nat.zero_le 2⟩
  | true =>
    obtain ⟨pp, hpp⟩ := hmouse.mouseParsePacket
    simp only [mouseHandler, hih, hready, hpp, Option.bind_eq_bind, Option.bind_some,
      Bool.not_true, Bool.false_eq_true, if_false, Option.pure_def]
    refine ⟨_, _, rfl, ⟨h.port, hmouse.size, hmouse.index, hmouse.packet⟩, rfl, ?_⟩
    rw [List.length_map]
    exact Pointer.length_mouseProcess ..

/-- `onIrq` pushes what its handler makes. -/
theorem Handles.onIrq {bound : Nat} {handler : Proj → Option (Proj × List InputEvent)}
    (h : Handles bound handler) (irq mask : UInt32) {s : Proj} (hs : s.Drivers) :
    ∃ s' evs, onIrq irq mask handler s = some (s', evs) ∧ s'.Drivers ∧
      s'.events = s.events.pushAll evs ∧ evs.length ≤ bound := by
  by_cases hmask : mask &&& irq = 0
  · exact ⟨s, [], by simp [Proj.onIrq, hmask], hs, rfl, Nat.zero_le _⟩
  · obtain ⟨s', evs, hrun, hs', hevents, hlen⟩ := h s hs
    exact ⟨{ s' with events := s'.events.pushAll evs }, evs, by simp [Proj.onIrq, hmask, hrun],
      ⟨hs'.port, hs'.mouse⟩, congrArg (·.pushAll evs) hevents, hlen⟩

/-- One call of `interrupts_handler` pushes at most nineteen events. -/
theorem Drivers.interruptsHandler {s : Proj} (h : s.Drivers) (n : Notify) :
    ∃ s' evs, s.interruptsHandler n = some (s', evs) ∧ s'.Drivers ∧
      s'.events = s.events.pushAll evs ∧ evs.length ≤ 19 := by
  have h₀ : Drivers { s with port := { s.port with uart := s.port.uart ++ n.arrivals } } :=
    ⟨⟨h.port.queue, h.port.empty, h.port.dec⟩, h.mouse⟩
  obtain ⟨s₁, none', hrun₁, h₁, hev₁, hlen₁⟩ := handles_timer.onIrq irqTimer n.interrupts h₀
  obtain ⟨s₂, keys, hrun₂, h₂, hev₂, hlen₂⟩ :=
    (handles_keyboard n.keyboard).onIrq irqKeyboard n.interrupts h₁
  obtain ⟨s₃, packets, hrun₃, h₃, hev₃, hlen₃⟩ :=
    (handles_serial n.rxInterrupt n.stackAt).onIrq irqSerial n.interrupts h₂
  obtain ⟨s₄, clicks, hrun₄, h₄, hev₄, hlen₄⟩ :=
    (handles_mouse n.mouse).onIrq irqMouse n.interrupts h₃
  obtain rfl := List.eq_nil_of_length_eq_zero (Nat.le_zero.1 hlen₁)
  refine ⟨s₄, keys ++ packets ++ clicks, ?_, h₄, ?_, ?_⟩
  · simp only [Proj.interruptsHandler, Option.bind_eq_bind]
    rw [hrun₁, Option.bind_some, hrun₂, Option.bind_some, hrun₃, Option.bind_some, hrun₄]
    rfl
  · rw [hev₄, hev₃, hev₂, hev₁, EventQueue.pushAll_append, EventQueue.pushAll_append]
    rfl
  · simp only [List.length_append]
    omega

/-! ## Rounds -/

/-- `input_dispatch` hands on what the queue holds, in order, and empties it. -/
theorem dispatchLoop_eq {q : EventQueue} (h : q.Wf) {fuel : Nat} (hfuel : q.count < fuel)
    (app : App) : ∃ q' : EventQueue, q'.Wf ∧ q'.count = 0 ∧
      dispatchLoop fuel app q = (q.contents.foldlM dispatchEvent app).map (·, q') := by
  induction fuel generalizing q app with
  | zero => omega
  | succ fuel ih =>
    by_cases h0 : q.count = 0
    · refine ⟨q, h, h0, ?_⟩
      simp [dispatchLoop, EventQueue.pop, h0, EventQueue.contents_nil h0]
    · obtain ⟨ev, q₁, hpop, h₁, hq₁, hcount⟩ := h.pop h0
      cases hev : dispatchEvent app ev with
      | none =>
        obtain ⟨q', hq', hempty, -⟩ := ih h₁ (by omega) app
        exact ⟨q', hq', hempty, by simp [dispatchLoop, hpop, hev, hq₁]⟩
      | some app₁ =>
        obtain ⟨q', hq', hempty, hloop⟩ := ih h₁ (by omega) app₁
        exact ⟨q', hq', hempty, by simp [dispatchLoop, hpop, hev, hq₁, hloop]⟩

/-- Between two rounds both queues are empty. -/
structure Ready (s : Proj) : Prop extends s.Drivers where
  events : s.events.Wf
  empty : s.events.count = 0

theorem ready_start (app : App) (id : UInt8) : (start app id).Ready where
  port := Serial.Port.wf_start
  mouse := MouseDriver.wf_start id
  events := ⟨rfl, Nat.zero_le _⟩
  empty := rfl

theorem Drivers.ready_dispatch {s s' : Proj} (h : s.Drivers) (hq : s.events.Wf)
    (hrun : s.inputDispatch = some s') : s'.render.Ready := by
  obtain ⟨q', hq', hempty, hloop⟩ := dispatchLoop_eq hq (Nat.lt_succ_self _) s.app
  simp only [Proj.inputDispatch, hloop, Option.bind_eq_bind, Option.bind_eq_some_iff,
    Option.map_eq_some_iff, Option.pure_def, Option.some.injEq] at hrun
  obtain ⟨-, ⟨app, -, rfl⟩, rfl⟩ := hrun
  rw [Proj.render]
  split
  · exact ⟨⟨h.port, h.mouse⟩, hq', hempty⟩
  · exact ⟨⟨h.port, h.mouse⟩, hq', hempty⟩

/-- After its handlers ran, a round finds their events in the queue. -/
theorem Ready.interruptsHandler {s : Proj} (h : s.Ready) (n : Notify) :
    ∃ s' evs, s.interruptsHandler n = some (s', evs) ∧ s'.Drivers ∧ s'.events.Wf ∧
      s'.events = s.events.pushAll evs ∧ s'.events.contents = evs ∧ evs.length ≤ 19 := by
  obtain ⟨s', evs, hrun, hs', hevents, hlen⟩ := h.toDrivers.interruptsHandler n
  have hroom : s.events.count + evs.length ≤ inputEventQueueSize := by
    rw [h.empty, inputEventQueueSize]
    omega
  obtain ⟨hwf, hcontents⟩ := h.events.pushAll hroom
  refine ⟨s', evs, hrun, hs', by rw [hevents]; exact hwf, hevents, ?_, hlen⟩
  rw [hevents, hcontents, EventQueue.contents_nil h.empty, List.nil_append]

theorem Ready.round {s s' : Proj} {msg : Message} {evs : List InputEvent} (h : s.Ready)
    (hrun : s.round msg = some (s', evs)) : s'.Ready := by
  cases msg with
  | failed =>
    simp only [Proj.round, Option.some.injEq, Prod.mk.injEq] at hrun
    obtain ⟨rfl, -⟩ := hrun
    exact h
  | other =>
    obtain ⟨s₁, hdispatch, hrun⟩ := Option.bind_eq_some_iff.1 hrun
    obtain ⟨rfl, -⟩ := Prod.mk.inj (Option.some.inj hrun)
    exact h.toDrivers.ready_dispatch h.events hdispatch
  | notify n =>
    obtain ⟨s₁, evs₁, hhandler, h₁, hq₁, -⟩ := h.interruptsHandler n
    simp only [Proj.round, hhandler, Option.bind_eq_bind, Option.bind_some] at hrun
    obtain ⟨s₂, hdispatch, hrun⟩ := Option.bind_eq_some_iff.1 hrun
    obtain ⟨rfl, -⟩ := Prod.mk.inj (Option.some.inj hrun)
    exact h₁.ready_dispatch hq₁ hdispatch

theorem Ready.mainLoop {s s' : Proj} (h : s.Ready) {msgs : List Message}
    (hrun : s.mainLoop msgs = some s') : s'.Ready := by
  induction msgs generalizing s with
  | nil =>
    obtain rfl := Option.some.inj hrun
    exact h
  | cons msg msgs ih =>
    rw [Proj.mainLoop] at hrun
    split at hrun
    · obtain rfl := Option.some.inj hrun
      exact h
    · obtain ⟨⟨s₁, evs⟩, hround, hrun⟩ := Option.bind_eq_some_iff.1 hrun
      exact ih (h.round hround) hrun

/-- Whatever rounds came before, and whatever the next notification brings, fewer
than sixty-four events are pushed before `input_dispatch`, every push finds room, and
`input_dispatch` hands on exactly the events pushed, in their order. -/
theorem no_event_dropped (app : App) (id : UInt8) (msgs : List Message) (s : Proj)
    (hrun : (start app id).mainLoop msgs = some s) (n : Notify) :
    ∃ s' evs, s.interruptsHandler n = some (s', evs) ∧ evs.length < inputEventQueueSize ∧
      s'.events = s.events.pushAll evs ∧
      (∀ k < evs.length, (s.events.pushAll (evs.take k)).count < inputEventQueueSize) ∧
      s'.inputDispatch.map Proj.app = evs.foldlM dispatchEvent s'.app := by
  have h := (ready_start app id).mainLoop hrun
  obtain ⟨s', evs, hhandler, -, hwf, hevents, hcontents, hlen⟩ := h.interruptsHandler n
  have hbound : evs.length < inputEventQueueSize := Nat.lt_of_le_of_lt hlen (by decide)
  refine ⟨s', evs, hhandler, hbound, hevents, fun k hk => ?_, ?_⟩
  · have hlt := Nat.lt_trans hk hbound
    have htake : s.events.count + (evs.take k).length = k := by
      rw [h.empty, List.length_take, Nat.zero_add, Nat.min_eq_left (Nat.le_of_lt hk)]
    rw [h.events.count_pushAll (by rw [htake]; exact Nat.le_of_lt hlt), htake]
    exact hlt
  · obtain ⟨q', -, -, hloop⟩ := dispatchLoop_eq hwf (Nat.lt_succ_self _) s'.app
    simp only [Proj.inputDispatch, hloop, hcontents, Option.bind_eq_bind, Option.map_bind]
    cases evs.foldlM dispatchEvent s'.app <;> rfl

/-- Every interrupt at once: the key `a`, five empty packets in sixteen bytes and
the last byte of a click with the wheel turned. -/
def burst : Notify where
  interrupts := irqTimer ||| irqKeyboard ||| irqSerial ||| irqMouse
  keyboard := ⟨fun _ => some 1, some 0x1E⟩
  mouse := ⟨fun _ => some 33, some 9⟩
  arrivals := [0xFE, 2, 0, 0xFE, 2, 0, 0xFE, 2, 0, 0xFE, 2, 0, 0xFE, 2, 0, 0xFE].map (⟨·, false⟩)
  rxInterrupt := true
  stackAt := fun _ _ => 0

theorem no_event_dropped_burst : ∃ app s s' evs,
    App.start Commands.emptyDisk .zeros (ascii "a.c") = some app ∧
    (start app 3).mainLoop [.notify { burst with interrupts := irqMouse }, .other] = some s ∧
    s.interruptsHandler burst = some (s', evs) ∧ evs.length < inputEventQueueSize := by
  have hstart : ((App.start Commands.emptyDisk .zeros (ascii "a.c")).bind fun app => (start app 3).mainLoop
      [.notify { burst with interrupts := irqMouse }, .other]).isSome = true := by
    decide +kernel
  obtain ⟨s, hs⟩ := Option.isSome_iff_exists.1 hstart
  obtain ⟨app, happ, hrun⟩ := Option.bind_eq_some_iff.1 hs
  obtain ⟨s', evs, hhandler, hlen, -⟩ := no_event_dropped app 3 _ s hrun burst
  exact ⟨app, s, s', evs, happ, hrun, hhandler, hlen⟩

end Proj

end LCode
