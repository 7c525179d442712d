import LCode.Commands.Verify.Edits
import LCode.Peer.Basic

/-!
# Character-level replication

A packet that reaches the other peer is decoded to one event and dispatched. So
every character typed and every Backspace of one peer is replayed by the other
at its remote cursor, and text and cursor agree after any number of them.
-/

namespace LCode

open Serial Commands

theorem withStacks_fst (bytes : List UInt8) (stackAt : Nat → Stack) :
    (withStacks bytes stackAt).map Prod.fst = bytes := by
  rw [withStacks, List.map_map]
  exact List.zipIdx_map_fst 0 bytes

theorem Commands.Editing.flush {app : App} (h : Editing app) : Editing app.flush :=
  ⟨h.mode, h.focused, h.remote, h.inactive⟩

/-- What an input sends. -/
theorem Commands.Tells.sent_flush {a a' : App} {ms : List Message} (h : Tells a.flush a' ms)
    (hr : a.remote = true) : a'.sent = stream ms := by
  rw [h.sent]
  simp [App.flush, hr]

theorem Commands.Tells.sent_one {a a' : App} {m : Message} (h : Tells a.flush a' [m])
    (hr : a.remote = true) : a'.sent = m.bytes := by
  rw [h.sent_flush hr, stream_singleton]

/-! ## Peers that share a text -/

/-- No directory and no file. -/
def Files.none : Files where
  getcwd := .none
  opendir _ := .none
  isDir _ := false
  read _ := .none
  writable _ := false
  strerror := []

/-- A peer that shares the text of `r`, its cursor at the caret of `r` and its
remote cursor at the peer. -/
def Peer.sharing (r : Replica UInt8) (heap : Heap) : Peer where
  app := { App.static Files.none heap with
    editor := { Editor.static heap with
      doc := .ofText r.text heap
      cursorRow := r.caret.row
      cursorCol := r.caret.col
      remoteCursorRow := r.peer.row
      remoteCursorCol := r.peer.col }
    remote := true }
  dec := .start

section Sharing

variable {r : Replica UInt8} {heap : Heap}

theorem sharing_models (hcaret : Text.Valid r.text r.caret) (hpeer : Text.Valid r.text r.peer)
    (ample : heap.Ample) : (Peer.sharing r heap).app.editor.Models False r :=
  ⟨⟨Doc.ofText_holds _ _ _, ample, rfl, rfl, hcaret⟩,
    ⟨Doc.ofText_holds _ _ _, ample, rfl, rfl, hpeer⟩⟩

theorem sharing_editing : Editing (Peer.sharing r heap).app := ⟨rfl, rfl, rfl, rfl⟩

theorem sharing_idle : Idle (Peer.sharing r heap).dec := ⟨rfl, List.length_replicate⟩

end Sharing

/-! ## Delivery -/

section Delivery

variable {p : Peer} {ins js : List (UInt8 × Stack)}

/-- Delivering bytes is decoding them and dispatching the events. -/
theorem deliverAll_eq {dec : Decoder} {evs : List SerialEvent}
    (h : Machine.run decoder p.dec ins = some (dec, evs)) :
    p.deliverAll ins = (evs.foldlM dispatchSerial p.app).map fun app => ⟨app, dec⟩ := by
  induction ins generalizing p evs with
  | nil =>
    simp only [Machine.run_nil, Option.some.injEq, Prod.mk.injEq] at h
    obtain ⟨rfl, rfl⟩ := h
    rfl
  | cons i ins ih =>
    simp only [Machine.run, decoder, Option.bind_eq_bind, Option.bind_eq_some_iff, Prod.exists,
      Option.pure_def, Option.some.injEq, Prod.mk.injEq, Option.map_eq_some_iff] at h
    obtain ⟨dec₁, evs₁, ⟨dec₁', ev, hbyte, rfl, rfl⟩, dec₂, evs₂, hrun, rfl, rfl⟩ := h
    simp only [Peer.deliverAll, Peer.deliver, hbyte, Option.bind_eq_bind, Option.bind_some]
    cases ev with
    | none => exact ih (p := ⟨p.app, dec₁'⟩) hrun
    | some ev =>
      simp only [Option.toList_some, List.singleton_append, List.foldlM_cons, Option.bind_eq_bind]
      cases hdisp : dispatchSerial p.app ev with
      | none => simp
      | some app => simpa using ih (p := ⟨app, dec₁'⟩) hrun

/-- Messages are dispatched as one event each. -/
theorem deliverAll_messages (h : Idle p.dec) {ms : List Message}
    (hlen : ∀ m ∈ ms, m.body.length < 256) (hins : ins.map Prod.fst = stream ms) :
    ∃ evs dec, List.Forall₂ Message.Event ms evs ∧ Idle dec ∧
      p.deliverAll ins = (evs.foldlM dispatchSerial p.app).map fun app => ⟨app, dec⟩ := by
  obtain ⟨dec, evs, hrun, hidle, hevs⟩ := run_messages h hlen hins
  exact ⟨evs, dec, hevs, hidle, deliverAll_eq hrun⟩

theorem events_append {ms ns : List Message} {evs : List SerialEvent}
    (h : List.Forall₂ Message.Event (ms ++ ns) evs) :
    ∃ evs₁ evs₂, evs = evs₁ ++ evs₂ ∧ List.Forall₂ Message.Event ms evs₁ ∧
      List.Forall₂ Message.Event ns evs₂ := by
  obtain ⟨evs₁, evs₂, rfl, h₁, h₂⟩ := Doc.forall₂_append.1 h.flip
  exact ⟨evs₁, evs₂, rfl, h₁.flip, h₂.flip⟩

theorem events_one {m : Message} {evs : List SerialEvent}
    (h : List.Forall₂ Message.Event [m] evs) : ∃ se, evs = [se] ∧ m.Event se := by
  obtain ⟨se, _, hse, hnil, rfl⟩ := List.forall₂_cons_left_iff.1 h
  cases hnil
  exact ⟨se, rfl, hse⟩

theorem deliverAll_message (h : Idle p.dec) {m : Message} (hlen : m.body.length < 256)
    (hins : ins.map Prod.fst = m.bytes) :
    ∃ se dec, m.Event se ∧ Idle dec ∧
      p.deliverAll ins = (dispatchSerial p.app se).map fun app => ⟨app, dec⟩ := by
  obtain ⟨evs, dec, hevs, hidle, hdeliver⟩ := deliverAll_messages h
    (by simpa using hlen) (hins.trans (stream_singleton m).symm)
  obtain ⟨se, rfl, hse⟩ := events_one hevs
  exact ⟨se, dec, hse, hidle, by simpa using hdeliver⟩

end Delivery

/-! ## Typing and erasing -/

section Replication

variable {a b : Peer} {t : List (List UInt8)} {p : Pos}

/-- `b` shows the text `t` of `a` and has its remote cursor at the cursor `p` of
`a`. -/
structure Replicates (a b : Peer) (t : List (List UInt8)) (p : Pos) : Prop where
  sender : a.app.editor.At False t p
  editing : Editing a.app
  receiver : b.app.editor.PeerAt False t p
  idle : Idle b.dec

/-- One packet of the sender. -/
theorem Replicates.packet (h : Replicates a b t p) {turn : Turn} {ev : KeyEvent}
    (hinput : turn.input = .key ev) {cmd : SerialCommand} {body : List UInt8}
    {t' : List (List UInt8)} {p' : Pos} (hlen : body.length < 256)
    (hact : ∃ app, dispatch a.app.flush ev = some app ∧
      Edited False a.app.flush app t' p' [⟨cmd, body⟩])
    (hrecv : ∀ se : SerialEvent, se.Carries cmd.code body →
      ∃ app row, dispatchSerial b.app se = some app ∧ Received False b.app app t' p' row) :
    ∃ a' b', a.exchange b turn = some (a', b') ∧ Replicates a' b' t' p' := by
  obtain ⟨app, hdisp, hedited⟩ := hact
  obtain ⟨se, dec, hse, hidle, hdeliver⟩ := deliverAll_message (m := ⟨cmd, body⟩) h.idle hlen
    (withStacks_fst (Serial.packet cmd body) turn.stackAt)
  obtain ⟨app', row, hdisp', hrecv⟩ := hrecv se hse
  have hsent : app.sent = Serial.packet cmd body := hedited.sent_one h.editing.remote
  refine ⟨{ a with app }, ⟨app', dec⟩, ?_, hedited.at', hedited.editing h.editing.flush, hrecv.peer, hidle⟩
  simp [Peer.exchange, Peer.act, App.handle, hinput, hdisp, hsent, hdeliver, hdisp']

/-- One key of the sender. -/
theorem Replicates.key (h : Replicates a b t p) {turn : Turn} {ev : KeyEvent}
    (hinput : turn.input = .key ev) (hev : (∃ c, ev.Types c) ∨ ev.Erases) :
    ∃ a' b' t' p', a.exchange b turn = some (a', b') ∧ Replicates a' b' t' p' := by
  have hat : a.app.flush.editor.At False t p := h.sender
  have hed : Editing a.app.flush := h.editing.flush
  rcases hev with ⟨c, hc⟩ | he
  · obtain ⟨a', b', hturn, hrep⟩ := h.packet hinput (show [c].length < 256 by simp)
      (dispatch_types hat hed hc) fun se hse => by
        obtain ⟨app, hdisp, hrecv⟩ := dispatchSerial_insert h.receiver hse
        exact ⟨app, _, hdisp, hrecv⟩
    exact ⟨a', b', _, _, hturn, hrep⟩
  · obtain ⟨a', b', hturn, hrep⟩ := h.packet hinput (show ([] : List UInt8).length < 256 by simp)
      (dispatch_erases hat hed he) fun se hse => by
        obtain ⟨app, hdisp, hrecv⟩ := dispatchSerial_delete h.receiver hse
        exact ⟨app, _, hdisp, hrecv⟩
    exact ⟨a', b', _, _, hturn, hrep⟩

/-- Typing and erasing are replicated: after any number of keys of one side the
two texts are the same again and the remote cursor of the other side is the
cursor of the typing one. -/
theorem run_edits (h : Replicates a b t p) (turns : List Turn)
    (hturns : ∀ turn ∈ turns, turn.side = .left ∧
      ∃ ev : KeyEvent, turn.input = .key ev ∧ ((∃ c, ev.Types c) ∨ ev.Erases)) :
    ∃ s t' p', Pair.run ⟨a, b⟩ turns = some s ∧ Replicates s.a s.b t' p' ∧
      s.b.app.editor.doc.text = s.a.app.editor.doc.text ∧
      s.b.app.editor.remoteCursorRow = s.a.app.editor.cursorRow ∧
      s.b.app.editor.remoteCursorCol = s.a.app.editor.cursorCol := by
  induction turns generalizing a b t p with
  | nil =>
    refine ⟨⟨a, b⟩, t, p, rfl, h, ?_, ?_, ?_⟩
    · rw [h.sender.holds.shows.text_eq, h.receiver.holds.shows.text_eq]
    · rw [h.receiver.row, h.sender.row]
    · rw [h.receiver.col, h.sender.col]
  | cons turn turns ih =>
    obtain ⟨hside, ev, hinput, hev⟩ := hturns turn (by simp)
    obtain ⟨a', b', t', p', hturn, hrep⟩ := h.key hinput hev
    obtain ⟨s, t'', p'', hrun, hend⟩ := ih hrep fun turn hturn => hturns turn (by simp [hturn])
    refine ⟨s, t'', p'', ?_, hend⟩
    simp only [Pair.run, List.foldlM_cons, Pair.turn, hside, hturn, Option.bind_eq_bind,
      Option.bind_some, Option.pure_def]
    exact hrun

/-- An `x`, Enter and Backspace, typed into an empty text. -/
theorem run_edits_keys :
    ∃ s, Pair.run ⟨.sharing ⟨[[]], ⟨0, 0⟩, ⟨0, 0⟩⟩ .zeros, .sharing ⟨[[]], ⟨0, 0⟩, ⟨0, 0⟩⟩ .zeros⟩
        [⟨.left, .key { KeyEvent.none with c := 'x'.toUInt8 }, fun _ _ => 0⟩,
          ⟨.left, .key { KeyEvent.none with enter := true }, fun _ _ => 0⟩,
          ⟨.left, .key { KeyEvent.none with backspace := true }, fun _ _ => 0⟩] = some s ∧
      s.b.app.editor.doc.text = s.a.app.editor.doc.text := by
  have hmodels := sharing_models (r := ⟨[[]], ⟨0, 0⟩, ⟨0, 0⟩⟩) (by decide) (by decide)
    Heap.zeros_ample
  obtain ⟨s, -, -, hrun, -, htext, -⟩ := run_edits
    ⟨hmodels.own, sharing_editing, hmodels.peer, sharing_idle⟩
    [⟨.left, .key { KeyEvent.none with c := 'x'.toUInt8 }, fun _ _ => 0⟩,
      ⟨.left, .key { KeyEvent.none with enter := true }, fun _ _ => 0⟩,
      ⟨.left, .key { KeyEvent.none with backspace := true }, fun _ _ => 0⟩] (by
    simp only [List.mem_cons, List.not_mem_nil, or_false, forall_eq_or_imp, forall_eq, true_and]
    exact ⟨⟨_, rfl, .inl ⟨'x'.toUInt8, rfl, rfl, rfl, rfl, by decide, .inr ⟨rfl, by decide, rfl⟩⟩⟩,
      ⟨_, rfl, .inl ⟨newline, rfl, rfl, rfl, rfl, by decide, .inl ⟨rfl, rfl⟩⟩⟩,
      ⟨_, rfl, .inr ⟨rfl, rfl, rfl⟩⟩⟩)
  exact ⟨s, hrun, htext⟩

end Replication

end LCode
