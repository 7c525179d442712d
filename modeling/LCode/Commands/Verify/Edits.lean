import LCode.Commands.Verify.Packets
import LCode.Lib.Replica

/-!
# The editor as a replica

A process that shares its text is a replica of it: a plain key is an edit at its
own cursor, told to the peer in one packet, and the packet of an edit is the
edit replayed at the remote cursor.
-/

namespace LCode

/-! ## Packets of edits -/

namespace Edit

/-- The message that tells an edit. -/
def message : Edit UInt8 → Serial.Message
  | .type c => ⟨.insertChar, [c]⟩
  | .erase => ⟨.deleteChar, []⟩
  | .move p => ⟨.moveCursor, Commands.position p⟩

/-- A position has to fit into 16 bits each way. -/
def Fits : Edit UInt8 → Prop
  | .move p => p.row < 65536 ∧ p.col < 65536
  | _ => True

theorem message_length (e : Edit UInt8) : e.message.body.length < 256 := by
  cases e <;> simp [message, Commands.position]

end Edit

/-- The editor is the replica `r`. -/
structure Editor.Models (T : Prop) (ed : Editor) (r : Replica UInt8) : Prop where
  own : ed.At T r.text r.caret
  peer : ed.PeerAt T r.text r.peer

namespace Commands

/-! ## Keys -/

/-- The key types, erases or moves the cursor. -/
def Plain (ev : KeyEvent) : Prop := (∃ c, ev.Types c) ∨ ev.Erases ∨ ∃ dir, ev.Moves dir

/-- The key makes the edit `e` on the replica `r`. -/
inductive Makes (ev : KeyEvent) (r : Replica UInt8) : Edit UInt8 → Prop
  | type {c : UInt8} (h : ev.Types c) : Makes ev r (.type c)
  | erase (h : ev.Erases) : Makes ev r .erase
  | move {dir : Direction} {p : Pos} (h : ev.Moves dir)
      (target : Target ev r.text r.caret r.peer.row p) : Makes ev r (.move p)

section Simulation

variable {T : Prop} {app app' : App} {ev : KeyEvent} {r : Replica UInt8} {e : Edit UInt8}

/-- A plain key is an edit at the own cursor, and its packet is sent. -/
theorem dispatch_makes (h : app.editor.Models T r) (he : Editing app) (hev : Plain ev) :
    ∃ e app', Makes ev r e ∧ dispatch app ev = some app' ∧
      Edited T app app' (r.act newline e).text (r.act newline e).caret [e.message] := by
  rcases hev with ⟨c, hc⟩ | herase | ⟨dir, hdir⟩
  · obtain ⟨app', hdisp, hedited⟩ := dispatch_types h.own he hc
    exact ⟨.type c, app', .type hc, hdisp, hedited⟩
  · obtain ⟨app', hdisp, hedited⟩ := dispatch_erases h.own he herase
    exact ⟨.erase, app', .erase herase, hdisp, hedited⟩
  · obtain ⟨app', p, hdisp, htarget, hedited⟩ := dispatch_moves h.own he hdir
    rw [h.peer.row] at htarget
    exact ⟨.move p, app', .move hdir htarget, hdisp, hedited⟩

/-- After an edit the editor is the edited replica, if the peer is still in the
text. -/
theorem Edited.models (h : app.editor.Models T r)
    (hed : Edited T app app' (r.act newline e).text (r.act newline e).caret [e.message])
    (hvalid : Text.Valid (r.act newline e).text r.peer) :
    app'.editor.Models T (r.act newline e) :=
  ⟨hed.at', hed.at'.holds, hed.at'.ample, by rw [hed.remoteRow, h.peer.row]; rfl,
    by rw [hed.remoteCol, h.peer.col]; rfl, hvalid⟩

/-! ## Packets -/

theorem rowAfterInsert_eq (q : Pos) (c : UInt8) (row : Nat) :
    Editor.rowAfterInsert q c row = ((Edit.type c).shift newline q row : Nat) := by
  simp only [Editor.rowAfterInsert, Edit.shift]
  by_cases h : c = newline ∧ q.row < row
  · have : c = newline ∧ (q.row : Int) < row := ⟨h.1, by omega⟩
    rw [if_pos this, if_pos h]
    rfl
  · have : ¬ (c = newline ∧ (q.row : Int) < row) := fun hs => h ⟨hs.1, by omega⟩
    rw [if_neg this, if_neg h]

theorem rowAfterBackspace_eq (q : Pos) (row : Nat) :
    Editor.rowAfterBackspace q row = ((Edit.erase : Edit UInt8).shift newline q row : Nat) := by
  simp only [Editor.rowAfterBackspace, Edit.shift]
  by_cases h : q.col = 0 ∧ 0 < q.row ∧ q.row < row
  · have : q.col = 0 ∧ 0 < q.row ∧ (q.row : Int) < row := ⟨h.1, h.2.1, by omega⟩
    rw [if_pos this, if_pos h]
    omega
  · have : ¬ (q.col = 0 ∧ 0 < q.row ∧ (q.row : Int) < row) :=
      fun hs => h ⟨hs.1, hs.2.1, by omega⟩
    rw [if_neg this, if_neg h]

/-- The packet of an edit is the edit at the remote cursor. -/
theorem dispatchSerial_edit (h : app.editor.Models T r) (hfits : e.Fits)
    (hmove : ∀ q, e = .move q → Text.Valid r.text q) {se : SerialEvent}
    (hse : e.message.Event se) :
    ∃ app', dispatchSerial app se = some app' ∧ Received T app app' (r.recv newline e).text
      (r.recv newline e).peer (r.recv newline e).caret.row := by
  cases e with
  | type c =>
    obtain ⟨app', hdisp, hrecv⟩ := dispatchSerial_insert h.peer hse
    rw [h.own.row, rowAfterInsert_eq] at hrecv
    exact ⟨app', hdisp, hrecv⟩
  | erase =>
    obtain ⟨app', hdisp, hrecv⟩ := dispatchSerial_delete h.peer hse
    rw [h.own.row, rowAfterBackspace_eq] at hrecv
    exact ⟨app', hdisp, hrecv⟩
  | move q =>
    obtain ⟨app', hdisp, hrecv⟩ := dispatchSerial_move h.peer (hmove q rfl) hfits.1 hfits.2 hse
    simp only [h.own.row, Int.natCast_inj] at hrecv
    exact ⟨app', hdisp, hrecv⟩

/-- After a packet the editor is the replica that has replayed the edit, if its
own cursor is still in the text. -/
theorem Received.models (h : app.editor.Models T r)
    (hrecv : Received T app app' (r.recv newline e).text (r.recv newline e).peer
      (r.recv newline e).caret.row)
    (hvalid : Text.Valid (r.recv newline e).text (r.recv newline e).caret) :
    app'.editor.Models T (r.recv newline e) :=
  ⟨⟨hrecv.peer.holds, hrecv.peer.ample, hrecv.cursorRow, by rw [hrecv.cursorCol, h.own.col]; rfl,
    hvalid⟩, hrecv.peer⟩

end Simulation

end Commands

end LCode
