import LCode.Commands.Basic
import LCode.Editor.Verify.Cursor
import LCode.Serial.Verify.Encoder

/-!
# What is sent

The messages that tell the peer of the cursor, of rows, of a block of rows and of
the whole document. A row of any number can be sent: outside the document it is
empty, so no sender reads outside a buffer.
-/

namespace LCode

open Serial

/-! ## Rows -/

/-- The row `row`, empty outside the text. -/
def Text.rowAt (t : List (List UInt8)) (row : Int) : List UInt8 :=
  if row < 0 then [] else Text.row t row.toNat

theorem Text.rowAt_natCast (t : List (List UInt8)) (k : Nat) : Text.rowAt t k = Text.row t k := by
  have : ¬ (k : Int) < 0 := by omega
  rw [Text.rowAt, if_neg this, Int.toNat_natCast]

section Rows

variable {T : Prop} {ed : Editor} {t : List (List UInt8)}

/-- `editor_get_line` and `editor_get_line_len` show a row. -/
theorem Editor.getLine_eq (h : ed.doc.Shows T t) (row : Int) :
    ∃ buf, ed.getLine row = some buf ∧
      ed.getLineLen row = some ((Text.rowAt t row).length : Int) ∧
      ∀ n : Nat, n ≤ (Text.rowAt t row).length →
        buf.slice 0 n = some ((Text.rowAt t row).take n) := by
  have hcount := h.rowCount_eq
  unfold Editor.getLine Editor.getLineLen
  split
  · next hout =>
    have hrow : Text.rowAt t row = [] := by
      unfold Text.rowAt
      split
      · rfl
      · simp only [Text.row, List.getD]
        rw [List.getElem?_eq_none (by omega)]
        rfl
    refine ⟨.block [0], rfl, by simp [hrow], ?_⟩
    intro n hn
    rw [hrow, List.length_nil, Nat.le_zero] at hn
    rw [hn, hrow]
    rfl
  · next hin =>
    obtain ⟨r, rfl⟩ := Int.eq_ofNat_of_zero_le (show 0 ≤ row by omega)
    obtain ⟨ln, hln, hx⟩ := h.line_row (r := r) (by omega)
    rw [Text.rowAt_natCast, hln]
    refine ⟨ln.buf, rfl, by simp [hx.len_eq], ?_⟩
    intro n hn
    rcases hx with ⟨y, rest, hbuf, -⟩ | ⟨-, hnil⟩
    · rw [hbuf]
      refine Buf.slice_prefix (z := (Text.row t r).drop n ++ y :: rest) ?_
        (by rw [List.length_take]; omega)
      rw [← List.append_assoc, List.take_append_drop]
    · rw [hnil, List.length_nil, Nat.le_zero] at hn
      rw [hn, hnil]
      rfl

end Rows

namespace Commands

/-! ## Messages -/

/-- The payload of CMD_MOVE_CURSOR. -/
def position (p : Pos) : List UInt8 := [hiByte p.row, loByte p.row, hiByte p.col, loByte p.col]

def moveMessage (p : Pos) : Message := ⟨.moveCursor, position p⟩

/-- CMD_UPDATE_LINE for row number `row` with the text `x`. -/
def updateMessage (row : Int) (x : List UInt8) : Message :=
  ⟨.updateLine, hiByte row :: loByte row :: x.take 250⟩

def replaceMessage (start deleted inserted : Int) : Message :=
  ⟨.replaceBlock, [hiByte start, loByte start, hiByte deleted, loByte deleted, hiByte inserted,
    loByte inserted]⟩

def fileLineMessage (x : List UInt8) : Message := ⟨.fileLine, x.take 252⟩

def fileStartMessage (name : List UInt8) (rows : Int) : Message :=
  ⟨.fileStart, hiByte rows :: loByte rows :: name.take 250⟩

/-- `n` rows from number `row` on. -/
def updateMessages (t : List (List UInt8)) (row : Int) : Nat → List Message
  | 0 => []
  | n + 1 => updateMessage row (Text.rowAt t row) :: updateMessages t (row + 1) n

/-- The messages of `sync_block`, for the text and the cursor after the edit. -/
def blockMessages (t : List (List UInt8)) (p : Pos) (start : Int) (deleted inserted : Nat) :
    List Message :=
  (if deleted = 1 ∧ inserted = 1 then [updateMessage start (Text.rowAt t start)]
    else replaceMessage start deleted inserted :: updateMessages t start inserted) ++
    [moveMessage p]

/-- The messages of `execute_sync`. -/
def fileMessages (name : List UInt8) (t : List (List UInt8)) (p : Pos) : List Message :=
  fileStartMessage name t.length :: t.map fileLineMessage ++ [moveMessage p]

/-! ## Senders -/

section Senders

variable {T : Prop} {a : App} {t : List (List UInt8)} {p : Pos}

/-- The process has sent the messages. -/
def tell (a : App) (ms : List Message) : App := { a with sent := a.sent ++ stream ms }

@[simp] theorem tell_editor (a : App) (ms : List Message) :
    (tell a ms).editor = a.editor := rfl

theorem tell_nil (a : App) : tell a [] = a := by
  simp [tell, stream]

theorem tell_tell (a : App) (ms ns : List Message) :
    tell (tell a ms) ns = tell a (ms ++ ns) := by
  simp [tell, stream_append]

theorem sendPacket_eq {m : Message} {payload : Buf} {len numLines : Int}
    (h : buildPacketSerial m.cmd payload len numLines = some m.bytes) :
    sendPacket a m.cmd payload len numLines = some (tell a [m]) := by
  simp [sendPacket, h, tell, stream]

theorem sendCursor_eq (h : a.editor.At T t p) :
    sendCursor a = some (tell a [moveMessage p]) := by
  refine sendPacket_eq (m := moveMessage p) ?_
  rw [h.row, h.col]
  rfl

/-- A clamped length, as a count of characters. -/
theorem take_clamp {x : List UInt8} {b : Buf} {k : Nat} {c : Int} (hc : c = k)
    (h : ∀ n : Nat, n ≤ x.length → b.slice 0 n = some (x.take n)) :
    b.slice 0 (clampLen c x.length) = some (x.take k) := by
  rw [Call.clampLen_eq, hc]
  have hmin : min (x.length : Int) k = (min x.length k : Nat) := by omega
  rw [hmin, h _ (Nat.min_le_left _ _)]
  rcases Nat.le_total x.length k with hle | hle
  · rw [Nat.min_eq_left hle, List.take_length, List.take_of_length_le hle]
  · rw [Nat.min_eq_right hle]

theorem sendRow_update (h : a.editor.doc.Shows T t) (row : Int) :
    sendRow a .updateLine row row = some (tell a [updateMessage row (Text.rowAt t row)]) := by
  obtain ⟨buf, hline, hlen, hslice⟩ := Editor.getLine_eq h row
  have hclamp := take_clamp (c := 250) (k := 250) rfl hslice
  simp only [sendRow, hline, hlen, Option.bind_eq_bind, Option.bind_some]
  refine sendPacket_eq (m := updateMessage row (Text.rowAt t row)) ?_
  simp only [updateMessage, buildPacketSerial, Message.bytes]
  rw [hclamp]
  rfl

theorem sendRow_fileLine (h : a.editor.doc.Shows T t) (row : Int) :
    sendRow a .fileLine row 0 = some (tell a [fileLineMessage (Text.rowAt t row)]) := by
  obtain ⟨buf, hline, hlen, hslice⟩ := Editor.getLine_eq h row
  have hclamp := take_clamp (c := 252) (k := 252) rfl hslice
  simp only [sendRow, hline, hlen, Option.bind_eq_bind, Option.bind_some]
  refine sendPacket_eq (m := fileLineMessage (Text.rowAt t row)) ?_
  simp only [fileLineMessage, buildPacketSerial, Message.bytes]
  rw [hclamp]
  rfl

theorem sendUpdateLines_eq (h : a.editor.doc.Shows T t) (row : Int) (n : Nat) :
    sendUpdateLines a row n = some (tell a (updateMessages t row n)) := by
  induction n generalizing a row with
  | zero => rw [sendUpdateLines, updateMessages, tell_nil]
  | succ n ih =>
    simp only [sendUpdateLines, sendRow_update h, Option.bind_eq_bind, Option.bind_some]
    rw [ih (by exact h), tell_tell]
    rfl

/-- `sync_block`. -/
theorem syncBlock_eq (h : a.editor.At T t p) (hr : a.remote = true) (start : Int)
    (deleted inserted : Nat) :
    syncBlock a start deleted inserted =
      some (tell a (blockMessages t p start deleted inserted)) := by
  have hshows := h.holds.shows
  have hcursor (ms : List Message) :
      sendCursor (tell a ms) = some (tell a (ms ++ [moveMessage p])) := by
    rw [sendCursor_eq (a := tell a ms) h, tell_tell]
  have hreplace : sendPacket a .replaceBlock (blockPayload start deleted inserted) 6 0 =
      some (tell a [replaceMessage start deleted inserted]) :=
    sendPacket_eq (m := replaceMessage start deleted inserted) rfl
  have hupdates := sendUpdateLines_eq (a := tell a [replaceMessage start deleted inserted])
    hshows start inserted
  simp only [syncBlock, hr, Bool.not_true, Bool.false_eq_true, if_false, Option.bind_eq_bind,
    blockMessages]
  by_cases hone : deleted = 1 ∧ inserted = 1
  · have hone' : (deleted : Int) = 1 ∧ (inserted : Int) = 1 := by omega
    rw [if_pos hone', if_pos hone, sendRow_update hshows, Option.bind_some, hcursor]
  · have hone' : ¬ ((deleted : Int) = 1 ∧ (inserted : Int) = 1) := by omega
    rw [if_neg hone', if_neg hone, hreplace, Option.bind_some, Int.toNat_natCast, hupdates,
      tell_tell, Option.bind_some, hcursor]
    rfl

theorem sendFileLines_eq {y z : List (List UInt8)} (h : a.editor.doc.Shows T (y ++ z))
    {r : Int} (hrow : r = y.length) :
    sendFileLines a r z.length = some (tell a (z.map fileLineMessage)) := by
  induction z generalizing a y r with
  | nil => rw [List.length_nil, sendFileLines, List.map_nil, tell_nil]
  | cons x z ih =>
    have hx : Text.rowAt (y ++ x :: z) r = x := by
      rw [hrow, Text.rowAt_natCast, Text.row_append rfl]
    have hstep := sendRow_fileLine h r
    rw [hx] at hstep
    simp only [List.length_cons, sendFileLines, hstep, Option.bind_eq_bind, Option.bind_some]
    rw [ih (a := tell a [fileLineMessage x]) (y := y ++ [x]) (by simpa using h)
      (by simp [hrow]), tell_tell]
    rfl

/-- `execute_sync`. -/
theorem executeSync_eq (h : a.editor.At T t p) :
    executeSync a = some (tell a (fileMessages a.bar.filename t p)) := by
  have hshows := h.holds.shows
  have hstart : sendPacket a .fileStart (.block (a.bar.filename ++ [0]))
      a.bar.filename.length t.length = some (tell a
        [fileStartMessage a.bar.filename t.length]) := by
    refine sendPacket_eq (m := fileStartMessage a.bar.filename t.length) ?_
    have hclamp := take_clamp (x := a.bar.filename) (b := .block (a.bar.filename ++ [0]))
      (c := 250) (k := 250) rfl fun n hn => by
        refine Buf.slice_prefix (z := a.bar.filename.drop n ++ [0]) ?_
          (by rw [List.length_take]; omega)
        rw [← List.append_assoc, List.take_append_drop]
    simp only [fileStartMessage, buildPacketSerial, Message.bytes]
    rw [hclamp]
    rfl
  have hlines := sendFileLines_eq
    (a := tell a [fileStartMessage a.bar.filename t.length]) (y := []) (z := t)
    (r := 0) hshows rfl
  have hcursor := sendCursor_eq (a := tell a
    (fileStartMessage a.bar.filename t.length :: t.map fileLineMessage)) h
  rw [tell_tell] at hlines hcursor
  simp only [executeSync, h.rowCount_eq, hstart, Option.bind_eq_bind, Option.bind_some,
    Int.toNat_natCast, hlines]
  exact hcursor

end Senders

end Commands

end LCode
