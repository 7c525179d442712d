import LCode.Editor.Verify.Cursor
import LCode.Editor.Verify.Transfer

/-!
# The editor at the remote cursor

The operations the peer's packets run. With the remote cursor a position `q` of
the text they are the edits of `Cursor` at `q`; the local cursor follows its row
when rows above it are split or joined.
-/

namespace LCode

namespace Editor

/-- The editor after a remote operation that leaves `doc`, takes the remote
cursor to `q` and the local one to row `row`. -/
def remoteGoto (ed : Editor) (doc : Doc) (q : Pos) (row : Int) : Editor :=
  { ed with
    doc, remoteCursorRow := q.row, remoteCursorCol := q.col, cursorRow := row }.clampScroll

section RemoteGoto

variable (ed : Editor) (doc : Doc) (q : Pos) (row : Int)

theorem remoteGoto_eq : ∃ scrollRow scrollCol scrollDirty selDirty, ed.remoteGoto doc q row =
    { ed with
      doc, remoteCursorRow := q.row, remoteCursorCol := q.col, cursorRow := row, scrollRow,
      scrollCol, scrollDirty, selDirty } :=
  clampScroll_eq _

@[simp] theorem remoteGoto_doc : (ed.remoteGoto doc q row).doc = doc := by
  obtain ⟨_, _, _, _, h⟩ := remoteGoto_eq ed doc q row
  rw [h]

@[simp] theorem remoteGoto_cursorRow : (ed.remoteGoto doc q row).cursorRow = row := by
  obtain ⟨_, _, _, _, h⟩ := remoteGoto_eq ed doc q row
  rw [h]

@[simp] theorem remoteGoto_cursorCol : (ed.remoteGoto doc q row).cursorCol = ed.cursorCol := by
  obtain ⟨_, _, _, _, h⟩ := remoteGoto_eq ed doc q row
  rw [h]

@[simp] theorem remoteGoto_remoteCursorRow :
    (ed.remoteGoto doc q row).remoteCursorRow = q.row := by
  obtain ⟨_, _, _, _, h⟩ := remoteGoto_eq ed doc q row
  rw [h]

@[simp] theorem remoteGoto_remoteCursorCol :
    (ed.remoteGoto doc q row).remoteCursorCol = q.col := by
  obtain ⟨_, _, _, _, h⟩ := remoteGoto_eq ed doc q row
  rw [h]

@[simp] theorem remoteGoto_selActive : (ed.remoteGoto doc q row).selActive = ed.selActive := by
  obtain ⟨_, _, _, _, h⟩ := remoteGoto_eq ed doc q row
  rw [h]

end RemoteGoto

/-- The editor holds the text `t`, can allocate, and knows the peer at `q`. -/
structure PeerAt (T : Prop) (ed : Editor) (t : List (List UInt8)) (q : Pos) : Prop where
  holds : ed.doc.Holds T t
  ample : ed.doc.heap.Ample
  row : ed.remoteCursorRow = q.row
  col : ed.remoteCursorCol = q.col
  valid : Text.Valid t q

theorem PeerAt.remoteGoto {T : Prop} {t : List (List UInt8)} {q : Pos} {doc : Doc} (ed : Editor)
    (row : Int) (holds : doc.Holds T t) (ample : doc.heap.Ample) (valid : Text.Valid t q) :
    (ed.remoteGoto doc q row).PeerAt T t q :=
  ⟨by simpa using holds, by simpa using ample, by simp, by simp, valid⟩

section Remote

variable {T : Prop} {ed : Editor} {t : List (List UInt8)} {q : Pos}

/-- The row of the local cursor after the peer has typed `c` at `q`. -/
def rowAfterInsert (q : Pos) (c : UInt8) (row : Int) : Int :=
  if c = newline ∧ (q.row : Int) < row then row + 1 else row

/-- The row of the local cursor after the peer has deleted at `q`. -/
def rowAfterBackspace (q : Pos) (row : Int) : Int :=
  if q.col = 0 ∧ 0 < q.row ∧ (q.row : Int) < row then row - 1 else row

/-- `editor_remote_insert_char`. -/
theorem PeerAt.remoteInsertChar (h : ed.PeerAt T t q) (c : UInt8) :
    ∃ doc, ed.remoteInsertChar c = some (.ok, ed.remoteGoto doc (Text.afterInsert newline q c)
        (rowAfterInsert q c ed.cursorRow)) ∧
      (ed.remoteGoto doc (Text.afterInsert newline q c)
        (rowAfterInsert q c ed.cursorRow)).PeerAt T (Text.insert newline t q c)
          (Text.afterInsert newline q c) := by
  have hvalid := h.valid.insert newline c
  obtain ⟨holds, ample, hrow, hcol, valid⟩ := h
  obtain ⟨a, u, v, z, rfl, hr, hc⟩ := valid.split
  by_cases hn : c = newline
  · subst hn
    obtain ⟨doc, hsplit, hdoc, ample'⟩ := holds.splitLine ample (r := q.row) (k := q.col)
      (by omega) (by omega)
    rw [Text.afterInsert_nl] at hvalid ⊢
    refine ⟨doc, ?_, .remoteGoto ed _ (by rwa [Text.insert_nl hr hc]) ample' hvalid⟩
    simp [Editor.remoteInsertChar, hsplit, Editor.remoteGoto, hrow, hcol, rowAfterInsert]
  · obtain ⟨doc, hins, hdoc, ample'⟩ := holds.insertInLine ample (r := q.row)
      (k := q.col) (by omega) (by omega) c
    rw [Text.afterInsert_char _ _ hn] at hvalid ⊢
    refine ⟨doc, ?_, .remoteGoto ed _ (by rwa [Text.insert_char hr hc hn]) ample' hvalid⟩
    simp [Editor.remoteInsertChar, hn, hins, Editor.remoteGoto, hrow, hcol, rowAfterInsert]

/-- `editor_remote_delete_char`. -/
theorem PeerAt.remoteDeleteChar (h : ed.PeerAt T t q) :
    ∃ doc, ed.remoteDeleteChar = some (.ok, ed.remoteGoto doc (Text.afterBackspace t q)
        (rowAfterBackspace q ed.cursorRow)) ∧
      (ed.remoteGoto doc (Text.afterBackspace t q)
        (rowAfterBackspace q ed.cursorRow)).PeerAt T (Text.backspace t q)
          (Text.afterBackspace t q) := by
  have hvalid := h.valid.backspace
  have ⟨holds, ample, hrow, hcol, valid⟩ := h
  by_cases h0 : 0 < q.col
  · obtain ⟨a, u, c, v, z, rfl, hr, hc⟩ := valid.split_pred h0
    obtain ⟨doc, hdel, hdoc, ample'⟩ := holds.deleteInLine ample (r := q.row)
      (k := (q.col : Int) - 1) (by omega) (by omega)
    refine ⟨doc, ?_, .remoteGoto ed _ (by rwa [Text.backspace_char hr hc]) ample' hvalid⟩
    have hpred : ((q.col - 1 : Nat) : Int) = (q.col : Int) - 1 := by omega
    have hcol0 : ¬ q.col = 0 := by omega
    simp [Editor.remoteDeleteChar, hrow, hcol, h0, hcol0, hdel, hpred, Editor.remoteGoto,
      Text.afterBackspace, rowAfterBackspace]
  · have hcol0 : q.col = 0 := by omega
    by_cases h1 : 0 < q.row
    · obtain ⟨a, x, y, z, rfl, hr⟩ := valid.split_row h1
      obtain ⟨doc, hjoin, hdoc, ample'⟩ := holds.joinLine ample (r := q.row) (by omega)
      obtain ⟨prev, hprev, hx⟩ := Doc.Rows.line_eq (r := (q.row : Int) - 1) holds (by omega)
      refine ⟨doc, ?_, .remoteGoto ed _ (by rwa [Text.backspace_join hr (by omega)]) ample'
        hvalid⟩
      have hpred : ((q.row - 1 : Nat) : Int) = (q.row : Int) - 1 := by omega
      have hx' : Text.row (a ++ x :: y :: z) (q.row - 1) = x := Text.row_append (by omega)
      simp [Editor.remoteDeleteChar, hrow, hcol, hcol0, h1, hpred, hprev, hjoin, hx.len_eq,
        Editor.remoteGoto, Text.afterBackspace, rowAfterBackspace, hx']
    · have hq : Text.afterBackspace t q = q := by simp [Text.afterBackspace, h0, h1]
      have ht : Text.backspace t q = t := by simp [Text.backspace, h0, h1]
      rw [hq, ht] at hvalid ⊢
      refine ⟨ed.doc, ?_, .remoteGoto ed _ holds ample hvalid⟩
      have hsame : ed.remoteGoto ed.doc q ed.cursorRow = ed.clampScroll := by
        rw [Editor.remoteGoto, ← hrow, ← hcol]
      simp [Editor.remoteDeleteChar, hrow, hcol, hcol0, h1, rowAfterBackspace, hsame]

/-! ## Blocks -/

/-- A block out of range is ignored. -/
theorem remoteReplaceBlock_out {startRow deleted inserted : Int}
    (h : startRow < 0 ∨ ed.doc.rowCount < startRow) :
    ed.remoteReplaceBlock startRow deleted inserted = some (.ok, ed) := by
  simp [Editor.remoteReplaceBlock, h]

/-- `editor_remote_replace_block` in range, with room in the array. -/
theorem remoteReplaceBlock_grows {β : Type} {R : Line → β → Prop} {a m z new : List β}
    {i deleted inserted : Int} (holds : ed.doc.Rows R (a ++ m ++ z))
    (hgrows : 0 < inserted - m.length → ed.doc.Grows (ed.doc.rowCount + (inserted - m.length)))
    (hlive : ∀ ln y, R ln y → ln.buf ≠ .dangling) (hfresh : ∀ y ∈ new, R Line.zero y)
    (hr : i = a.length) (hm : ed.doc.actualDeleted i deleted = m.length)
    (hk : inserted = new.length) :
    ∃ doc, ed.remoteReplaceBlock i deleted inserted = some (.ok, { ed with
          doc
          cursorRow := if i + m.length ≤ ed.cursorRow then
              ed.cursorRow + (inserted - m.length)
            else ed.cursorRow }.clampScroll) ∧
      doc.Rows R (a ++ new ++ z) ∧ (ed.doc.heap.Ample → doc.heap.Ample) := by
  obtain ⟨doc, hrep, hdoc, ample'⟩ := holds.replaceBlock_grows hgrows hlive hfresh hr hm hk
  have hcount : ed.doc.rowCount = (a ++ m ++ z).length := holds.rowCount_eq
  have hin : ¬ (i < 0 ∨ ed.doc.rowCount < i) := by
    simp only [List.length_append] at hcount
    omega
  exact ⟨doc, by simp only [Editor.remoteReplaceBlock, hin, if_false, hrep, hm,
    Option.bind_eq_bind, Option.bind_some, ne_eq, not_true_eq_false, Option.pure_def], hdoc, ample'⟩

/-- `editor_remote_replace_block` in range. -/
theorem remoteReplaceBlock_rows {β : Type} {R : Line → β → Prop} {a m z new : List β}
    {i deleted inserted : Int} (holds : ed.doc.Rows R (a ++ m ++ z)) (ample : ed.doc.heap.Ample)
    (hlive : ∀ ln y, R ln y → ln.buf ≠ .dangling) (hfresh : ∀ y ∈ new, R Line.zero y)
    (hr : i = a.length) (hm : ed.doc.actualDeleted i deleted = m.length)
    (hk : inserted = new.length) :
    ∃ doc, ed.remoteReplaceBlock i deleted inserted = some (.ok, { ed with
          doc
          cursorRow := if i + m.length ≤ ed.cursorRow then
              ed.cursorRow + (inserted - m.length)
            else ed.cursorRow }.clampScroll) ∧
      doc.Rows R (a ++ new ++ z) ∧ doc.heap.Ample := by
  obtain ⟨doc, hrep, hdoc, ample'⟩ := remoteReplaceBlock_grows holds
    (fun _ => Doc.grows_of_ample ample _) hlive hfresh hr hm hk
  exact ⟨doc, hrep, hdoc, ample' ample⟩

/-- A row out of range is ignored. -/
theorem remoteUpdateLine_out {row len : Int} {text : List UInt8}
    (h : row < 0 ∨ ed.doc.rowCount ≤ row) :
    ed.remoteUpdateLine row text len = some (.ok, ed) := by
  simp [Editor.remoteUpdateLine, h]

/-- `editor_remote_update_line` in range. -/
theorem remoteUpdateLine_rows {β : Type} {R : Line → β → Prop} {a z : List β} {x x' : β}
    {y text : List UInt8} {r len : Int} (holds : ed.doc.Rows R (a ++ x :: z))
    (ample : ed.doc.heap.Ample) (hx : ∀ ln, R ln x → ∃ w, ln.Shows False w)
    (hx' : ∀ ln : Line, ln.Holds True y → R ln x') (hr : r = a.length) (hlen : len = y.length)
    (htext : Block.slice text 0 len = some y) :
    ∃ doc, ed.remoteUpdateLine r text len = some (.ok, { ed with doc }.clampScroll) ∧
      doc.Rows R (a ++ x' :: z) ∧ doc.heap.Ample := by
  obtain ⟨doc, hupd, hdoc, ample'⟩ := holds.updateLine ample hx hx' hr hlen htext
  have hcount : ed.doc.rowCount = (a ++ x :: z).length := holds.rowCount_eq
  have hin : ¬ (r < 0 ∨ ed.doc.rowCount ≤ r) := by
    simp only [List.length_append, List.length_cons] at hcount
    omega
  exact ⟨doc, by simp only [Editor.remoteUpdateLine, hin, if_false, hupd, Option.bind_eq_bind,
    Option.bind_some, ne_eq, not_true_eq_false, Option.pure_def], hdoc, ample'⟩

end Remote

end Editor

end LCode
