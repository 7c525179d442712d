import LCode.Editor.Verify.Edit

/-!
# The editor at a cursor

`Editor.At T ed t p` says that the editor holds the text `t` and that its cursor
is the position `p` of it. Each local operation is described by the document and
the position it goes to; scrolling and the dirty flags are the only other fields
that change.
-/

namespace LCode

namespace Editor

/-- `clamp_scroll` writes the scroll position and the dirty flags only. -/
theorem clampScroll_eq (ed : Editor) : ∃ scrollRow scrollCol scrollDirty selDirty,
    ed.clampScroll = { ed with scrollRow, scrollCol, scrollDirty, selDirty } := by
  have hrow : ∃ scrollRow scrollDirty, ed.clampScrollRow = { ed with scrollRow, scrollDirty } := by
    unfold clampScrollRow
    split
    · exact ⟨_, _, rfl⟩
    · split
      · exact ⟨_, _, rfl⟩
      · exact ⟨_, _, rfl⟩
  obtain ⟨scrollRow, dirty, hrow⟩ := hrow
  have hcol : ∃ scrollCol scrollDirty, ed.clampScrollRow.clampScrollCol =
      { ed with scrollRow, scrollCol, scrollDirty } := by
    rw [hrow]
    unfold clampScrollCol
    split
    · exact ⟨_, _, rfl⟩
    · split
      · exact ⟨_, _, rfl⟩
      · exact ⟨_, _, rfl⟩
  obtain ⟨scrollCol, scrollDirty, hcol⟩ := hcol
  simp only [clampScroll, hcol]
  split
  · exact ⟨_, _, _, _, rfl⟩
  · exact ⟨_, _, _, _, rfl⟩

/-- `editor_scroll_by` does not touch text, cursor and selection. -/
theorem scrollBy_eq (ed : Editor) (drow dcol : Int) : ∃ scrollRow scrollCol scrollDirty,
    ed.scrollBy drow dcol = { ed with scrollRow, scrollCol, scrollDirty } := by
  unfold scrollBy
  extract_lets
  split
  · exact ⟨_, _, _, rfl⟩
  · exact ⟨_, _, _, rfl⟩

/-- The view does not begin before the text. -/
structure Scrolled (ed : Editor) : Prop where
  row : 0 ≤ ed.scrollRow
  col : 0 ≤ ed.scrollCol

theorem Scrolled.clampScroll {ed : Editor} (h : ed.Scrolled) (hrow : 0 ≤ ed.cursorRow)
    (hcol : 0 ≤ ed.cursorCol) : ed.clampScroll.Scrolled := by
  have hrows : ed.clampScrollRow.Scrolled ∧ ed.clampScrollRow.cursorCol = ed.cursorCol := by
    have hr := h.row
    unfold clampScrollRow
    split
    · exact ⟨⟨hrow, h.col⟩, rfl⟩
    · split
      · exact ⟨⟨show 0 ≤ ed.cursorRow - ed.visibleRows + 1 by omega, h.col⟩, rfl⟩
      · exact ⟨h, rfl⟩
  have hcols : ed.clampScrollRow.clampScrollCol.Scrolled := by
    obtain ⟨⟨hr, hc⟩, heq⟩ := hrows
    unfold clampScrollCol
    split
    · exact ⟨hr, heq ▸ hcol⟩
    · split
      · exact ⟨hr, show 0 ≤ ed.clampScrollRow.cursorCol - ed.clampScrollRow.visibleCols + 1 by
          omega⟩
      · exact ⟨hr, hc⟩
  unfold Editor.clampScroll
  dsimp only
  split
  · exact ⟨hcols.row, hcols.col⟩
  · exact hcols

theorem Scrolled.scrollBy {ed : Editor} (h : ed.Scrolled) (hpos : 1 ≤ ed.doc.rowCount)
    (drow dcol : Int) : (ed.scrollBy drow dcol).Scrolled := by
  unfold Editor.scrollBy
  extract_lets newRow newCol newRow' newRow'' newCol'
  split
  · have hrow : 0 ≤ newRow'' := by
      simp only [newRow'', newRow']
      split <;> split <;> omega
    have hcol : 0 ≤ newCol' := by
      simp only [newCol']
      split <;> omega
    exact ⟨hrow, hcol⟩
  · exact h

/-- The editor after an operation that leaves `doc` and goes to `p`. -/
def goto (ed : Editor) (doc : Doc) (p : Pos) : Editor :=
  { ed with doc, cursorRow := p.row, cursorCol := p.col }.clampScroll

section Goto

variable (ed : Editor) (doc : Doc) (p : Pos)

theorem goto_eq : ∃ scrollRow scrollCol scrollDirty selDirty, ed.goto doc p =
    { ed with
      doc, cursorRow := p.row, cursorCol := p.col, scrollRow, scrollCol, scrollDirty, selDirty } :=
  clampScroll_eq _

@[simp] theorem goto_doc : (ed.goto doc p).doc = doc := by
  obtain ⟨_, _, _, _, h⟩ := goto_eq ed doc p
  rw [h]

@[simp] theorem goto_cursorRow : (ed.goto doc p).cursorRow = p.row := by
  obtain ⟨_, _, _, _, h⟩ := goto_eq ed doc p
  rw [h]

@[simp] theorem goto_cursorCol : (ed.goto doc p).cursorCol = p.col := by
  obtain ⟨_, _, _, _, h⟩ := goto_eq ed doc p
  rw [h]

@[simp] theorem goto_selActive : (ed.goto doc p).selActive = ed.selActive := by
  obtain ⟨_, _, _, _, h⟩ := goto_eq ed doc p
  rw [h]

@[simp] theorem goto_selAnchorRow : (ed.goto doc p).selAnchorRow = ed.selAnchorRow := by
  obtain ⟨_, _, _, _, h⟩ := goto_eq ed doc p
  rw [h]

@[simp] theorem goto_selAnchorCol : (ed.goto doc p).selAnchorCol = ed.selAnchorCol := by
  obtain ⟨_, _, _, _, h⟩ := goto_eq ed doc p
  rw [h]

@[simp] theorem goto_remoteCursorRow : (ed.goto doc p).remoteCursorRow = ed.remoteCursorRow := by
  obtain ⟨_, _, _, _, h⟩ := goto_eq ed doc p
  rw [h]

@[simp] theorem goto_remoteCursorCol : (ed.goto doc p).remoteCursorCol = ed.remoteCursorCol := by
  obtain ⟨_, _, _, _, h⟩ := goto_eq ed doc p
  rw [h]

@[simp] theorem goto_clipboard : (ed.goto doc p).clipboard = ed.clipboard := by
  obtain ⟨_, _, _, _, h⟩ := goto_eq ed doc p
  rw [h]

theorem Scrolled.goto {ed : Editor} (h : ed.Scrolled) (doc : Doc) (p : Pos) :
    (ed.goto doc p).Scrolled := by
  have h' : ({ ed with doc, cursorRow := p.row, cursorCol := p.col } : Editor).Scrolled :=
    ⟨h.row, h.col⟩
  exact h'.clampScroll (Int.natCast_nonneg _) (Int.natCast_nonneg _)

end Goto

/-- The editor holds the text `t`, can allocate, and stands at `p`. -/
structure At (T : Prop) (ed : Editor) (t : List (List UInt8)) (p : Pos) : Prop where
  holds : ed.doc.Holds T t
  ample : ed.doc.heap.Ample
  row : ed.cursorRow = p.row
  col : ed.cursorCol = p.col
  valid : Text.Valid t p

theorem At.goto {T : Prop} {t : List (List UInt8)} {p : Pos} {doc : Doc} (ed : Editor)
    (holds : doc.Holds T t) (ample : doc.heap.Ample) (valid : Text.Valid t p) :
    (ed.goto doc p).At T t p :=
  ⟨by simpa using holds, by simpa using ample, by simp, by simp, valid⟩

/-- Only the cursor and the view differ. -/
structure Moved (ed ed' : Editor) : Prop where
  doc : ed'.doc = ed.doc
  selActive : ed'.selActive = ed.selActive
  selAnchorRow : ed'.selAnchorRow = ed.selAnchorRow
  selAnchorCol : ed'.selAnchorCol = ed.selAnchorCol
  remoteCursorRow : ed'.remoteCursorRow = ed.remoteCursorRow
  remoteCursorCol : ed'.remoteCursorCol = ed.remoteCursorCol
  clipboard : ed'.clipboard = ed.clipboard
  scrolled : ed.Scrolled → ed'.Scrolled

theorem Moved.refl (ed : Editor) : ed.Moved ed := ⟨rfl, rfl, rfl, rfl, rfl, rfl, rfl, id⟩

theorem moved_goto (ed : Editor) (p : Pos) : ed.Moved (ed.goto ed.doc p) :=
  ⟨by simp, by simp, by simp, by simp, by simp, by simp, by simp, fun h => h.goto _ _⟩

/-- The document shows the text `t`, and the cursor is the position `p` of it. -/
structure Pointed (T : Prop) (ed : Editor) (t : List (List UInt8)) (p : Pos) : Prop where
  shows : ed.doc.Shows T t
  row : ed.cursorRow = p.row
  col : ed.cursorCol = p.col
  valid : Text.Valid t p

section Local

variable {T : Prop} {ed : Editor} {t : List (List UInt8)} {p : Pos}

theorem At.pointed (h : ed.At T t p) : ed.Pointed T t p := ⟨h.holds.shows, h.row, h.col, h.valid⟩

theorem Pointed.goto (h : ed.Pointed T t p) {q : Pos} (hq : Text.Valid t q) :
    (ed.goto ed.doc q).Pointed T t q :=
  ⟨by simpa using h.shows, by simp, by simp, hq⟩

theorem Pointed.rowCount_eq (h : ed.Pointed T t p) : ed.doc.rowCount = t.length :=
  h.shows.rowCount_eq

theorem Pointed.goto_self (h : ed.Pointed T t p) : ed.goto ed.doc p = ed.clampScroll := by
  rw [Editor.goto, ← h.row, ← h.col]

theorem At.rowCount_eq (h : ed.At T t p) : ed.doc.rowCount = t.length := h.holds.rowCount_eq

theorem At.goto_self (h : ed.At T t p) : ed.goto ed.doc p = ed.clampScroll := by
  rw [Editor.goto, ← h.row, ← h.col]

/-- `editor_insert_char`. -/
theorem At.insertChar (h : ed.At T t p) (c : UInt8) :
    ∃ doc, ed.insertChar c = some (.ok, ed.goto doc (Text.afterInsert newline p c)) ∧
      (ed.goto doc (Text.afterInsert newline p c)).At T (Text.insert newline t p c)
        (Text.afterInsert newline p c) := by
  have hvalid := h.valid.insert newline c
  obtain ⟨holds, ample, hrow, hcol, valid⟩ := h
  obtain ⟨a, u, v, z, rfl, hr, hc⟩ := valid.split
  by_cases hn : c = newline
  · subst hn
    obtain ⟨doc, hsplit, hdoc, ample'⟩ := holds.splitLine ample (r := p.row) (k := p.col)
      (by omega) (by omega)
    rw [Text.afterInsert_nl] at hvalid ⊢
    refine ⟨doc, ?_, .goto ed (by rwa [Text.insert_nl hr hc]) ample' hvalid⟩
    simp [Editor.insertChar, hsplit, Editor.goto, hrow, hcol]
  · obtain ⟨doc, hins, hdoc, ample'⟩ := holds.insertInLine ample (r := p.row)
      (k := p.col) (by omega) (by omega) c
    rw [Text.afterInsert_char _ _ hn] at hvalid ⊢
    refine ⟨doc, ?_, .goto ed (by rwa [Text.insert_char hr hc hn]) ample' hvalid⟩
    simp [Editor.insertChar, hn, hins, Editor.goto, hrow, hcol]

/-- `editor_delete_char`. -/
theorem At.deleteChar (h : ed.At T t p) :
    ∃ doc, ed.deleteChar = some (.ok, ed.goto doc (Text.afterBackspace t p)) ∧
      (ed.goto doc (Text.afterBackspace t p)).At T (Text.backspace t p)
        (Text.afterBackspace t p) := by
  have hvalid := h.valid.backspace
  have ⟨holds, ample, hrow, hcol, valid⟩ := h
  by_cases h0 : 0 < p.col
  · obtain ⟨a, u, c, v, z, rfl, hr, hc⟩ := valid.split_pred h0
    obtain ⟨doc, hdel, hdoc, ample'⟩ := holds.deleteInLine ample (r := p.row)
      (k := (p.col : Int) - 1) (by omega) (by omega)
    refine ⟨doc, ?_, .goto ed (by rwa [Text.backspace_char hr hc]) ample' hvalid⟩
    have hpred : ((p.col - 1 : Nat) : Int) = (p.col : Int) - 1 := by omega
    simp [Editor.deleteChar, hrow, hcol, h0, hdel, hpred, Editor.goto, Text.afterBackspace]
  · by_cases h1 : 0 < p.row
    · obtain ⟨a, x, y, z, rfl, hr⟩ := valid.split_row h1
      obtain ⟨doc, hjoin, hdoc, ample'⟩ := holds.joinLine ample (r := p.row) (by omega)
      obtain ⟨prev, hprev, hx⟩ := Doc.Rows.line_eq (r := (p.row : Int) - 1) holds (by omega)
      refine ⟨doc, ?_, .goto ed (by rwa [Text.backspace_join hr (by omega)]) ample' hvalid⟩
      have hpred : ((p.row - 1 : Nat) : Int) = (p.row : Int) - 1 := by omega
      have hx' : Text.row (a ++ x :: y :: z) (p.row - 1) = x := Text.row_append (by omega)
      simp [Editor.deleteChar, hrow, hcol, h0, h1, hpred, hprev, hjoin, hx.len_eq, Editor.goto,
        Text.afterBackspace, hx']
    · have hp : Text.afterBackspace t p = p := by simp [Text.afterBackspace, h0, h1]
      have ht : Text.backspace t p = t := by simp [Text.backspace, h0, h1]
      rw [hp, ht] at hvalid ⊢
      refine ⟨ed.doc, ?_, .goto ed holds ample hvalid⟩
      rw [h.goto_self]
      simp [Editor.deleteChar, h.row, h.col, h0, h1]

/-! ## Cursor moves -/

theorem At.of_valid (h : ed.At T t p) {q : Pos} (hq : Text.Valid t q) :
    (ed.goto ed.doc q).At T t q :=
  .goto ed h.holds h.ample hq

/-- The length of a row of the text, as `editor_get_line_len` counts it. -/
theorem getLineLen_row (h : ed.doc.Shows T t) (k : Nat) :
    ed.getLineLen k = some ((Text.row t k).length : Int) := by
  have hcount := h.rowCount_eq
  unfold Editor.getLineLen
  by_cases hk : k < t.length
  · obtain ⟨ln, hln, hx⟩ := h.line_row hk
    rw [if_neg (by omega), hln]
    simp [hx.len_eq]
  · rw [if_pos (by omega), Text.row_beyond (Nat.not_lt.1 hk)]
    rfl

theorem Pointed.moveLeft (h : ed.Pointed T t p) :
    ed.moveLeft = some (ed.goto ed.doc (Text.left t p)) := by
  unfold Editor.moveLeft Text.left
  rw [h.row, h.col]
  by_cases h0 : 0 < p.col
  · have hpred : ((p.col - 1 : Nat) : Int) = (p.col : Int) - 1 := by omega
    simp [h0, Editor.goto, hpred]
  · by_cases h1 : 0 < p.row
    · obtain ⟨ln, hln, hx⟩ := h.shows.line_row (r := p.row - 1)
        (Nat.lt_of_le_of_lt (Nat.sub_le _ _) h.valid.1)
      have hpred : ((p.row - 1 : Nat) : Int) = (p.row : Int) - 1 := by omega
      rw [hpred] at hln
      simp [h0, h1, Editor.goto, hpred, hln, hx.len_eq]
    · simp [h0, h1, h.goto_self]

theorem Pointed.moveRight (h : ed.Pointed T t p) :
    ed.moveRight = some (ed.goto ed.doc (Text.right t p)) := by
  obtain ⟨ln, hln, hx⟩ := h.shows.line_row h.valid.1
  unfold Editor.moveRight Text.right
  rw [h.row, h.col, h.rowCount_eq, hln]
  simp only [Option.bind_eq_bind, Option.bind_some, hx.len_eq, Option.pure_def]
  by_cases h0 : p.col < (Text.row t p.row).length
  · simp [h0, Editor.goto]
  · by_cases h1 : p.row + 1 < t.length
    · have hlt : (p.row : Int) < (t.length : Int) - 1 := by omega
      simp [h0, h1, hlt, Editor.goto]
    · have hlt : ¬ (p.row : Int) < (t.length : Int) - 1 := by omega
      simp [h0, h1, hlt, h.goto_self]

theorem Pointed.enterRow (h : ed.Pointed T t p) {r : Nat} (hr : r < t.length) :
    ed.enterRow r = some (ed.goto ed.doc (Text.enter t p r)) := by
  obtain ⟨ln, hln, hx⟩ := h.shows.line_row hr
  unfold Editor.enterRow Text.enter
  rw [hln, h.col]
  simp only [Option.bind_eq_bind, Option.bind_some, hx.len_eq, Option.pure_def, Editor.goto]
  by_cases hlt : (Text.row t r).length < p.col
  · simp [hlt]
  · simp [hlt]

/-- Up: the row of the remote cursor is not entered. -/
theorem Pointed.moveUp (h : ed.Pointed T t p) :
    ed.moveUp = some (
      if 0 < p.row then
        if ed.remoteCursorRow + 1 = p.row then ed
        else ed.goto ed.doc (Text.enter t p (p.row - 1))
      else ed.goto ed.doc p) := by
  unfold Editor.moveUp
  rw [h.row]
  by_cases h1 : 0 < p.row
  · have hpred : ((p.row - 1 : Nat) : Int) = (p.row : Int) - 1 := by omega
    have henter := h.enterRow (Nat.lt_of_le_of_lt (Nat.sub_le p.row 1) h.valid.1)
    rw [hpred] at henter
    by_cases hrem : ed.remoteCursorRow + 1 = p.row
    · have : (p.row : Int) - 1 = ed.remoteCursorRow := by omega
      simp [h1, hrem, this]
    · have : ¬ (p.row : Int) - 1 = ed.remoteCursorRow := by omega
      simp [h1, hrem, henter, this]
  · simp [h1, h.goto_self]

/-- Down: the row of the remote cursor is not entered. -/
theorem Pointed.moveDown (h : ed.Pointed T t p) :
    ed.moveDown = some (
      if p.row + 1 < t.length then
        if ed.remoteCursorRow = p.row + 1 then ed
        else ed.goto ed.doc (Text.enter t p (p.row + 1))
      else ed.goto ed.doc p) := by
  unfold Editor.moveDown
  rw [h.row, h.rowCount_eq]
  by_cases h1 : p.row + 1 < t.length
  · have hlt : (p.row : Int) < (t.length : Int) - 1 := by omega
    have hsucc : (p.row : Int) + 1 = ((p.row + 1 : Nat) : Int) := by omega
    rw [hsucc, h.enterRow h1]
    by_cases hrem : ed.remoteCursorRow = ((p.row + 1 : Nat) : Int)
    · simp [h1, hlt, hrem]
    · have : ¬ ((p.row + 1 : Nat) : Int) = ed.remoteCursorRow := fun he => hrem he.symm
      simp only [h1, hlt, hrem, this, if_true, if_false]
  · have hlt : ¬ (p.row : Int) < (t.length : Int) - 1 := by omega
    simp [h1, hlt, h.goto_self]

theorem Pointed.moveHome (h : ed.Pointed T t p) : ed.moveHome = ed.goto ed.doc ⟨p.row, 0⟩ := by
  simp [Editor.moveHome, Editor.goto, h.row]

theorem Pointed.moveEnd (h : ed.Pointed T t p) :
    ed.moveEnd = some (ed.goto ed.doc ⟨p.row, (Text.row t p.row).length⟩) := by
  obtain ⟨ln, hln, hx⟩ := h.shows.line_row h.valid.1
  simp [Editor.moveEnd, Editor.goto, h.row, hln, hx.len_eq]

/-- A click: the row of the remote cursor is not entered. -/
theorem Pointed.setCursor (h : ed.Pointed T t p) {q : Pos} (hq : Text.Valid t q) :
    ed.setCursor q.row q.col =
      some (if ed.remoteCursorRow = q.row then ed else ed.goto ed.doc q) := by
  obtain ⟨ln, hln, hx⟩ := h.shows.line_row hq.1
  have hcol := hq.2
  unfold Editor.setCursor
  split
  · rfl
  · have h1 : ¬ (q.row : Int) < 0 := by omega
    have h2 : ¬ (t.length : Int) ≤ q.row := by have := hq.1; omega
    have h3 : ¬ (q.col : Int) < 0 := by omega
    have h4 : ¬ ((Text.row t q.row).length : Int) < q.col := by omega
    simp only [h.rowCount_eq, h1, h2, h3, h4, if_false, hln, Option.bind_eq_bind,
      Option.bind_some, hx.len_eq, Option.pure_def, Editor.goto]

end Local

end Editor

end LCode
