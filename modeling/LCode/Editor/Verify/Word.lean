import LCode.Editor.Verify.Atomic
import LCode.Editor.Verify.Selection

/-!
# Deleting a word

`editor_delete_word` and `editor_move_word_left` scan with loops of their own, and
the word goes by a move of its own; selecting the word and deleting the selection
comes to the same storage and the same cursor. At the start of a row both leave
the row as it is: there the second moves the whole row onto itself.
-/

namespace LCode

namespace Doc

/-- An empty span deleted: the row is stored back as it was. -/
theorem Holds.deleteSpan_empty {T : Prop} {d : Doc} {t : List (List UInt8)} {p : Pos}
    (h : d.Holds T t) (hp : Text.Valid t p) : d.deleteSpan p.row p.col p.col = some d := by
  obtain ⟨a, u, v, z, rfl, hr, hc⟩ := hp.split
  obtain ⟨la, ln, lz, dead, heap, rfl, -, ha, hx, -⟩ := h.around
  have hrow : (p.row : Int) = la.length := by rw [hr, ha.length_eq]
  obtain ⟨y, rest, hbuf, hlen, -, -⟩ := hx
  have hmove : ln.buf.move p.col p.col (ln.len - p.col + 1) = some ln.buf := by
    obtain ⟨w, hw, hmove⟩ := Block.move_down (b := u ++ [] ++ v ++ y :: rest) (a := u) (d := [])
      (m := v ++ [y]) (z := rest) (i := p.col) (j := p.col) (n := ln.len - p.col + 1) (by simp)
      (by omega) (by simp)
      (by simp only [hlen, List.length_append, List.length_cons, List.length_nil]; omega)
    obtain rfl := List.eq_nil_of_length_eq_zero hw
    rw [hbuf]
    simpa using Buf.move_block hmove
  have hzero : ln.len - ((p.col : Int) - p.col) = ln.len := by omega
  simp only [Doc.deleteSpan, slots_line rfl hrow, Option.bind_eq_bind, Option.bind_some, hmove,
    hzero, slots_setLine rfl hrow]

/-- A span deleted, with no memory asked for. -/
theorem Holds.deleteSpan_total {T : Prop} {d : Doc} {t : List (List UInt8)} {p q : Pos}
    (h : d.Holds T t) (hp : Text.Valid t p) (hq : Text.Valid t q) (hrow : q.row = p.row)
    (hle : p.col ≤ q.col) :
    ∃ d', d.deleteSpan p.row p.col q.col = some d' ∧ d'.Holds T (Text.deleteRange t p q) := by
  obtain ⟨a, u, m, v, z, rfl, hr, hc, hc'⟩ := hp.split_span hq hrow hle
  obtain ⟨d', hdel, hdoc, -⟩ := h.deleteSpan (r := p.row) (k := p.col) (s := q.col)
    (by omega) (by omega) (by omega)
  rw [Text.deleteRange_span hr hc hrow hc']
  exact ⟨d', hdel, hdoc⟩

end Doc

namespace Editor

/-- The word before the cursor selected, and the selection deleted:
`editor_sel_set_anchor`, `editor_move_word_left`, `editor_delete_selection`. -/
def deleteWordSelected (ed : Editor) : Option (EditorResult × Editor) := do
  let ed ← ed.selSetAnchor.moveWordLeft
  ed.deleteSelection

section Word

variable {ed : Editor} {t : List (List UInt8)} {p : Pos} {k : Nat}

/-- Where the two loops stop in the row of the cursor. -/
theorem Stands.wordLeft (h : ed.Stands t p) :
    ∃ ln k, ed.doc.line p.row = some ln ∧ k ≤ p.col ∧
      wordLeft ln.buf p.col = some (k : Int) := by
  obtain ⟨a, u, v, z, rfl, hr, hc⟩ := h.valid.split
  obtain ⟨ln, hln, hx⟩ := h.holds.line_eq (r := p.row) (by omega)
  have hin : p.col ≤ (u ++ v).length := by
    rw [List.length_append]
    omega
  obtain ⟨k, hk, hword⟩ := wordLeft_eq hx hin
  exact ⟨ln, k, hln, hk, hword⟩

/-- The word selected by way of the loops of `editor_move_word_left`. -/
theorem deleteWordSelected_eq {ln : Line} (hrow : ed.cursorRow = p.row)
    (hcol : ed.cursorCol = p.col) (hln : ed.doc.line p.row = some ln) (hk : k ≤ p.col)
    (hword : LCode.wordLeft ln.buf p.col = some (k : Int)) {doc : Doc}
    (hdel : ed.doc.deleteSpan p.row k p.col = some doc) :
    ∃ eds, ed.deleteWordSelected = some (.ok, eds) ∧ eds.doc = doc ∧
      eds.cursorRow = p.row ∧ eds.cursorCol = k := by
  have hmove : ed.selSetAnchor.moveWordLeft =
      some (ed.selSetAnchor.goto ed.doc ⟨p.row, k⟩) := by
    simp [Editor.moveWordLeft, Editor.goto, selSetAnchor, hrow, hcol, hln, hword]
  have hrange : (ed.selSetAnchor.goto ed.doc ⟨p.row, k⟩).selGetRange =
      ((p.row : Int), (k : Int), (p.row : Int), (p.col : Int)) := by
    unfold selGetRange
    simp only [goto_selAnchorRow, goto_selAnchorCol, goto_cursorRow, goto_cursorCol, selSetAnchor,
      hrow, hcol]
    split
    · next hlt =>
      -- the cursor has not moved
      obtain rfl : k = p.col := by omega
      rfl
    · rfl
  refine ⟨(ed.selSetAnchor.goto ed.doc ⟨p.row, k⟩).unselected.goto doc ⟨p.row, k⟩, ?_, by simp,
    by simp, by simp⟩
  simp only [deleteWordSelected, hmove, Option.bind_eq_bind, Option.bind_some,
    Editor.deleteSelection, hrange, Editor.deleteRange, goto_selActive, goto_doc, hdel]
  simp [selSetAnchor, Editor.goto, unselected]

/-- Ctrl+Backspace leaves the storage and the cursor that selecting the word before the
cursor and deleting the selection leave; the rows are the old ones without the word. -/
theorem deleteWord_selects (h : ed.Stands t p) :
    ∃ edw eds k, k ≤ p.col ∧ ed.deleteWord = some (.ok, edw) ∧
      ed.deleteWordSelected = some (.ok, eds) ∧ edw.doc = eds.doc ∧
      edw.cursorRow = eds.cursorRow ∧ edw.cursorCol = eds.cursorCol ∧
      eds.Stands (Text.deleteRange t ⟨p.row, k⟩ p) ⟨p.row, k⟩ := by
  obtain ⟨ln, k, hln, hk, hword⟩ := h.wordLeft
  have hstart : Text.Valid t ⟨p.row, k⟩ := ⟨h.valid.1, Nat.le_trans hk h.valid.2⟩
  obtain ⟨doc, hdel, hdoc⟩ := h.holds.deleteSpan_total hstart h.valid rfl hk
  obtain ⟨eds, hsel, heds, hrow, hcol⟩ := deleteWordSelected_eq h.row h.col hln hk hword hdel
  have hstands : eds.Stands (Text.deleteRange t ⟨p.row, k⟩ p) ⟨p.row, k⟩ :=
    ⟨by rw [heds]; exact hdoc, hrow, hcol, hstart.deleteRange h.valid (Or.inr ⟨rfl, hk⟩)⟩
  by_cases h0 : p.col = 0
  · obtain rfl : k = 0 := by omega
    have hsame : doc = ed.doc := by
      have hempty := h.holds.deleteSpan_empty h.valid
      rw [h0] at hempty hdel
      exact Option.some.inj (hdel.symm.trans hempty)
    refine ⟨ed, eds, 0, hk, ?_, hsel, by rw [heds, hsame], ?_, ?_, hstands⟩
    · rw [Editor.deleteWord, if_pos (by rw [h.col]; omega)]
    · rw [hrow, h.row]
    · rw [hcol, h.col, h0]
  · refine ⟨ed.goto doc ⟨p.row, k⟩, eds, k, hk, ?_, hsel, by simp [heds], by simp [hrow],
      by simp [hcol], hstands⟩
    have hcol' : ¬ (p.col : Int) = 0 := by omega
    simp only [Editor.deleteWord, h.row, h.col, hcol', if_false, hln, hword, hdel,
      Option.bind_eq_bind, Option.bind_some, Option.pure_def, Editor.goto]

/-- At the end of a row that begins and ends with a blank. -/
theorem deleteWord_selects_blanks :
    ∃ edw eds k, k ≤ 4 ∧
      (standing [" ab ".toUTF8.toList] ⟨0, 4⟩ ⟨1, 0⟩ none).deleteWord = some (.ok, edw) ∧
      (standing [" ab ".toUTF8.toList] ⟨0, 4⟩ ⟨1, 0⟩ none).deleteWordSelected =
        some (.ok, eds) ∧ edw.doc = eds.doc ∧ edw.cursorRow = eds.cursorRow ∧
      edw.cursorCol = eds.cursorCol ∧
      eds.Stands (Text.deleteRange [" ab ".toUTF8.toList] ⟨0, k⟩ ⟨0, 4⟩) ⟨0, k⟩ :=
  have hp : Text.Valid [" ab ".toUTF8.toList] ⟨0, 4⟩ := by decide +kernel
  deleteWord_selects (standing_stands hp _ _)

end Word

end Editor

end LCode
