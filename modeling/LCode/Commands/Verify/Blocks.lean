import LCode.Commands.Verify.Keys

/-!
# Block edits

The keys that change more than one character: a selection deleted, a word
deleted, a clipboard or a character put in place of a selection. Each merges a
few rows into one, may put text into it, and tells the peer of the rows that
have taken their place.
-/

namespace LCode.Commands

open Serial

section Blocks

variable {T : Prop} {a : App} {t : List (List UInt8)} {p s : Pos}

theorem selRows_eq {ed : Editor} {b e : Pos} (hbe : Text.before b e)
    (h : ed.selGetRange = (↑b.row, ↑b.col, ↑e.row, ↑e.col)) :
    selRows ed = (↑b.row, ↑(e.row - b.row + 1)) := by
  have hrow : (e.row : Int) - b.row + 1 = (e.row - b.row + 1 : Nat) := by
    rcases hbe with hlt | ⟨heq, -⟩ <;> omega
  simp only [selRows, h, hrow]

/-! ## Deletions -/

/-- Backspace or Ctrl+X on a selection, with the range it deletes. -/
theorem deleteSelectionKey_range (h : a.editor.At T t p) (hs : a.editor.Selected t s) :
    ∃ b e a', a.editor.selGetRange = (↑b.row, ↑b.col, ↑e.row, ↑e.col) ∧ Text.before b e ∧
      Text.Valid t e ∧ deleteSelectionKey a = some a' ∧
      Edited T a a' (Text.deleteRange t b e) b
        (blockMessages (Text.deleteRange t b e) b b.row (e.row - b.row + 1) 1) := by
  obtain ⟨b, e, doc, hrange, hbe, he, hdel, hat⟩ := h.deleteSelection hs
  refine ⟨b, e, _, hrange, hbe, he, ?_,
    (edited_goto hat rfl rfl rfl rfl fun h => ⟨h.row, h.col⟩).setRenderEx .full⟩
  simp only [deleteSelectionKey, selRows_eq hbe hrange, hdel, Option.bind_eq_bind,
    Option.bind_some, afterEdit, reduceCtorEq, if_false]
  exact share_bind (a := { a with editor := a.editor.unselected.goto doc b })
    (fun hr => syncBlock_eq hat hr b.row _ 1) fun a => some (a.setRenderEx .full)

/-- Backspace or Ctrl+X on a selection. -/
theorem deleteSelectionKey_eq (h : a.editor.At T t p) (hs : a.editor.Selected t s) :
    ∃ t' b d a', Text.Merges t t' b.row d ∧ deleteSelectionKey a = some a' ∧
      Edited T a a' t' b (blockMessages t' b b.row d 1) := by
  obtain ⟨b, e, a', -, hbe, he, hkey, hed⟩ := deleteSelectionKey_range h hs
  exact ⟨_, b, _, a', Text.merges_deleteRange he hbe, hkey, hed⟩

/-- The editor with the text between `b` and `e` in its clipboard. -/
def copied (ed : Editor) (t : List (List UInt8)) (b e : Pos) (heap : Heap) : Editor :=
  { ed with
    doc := { ed.doc with heap }
    clipboard := some (Text.copy newline t b e ++ [0]) }

/-- Ctrl+X. -/
theorem cutKey_eq (h : a.editor.At T t p) (hs : a.editor.Selected t s) :
    ∃ b e heap t' q d a', Text.Merges t t' q.row d ∧ cutKey a = some a' ∧
      Edited T { a with editor := copied a.editor t b e heap } a' t' q
        (blockMessages t' q q.row d 1) := by
  obtain ⟨b, e, heap, -, ample, hcopy⟩ := h.copySelection hs
  have hat : (copied a.editor t b e heap).At T t p :=
    ⟨h.holds.withHeap heap, ample, h.row, h.col, h.valid⟩
  have hsel : (copied a.editor t b e heap).Selected t s := ⟨hs.active, hs.row, hs.col, hs.valid⟩
  obtain ⟨t', q, d, a', hm, hkey, hed⟩ :=
    deleteSelectionKey_eq (a := { a with editor := copied a.editor t b e heap }) hat hsel
  refine ⟨b, e, heap, t', q, d, a', hm, ?_, hed⟩
  have hcopied : a.editor.copySelection = some (copied a.editor t b e heap) := hcopy
  simp only [cutKey, hcopied, Option.bind_eq_bind, Option.bind_some, hsel.active, if_true, hkey]

/-- Ctrl+Backspace inside a row. -/
theorem deleteWordKey_eq (h : a.editor.At T t p) (hs : a.editor.selActive = false)
    (hc : 0 < p.col) :
    ∃ t' p' a', Text.Merges t t' p'.row 1 ∧ deleteWordKey a = some a' ∧
      Edited T a a' t' p' (blockMessages t' p' p'.row 1 1) := by
  obtain ⟨k, doc, hk, hdel, hat⟩ := h.deleteWord hc
  have hmerges := Text.merges_deleteRange (p := ⟨p.row, k⟩) h.valid (Or.inr ⟨rfl, hk⟩)
  have hone : p.row - (Pos.mk p.row k).row + 1 = 1 := by simp
  rw [hone] at hmerges
  have hcol : ¬ a.editor.cursorCol = 0 := by
    rw [h.col]
    omega
  refine ⟨_, ⟨p.row, k⟩, _, hmerges, ?_, (edited_goto hat hs rfl rfl rfl id).setRenderEx .line⟩
  simp only [deleteWordKey, hcol, if_false, hdel, Option.bind_eq_bind, Option.bind_some,
    afterEdit, reduceCtorEq, h.row]
  exact share_bind (a := { a with editor := a.editor.goto doc ⟨p.row, k⟩ })
    (fun hr => syncBlock_eq hat hr p.row 1 1) fun a => some (a.setRenderEx .line)

/-- Ctrl+Backspace at the start of a row: the block starts in the row above,
wherever that is. -/
theorem deleteWordKey_start (h : a.editor.At T t p) (hs : a.editor.selActive = false)
    (hc : p.col = 0) :
    ∃ a', deleteWordKey a = some a' ∧ Edited T a a' (Text.backspace t p)
      (Text.afterBackspace t p)
      (blockMessages (Text.backspace t p) (Text.afterBackspace t p) ((p.row : Int) - 1) 2 1) := by
  obtain ⟨doc, hdel, hat⟩ := h.deleteChar
  have hcol : a.editor.cursorCol = 0 := by
    rw [h.col, hc]
    rfl
  refine ⟨_, ?_, (edited_goto hat hs rfl rfl rfl id).setRenderEx .full⟩
  simp only [deleteWordKey, hcol, if_true, hdel, Option.bind_eq_bind, Option.bind_some,
    afterEdit, reduceCtorEq, if_false, h.row]
  exact share_bind (a := { a with editor := a.editor.goto doc (Text.afterBackspace t p) })
    (fun hr => syncBlock_eq hat hr _ 2 1) fun a => some (a.setRenderEx .full)

/-! ## Text put in -/

/-- What is left when the selection, if there is one, gives way to other text:
`d` rows are now one. -/
structure Cleared (T : Prop) (ed ed' : Editor) (t t' : List (List UInt8)) (b : Pos) (d : Nat) :
    Prop where
  at' : ed'.At T t' b
  merges : Text.Merges t t' b.row d
  inactive : ed'.selActive = false
  remoteRow : ed'.remoteCursorRow = ed.remoteCursorRow
  remoteCol : ed'.remoteCursorCol = ed.remoteCursorCol
  clipboard : ed'.clipboard = ed.clipboard
  scrolled : ed.Scrolled → ed'.Scrolled

theorem cleared {ed : Editor} (h : ed.At T t p) (hs : ed.Selected t s) :
    ∃ (ed' : Editor) (t' : List (List UInt8)) (b : Pos) (d : Nat), ed.deleteSelection = some (.ok, ed') ∧
      selRows ed = ((b.row : Int), (d : Int)) ∧ Cleared T ed ed' t t' b d := by
  obtain ⟨b, e, doc, hrange, hbe, he, hdel, hat⟩ := h.deleteSelection hs
  exact ⟨_, _, b, _, hdel, selRows_eq hbe hrange, hat, Text.merges_deleteRange he hbe,
    by simp [Editor.unselected], by simp [Editor.unselected], by simp [Editor.unselected],
    by simp [Editor.unselected],
    fun h => (show ed.unselected.Scrolled from ⟨h.row, h.col⟩).goto _ _⟩

/-- Ctrl+V. -/
theorem pasteKey_eq (h : a.editor.At T t p)
    (hs : a.editor.selActive = true → ∃ s, a.editor.Selected t s) {x rest : List UInt8}
    (hclip : a.editor.clipboard = some (x ++ 0 :: rest)) (hx : 0 ∉ x) :
    ∃ t' b d a', Text.Merges t t' b.row d ∧ pasteKey a = some a' ∧
      Edited T a a' (Text.paste newline t' b x) (Text.afterPaste newline b x)
        (blockMessages (Text.paste newline t' b x) (Text.afterPaste newline b x) b.row d
          (x.count newline + 1)) := by
  obtain ⟨ed, t', b, d, hrows, hdel, hc⟩ : ∃ (ed : Editor) (t' : List (List UInt8))
      (b : Pos) (d : Nat),
      (if a.editor.selActive then selRows a.editor else (a.editor.cursorRow, 1)) =
        ((b.row : Int), (d : Int)) ∧
      (∀ f : Editor → Option App,
        (if a.editor.selActive then (a.editor.deleteSelection.map Prod.snd).bind f
          else f a.editor) = f ed) ∧
      Cleared T a.editor ed t t' b d := by
    cases hactive : a.editor.selActive with
    | false =>
      exact ⟨a.editor, t, p, 1, by simp [h.row], by simp, h, Text.merges_self h.valid, hactive,
        rfl, rfl, rfl, id⟩
    | true =>
      obtain ⟨s, hs⟩ := hs hactive
      obtain ⟨ed, t', b, d, hdel, hrows, hc⟩ := cleared h hs
      exact ⟨ed, t', b, d, by simp [hrows], by simp [hdel], hc⟩
  obtain ⟨doc, hpaste, hat⟩ := hc.at'.paste (hc.clipboard.trans hclip) hx
  obtain ⟨new, hnew, hlen⟩ := hc.merges.paste newline x
  -- the rows that have come in are counted from the row counts
  have hcount : (ed.goto doc (Text.afterPaste newline b x)).doc.rowCount - ed.doc.rowCount + 1 =
      (x.count newline + 1 : Nat) := by
    obtain ⟨y, hy⟩ := hc.merges.merged
    have hlen' := splice_length (w := [y]) hc.merges.inside
    have hlen'' := splice_length (w := new) hc.merges.inside
    rw [hat.rowCount_eq, hc.at'.rowCount_eq, hnew]
    rw [← hy, List.length_singleton] at hlen'
    omega
  refine ⟨t', b, d, _, hc.merges, ?_,
    (edited_goto hat hc.inactive hc.remoteRow hc.remoteCol hc.clipboard hc.scrolled).setRenderEx
      .full⟩
  simp only [pasteKey, hrows, hdel, hpaste, hcount, Option.bind_eq_bind, Option.bind_some]
  exact share_bind (a := { a with editor := ed.goto doc (Text.afterPaste newline b x) })
    (fun hr => syncBlock_eq hat hr b.row d _) fun a => some (a.setRenderEx .full)

/-- A character over a selection; `rows` is what the caller counts for it. -/
theorem insertOverSelection_eq (h : a.editor.At T t p) (hs : a.editor.Selected t s) (c : UInt8)
    (rows : Nat) :
    ∃ t' b d a', Text.Merges t t' b.row d ∧ insertOverSelection a c rows = some a' ∧
      Edited T a a' (Text.insert newline t' b c) (Text.afterInsert newline b c)
        (blockMessages (Text.insert newline t' b c) (Text.afterInsert newline b c) b.row d
          rows) := by
  obtain ⟨ed, t', b, d, hdel, hrows, hc⟩ := cleared h hs
  obtain ⟨doc, hins, hat⟩ := hc.at'.insertChar c
  refine ⟨t', b, d, _, hc.merges, ?_,
    (edited_goto hat hc.inactive hc.remoteRow hc.remoteCol hc.clipboard hc.scrolled).setRender .full⟩
  simp only [insertOverSelection, hrows, hdel, hins, Option.bind_eq_bind, Option.bind_some,
    if_true]
  exact share_bind (a := { a with editor := ed.goto doc (Text.afterInsert newline b c) })
    (fun hr => syncBlock_eq hat hr b.row d rows) fun a => some (a.setRender .full)

end Blocks

end LCode.Commands
