import LCode.Editor.Verify.Cursor
import LCode.Lib.Along

/-!
# Row exclusion

Three operations look at the row of the other cursor before they take their own
there: `editor_set_cursor`, `editor_move_up` and `editor_move_down`, and
`editor_set_remote_cursor` does so for the peer's. `EditorOp.Collides` lists the
cases in which one of the others brings the two cursors into one row; in a run
without them the rows stay apart.
-/

namespace LCode

/-- An operation of the local user or of the peer. -/
inductive EditorOp where
  | insertChar (c : UInt8)
  | deleteChar
  | deleteWord
  | moveLeft
  | moveRight
  | moveUp
  | moveDown
  | moveWordLeft
  | moveWordRight
  | moveHome
  | moveEnd
  | setCursor (row col : Int)
  | scrollBy (drow dcol : Int)
  | selSetAnchor
  | selClear
  | deleteSelection
  | copySelection
  | paste
  | setRemoteCursor (row col : Int)
  | remoteInsertChar (c : UInt8)
  | remoteDeleteChar
  | remoteReplaceBlock (startRow deletedCount insertedCount : Int)
  | remoteUpdateLine (row : Int) (text : List UInt8) (len : Int)

namespace Editor

def apply (ed : Editor) : EditorOp → Option (EditorResult × Editor)
  | .insertChar c => ed.insertChar c
  | .deleteChar => ed.deleteChar
  | .deleteWord => ed.deleteWord
  | .moveLeft => ed.moveLeft.map (.ok, ·)
  | .moveRight => ed.moveRight.map (.ok, ·)
  | .moveUp => ed.moveUp.map (.ok, ·)
  | .moveDown => ed.moveDown.map (.ok, ·)
  | .moveWordLeft => ed.moveWordLeft.map (.ok, ·)
  | .moveWordRight => ed.moveWordRight.map (.ok, ·)
  | .moveHome => some (.ok, ed.moveHome)
  | .moveEnd => ed.moveEnd.map (.ok, ·)
  | .setCursor row col => (ed.setCursor row col).map (.ok, ·)
  | .scrollBy drow dcol => some (.ok, ed.scrollBy drow dcol)
  | .selSetAnchor => some (.ok, ed.selSetAnchor)
  | .selClear => some (.ok, ed.selClear)
  | .deleteSelection => ed.deleteSelection
  | .copySelection => ed.copySelection.map (.ok, ·)
  | .paste => ed.paste
  | .setRemoteCursor row col => some (.ok, ed.setRemoteCursor row col)
  | .remoteInsertChar c => ed.remoteInsertChar c
  | .remoteDeleteChar => ed.remoteDeleteChar
  | .remoteReplaceBlock startRow deletedCount insertedCount =>
    ed.remoteReplaceBlock startRow deletedCount insertedCount
  | .remoteUpdateLine row text len => ed.remoteUpdateLine row text len

/-- The state after an operation; a failed allocation does not end a run. -/
def step (ed : Editor) (op : EditorOp) : Option Editor := (ed.apply op).map Prod.snd

def applyAll (ed : Editor) (ops : List EditorOp) : Option Editor := ops.foldlM step ed

/-- `0 <= remote_cursor_row` implies that the two rows differ. -/
def Apart (ed : Editor) : Prop := 0 ≤ ed.remoteCursorRow → ed.cursorRow ≠ ed.remoteCursorRow

instance (ed : Editor) : Decidable ed.Apart := inferInstanceAs (Decidable (_ → _))

/-- The newlines of the clipboard text. -/
def clipRows (ed : Editor) : Nat :=
  ((ed.clipboard.getD []).takeWhile (· ≠ 0)).count newline

/-- The operation brings the two cursors into one row. -/
def Collides (ed : Editor) (op : EditorOp) : Prop :=
  0 ≤ ed.remoteCursorRow ∧ match op with
  | .insertChar c => c = newline ∧ ed.remoteCursorRow = ed.cursorRow + 1
  | .deleteChar | .moveLeft =>
    ed.cursorCol ≤ 0 ∧ 0 < ed.cursorRow ∧ ed.remoteCursorRow = ed.cursorRow - 1
  | .moveRight =>
    (ed.doc.line ed.cursorRow).any (fun ln => ln.len ≤ ed.cursorCol) ∧
      ed.cursorRow < ed.doc.rowCount - 1 ∧ ed.remoteCursorRow = ed.cursorRow + 1
  -- a click above or below the text, on the row that it is clamped to
  | .setCursor row _ =>
    ed.remoteCursorRow ≠ row ∧ ed.remoteCursorRow = min (max row 0) (ed.doc.rowCount - 1)
  | .deleteSelection =>
    ed.selActive ∧ ed.selAnchorRow < ed.cursorRow ∧ ed.remoteCursorRow = ed.selAnchorRow
  | .paste => ed.clipboard.isSome ∧ ed.remoteCursorRow = ed.cursorRow + ed.clipRows
  | .remoteDeleteChar =>
    ed.remoteCursorCol ≤ 0 ∧ 0 < ed.remoteCursorRow ∧ ed.cursorRow = ed.remoteCursorRow - 1
  | .remoteReplaceBlock startRow deletedCount insertedCount =>
    0 ≤ startRow ∧ startRow ≤ ed.doc.rowCount ∧
      startRow + ed.doc.actualDeleted startRow deletedCount ≤ ed.cursorRow ∧
      ed.remoteCursorRow =
        ed.cursorRow + (insertedCount - ed.doc.actualDeleted startRow deletedCount)
  | _ => False

instance (ed : Editor) (op : EditorOp) : Decidable (ed.Collides op) := by
  unfold Collides
  cases op <;> infer_instance

/-- The remote cursor is a position of the document. -/
def RemoteValid (ed : Editor) : Prop :=
  0 ≤ ed.remoteCursorRow ∧ ed.remoteCursorRow < ed.doc.rowCount ∧ 0 ≤ ed.remoteCursorCol ∧
    (ed.doc.line ed.remoteCursorRow).any fun ln => ed.remoteCursorCol ≤ ln.len

/-- The peer edits at a valid cursor. -/
def Admits (ed : Editor) : EditorOp → Prop
  | .remoteInsertChar _ | .remoteDeleteChar => ed.RemoteValid
  | _ => True

instance (ed : Editor) (op : EditorOp) : Decidable (ed.Admits op) := by
  unfold Admits RemoteValid
  cases op <;> infer_instance

/-! ## The rows after an operation -/

@[simp] theorem clampScroll_cursorRow (ed : Editor) : ed.clampScroll.cursorRow = ed.cursorRow := by
  obtain ⟨_, _, _, _, h⟩ := clampScroll_eq ed
  rw [h]

@[simp] theorem clampScroll_remoteCursorRow (ed : Editor) :
    ed.clampScroll.remoteCursorRow = ed.remoteCursorRow := by
  obtain ⟨_, _, _, _, h⟩ := clampScroll_eq ed
  rw [h]

/-- The operation leaves both cursors in their rows. -/
def SameRows (ed ed' : Editor) : Prop :=
  ed'.cursorRow = ed.cursorRow ∧ ed'.remoteCursorRow = ed.remoteCursorRow

theorem SameRows.apart {ed ed' : Editor} (h : ed.SameRows ed') : ed'.Apart ↔ ed.Apart := by
  rw [Apart, Apart, h.1, h.2]

section Rows

variable {ed ed' : Editor} {res : EditorResult}

/-- The last lines of an edit: the cursor is only moved after a success. -/
theorem commit_cases {x : Option (EditorResult × Doc)} {failed done : Doc → Editor}
    {f : EditorResult × Doc → Option (EditorResult × Editor)} (h : (x >>= f) = some (res, ed'))
    (hf : ∀ r doc, f (r, doc) =
      if r ≠ .ok then some (r, failed doc) else some (.ok, done doc)) :
    ∃ doc, (res = .ok ∧ ed' = done doc) ∨ (res ≠ .ok ∧ ed' = failed doc) := by
  obtain ⟨⟨r, doc⟩, -, h⟩ := Option.bind_eq_some_iff.1 h
  refine ⟨doc, ?_⟩
  rw [hf] at h
  split at h
  · next hr =>
    obtain ⟨rfl, rfl⟩ := Prod.mk.inj (Option.some.inj h)
    exact .inr ⟨hr, rfl⟩
  · obtain ⟨rfl, rfl⟩ := Prod.mk.inj (Option.some.inj h)
    exact .inl ⟨rfl, rfl⟩

theorem insertChar_cursorRows {c : UInt8} (h : ed.insertChar c = some (res, ed')) :
    ed'.remoteCursorRow = ed.remoteCursorRow ∧
      ed'.cursorRow = if c = newline ∧ res = .ok then ed.cursorRow + 1 else ed.cursorRow := by
  unfold insertChar at h
  split at h
  · next hc =>
    obtain ⟨doc, ⟨rfl, rfl⟩ | ⟨hres, rfl⟩⟩ := commit_cases h fun _ _ => rfl
    · simp [hc]
    · simp [hres]
  · next hc =>
    obtain ⟨doc, ⟨rfl, rfl⟩ | ⟨hres, rfl⟩⟩ := commit_cases h fun _ _ => rfl
    · simp [hc]
    · simp [hc]

theorem deleteChar_cursorRows (h : ed.deleteChar = some (res, ed')) :
    ed'.remoteCursorRow = ed.remoteCursorRow ∧ ed'.cursorRow =
      if ed.cursorCol ≤ 0 ∧ 0 < ed.cursorRow ∧ res = .ok then ed.cursorRow - 1
      else ed.cursorRow := by
  unfold deleteChar at h
  split at h
  · next hcol =>
    obtain ⟨doc, -, h⟩ := Option.bind_eq_some_iff.1 h
    obtain ⟨rfl, rfl⟩ := Prod.mk.inj (Option.some.inj h)
    simp [Int.not_le.2 hcol]
  · next hcol =>
    split at h
    · next hrow =>
      obtain ⟨_, -, h⟩ := Option.bind_eq_some_iff.1 h
      obtain ⟨doc, ⟨rfl, rfl⟩ | ⟨hres, rfl⟩⟩ := commit_cases h fun _ _ => rfl
      · simp [Int.not_lt.1 hcol, hrow]
      · simp [hres]
    · next hrow =>
      obtain ⟨rfl, rfl⟩ := Prod.mk.inj (Option.some.inj h)
      simp [hrow]

theorem deleteWord_cursorRows (h : ed.deleteWord = some (res, ed')) : ed.SameRows ed' := by
  unfold deleteWord at h
  split at h
  · obtain ⟨rfl, rfl⟩ := Prod.mk.inj (Option.some.inj h)
    exact ⟨rfl, rfl⟩
  · obtain ⟨_, -, h⟩ := Option.bind_eq_some_iff.1 h
    obtain ⟨_, -, h⟩ := Option.bind_eq_some_iff.1 h
    obtain ⟨_, -, h⟩ := Option.bind_eq_some_iff.1 h
    obtain ⟨rfl, rfl⟩ := Prod.mk.inj (Option.some.inj h)
    exact ⟨by simp, by simp⟩

theorem moveLeft_cursorRows (h : ed.moveLeft = some ed') :
    ed'.remoteCursorRow = ed.remoteCursorRow ∧ ed'.cursorRow =
      if ed.cursorCol ≤ 0 ∧ 0 < ed.cursorRow then ed.cursorRow - 1 else ed.cursorRow := by
  unfold moveLeft at h
  split at h
  · next hcol =>
    obtain rfl := Option.some.inj h
    simp [Int.not_le.2 hcol]
  · next hcol =>
    split at h
    · next hrow =>
      obtain ⟨_, -, h⟩ := Option.bind_eq_some_iff.1 h
      obtain rfl := Option.some.inj h
      simp [Int.not_lt.1 hcol, hrow]
    · next hrow =>
      obtain rfl := Option.some.inj h
      simp [hrow]

theorem moveRight_cursorRows (h : ed.moveRight = some ed') :
    ed'.remoteCursorRow = ed.remoteCursorRow ∧ ed'.cursorRow =
      if (ed.doc.line ed.cursorRow).any (fun ln => ln.len ≤ ed.cursorCol) ∧
          ed.cursorRow < ed.doc.rowCount - 1 then ed.cursorRow + 1
      else ed.cursorRow := by
  unfold moveRight at h
  obtain ⟨ln, hln, h⟩ := Option.bind_eq_some_iff.1 h
  rw [hln]
  dsimp only at h
  split at h
  · next hcol =>
    obtain rfl := Option.some.inj h
    simp [Int.not_le.2 hcol]
  · next hcol =>
    split at h
    · next hrow =>
      obtain rfl := Option.some.inj h
      simp [Int.not_lt.1 hcol, hrow]
    · next hrow =>
      obtain rfl := Option.some.inj h
      simp [hrow]

theorem enterRow_cursorRows {row : Int} (h : ed.enterRow row = some ed') :
    ed'.remoteCursorRow = ed.remoteCursorRow ∧ ed'.cursorRow = row := by
  obtain ⟨_, -, h⟩ := Option.bind_eq_some_iff.1 h
  obtain rfl := Option.some.inj h
  simp

theorem moveUp_cursorRows (h : ed.moveUp = some ed') :
    ed'.remoteCursorRow = ed.remoteCursorRow ∧ ed'.cursorRow =
      if 0 < ed.cursorRow ∧ ed.cursorRow - 1 ≠ ed.remoteCursorRow then ed.cursorRow - 1
      else ed.cursorRow := by
  unfold moveUp at h
  split at h
  · next hrow =>
    split at h
    · next heq =>
      obtain rfl := Option.some.inj h
      simp [heq]
    · next hne =>
      obtain ⟨hrem, hcur⟩ := enterRow_cursorRows h
      simp [hrem, hcur, hrow, hne]
  · next hrow =>
    obtain rfl := Option.some.inj h
    simp [hrow]

theorem moveDown_cursorRows (h : ed.moveDown = some ed') :
    ed'.remoteCursorRow = ed.remoteCursorRow ∧ ed'.cursorRow =
      if ed.cursorRow < ed.doc.rowCount - 1 ∧ ed.cursorRow + 1 ≠ ed.remoteCursorRow then
        ed.cursorRow + 1
      else ed.cursorRow := by
  unfold moveDown at h
  split at h
  · next hrow =>
    split at h
    · next heq =>
      obtain rfl := Option.some.inj h
      simp [heq]
    · next hne =>
      obtain ⟨hrem, hcur⟩ := enterRow_cursorRows h
      simp [hrem, hcur, hrow, hne]
  · next hrow =>
    obtain rfl := Option.some.inj h
    simp [hrow]

theorem moveWordLeft_cursorRows (h : ed.moveWordLeft = some ed') : ed.SameRows ed' := by
  obtain ⟨_, -, h⟩ := Option.bind_eq_some_iff.1 h
  obtain ⟨_, -, h⟩ := Option.bind_eq_some_iff.1 h
  obtain rfl := Option.some.inj h
  exact ⟨by simp, by simp⟩

theorem moveWordRight_cursorRows (h : ed.moveWordRight = some ed') : ed.SameRows ed' := by
  obtain ⟨_, -, h⟩ := Option.bind_eq_some_iff.1 h
  obtain ⟨_, -, h⟩ := Option.bind_eq_some_iff.1 h
  obtain rfl := Option.some.inj h
  exact ⟨by simp, by simp⟩

theorem moveEnd_cursorRows (h : ed.moveEnd = some ed') : ed.SameRows ed' := by
  obtain ⟨_, -, h⟩ := Option.bind_eq_some_iff.1 h
  obtain rfl := Option.some.inj h
  exact ⟨by simp, by simp⟩

/-- The row is tested before it is clamped. -/
theorem setCursor_cursorRows {row col : Int} (h : ed.setCursor row col = some ed') :
    ed'.remoteCursorRow = ed.remoteCursorRow ∧ ed'.cursorRow =
      if ed.remoteCursorRow = row then ed.cursorRow
      else min (max row 0) (ed.doc.rowCount - 1) := by
  unfold setCursor at h
  split at h
  · next heq =>
    obtain rfl := Option.some.inj h
    simp [heq]
  · next hne =>
    extract_lets r₀ r₁ at h
    obtain ⟨_, -, h⟩ := Option.bind_eq_some_iff.1 h
    obtain rfl := Option.some.inj h
    simp only [clampScroll_remoteCursorRow, clampScroll_cursorRow, if_neg hne, true_and]
    simp only [r₁, r₀]
    omega

theorem selGetRange_startRow (ed : Editor) : ed.selGetRange.1 =
    if ed.selAnchorRow < ed.cursorRow then ed.selAnchorRow else ed.cursorRow := by
  unfold selGetRange
  split
  · split
    · rfl
    · simp only
      omega
  · split
    · omega
    · rfl

theorem deleteSelection_cursorRows (h : ed.deleteSelection = some (res, ed')) :
    ed'.remoteCursorRow = ed.remoteCursorRow ∧ ed'.cursorRow =
      if ed.selActive ∧ ed.selAnchorRow < ed.cursorRow ∧ res = .ok then ed.selAnchorRow
      else ed.cursorRow := by
  have hstart := ed.selGetRange_startRow
  unfold deleteSelection at h
  split at h
  · next hsel =>
    obtain ⟨rfl, rfl⟩ := Prod.mk.inj (Option.some.inj h)
    simp [Bool.eq_false_iff.2 (by simpa using hsel)]
  · next hsel =>
    rcases ed.selGetRange with ⟨startRow, startCol, endRow, endCol⟩
    obtain ⟨doc, ⟨rfl, rfl⟩ | ⟨hres, rfl⟩⟩ := commit_cases h fun _ _ => rfl
    · have hact : ed.selActive = true := by simpa using hsel
      simp only [clampScroll_remoteCursorRow, clampScroll_cursorRow, true_and, hact, and_true]
      exact hstart
    · simp [hres]

theorem copySelection_cursorRows (h : ed.copySelection = some ed') : ed.SameRows ed' := by
  unfold copySelection at h
  split at h
  · obtain rfl := Option.some.inj h
    exact ⟨rfl, rfl⟩
  · rcases ed.selGetRange with ⟨startRow, startCol, endRow, endCol⟩
    obtain ⟨_, -, h⟩ := Option.bind_eq_some_iff.1 h
    dsimp only at h
    split at h
    · obtain rfl := Option.some.inj h
      exact ⟨rfl, rfl⟩
    · obtain ⟨_, -, h⟩ := Option.bind_eq_some_iff.1 h
      obtain ⟨_, -, h⟩ := Option.bind_eq_some_iff.1 h
      obtain rfl := Option.some.inj h
      exact ⟨rfl, rfl⟩

/-- A segment of the clipboard holds no newline. -/
theorem segment_count (p : List UInt8) :
    ((p.takeWhile (· ≠ 0)).count newline) =
      (((p.drop (p.takeWhile fun c => c ≠ 0 && c ≠ newline).length).takeWhile (· ≠ 0)).count
        newline) := by
  induction p with
  | nil => rfl
  | cons c p ih =>
    by_cases hc : c ≠ 0 ∧ c ≠ newline
    · simpa [List.takeWhile, hc, List.count_cons, hc.2] using ih
    · have hstop : (c :: p).takeWhile (fun c => c ≠ 0 && c ≠ newline) = [] :=
        List.takeWhile_cons_of_neg (by simpa using hc)
      rw [hstop]
      rfl

theorem pasteLoop_cursorRow {d d' : Doc} {row col row' col' : Int} {fuel : Nat} {p : List UInt8}
    (h : d.pasteLoop row col fuel p = some (.ok, d', row', col')) :
    row' = row + ((p.takeWhile (· ≠ 0)).count newline : Nat) := by
  induction fuel generalizing d row col p with
  | zero => exact nomatch h
  | succ fuel ih =>
    unfold Doc.pasteLoop at h
    obtain ⟨c, hc, h⟩ := Option.bind_eq_some_iff.1 h
    obtain ⟨rest, rfl⟩ := List.head?_eq_some_iff.1 hc
    split at h
    · next h0 =>
      simp only [Option.pure_def, Option.some.injEq, Prod.mk.injEq, true_and] at h
      obtain ⟨-, hrow, -⟩ := h
      simp [List.takeWhile, h0, hrow]
    · next h0 =>
      split at h
      · next hnl =>
        obtain ⟨⟨r, doc⟩, -, h⟩ := Option.bind_eq_some_iff.1 h
        dsimp only at h
        split at h
        · next hr =>
          obtain ⟨rfl, -⟩ := Prod.mk.inj (Option.some.inj h)
          exact absurd rfl hr
        · rw [ih h, List.takeWhile_cons_of_pos (by simpa using h0), hnl, List.count_cons_self]
          push_cast
          exact (Int.add_assoc row 1 _).trans (congrArg (row + ·) (Int.add_comm 1 _))
      · next hnl =>
        obtain ⟨⟨r, doc⟩, -, h⟩ := Option.bind_eq_some_iff.1 h
        dsimp only at h
        split at h
        · next hr =>
          obtain ⟨rfl, -⟩ := Prod.mk.inj (Option.some.inj h)
          exact absurd rfl hr
        · rw [ih h, ← segment_count]

/-- A failed paste ends where it began. -/
theorem docPaste_cursorRow {d d' : Doc} {row col row' col' : Int} {clip : List UInt8}
    (h : d.paste row col clip = some (res, d', row', col')) (hok : res = .ok) :
    row' = row + ((clip.takeWhile (· ≠ 0)).count newline : Nat) := by
  unfold Doc.paste at h
  obtain ⟨ln, -, h⟩ := Option.bind_eq_some_iff.1 h
  dsimp only at h
  split at h
  · obtain ⟨rfl, -⟩ := Prod.mk.inj (Option.some.inj h)
    exact nomatch hok
  · obtain ⟨_, -, h⟩ := Option.bind_eq_some_iff.1 h
    obtain ⟨_, -, h⟩ := Option.bind_eq_some_iff.1 h
    obtain ⟨_, -, h⟩ := Option.bind_eq_some_iff.1 h
    obtain ⟨_, -, h⟩ := Option.bind_eq_some_iff.1 h
    obtain ⟨⟨r, doc, destRow, destCol⟩, hloop, h⟩ := Option.bind_eq_some_iff.1 h
    dsimp only at h
    split at h
    · next hr =>
      obtain ⟨rfl, -⟩ := Prod.mk.inj (Option.some.inj h)
      exact absurd hok hr
    · next hr =>
      obtain ⟨⟨grown, doc'⟩, -, h⟩ := Option.bind_eq_some_iff.1 h
      dsimp only at h
      split at h
      · obtain ⟨rfl, -⟩ := Prod.mk.inj (Option.some.inj h)
        exact nomatch hok
      · obtain ⟨_, -, h⟩ := Option.bind_eq_some_iff.1 h
        obtain ⟨_, -, h⟩ := Option.bind_eq_some_iff.1 h
        obtain ⟨_, -, h⟩ := Option.bind_eq_some_iff.1 h
        obtain ⟨_, -, h⟩ := Option.bind_eq_some_iff.1 h
        obtain ⟨-, -, rfl, -⟩ := by simpa using h
        rw [not_not.1 hr] at hloop
        exact pasteLoop_cursorRow hloop

theorem paste_cursorRows (h : ed.paste = some (res, ed')) :
    ed'.remoteCursorRow = ed.remoteCursorRow ∧ ed'.cursorRow =
      if ed.clipboard.isSome ∧ res = .ok then ed.cursorRow + ed.clipRows
      else ed.cursorRow := by
  unfold paste at h
  split at h
  · next hclip =>
    obtain ⟨rfl, rfl⟩ := Prod.mk.inj (Option.some.inj h)
    simp [hclip]
  · next clip hclip =>
    obtain ⟨⟨r, doc, row, col⟩, hpaste, h⟩ := Option.bind_eq_some_iff.1 h
    dsimp only at h
    split at h
    · next hr =>
      obtain ⟨rfl, rfl⟩ := Prod.mk.inj (Option.some.inj h)
      simp [hr]
    · next hr =>
      obtain ⟨rfl, rfl⟩ := Prod.mk.inj (Option.some.inj h)
      simp [hclip, clipRows, docPaste_cursorRow hpaste (not_not.1 hr)]

theorem remoteInsertChar_cursorRows {c : UInt8} (h : ed.remoteInsertChar c = some (res, ed')) :
    ed.SameRows ed' ∨ ed'.remoteCursorRow = ed.remoteCursorRow + 1 ∧ ed'.cursorRow =
      if ed.remoteCursorRow < ed.cursorRow then ed.cursorRow + 1 else ed.cursorRow := by
  unfold remoteInsertChar at h
  split at h
  · obtain ⟨doc, ⟨rfl, rfl⟩ | ⟨-, rfl⟩⟩ := commit_cases h fun _ _ => rfl
    · exact .inr ⟨by simp, by simp⟩
    · exact .inl ⟨rfl, rfl⟩
  · obtain ⟨doc, ⟨rfl, rfl⟩ | ⟨-, rfl⟩⟩ := commit_cases h fun _ _ => rfl
    · exact .inl ⟨by simp, by simp⟩
    · exact .inl ⟨rfl, rfl⟩

theorem remoteDeleteChar_cursorRows (h : ed.remoteDeleteChar = some (res, ed')) :
    if ed.remoteCursorCol ≤ 0 ∧ 0 < ed.remoteCursorRow ∧ res = .ok then
      ed'.remoteCursorRow = ed.remoteCursorRow - 1 ∧ ed'.cursorRow =
        if ed.remoteCursorRow < ed.cursorRow then ed.cursorRow - 1 else ed.cursorRow
    else ed.SameRows ed' := by
  unfold remoteDeleteChar at h
  split at h
  · next hcol =>
    obtain ⟨doc, -, h⟩ := Option.bind_eq_some_iff.1 h
    obtain ⟨rfl, rfl⟩ := Prod.mk.inj (Option.some.inj h)
    rw [if_neg fun h => Int.not_le.2 hcol h.1]
    exact ⟨by simp, by simp⟩
  · next hcol =>
    split at h
    · next hrow =>
      obtain ⟨_, -, h⟩ := Option.bind_eq_some_iff.1 h
      obtain ⟨doc, ⟨rfl, rfl⟩ | ⟨hres, rfl⟩⟩ := commit_cases h fun _ _ => rfl
      · rw [if_pos ⟨Int.not_lt.1 hcol, hrow, rfl⟩]
        exact ⟨by simp, by simp⟩
      · rw [if_neg fun h => hres h.2.2]
        exact ⟨rfl, rfl⟩
    · next hrow =>
      obtain ⟨rfl, rfl⟩ := Prod.mk.inj (Option.some.inj h)
      rw [if_neg fun h => hrow h.2.1]
      exact ⟨by simp, by simp⟩

theorem remoteReplaceBlock_cursorRows {startRow deletedCount insertedCount : Int}
    (h : ed.remoteReplaceBlock startRow deletedCount insertedCount = some (res, ed')) :
    ed'.remoteCursorRow = ed.remoteCursorRow ∧ ed'.cursorRow =
      if 0 ≤ startRow ∧ startRow ≤ ed.doc.rowCount ∧
          startRow + ed.doc.actualDeleted startRow deletedCount ≤ ed.cursorRow ∧ res = .ok then
        ed.cursorRow + (insertedCount - ed.doc.actualDeleted startRow deletedCount)
      else ed.cursorRow := by
  unfold remoteReplaceBlock at h
  split at h
  · next hout =>
    obtain ⟨rfl, rfl⟩ := Prod.mk.inj (Option.some.inj h)
    refine ⟨rfl, (if_neg ?_).symm⟩
    omega
  · next hin =>
    obtain ⟨doc, ⟨rfl, rfl⟩ | ⟨hres, rfl⟩⟩ := commit_cases h fun _ _ => rfl
    · simp [Int.not_lt.1 (not_or.1 hin).1, Int.not_lt.1 (not_or.1 hin).2]
    · simp [hres]

theorem remoteUpdateLine_cursorRows {row len : Int} {text : List UInt8}
    (h : ed.remoteUpdateLine row text len = some (res, ed')) : ed.SameRows ed' := by
  unfold remoteUpdateLine at h
  split at h
  · obtain ⟨rfl, rfl⟩ := Prod.mk.inj (Option.some.inj h)
    exact ⟨rfl, rfl⟩
  · obtain ⟨doc, ⟨rfl, rfl⟩ | ⟨hres, rfl⟩⟩ := commit_cases h fun _ _ => rfl
    · exact ⟨by simp, by simp⟩
    · exact ⟨rfl, rfl⟩

/-- An operation that takes the local cursor to `row` if `c` holds. -/
theorem apart_of_rows {c : Prop} [Decidable c] {row : Int} (happ : ed.Apart)
    (h : ed'.remoteCursorRow = ed.remoteCursorRow ∧
      ed'.cursorRow = if c then row else ed.cursorRow)
    (hne : 0 ≤ ed.remoteCursorRow → c → row ≠ ed.remoteCursorRow) : ed'.Apart := by
  rw [Apart, h.1, h.2]
  intro hrem
  split
  · next hc => exact hne hrem hc
  · exact happ hrem

theorem init_cursorRows {ok : Bool} (h : ed.init = some (ok, ed')) (hok : ok = true) :
    ed'.remoteCursorRow = ed.remoteCursorRow ∧ ed'.cursorRow = 0 := by
  unfold init at h
  obtain ⟨ed₁, hclean, h⟩ := Option.bind_eq_some_iff.1 h
  have hrem : ed₁.remoteCursorRow = ed.remoteCursorRow := by
    unfold cleanup at hclean
    split at hclean
    · obtain ⟨doc, -, hclean⟩ := Option.bind_eq_some_iff.1 hclean
      obtain rfl := Option.some.inj hclean
      rfl
    · obtain rfl := Option.some.inj hclean
      rfl
  dsimp only at h
  obtain ⟨⟨grown, doc⟩, -, h⟩ := Option.bind_eq_some_iff.1 h
  dsimp only at h
  split at h
  · obtain ⟨rfl, -⟩ := Prod.mk.inj (Option.some.inj h)
    exact nomatch hok
  · obtain ⟨doc₁, -, h⟩ := Option.bind_eq_some_iff.1 h
    obtain ⟨⟨grown₁, doc₂⟩, -, h⟩ := Option.bind_eq_some_iff.1 h
    dsimp only at h
    split at h
    · obtain ⟨rfl, -⟩ := Prod.mk.inj (Option.some.inj h)
      exact nomatch hok
    · obtain ⟨-, rfl⟩ := Prod.mk.inj (Option.some.inj h)
      exact ⟨hrem, rfl⟩

/-! ## One step and a run -/

theorem apart_step {op : EditorOp} (happ : ed.Apart) (hadm : ed.Admits op)
    (hfree : ¬ ed.Collides op) (h : ed.apply op = some (res, ed')) : ed'.Apart := by
  have hmap : ∀ {x : Option Editor}, x.map (EditorResult.ok, ·) = some (res, ed') → x = some ed' := by
    intro x hx
    obtain ⟨_, rfl, heq⟩ := Option.map_eq_some_iff.1 hx
    rw [(Prod.mk.inj heq).2]
  have hsome : ∀ {e : Editor}, some (EditorResult.ok, e) = some (res, ed') → e = ed' :=
    fun heq => (Prod.mk.inj (Option.some.inj heq)).2
  cases op with
  | insertChar c =>
    refine apart_of_rows happ (insertChar_cursorRows h) fun hrem hc heq => ?_
    exact hfree ⟨hrem, hc.1, heq.symm⟩
  | deleteChar =>
    refine apart_of_rows happ (deleteChar_cursorRows h) fun hrem hc heq => ?_
    exact hfree ⟨hrem, hc.1, hc.2.1, heq.symm⟩
  | deleteWord => exact (deleteWord_cursorRows h).apart.2 happ
  | moveLeft =>
    refine apart_of_rows happ (moveLeft_cursorRows (hmap h)) fun hrem hc heq => ?_
    exact hfree ⟨hrem, hc.1, hc.2, heq.symm⟩
  | moveRight =>
    refine apart_of_rows happ (moveRight_cursorRows (hmap h)) fun hrem hc heq => ?_
    exact hfree ⟨hrem, hc.1, hc.2, heq.symm⟩
  | moveUp => exact apart_of_rows happ (moveUp_cursorRows (hmap h)) fun _ hc => hc.2
  | moveDown => exact apart_of_rows happ (moveDown_cursorRows (hmap h)) fun _ hc => hc.2
  | moveWordLeft => exact (moveWordLeft_cursorRows (hmap h)).apart.2 happ
  | moveWordRight => exact (moveWordRight_cursorRows (hmap h)).apart.2 happ
  | moveHome =>
    obtain rfl := hsome h
    exact (SameRows.apart ⟨by simp [moveHome], by simp [moveHome]⟩).2 happ
  | moveEnd => exact (moveEnd_cursorRows (hmap h)).apart.2 happ
  | setCursor row col =>
    obtain ⟨hrem, hrow⟩ := setCursor_cursorRows (hmap h)
    rw [← ite_not] at hrow
    refine apart_of_rows happ ⟨hrem, hrow⟩ fun hnn hc heq => ?_
    exact hfree ⟨hnn, hc, heq.symm⟩
  | scrollBy drow dcol =>
    obtain rfl := hsome h
    obtain ⟨_, _, _, heq⟩ := scrollBy_eq ed drow dcol
    rw [heq]
    exact happ
  | selSetAnchor =>
    obtain rfl := hsome h
    exact happ
  | selClear =>
    obtain rfl := hsome h
    exact happ
  | deleteSelection =>
    refine apart_of_rows happ (deleteSelection_cursorRows h) fun hrem hc heq => ?_
    exact hfree ⟨hrem, hc.1, hc.2.1, heq.symm⟩
  | copySelection => exact (copySelection_cursorRows (hmap h)).apart.2 happ
  | paste =>
    refine apart_of_rows happ (paste_cursorRows h) fun hrem hc heq => ?_
    exact hfree ⟨hrem, hc.1, heq.symm⟩
  | setRemoteCursor row col =>
    obtain rfl := hsome h
    unfold setRemoteCursor
    split
    · exact happ
    · next hne => exact fun _ heq => hne heq.symm
  | remoteInsertChar c =>
    -- both rows move down, or the local one is above and stays
    rcases remoteInsertChar_cursorRows h with hsame | ⟨hrem, hrow⟩
    · exact hsame.apart.2 happ
    · have hne := happ hadm.1
      rw [Apart, hrem, hrow]
      split <;> omega
  | remoteDeleteChar =>
    have hrows := remoteDeleteChar_cursorRows h
    have hne := happ hadm.1
    split at hrows
    · next hc =>
      have hbelow : ed.cursorRow ≠ ed.remoteCursorRow - 1 := fun heq =>
        hfree ⟨hadm.1, hc.1, hc.2.1, heq⟩
      rw [Apart, hrows.1, hrows.2]
      split <;> omega
    · exact hrows.apart.2 happ
  | remoteReplaceBlock startRow deletedCount insertedCount =>
    refine apart_of_rows happ (remoteReplaceBlock_cursorRows h) fun hrem hc heq => ?_
    exact hfree ⟨hrem, hc.1, hc.2.1, hc.2.2.1, heq.symm⟩
  | remoteUpdateLine row text len => exact (remoteUpdateLine_cursorRows h).apart.2 happ

/-- A step that succeeds and collides does bring the cursors together. -/
theorem Collides.meet {op : EditorOp} (hcol : ed.Collides op)
    (h : ed.apply op = some (.ok, ed')) : ¬ ed'.Apart := by
  have hmap : ∀ {x : Option Editor}, x.map (EditorResult.ok, ·) = some (.ok, ed') → x = some ed' := by
    intro x hx
    obtain ⟨_, rfl, heq⟩ := Option.map_eq_some_iff.1 hx
    rw [(Prod.mk.inj heq).2]
  -- the local cursor goes to the row of the other
  have hmeet : ∀ {c : Prop} [Decidable c] {row : Int},
      (ed'.remoteCursorRow = ed.remoteCursorRow ∧
        ed'.cursorRow = if c then row else ed.cursorRow) → c → ed.remoteCursorRow = row →
      ¬ ed'.Apart := by
    intro c _ row hrows hc heq happ
    rw [Apart, hrows.1, hrows.2, if_pos hc] at happ
    exact happ hcol.1 heq.symm
  obtain ⟨hnn, hcol⟩ := hcol
  cases op with
  | insertChar c => exact hmeet (insertChar_cursorRows h) ⟨hcol.1, rfl⟩ hcol.2
  | deleteChar => exact hmeet (deleteChar_cursorRows h) ⟨hcol.1, hcol.2.1, rfl⟩ hcol.2.2
  | moveLeft => exact hmeet (moveLeft_cursorRows (hmap h)) ⟨hcol.1, hcol.2.1⟩ hcol.2.2
  | moveRight => exact hmeet (moveRight_cursorRows (hmap h)) ⟨hcol.1, hcol.2.1⟩ hcol.2.2
  | setCursor row col =>
    obtain ⟨hrem, hrow⟩ := setCursor_cursorRows (hmap h)
    rw [← ite_not] at hrow
    exact hmeet ⟨hrem, hrow⟩ hcol.1 hcol.2
  | deleteSelection => exact hmeet (deleteSelection_cursorRows h) ⟨hcol.1, hcol.2.1, rfl⟩ hcol.2.2
  | paste => exact hmeet (paste_cursorRows h) ⟨hcol.1, rfl⟩ hcol.2
  | remoteDeleteChar =>
    have hrows := remoteDeleteChar_cursorRows h
    rw [if_pos ⟨hcol.1, hcol.2.1, rfl⟩] at hrows
    intro happ
    rw [Apart, hrows.1, hrows.2] at happ
    split at happ <;> omega
  | remoteReplaceBlock startRow deletedCount insertedCount =>
    exact hmeet (remoteReplaceBlock_cursorRows h) ⟨hcol.1, hcol.2.1, hcol.2.2.1, rfl⟩ hcol.2.2.2
  | _ => exact hcol.elim

end Rows

end Editor

/-- Started anywhere but under the remote cursor, the two users stay in different
rows as long as no operation collides. -/
theorem rows_stay_apart {ed₀ ed ed' : Editor} {ops : List EditorOp}
    (hinit : ed₀.init = some (true, ed)) (hrow : ed₀.remoteCursorRow ≠ 0)
    (hclear : Along Editor.step (fun ed op => ed.Admits op ∧ ¬ ed.Collides op) ed ops)
    (h : ed.applyAll ops = some ed') : ed'.Apart := by
  obtain ⟨hrem, hcur⟩ := Editor.init_cursorRows hinit rfl
  refine Along.foldlM_invariant (fun ed op ed' happ hop hstep => ?_) (fun _ heq => hrow ?_)
    hclear h
  · obtain ⟨⟨res, _⟩, hap, rfl⟩ := Option.map_eq_some_iff.1 hstep
    exact Editor.apart_step happ hop.1 hop.2 hap
  · rw [← hrem, ← heq, hcur]

/-- The peer splits the row above and joins it again; `editor_move_up` is refused. -/
theorem rows_stay_apart_split : ∃ ed ed', (Editor.static Heap.zeros).init = some (true, ed) ∧
    ed.applyAll [.insertChar newline, .setRemoteCursor 0 0, .remoteInsertChar newline, .moveUp,
      .remoteDeleteChar] = some ed' ∧ ed'.Apart := by
  have hrun : ((Editor.static Heap.zeros).init.bind fun r =>
      (r.2.applyAll [.insertChar newline, .setRemoteCursor 0 0, .remoteInsertChar newline, .moveUp,
        .remoteDeleteChar]).map fun _ => decide (r.1 = true ∧
          Along Editor.step (fun ed op => ed.Admits op ∧ ¬ ed.Collides op) r.2
            [.insertChar newline, .setRemoteCursor 0 0, .remoteInsertChar newline, .moveUp,
              .remoteDeleteChar])) = some true := by
    decide +kernel
  obtain ⟨⟨ok, ed⟩, hinit, hrun⟩ := Option.bind_eq_some_iff.1 hrun
  obtain ⟨ed', hops, hrun⟩ := Option.map_eq_some_iff.1 hrun
  obtain ⟨rfl, hclear⟩ := of_decide_eq_true hrun
  exact ⟨ed, ed', hinit, hops, rows_stay_apart hinit (by decide) hclear hops⟩

/-- `editor_move_right` at the end of row 0 enters the row of the remote cursor. -/
theorem right_meets_remote : ∃ ed ed', (Editor.static Heap.zeros).init = some (true, ed) ∧
    Along Editor.step Editor.Admits ed [.insertChar newline, .moveUp, .setRemoteCursor 1 0, .moveRight] ∧
    ed.applyAll [.insertChar newline, .moveUp, .setRemoteCursor 1 0, .moveRight] = some ed' ∧
    ¬ ed'.Apart := by
  have hrun : ((Editor.static Heap.zeros).init.bind fun r =>
      (r.2.applyAll [.insertChar newline, .moveUp, .setRemoteCursor 1 0, .moveRight]).map
        fun ed' => decide (r.1 = true ∧ Along Editor.step Editor.Admits r.2
          [.insertChar newline, .moveUp, .setRemoteCursor 1 0, .moveRight] ∧ ¬ ed'.Apart)) =
      some true := by
    decide +kernel
  obtain ⟨⟨ok, ed⟩, hinit, hrun⟩ := Option.bind_eq_some_iff.1 hrun
  obtain ⟨ed', hops, hrun⟩ := Option.map_eq_some_iff.1 hrun
  obtain ⟨rfl, hadm, hmeet⟩ := of_decide_eq_true hrun
  exact ⟨ed, ed', hinit, hadm, hops, hmeet⟩

end LCode
