import LCode.Editor.Line

/-!
# The editor

The functions of `editor.c` over its static state. Those that edit text are
split in two: the statements on the line array, at a row and column given as
arguments, and the cursor they are called with. `editor_insert_char` and
`editor_remote_insert_char` (and the two deletions) run the same statements at
the two cursors.
-/

namespace LCode

inductive EditorResult where
  | ok
  | errNoClipboard
  | errAllocFailed
  deriving DecidableEq, Repr

def newline : UInt8 := 10

def space : UInt8 := 32

structure Editor where
  doc : Doc
  cursorRow : Int
  cursorCol : Int
  scrollRow : Int
  scrollCol : Int
  visibleRows : Int
  visibleCols : Int
  scrollDirty : Bool
  selActive : Bool
  selAnchorRow : Int
  selAnchorCol : Int
  selDirty : Bool
  remote : Bool
  remoteCursorRow : Int
  remoteCursorCol : Int
  clipboard : Option (List UInt8)

/-! ## Edits of the line array -/

namespace Doc

/-- The in-line case of the two insertions: `c` at column `col` of `row`. -/
def insertInLine (d : Doc) (row col : Int) (c : UInt8) : Option (EditorResult × Doc) := do
  let (ok, d) ← d.lineEnsureCap row ((← d.line row).len + 2)
  if !ok then return (.errAllocFailed, d)
  let ln ← d.line row
  let buf ← ln.buf.move (col + 1) col (ln.len - col + 1)
  let buf ← buf.store col [c]
  let d ← d.setLine row { ln with buf, len := ln.len + 1 }
  return (.ok, d)

/-- The newline case of the two insertions: `row` is split at column `col`. -/
def splitLine (d : Doc) (row col : Int) : Option (EditorResult × Doc) := do
  let (ok, d) ← d.linesEnsureCap (d.rowCount + 1)
  if !ok then return (.errAllocFailed, d)
  let d ← d.moveLines (row + 2) (row + 1) (d.rowCount - row - 1)
  let tailLen := (← d.line row).len - col
  let d ← d.setLine (row + 1) Line.zero
  let (ok, d) ← d.lineEnsureCap (row + 1) tailLen
  -- `row_count` still counts the rows before the shift
  if !ok then return (.errAllocFailed, d)
  let newLine ← d.line (row + 1)
  let buf ← newLine.buf.store 0 (← (← d.line row).buf.slice col tailLen)
  let buf ← buf.store tailLen [0]
  let d ← d.setLine (row + 1) { newLine with buf, len := tailLen }
  let ln ← d.line row
  let d ← d.setLine row { ln with buf := ← ln.buf.store col [0], len := col }
  return (.ok, { d with rowCount := d.rowCount + 1 })

/-- The in-line case of the two deletions: the byte at column `col` of `row`
goes. -/
def deleteInLine (d : Doc) (row col : Int) : Option Doc := do
  let ln ← d.line row
  let buf ← ln.buf.move col (col + 1) (ln.len - col)
  d.setLine row { ln with buf, len := ln.len - 1 }

/-- The merging case of the two deletions: `row` is appended to the row above. -/
def joinLine (d : Doc) (row : Int) : Option (EditorResult × Doc) := do
  let prevLen := (← d.line (row - 1)).len
  let currLen := (← d.line row).len
  let (ok, d) ← d.lineEnsureCap (row - 1) (prevLen + currLen + 1)
  if !ok then return (.errAllocFailed, d)
  let prev ← d.line (row - 1)
  let buf ← prev.buf.store prevLen (← (← d.line row).buf.slice 0 (currLen + 1))
  let d ← d.setLine (row - 1) { prev with buf, len := prevLen + currLen }
  let d ← d.freeLines row 1
  let d ← d.moveLines row (row + 1) (d.rowCount - row - 1)
  let d ← d.setLine (d.rowCount - 1) Line.zero
  return (.ok, { d with rowCount := d.rowCount - 1 })

/-- The single-row case of `editor_delete_selection`, and `editor_delete_word`:
the bytes from `startCol` to `endCol` go. -/
def deleteSpan (d : Doc) (row startCol endCol : Int) : Option Doc := do
  let ln ← d.line row
  let buf ← ln.buf.move startCol endCol (ln.len - endCol + 1)
  d.setLine row { ln with buf, len := ln.len - (endCol - startCol) }

/-- The multi-row case of `editor_delete_selection`. -/
def deleteRows (d : Doc) (startRow startCol endRow endCol : Int) :
    Option (EditorResult × Doc) := do
  let tailLen := (← d.line endRow).len - endCol
  let (ok, d) ← d.lineEnsureCap startRow (startCol + tailLen + 1)
  if !ok then return (.errAllocFailed, d)
  let first ← d.line startRow
  let buf ← first.buf.store startCol (← (← d.line endRow).buf.slice endCol (tailLen + 1))
  let d ← d.setLine startRow { first with buf, len := startCol + tailLen }
  let removed := endRow - startRow
  let d ← d.freeLines (startRow + 1) removed.toNat
  let d ← d.moveLines (startRow + 1) (endRow + 1) (d.rowCount - endRow - 1)
  let d ← d.zeroLines (d.rowCount - removed) removed.toNat
  return (.ok, { d with rowCount := d.rowCount - removed })

/-- The newline round of `editor_paste`: an empty row is opened below `row`. -/
def openLine (d : Doc) (row : Int) : Option (EditorResult × Doc) := do
  let (ok, d) ← d.linesEnsureCap (d.rowCount + 1)
  if !ok then return (.errAllocFailed, d)
  let d ← d.moveLines (row + 2) (row + 1) (d.rowCount - row - 1)
  let d ← d.setLine (row + 1) Line.zero
  let (ok, d) ← d.lineEnsureCap (row + 1) 0
  if !ok then return (.errAllocFailed, d)
  return (.ok, { d with rowCount := d.rowCount + 1 })

/-- The segment round of `editor_paste`: `seg` is written at the end of `row`. -/
def appendSegment (d : Doc) (row col : Int) (seg : List UInt8) : Option (EditorResult × Doc) := do
  let (ok, d) ← d.lineEnsureCap row (col + seg.length + 1)
  if !ok then return (.errAllocFailed, d)
  let ln ← d.line row
  let buf ← ln.buf.store col seg
  let buf ← buf.store (col + seg.length) [0]
  let d ← d.setLine row { ln with buf, len := col + seg.length }
  return (.ok, d)

/-- `while (*p)` of `editor_paste`, with a bound on its rounds: `p` is the
memory from the read position on, `(row, col)` the destination. -/
def pasteLoop (d : Doc) (row col : Int) : Nat → List UInt8 →
    Option (EditorResult × Doc × Int × Int)
  | 0, _ => none
  | fuel + 1, p => do
    let c ← p.head?
    if c = 0 then return (.ok, d, row, col)
    else if c = newline then do
      let (res, d) ← d.openLine row
      if res ≠ .ok then return (res, d, row, col)
      d.pasteLoop (row + 1) 0 fuel p.tail
    else do
      let seg := p.takeWhile fun c => c ≠ 0 && c ≠ newline
      let (res, d) ← d.appendSegment row col seg
      if res ≠ .ok then return (res, d, row, col)
      d.pasteLoop row (col + seg.length) fuel (p.drop seg.length)

/-- `editor_paste` of the text at `clip`, at `(row, col)`: the destination is
where the pasted text ends. -/
def paste (d : Doc) (row col : Int) (clip : List UInt8) :
    Option (EditorResult × Doc × Int × Int) := do
  let ln ← d.line row
  let tailLen := ln.len - col
  match d.heap.malloc (tailLen + 1) with
  | none => return (.errAllocFailed, { d with heap := d.heap.next }, row, col)
  | some tail => do
    let d := { d with heap := d.heap.next }
    let tail ← Block.store tail 0 (← ln.buf.slice col (tailLen + 1))
    let d ← d.setLine row { ln with buf := ← ln.buf.store col [0], len := col }
    let (res, d, destRow, destCol) ← d.pasteLoop row col (clip.length + 1) clip
    if res ≠ .ok then return (res, d, row, col)
    let (ok, d) ← d.lineEnsureCap destRow (destCol + tailLen + 1)
    if !ok then return (.errAllocFailed, d, row, col)
    let dest ← d.line destRow
    let buf ← dest.buf.store destCol (← Block.slice tail 0 (tailLen + 1))
    let d ← d.setLine destRow { dest with buf, len := destCol + tailLen }
    return (.ok, d, destRow, destCol)

/-- `editor_load_line`: `text` is the memory the pointer leads to. -/
def loadLine (d : Doc) (text : List UInt8) (len : Int) : Option (EditorResult × Doc) := do
  let (ok, d) ← d.lineEnsureCap (d.rowCount - 1) len
  if !ok then return (.errAllocFailed, d)
  let ln ← d.line (d.rowCount - 1)
  let buf ← ln.buf.store 0 (← Block.slice text 0 (len + 1))
  let d ← d.setLine (d.rowCount - 1) { ln with buf, len }
  let (ok, d) ← d.linesEnsureCap (d.rowCount + 1)
  if !ok then return (.errAllocFailed, d)
  let d ← d.setLine d.rowCount Line.zero
  return (.ok, { d with rowCount := d.rowCount + 1 })

/-- `editor_load_finalize`. -/
def loadFinalize (d : Doc) : Option Doc :=
  if 1 < d.rowCount then do
    if (← d.line (d.rowCount - 1)).len = 0 then return { d with rowCount := d.rowCount - 1 }
    return d
  else some d

/-- The rows `editor_remote_replace_block` really deletes. -/
def actualDeleted (d : Doc) (startRow deletedCount : Int) : Int :=
  if d.rowCount < startRow + deletedCount then d.rowCount - startRow else deletedCount

/-- `editor_remote_replace_block` on the line array, for a start row in range. -/
def replaceBlock (d : Doc) (startRow deletedCount insertedCount : Int) :
    Option (EditorResult × Doc) := do
  let actual := d.actualDeleted startRow deletedCount
  let d ← d.freeLines startRow actual.toNat
  let shift := insertedCount - actual
  let (ok, d) ← if 0 < shift then d.linesEnsureCap (d.rowCount + shift) else some (true, d)
  if !ok then return (.errAllocFailed, d)
  let remaining := d.rowCount - (startRow + actual)
  let d ← if 0 < remaining then
      d.moveLines (startRow + insertedCount) (startRow + actual) remaining
    else some d
  let d ← d.zeroLines startRow insertedCount.toNat
  return (.ok, { d with rowCount := d.rowCount + shift })

/-- `editor_remote_update_line` on the line array, for a row in range. -/
def updateLine (d : Doc) (row : Int) (text : List UInt8) (len : Int) :
    Option (EditorResult × Doc) := do
  let (ok, d) ← d.lineEnsureCap row len
  if !ok then return (.errAllocFailed, d)
  let ln ← d.line row
  let buf ← ln.buf.store 0 (← Block.slice text 0 len)
  let buf ← buf.store len [0]
  let d ← d.setLine row { ln with buf, len }
  return (.ok, d)

end Doc

/-! ## Word boundaries -/

/-- `while (col > 0 && pred(buf[col - 1])) col--;` -/
def skipLeft (buf : Buf) (pred : UInt8 → Bool) : Nat → Int → Option Int
  | 0, col => some col
  | fuel + 1, col =>
    if 0 < col then do
      if pred (← buf.read (col - 1)) then skipLeft buf pred fuel (col - 1) else return col
    else some col

/-- `while (col < len && pred(buf[col])) col++;` -/
def skipRight (buf : Buf) (pred : UInt8 → Bool) (len : Int) : Nat → Int → Option Int
  | 0, col => some col
  | fuel + 1, col =>
    if col < len then do
      if pred (← buf.read col) then skipRight buf pred len fuel (col + 1) else return col
    else some col

/-- The two loops of `editor_delete_word` and `editor_move_word_left`. -/
def wordLeft (buf : Buf) (col : Int) : Option Int := do
  let col ← skipLeft buf (· == space) col.toNat col
  skipLeft buf (· != space) col.toNat col

/-- The two loops of `editor_move_word_right`. -/
def wordRight (buf : Buf) (len col : Int) : Option Int := do
  let col ← skipRight buf (· != space) len (len - col).toNat col
  skipRight buf (· == space) len (len - col).toNat col

namespace Editor

/-! ## Set-up, scrolling and the cursor -/

/-- The static state before `editor_init`. -/
def static (heap : Heap) : Editor where
  doc := ⟨none, 0, 1, heap⟩
  cursorRow := 0
  cursorCol := 0
  scrollRow := 0
  scrollCol := 0
  visibleRows := 0
  visibleCols := 0
  scrollDirty := false
  selActive := false
  selAnchorRow := 0
  selAnchorCol := 0
  selDirty := false
  remote := false
  remoteCursorRow := -1
  remoteCursorCol := -1
  clipboard := none

/-- `editor_cleanup`. -/
def cleanup (ed : Editor) : Option Editor := do
  let doc ← match ed.doc.lines with
    | some _ => do
      let doc ← ed.doc.freeLines 0 ed.doc.rowCount.toNat
      some { doc with lines := none, rowCap := 0 }
    | none => some ed.doc
  return { ed with doc, clipboard := none }

/-- `editor_init`: whether it returned 0, and the state. -/
def init (ed : Editor) : Option (Bool × Editor) := do
  let ed ← ed.cleanup
  let ed := { ed with doc := { ed.doc with rowCount := 1 } }
  let (ok, doc) ← ed.doc.linesEnsureCap 0
  if !ok then return (false, { ed with doc })
  let doc ← doc.setLine 0 Line.zero
  let (ok, doc) ← doc.lineEnsureCap 0 0
  if !ok then return (false, { ed with doc })
  return (true, { ed with
    doc
    cursorRow := 0
    cursorCol := 0
    scrollRow := 0
    scrollCol := 0
    scrollDirty := false
    selActive := false
    selDirty := false
    remote := false })

/-- `editor_set_viewport`. -/
def setViewport (ed : Editor) (rows cols : Int) : Editor :=
  { ed with visibleRows := rows, visibleCols := cols }

/-- The row half of `clamp_scroll`. -/
def clampScrollRow (ed : Editor) : Editor :=
  if ed.cursorRow < ed.scrollRow then
    { ed with scrollRow := ed.cursorRow, scrollDirty := true }
  else if ed.scrollRow + ed.visibleRows ≤ ed.cursorRow then
    { ed with scrollRow := ed.cursorRow - ed.visibleRows + 1, scrollDirty := true }
  else ed

/-- The column half of `clamp_scroll`. -/
def clampScrollCol (ed : Editor) : Editor :=
  if ed.cursorCol < ed.scrollCol then
    { ed with scrollCol := ed.cursorCol, scrollDirty := true }
  else if ed.scrollCol + ed.visibleCols ≤ ed.cursorCol then
    { ed with scrollCol := ed.cursorCol - ed.visibleCols + 1, scrollDirty := true }
  else ed

/-- `clamp_scroll`. -/
def clampScroll (ed : Editor) : Editor :=
  let ed := ed.clampScrollRow.clampScrollCol
  if ed.selActive then { ed with selDirty := true } else ed

/-- `editor_scroll_by`. -/
def scrollBy (ed : Editor) (drow dcol : Int) : Editor :=
  let newRow := ed.scrollRow + drow
  let newCol := ed.scrollCol + dcol
  let newRow := if newRow < 0 then 0 else newRow
  let newRow := if ed.doc.rowCount - 1 < newRow then ed.doc.rowCount - 1 else newRow
  let newCol := if newCol < 0 then 0 else newCol
  if newRow ≠ ed.scrollRow ∨ newCol ≠ ed.scrollCol then
    { ed with scrollRow := newRow, scrollCol := newCol, scrollDirty := true }
  else ed

/-- `editor_set_cursor`. -/
def setCursor (ed : Editor) (row col : Int) : Option Editor :=
  -- block same row
  if ed.remoteCursorRow = row then some ed
  else do
    let row := if row < 0 then 0 else row
    let row := if ed.doc.rowCount ≤ row then ed.doc.rowCount - 1 else row
    let len := (← ed.doc.line row).len
    let col := if col < 0 then 0 else col
    let col := if len < col then len else col
    return { ed with cursorRow := row, cursorCol := col }.clampScroll

/-- `editor_consume_scroll_dirty`. -/
def consumeScrollDirty (ed : Editor) : Bool × Editor :=
  (ed.scrollDirty, { ed with scrollDirty := false })

/-! ## Edits at the local cursor -/

/-- `editor_insert_char`. -/
def insertChar (ed : Editor) (c : UInt8) : Option (EditorResult × Editor) :=
  if c = newline then do
    let (res, doc) ← ed.doc.splitLine ed.cursorRow ed.cursorCol
    if res ≠ .ok then return (res, { ed with doc })
    return (.ok, { ed with doc, cursorRow := ed.cursorRow + 1, cursorCol := 0 }.clampScroll)
  else do
    let (res, doc) ← ed.doc.insertInLine ed.cursorRow ed.cursorCol c
    if res ≠ .ok then return (res, { ed with doc })
    return (.ok, { ed with doc, cursorCol := ed.cursorCol + 1 }.clampScroll)

/-- `editor_delete_char`. -/
def deleteChar (ed : Editor) : Option (EditorResult × Editor) :=
  if 0 < ed.cursorCol then do
    let doc ← ed.doc.deleteInLine ed.cursorRow (ed.cursorCol - 1)
    return (.ok, { ed with doc, cursorCol := ed.cursorCol - 1 }.clampScroll)
  else if 0 < ed.cursorRow then do
    let prevLen := (← ed.doc.line (ed.cursorRow - 1)).len
    let (res, doc) ← ed.doc.joinLine ed.cursorRow
    if res ≠ .ok then return (res, { ed with doc })
    return (.ok, { ed with doc, cursorRow := ed.cursorRow - 1, cursorCol := prevLen }.clampScroll)
  else some (.ok, ed.clampScroll)

/-- `editor_delete_word`. -/
def deleteWord (ed : Editor) : Option (EditorResult × Editor) :=
  if ed.cursorCol = 0 then some (.ok, ed)
  else do
    let ln ← ed.doc.line ed.cursorRow
    let col ← wordLeft ln.buf ed.cursorCol
    let doc ← ed.doc.deleteSpan ed.cursorRow col ed.cursorCol
    return (.ok, { ed with doc, cursorCol := col }.clampScroll)

/-! ## Cursor moves -/

/-- `editor_move_left`. -/
def moveLeft (ed : Editor) : Option Editor :=
  if 0 < ed.cursorCol then some { ed with cursorCol := ed.cursorCol - 1 }.clampScroll
  else if 0 < ed.cursorRow then do
    let len := (← ed.doc.line (ed.cursorRow - 1)).len
    return { ed with cursorRow := ed.cursorRow - 1, cursorCol := len }.clampScroll
  else some ed.clampScroll

/-- `editor_move_right`. -/
def moveRight (ed : Editor) : Option Editor := do
  let len := (← ed.doc.line ed.cursorRow).len
  if ed.cursorCol < len then return { ed with cursorCol := ed.cursorCol + 1 }.clampScroll
  else if ed.cursorRow < ed.doc.rowCount - 1 then
    return { ed with cursorRow := ed.cursorRow + 1, cursorCol := 0 }.clampScroll
  else return ed.clampScroll

/-- The row `editor_move_up` and `editor_move_down` go to, the column clamped. -/
def enterRow (ed : Editor) (row : Int) : Option Editor := do
  let len := (← ed.doc.line row).len
  return { ed with
    cursorRow := row
    cursorCol := if len < ed.cursorCol then len else ed.cursorCol }.clampScroll

/-- `editor_move_up`. -/
def moveUp (ed : Editor) : Option Editor :=
  if 0 < ed.cursorRow then
    if ed.cursorRow - 1 = ed.remoteCursorRow then some ed else ed.enterRow (ed.cursorRow - 1)
  else some ed.clampScroll

/-- `editor_move_down`. -/
def moveDown (ed : Editor) : Option Editor :=
  if ed.cursorRow < ed.doc.rowCount - 1 then
    if ed.cursorRow + 1 = ed.remoteCursorRow then some ed else ed.enterRow (ed.cursorRow + 1)
  else some ed.clampScroll

/-- `editor_move_word_left`. -/
def moveWordLeft (ed : Editor) : Option Editor := do
  let col ← wordLeft (← ed.doc.line ed.cursorRow).buf ed.cursorCol
  return { ed with cursorCol := col }.clampScroll

/-- `editor_move_word_right`. -/
def moveWordRight (ed : Editor) : Option Editor := do
  let ln ← ed.doc.line ed.cursorRow
  let col ← wordRight ln.buf ln.len ed.cursorCol
  return { ed with cursorCol := col }.clampScroll

/-- `editor_move_home`. -/
def moveHome (ed : Editor) : Editor := { ed with cursorCol := 0 }.clampScroll

/-- `editor_move_end`. -/
def moveEnd (ed : Editor) : Option Editor := do
  return { ed with cursorCol := (← ed.doc.line ed.cursorRow).len }.clampScroll

/-- `editor_get_line`, as the buffer the pointer leads to: "" out of range. -/
def getLine (ed : Editor) (row : Int) : Option Buf :=
  if row < 0 ∨ ed.doc.rowCount ≤ row then some (.block [0])
  else do return (← ed.doc.line row).buf

/-- `editor_get_line_len`. -/
def getLineLen (ed : Editor) (row : Int) : Option Int :=
  if row < 0 ∨ ed.doc.rowCount ≤ row then some 0
  else do return (← ed.doc.line row).len

/-! ## Selection and clipboard -/

/-- `editor_sel_get_range`: start row, start column, end row, end column. -/
def selGetRange (ed : Editor) : Int × Int × Int × Int :=
  if ed.selAnchorRow < ed.cursorRow ∨
      (ed.cursorRow = ed.selAnchorRow ∧ ed.selAnchorCol ≤ ed.cursorCol) then
    (ed.selAnchorRow, ed.selAnchorCol, ed.cursorRow, ed.cursorCol)
  else (ed.cursorRow, ed.cursorCol, ed.selAnchorRow, ed.selAnchorCol)

/-- The two cases of `editor_delete_selection`. -/
def deleteRange (d : Doc) (startRow startCol endRow endCol : Int) :
    Option (EditorResult × Doc) :=
  if startRow = endRow then do return (.ok, ← d.deleteSpan startRow startCol endCol)
  else d.deleteRows startRow startCol endRow endCol

/-- `editor_delete_selection`. -/
def deleteSelection (ed : Editor) : Option (EditorResult × Editor) :=
  if !ed.selActive then some (.ok, ed)
  else do
    let (startRow, startCol, endRow, endCol) := ed.selGetRange
    let (res, doc) ← deleteRange ed.doc startRow startCol endRow endCol
    if res ≠ .ok then return (res, { ed with doc })
    return (.ok, { ed with
      doc
      cursorRow := startRow
      cursorCol := startCol
      selActive := false
      selDirty := true }.clampScroll)

/-- `editor_sel_set_anchor`. -/
def selSetAnchor (ed : Editor) : Editor :=
  { ed with
    selAnchorRow := ed.cursorRow
    selAnchorCol := ed.cursorCol
    selActive := true
    selDirty := true }

/-- `editor_sel_clear`. -/
def selClear (ed : Editor) : Editor :=
  { ed with selDirty := ed.selDirty || ed.selActive, selActive := false }

/-- `editor_consume_sel_dirty`. -/
def consumeSelDirty (ed : Editor) : Bool × Editor :=
  (ed.selDirty, { ed with selDirty := false })

/-- The columns of row `r` that lie in the selection: `col_start`, `col_end`. -/
def selCols (d : Doc) (startRow startCol endRow endCol r : Int) : Option (Int × Int) := do
  let colEnd ← if r = endRow then some endCol else (d.line r).map Line.len
  return (if r = startRow then startCol else 0, colEnd)

/-- The first loop of `editor_copy_selection`, over the last `n` rows up to
`endRow`: how many bytes to allocate. -/
def measureLoop (d : Doc) (startRow startCol endRow endCol : Int) : Nat → Int → Option Int
  | 0, size => some size
  | n + 1, size => do
    let r := endRow - n
    let (colStart, colEnd) ← selCols d startRow startCol endRow endCol r
    measureLoop d startRow startCol endRow endCol n
      (size + (colEnd - colStart) + (if r < endRow then 1 else 0))

/-- The second loop of `editor_copy_selection`: the block and `idx`. -/
def fillLoop (d : Doc) (startRow startCol endRow endCol : Int) :
    Nat → List UInt8 → Int → Option (List UInt8 × Int)
  | 0, clip, idx => some (clip, idx)
  | n + 1, clip, idx => do
    let r := endRow - n
    let (colStart, colEnd) ← selCols d startRow startCol endRow endCol r
    let len := colEnd - colStart
    let clip ← Block.store clip idx (← (← d.line r).buf.slice colStart len)
    let idx := idx + len
    if r < endRow then
      fillLoop d startRow startCol endRow endCol n (← Block.store clip idx [newline]) (idx + 1)
    else fillLoop d startRow startCol endRow endCol n clip idx

/-- `editor_copy_selection`. -/
def copySelection (ed : Editor) : Option Editor :=
  if !ed.selActive then some ed
  else do
    let (startRow, startCol, endRow, endCol) := ed.selGetRange
    let rows := (endRow - startRow + 1).toNat
    let size ← measureLoop ed.doc startRow startCol endRow endCol rows 0
    let heap := ed.doc.heap.next
    match ed.doc.heap.malloc (size + 1) with
    | none => return { ed with doc := { ed.doc with heap }, clipboard := none }
    | some clip => do
      let (clip, idx) ← fillLoop ed.doc startRow startCol endRow endCol rows clip 0
      let clip ← Block.store clip idx [0]
      return { ed with doc := { ed.doc with heap }, clipboard := some clip }

/-- `editor_paste`. -/
def paste (ed : Editor) : Option (EditorResult × Editor) :=
  match ed.clipboard with
  | none => some (.errNoClipboard, ed)
  | some clip => do
    let (res, doc, destRow, destCol) ← ed.doc.paste ed.cursorRow ed.cursorCol clip
    if res ≠ .ok then return (res, { ed with doc })
    return (.ok, { ed with doc, cursorRow := destRow, cursorCol := destCol }.clampScroll)

/-- `editor_load_line`. -/
def loadLine (ed : Editor) (text : List UInt8) (len : Int) : Option (EditorResult × Editor) := do
  let (res, doc) ← ed.doc.loadLine text len
  return (res, { ed with doc })

/-- `editor_load_finalize`. -/
def loadFinalize (ed : Editor) : Option Editor := do
  return { ed with doc := ← ed.doc.loadFinalize }

/-! ## Edits of the remote peer -/

/-- `editor_set_remote_cursor`. -/
def setRemoteCursor (ed : Editor) (row col : Int) : Editor :=
  if row = ed.cursorRow then ed
  else { ed with remoteCursorRow := row, remoteCursorCol := col }

/-- `editor_remote_insert_char`. -/
def remoteInsertChar (ed : Editor) (c : UInt8) : Option (EditorResult × Editor) :=
  if c = newline then do
    let (res, doc) ← ed.doc.splitLine ed.remoteCursorRow ed.remoteCursorCol
    if res ≠ .ok then return (res, { ed with doc })
    return (.ok, { ed with
      doc
      remoteCursorRow := ed.remoteCursorRow + 1
      remoteCursorCol := 0
      -- the local cursor stays on its row's content
      cursorRow := if ed.remoteCursorRow < ed.cursorRow then ed.cursorRow + 1
        else ed.cursorRow }.clampScroll)
  else do
    let (res, doc) ← ed.doc.insertInLine ed.remoteCursorRow ed.remoteCursorCol c
    if res ≠ .ok then return (res, { ed with doc })
    return (.ok, { ed with doc, remoteCursorCol := ed.remoteCursorCol + 1 }.clampScroll)

/-- `editor_remote_delete_char`. -/
def remoteDeleteChar (ed : Editor) : Option (EditorResult × Editor) :=
  if 0 < ed.remoteCursorCol then do
    let doc ← ed.doc.deleteInLine ed.remoteCursorRow (ed.remoteCursorCol - 1)
    return (.ok, { ed with doc, remoteCursorCol := ed.remoteCursorCol - 1 }.clampScroll)
  else if 0 < ed.remoteCursorRow then do
    let prevLen := (← ed.doc.line (ed.remoteCursorRow - 1)).len
    let (res, doc) ← ed.doc.joinLine ed.remoteCursorRow
    if res ≠ .ok then return (res, { ed with doc })
    return (.ok, { ed with
      doc
      remoteCursorRow := ed.remoteCursorRow - 1
      remoteCursorCol := prevLen
      cursorRow := if ed.remoteCursorRow < ed.cursorRow then ed.cursorRow - 1
        else ed.cursorRow }.clampScroll)
  else some (.ok, ed.clampScroll)

/-- `editor_remote_replace_block`. -/
def remoteReplaceBlock (ed : Editor) (startRow deletedCount insertedCount : Int) :
    Option (EditorResult × Editor) :=
  if startRow < 0 ∨ ed.doc.rowCount < startRow then some (.ok, ed)
  else do
    let actual := ed.doc.actualDeleted startRow deletedCount
    let (res, doc) ← ed.doc.replaceBlock startRow deletedCount insertedCount
    if res ≠ .ok then return (res, { ed with doc })
    return (.ok, { ed with
      doc
      cursorRow := if startRow + actual ≤ ed.cursorRow then
          ed.cursorRow + (insertedCount - actual)
        else ed.cursorRow }.clampScroll)

/-- `editor_remote_update_line`. -/
def remoteUpdateLine (ed : Editor) (row : Int) (text : List UInt8) (len : Int) :
    Option (EditorResult × Editor) :=
  if row < 0 ∨ ed.doc.rowCount ≤ row then some (.ok, ed)
  else do
    let (res, doc) ← ed.doc.updateLine row text len
    if res ≠ .ok then return (res, { ed with doc })
    return (.ok, { ed with doc }.clampScroll)

end Editor

end LCode
