import LCode.App.State
import LCode.View.MouseCursor

/-!
# The widgets of the editor

What `draw_selection_bg`, `draw_filetree` and `draw_scrollbar` of `scene.c` hand to the
drawing primitives of `video.c`. Coordinates are `int` in `scene.c` and 16 bits wide in
`video.c`.
-/

namespace LCode

/-! ## Rectangles -/

namespace BackBuffer

variable {s : Resolution}

/-- `bb_draw_hline`: what does not fit into the row is cut off. -/
def bbDrawHline (bb : BackBuffer s) (x y len : UInt16) (color : UInt32) : BackBuffer s :=
  if s.vRes ≤ y ∨ s.hRes ≤ x then bb
  else
    let len := if s.hRes.toNat < x.toNat + len.toNat then s.hRes - x else len
    let p := y.toNat * s.hRes.toNat + x.toNat
    (List.range len.toNat).foldl (fun bb i => bb.setIfInBounds (p + i) color) bb

/-- `bb_draw_rect`. -/
def bbDrawRect (bb : BackBuffer s) (x y w h : UInt16) (color : UInt32) : BackBuffer s :=
  (List.range h.toNat).foldl (fun bb row => bb.bbDrawHline x (y + UInt16.ofNat row) w color) bb

end BackBuffer

/-- The arguments of a call of `bb_draw_rect`. -/
structure Fill where
  x : Int
  y : Int
  w : Int
  h : Int
  color : UInt32
  deriving DecidableEq, Repr

/-- The call. -/
def Fill.paint {s : Resolution} (bb : BackBuffer s) (f : Fill) : BackBuffer s :=
  bb.bbDrawRect (UInt16.ofInt f.x) (UInt16.ofInt f.y) (UInt16.ofInt f.w) (UInt16.ofInt f.h) f.color

/-- The arguments of a call of `draw_string`. -/
structure Label where
  x : Int
  y : Int
  text : List UInt8
  color : UInt32
  deriving DecidableEq, Repr

namespace Scene

def colorSelBg : UInt32 := 0x3E4451
def colorGutterBg : UInt32 := 0x282C34
def colorGutterFg : UInt32 := 0x4B5263
def colorFiletreeBg : UInt32 := 0x21252B
def colorFiletreeSel : UInt32 := 0x2C313C
def colorFiletreeDir : UInt32 := 0x61AFEF
def colorFiletreeFile : UInt32 := 0xABB2BF
def colorFiletreeSep : UInt32 := 0x181A1F

def filetreeCols : Nat := 20
def scrollbarHandleMin : Int := 4

/-! ## The selection -/

/-- The body of the loop of `draw_selection_bg` for one row. -/
def selectionRow (s : Scene) (ed : Editor) (r : Int) : Option (List Fill) := do
  let (startRow, startCol, endRow, endCol) := ed.selGetRange
  let y := s.editor.y + (r - ed.scrollRow) * fontH
  let colStart := if r = startRow then startCol else 0
  let lineLen ← ed.getLineLen r
  let colEnd := if r = endRow then endCol else lineLen
  let pixelStart := s.editor.x +
    (if ed.scrollCol < colStart then colStart - ed.scrollCol else 0) * fontW
  let pixelEnd := s.editor.x +
    (if colEnd < ed.scrollCol + s.visCols then colEnd - ed.scrollCol else s.visCols) * fontW
  if pixelStart < pixelEnd then
    return [⟨pixelStart, y, pixelEnd - pixelStart, fontH, colorSelBg⟩]
  else return []

/-- The loop itself, over `n` rows from `r` on. -/
def selectionRows (s : Scene) (ed : Editor) (r : Int) : Nat → Option (List Fill)
  | 0 => some []
  | n + 1 => do
    let fills ← selectionRow s ed r
    return fills ++ (← selectionRows s ed (r + 1) n)

/-- `draw_selection_bg`. -/
def drawSelectionBg (s : Scene) (ed : Editor) (endR : Int) : Option (List Fill) :=
  let (startRow, _, endRow, _) := ed.selGetRange
  let firstRow := if ed.scrollRow < startRow then startRow else ed.scrollRow
  let lastRow := if endRow < endR - 1 then endRow else endR - 1
  selectionRows s ed firstRow (lastRow + 1 - firstRow).toNat

/-- The `end_r` of `render_editor_ui`. -/
def endRow (s : Scene) (ed : Editor) : Int :=
  if ed.doc.rowCount < ed.scrollRow + s.visRows then ed.doc.rowCount
  else ed.scrollRow + s.visRows

/-! ## The file tree -/

/-- What `draw_filetree` draws for an entry: its place in the listing, the row it is
drawn in, the highlight if the cursor is on it, and its name. -/
structure EntryRow where
  index : Int
  y : Int
  highlight : Option Fill
  label : Label
  deriving DecidableEq, Repr

/-- The body of the loop of `draw_filetree`; `filetree_get_entry` is NULL outside the
listing. -/
def drawEntry (s : Scene) (ft : FileTree) (i : Int) : Option EntryRow := do
  let e ← Block.read ft.entries i
  let y := editorY + (i - ft.scroll) * fontH
  return {
    index := i
    y
    highlight := if i = ft.cursor then
        some ⟨0, y, s.filetree.w - 1, fontH, if ft.focused then colorFiletreeSel else colorGutterBg⟩
      else none
    label := ⟨4, y, strncpy e.name (filetreeCols - 1),
      if e.isDir then colorFiletreeDir else colorFiletreeFile⟩ }

/-- The loop itself, with a bound on its rounds. -/
def drawEntries (s : Scene) (ft : FileTree) (vrows : Int) : Nat → Int → Option (List EntryRow)
  | 0, _ => none
  | fuel + 1, i =>
    if i < ft.scroll + vrows ∧ i < ft.entryCount then do
      let row ← drawEntry s ft i
      return row :: (← drawEntries s ft vrows fuel (i + 1))
    else some []

/-- `draw_filetree`: the panel, and the rows of the entries over it. -/
def drawFiletree (s : Scene) (ft : FileTree) (vrows : Int) :
    Option (List Fill × List EntryRow) := do
  let panel := [⟨s.filetree.x, s.filetree.y, s.filetree.w, s.filetree.h, colorFiletreeBg⟩,
    ⟨s.filetree.w - 1, 0, 1, s.filetree.h, colorFiletreeSep⟩]
  return (panel, ← drawEntries s ft vrows (vrows.toNat + 1) ft.scroll)

/-! ## The scrollbar -/

/-- The number is an `int`. -/
def FitsInt (n : Int) : Prop := -2147483648 ≤ n ∧ n ≤ 2147483647

instance (n : Int) : Decidable (FitsInt n) := inferInstanceAs (Decidable (_ ∧ _))

/-- A product of two `int`s, which must be one. -/
def intMul (a b : Int) : Option Int := if FitsInt (a * b) then some (a * b) else none

/-- `handle_h` of `draw_scrollbar`. -/
def handleHeight (trackH visRows rowCount : Int) : Option Int := do
  let h ← if rowCount ≤ visRows then some trackH
    else (intMul visRows trackH).map (·.tdiv rowCount)
  let h := if h < scrollbarHandleMin then scrollbarHandleMin else h
  return if trackH < h then trackH else h

/-- `draw_scrollbar`: the track, and the handle unless there is no row. -/
def drawScrollbar (s : Scene) (rowCount scrollRow : Int) : Option (Fill × Option Fill) := do
  let bar := s.scrollbar
  let track : Fill := ⟨bar.x, bar.y, bar.w, bar.h, colorGutterBg⟩
  if rowCount ≤ 0 then return (track, none)
  else
    let trackH := bar.h
    let handleH ← handleHeight trackH s.visRows rowCount
    let maxScroll := if s.visRows < rowCount then rowCount - s.visRows else 1
    let maxHandleY := bar.y + trackH - handleH
    let handleY := bar.y + (← intMul scrollRow (maxHandleY - bar.y)).tdiv maxScroll
    return (track, some ⟨bar.x + 2, handleY, bar.w - 4, handleH, colorGutterFg⟩)

end Scene

end LCode
