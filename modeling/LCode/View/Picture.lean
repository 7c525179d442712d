import LCode.View.Flip
import LCode.View.Render
import LCode.View.Widgets

/-!
# Pictures

What `render_editor_ui` draws into the back buffer: `font.c`, the widgets of `scene.c`
that are made of text, and the order of the drawing in each mode. The glyphs of
`font_8x16` are a parameter, as are the two strings of the clocks.
-/

namespace LCode

variable {s : Resolution}

/-! ## Characters -/

/-- `font_8x16`: the bits of a row of the glyph of a character below 128. -/
abbrev Font := UInt8 → Nat → UInt8

namespace BackBuffer

/-- `bb_row_ptr`: the index of the first pixel of the row, unless it is `NULL`. -/
def bbRowPtr (s : Resolution) (y : UInt16) : Option Nat :=
  if s.vRes ≤ y then none else some (y.toNat * s.hRes.toNat)

/-- `bb_clear`. -/
def bbClear (bb : BackBuffer s) (color : UInt32) : BackBuffer s :=
  if color = 0 then Vector.replicate _ 0
  else (List.range (s.vRes.toNat * s.hRes.toNat)).foldl (fun bb i => bb.setIfInBounds i color) bb

/-- The loop of `draw_char` over the columns of the glyph, in the row at `line`. -/
def drawBits (bb : BackBuffer s) (line : Nat) (bits : UInt8) (x : Int) (color : UInt32) :
    BackBuffer s :=
  (List.range 8).foldl (fun bb (col : Nat) =>
    let px := x + (col : Int)
    if px < 0 ∨ (s.hRes.toNat : Int) ≤ px then bb
    else if bits &&& ((0x80 : UInt8) >>> UInt8.ofNat col) ≠ 0 then
      bb.setIfInBounds (line + px.toNat) color
    else bb) bb

/-- Its loop over `n` rows of the glyph from `row` on: it ends where the row is below the
screen. -/
def drawRows (glyph : Nat → UInt8) (x y : Int) (color : UInt32) :
    Nat → Nat → BackBuffer s → BackBuffer s
  | 0, _, bb => bb
  | n + 1, row, bb =>
    let py := y + (row : Int)
    if py < 0 then drawRows glyph x y color n (row + 1) bb
    else match bbRowPtr s (UInt16.ofInt py) with
      | none => bb
      | some line => drawRows glyph x y color n (row + 1) (bb.drawBits line (glyph row) x color)

/-- `draw_char`. -/
def drawChar (font : Font) (bb : BackBuffer s) (x y : Int) (c : UInt8) (color : UInt32) :
    BackBuffer s :=
  if 128 ≤ c then bb else drawRows (font c) x y color 16 0 bb

/-- The loop of `draw_string`, which has come to `x` and `y`. -/
def drawStringLoop (font : Font) (startX : Int) (color : UInt32) :
    List UInt8 → Int → Int → BackBuffer s → BackBuffer s
  | [], _, _, bb => bb
  | c :: text, x, y, bb =>
    if c = '\n'.toUInt8 then drawStringLoop font startX color text startX (y + Scene.fontH) bb
    else drawStringLoop font startX color text (x + Scene.fontW) y (bb.drawChar font x y c color)

/-- `draw_string`. -/
def drawString (font : Font) (bb : BackBuffer s) (l : Label) : BackBuffer s :=
  drawStringLoop font l.x l.color l.text l.x l.y bb

end BackBuffer

/-- A call of a drawing primitive. -/
inductive Stroke where
  | clear (color : UInt32)
  | fill (f : Fill)
  | char (x y : Int) (c : UInt8) (color : UInt32)
  | label (l : Label)
  deriving DecidableEq, Repr

/-- The call. -/
def Stroke.paint (font : Font) (bb : BackBuffer s) : Stroke → BackBuffer s
  | .clear color => bb.bbClear color
  | .fill f => f.paint bb
  | .char x y c color => bb.drawChar font x y c color
  | .label l => bb.drawString font l

/-! ## Widgets -/

namespace Scene

def colorBg : UInt32 := 0x282C34
def colorText : UInt32 := 0xABB2BF
def colorStatusBg : UInt32 := 0x21252B
def colorStatusFg : UInt32 := 0xABB2BF

/-- The colour of a status message. -/
def colorMessage : UInt32 := 0xFFCC00

/-- The colour of the remote cursor. -/
def colorRemote : UInt32 := 0xFF0000

/-- The loop of `draw_gutter` that writes the digits of a number from the right. -/
def writeDigits : Nat → Int → List UInt8 → List UInt8
  | 0, _, buf => buf
  | i + 1, n, buf => writeDigits i (n.tdiv 10) (UInt8.ofInt (48 + n.tmod 10) :: buf)

/-- `while (*p == '0' && *(p + 1)) p++;` -/
def skipZeros : List UInt8 → List UInt8
  | 48 :: c :: p => if c = 0 then 48 :: c :: p else skipZeros (c :: p)
  | p => p

/-- The line number of a row, in a gutter of so many digits. -/
def lineNumber (digits : Nat) (r : Int) : List UInt8 :=
  (skipZeros (writeDigits digits (r + 1) [])).takeWhile (· ≠ 0)

/-- `draw_gutter`: the digits are written to a buffer of nine bytes. -/
def drawGutter (s : Scene) (scrollRow endR : Int) : Option (List Stroke) := do
  let digits := s.gutter.w.tdiv fontW - gutterPad
  if digits < 0 ∨ 9 ≤ digits then none
  else return .fill ⟨s.gutter.x, s.gutter.y, s.gutter.w, s.gutter.h, colorGutterBg⟩ ::
    (List.range (endR - scrollRow).toNat).map fun (k : Nat) =>
      let r := scrollRow + (k : Int)
      let p := lineNumber digits.toNat r
      .label ⟨s.gutter.x + s.gutter.w - gutterPad - p.length * fontW,
        s.editor.y + (r - scrollRow) * fontH, p, colorGutterFg⟩

end Scene

/-- The strings of `time_get_string` and `session_time_format`. -/
structure Times where
  clock : List UInt8
  session : List UInt8
  deriving DecidableEq, Repr

namespace Scene

/-- `render_status_bar`: command bar before status message before file name, then the
clock and the session time. -/
def renderStatusBar (s : Scene) (bar : CommandBar) (times : Times) : List Stroke :=
  let sy := s.statusBar.y
  let line : List Stroke :=
    if bar.mode = .command then
      [.label ⟨4, sy, ascii ":", colorStatusFg⟩, .label ⟨4 + fontW, sy, bar.input, colorStatusFg⟩,
        .fill ⟨4 + fontW + bar.input.length * fontW, sy, fontW, fontH, colorStatusFg⟩]
    else if bar.statusMsg ≠ [] then [.label ⟨4, sy, bar.statusMsg, colorMessage⟩]
    else [.label ⟨4, sy, bar.filename, colorStatusFg⟩]
  .fill ⟨s.statusBar.x, sy, s.statusBar.w, s.statusBar.h, colorStatusBg⟩ :: line ++
    [.label ⟨s.statusBar.w - times.clock.length * fontW - 4, sy, times.clock, colorStatusFg⟩,
      .label ⟨s.statusBar.x + s.statusBar.w.tdiv 2 - 32, sy, times.session, colorStatusFg⟩]

/-- What `draw_filetree` draws for an entry. -/
def EntryRow.strokes (e : EntryRow) : List Stroke :=
  (e.highlight.map Stroke.fill).toList ++ [.label e.label]

end Scene

namespace Screen

open Scene

/-- `draw_cursor`. -/
def drawCursor (app : App) (col row : Int) : List Stroke :=
  if app.tree.focused then []
  else [.fill ⟨modelToPx app col, modelToPy app row, fontW, fontH, colorText⟩]

/-- `draw_remote_cursor`. -/
def drawRemoteCursor (app : App) (col row : Int) : List Stroke :=
  if row < 0 ∨ col < 0 then []
  else [.fill ⟨modelToPx app col, modelToPy app row, fontW, fontH, colorRemote⟩]

end Screen

/-! ## Text -/

/-- The string in a buffer, as `strlen` and `draw_string` read it. -/
def Buf.string : Buf → Option (List UInt8)
  | .block bytes => if 0 ∈ bytes then some (bytes.takeWhile (· ≠ 0)) else none
  | _ => none

namespace Fetch

/-- `draw_char(draw_x, y, line[c], colors[c])` for the columns of the fetch from `c` on. -/
def drawLoop (line : Buf) (f : Fetch) (y : Int) : Nat → Int → Int → Option (List Stroke)
  | 0, _, _ => some []
  | n + 1, drawX, c => do
    let stroke := Stroke.char drawX y (← line.read c) (← Block.read f.colors c)
    return stroke :: (← drawLoop line f y n (drawX + Scene.fontW) (c + 1))

/-- The characters of the fetch, the first one at `x`: `draw_line_colored`, and the loops
of RENDER_WORD and RENDER_CHAR. -/
def draw (ed : Editor) (f : Fetch) (x y : Int) : Option (List Stroke) := do
  drawLoop (← ed.getLine f.row) f y (f.last - f.first).toNat x f.first

/-- The fetches of a frame, one after the other. -/
def drawAll (ed : Editor) (x : Fetch → Int) (y : Fetch → Int) : List Fetch → Option (List Stroke)
  | [] => some []
  | f :: fs => do return (← f.draw ed (x f) (y f)) ++ (← drawAll ed x y fs)

end Fetch

/-! ## Frames -/

namespace Desk

open Scene Screen

/-- `draw_filetree`, if the tree is visible. -/
def drawTree (app : App) : Option (List Stroke) :=
  if app.tree.visible then do
    let (panel, rows) ← app.scene.drawFiletree app.tree app.scene.visRows
    return panel.map .fill ++ rows.flatMap EntryRow.strokes
  else some []

/-- `draw_selection_bg`, if a selection is active. -/
def drawSelection (app : App) : Option (List Fill) :=
  if app.editor.selActive then app.scene.drawSelectionBg app.editor (app.scene.endRow app.editor)
  else some []

/-- RENDER_FULL, in the layout computed anew. -/
def drawFull (app : App) (times : Times) (fs : List Fetch) : Option (List Stroke) := do
  let tree ← drawTree app
  let gutter ← app.scene.drawGutter app.editor.scrollRow (app.scene.endRow app.editor)
  let selection ← drawSelection app
  -- `draw_text_lines`
  let text ← Fetch.drawAll app.editor (fun _ => app.scene.editor.x)
    (fun f => editorY + (f.row - app.editor.scrollRow) * fontH) fs
  let (track, handle) ← app.scene.drawScrollbar app.editor.doc.rowCount app.editor.scrollRow
  return [.clear colorBg] ++ tree ++ gutter ++ selection.map .fill ++ text ++
    drawCursor app app.editor.cursorCol app.editor.cursorRow ++
    drawRemoteCursor app app.editor.remoteCursorCol app.editor.remoteCursorRow ++
    (track :: handle.toList).map .fill ++ app.scene.renderStatusBar app.bar times

/-- RENDER_LINE. -/
def drawLine (app : App) (fs : List Fetch) : Option (List Stroke) := do
  let y := app.scene.editor.y + (app.editor.cursorRow - app.editor.scrollRow) * fontH
  let text ← Fetch.drawAll app.editor (fun _ => app.scene.editor.x) (fun _ => y) fs
  return .fill ⟨app.scene.editor.x, y, app.scene.editor.w, fontH, colorBg⟩ :: text ++
    drawCursor app app.editor.cursorCol app.editor.cursorRow

/-- RENDER_REMOTE_LINE. -/
def drawRemoteLine (app : App) : Option (List Stroke) := do
  let row := app.editor.remoteCursorRow
  let y := app.scene.editor.y + (row - app.editor.scrollRow) * fontH
  let line ← (← app.editor.getLine row).string
  let text ← if app.editor.scrollCol < line.length then
      -- `line + scroll_col` is in the string
      if app.editor.scrollCol < 0 then none
      else some [.label ⟨app.scene.editor.x, y, line.drop app.editor.scrollCol.toNat, colorText⟩]
    else some []
  return .fill ⟨app.scene.editor.x, y, app.scene.editor.w, fontH, colorBg⟩ :: text ++
    drawRemoteCursor app app.editor.remoteCursorCol row

/-- RENDER_WORD. -/
def drawWord (app : App) (prevRow prevCol : Int) (fs : List Fetch) : Option (List Stroke) := do
  let col := app.editor.cursorCol
  let wy := modelToPy app prevRow
  let text ← Fetch.drawAll app.editor (fun f => modelToPx app f.first) (fun _ => wy) fs
  return .fill ⟨modelToPx app col, wy, (prevCol - col + 1) * fontW, fontH, colorBg⟩ :: text ++
    drawCursor app col app.editor.cursorRow

/-- RENDER_CHAR. -/
def drawCharCell (app : App) (prevRow prevCol : Int) (fs : List Fetch) : Option (List Stroke) := do
  let row := app.editor.cursorRow
  let col := app.editor.cursorCol
  let cx := modelToPx app prevCol
  let cy := modelToPy app prevRow
  let text ← Fetch.drawAll app.editor (fun _ => cx) (fun _ => cy) fs
  return (if visible app prevRow prevCol then .fill ⟨cx, cy, fontW, fontH, colorBg⟩ :: text
    else []) ++
    if visible app row col then drawCursor app col row else []

/-- The drawing of `render_editor_ui`, with the colours it fetched. -/
def strokes (s : Desk) (times : Times) (fs : List Fetch) : Option (List Stroke) :=
  match s.app.renderMode with
  | .full => drawFull s.app.viewRender times fs
  | .line => drawLine s.app fs
  | .remoteLine => drawRemoteLine s.app
  | .word => drawWord s.app s.prevRow s.prevCol fs
  | .char => drawCharCell s.app s.prevRow s.prevCol fs
  | .status => some (s.app.scene.renderStatusBar s.app.bar times)
  | .mouse | .none => some []

/-- The back buffer after that drawing. -/
def paint (font : Font) (times : Times) (s : Desk) (fs : List Fetch) {res : Resolution}
    (bb : BackBuffer res) : Option (BackBuffer res) := do
  return (← s.strokes times fs).foldl (Stroke.paint font) bb

/-- What the main loop draws from and to: the desk, the sprite of the pointer and the back
buffer. -/
structure Canvas (img : XpmImage) (res : Resolution) where
  desk : Desk
  cursor : MouseCursor img
  bb : BackBuffer res

/-- A round, and where the pointer is when `view_render` asks for it. -/
structure Pointed (res : Resolution) extends Round where
  x : Int
  y : Int
  onScreen : MouseCursor.InBounds res x y

/-- A round of the main loop with its drawing, the sprite hidden before and shown after. -/
def paintRound (font : Font) (times : Times) (transparent : UInt32) {img : XpmImage}
    {res : Resolution} (s : Canvas img res) (r : Pointed res) : Option (Canvas img res) := do
  let desk ← s.desk.handle r.event
  if desk.app.renderMode = .none ∧ r.always = false then return { s with desk }
  else
    let (desk', fs) ← desk.viewRender
    let bb ← desk.paint font times fs (s.cursor.hide s.bb)
    let (cursor, bb) := s.cursor.showAt transparent r.x r.y bb
    return ⟨desk', cursor, bb⟩

end Desk

end LCode
