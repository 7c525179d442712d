import LCode.App.FileTree
import LCode.Editor.Basic
import LCode.Serial.Basic

/-!
# The state of one LCode process

The state the command handlers of `commands.c` and `filetree_commands.c` read
and write, the input events, and the part of `scene.c` that maps pixels to the
document. `sent` collects the bytes handed to the UART. The session clock, the
highlight cache and the pixels are not part of it: no handler reads them. Of
`scene_set_language` only the call is recorded; nothing between it and the end of
the handler changes the document.
-/

namespace LCode

inductive Direction where
  | none
  | left
  | right
  | up
  | down
  | home
  | «end»
  deriving DecidableEq, Repr

structure KeyEvent where
  c : UInt8
  ctrl : Bool
  shift : Bool
  altgr : Bool
  backspace : Bool
  enter : Bool
  escape : Bool
  dir : Direction
  deriving DecidableEq, Repr

structure MouseEvent where
  leftClicked : Bool
  leftHolding : Bool
  clickX : Int
  clickY : Int
  scroll : Int
  deriving DecidableEq, Repr

/-! ## The scene -/

structure Rect where
  x : Int
  y : Int
  w : Int
  h : Int
  deriving DecidableEq, Repr

/-- The layout of `scene.c`, with the screen size it is computed from. -/
structure Scene where
  hRes : Int
  vRes : Int
  editor : Rect
  filetree : Rect
  gutter : Rect
  scrollbar : Rect
  statusBar : Rect
  visRows : Int
  visCols : Int
  deriving DecidableEq, Repr

namespace Scene

/-- The 1152 by 864 screen before any layout. -/
def static : Scene :=
  let zero : Rect := ⟨0, 0, 0, 0⟩
  ⟨1152, 864, zero, zero, zero, zero, zero, 0, 0⟩

def fontW : Int := 8
def fontH : Int := 16
def filetreeWPx : Int := 20 * fontW
def editorY : Int := 10
def gutterDigitsMin : Int := 3
def gutterPad : Int := 2
def scrollbarW : Int := 8

/-- `for (n = row_count; n >= 10; n /= 10) digits++;` -/
def countDigits : Nat → Int → Int → Int
  | 0, _, digits => digits
  | fuel + 1, n, digits => if 10 ≤ n then countDigits fuel (n.tdiv 10) (digits + 1) else digits

/-- `scene_update_layout`. -/
def updateLayout (s : Scene) (filetreeVisible : Bool) (rowCount : Int) : Scene :=
  let fw := if filetreeVisible then filetreeWPx else 0
  let digits := countDigits rowCount.toNat rowCount 1
  let digits := if digits < gutterDigitsMin then gutterDigitsMin else digits
  let gutterW := fontW * (digits + gutterPad)
  let gutter : Rect := ⟨fw, editorY, gutterW, s.vRes - editorY - fontH⟩
  let scrollbar : Rect := ⟨s.hRes - scrollbarW, editorY, scrollbarW, gutter.h⟩
  let editor : Rect := ⟨fw + gutterW, editorY, scrollbar.x - (fw + gutterW), gutter.h⟩
  { s with
    editor
    filetree := ⟨0, 0, fw, s.vRes⟩
    gutter
    scrollbar
    statusBar := ⟨0, s.vRes - fontH, s.hRes, fontH⟩
    visCols := editor.w.tdiv fontW
    visRows := editor.h.tdiv fontH }

/-- `scene_px_to_text`: the row and column, if the pixel is in the text area. -/
def pxToText (s : Scene) (ed : Editor) (px py : Int) : Option (Option (Int × Int)) :=
  if px < s.editor.x ∨ s.scrollbar.x ≤ px then some none
  else if py < s.editor.y ∨ s.statusBar.y ≤ py then some none
  else do
    let col := (px - s.editor.x).tdiv fontW + ed.scrollCol
    let row := (py - editorY).tdiv fontH + ed.scrollRow
    let row := if row < 0 then 0 else row
    let row := if ed.doc.rowCount ≤ row then ed.doc.rowCount - 1 else row
    let col := if col < 0 then 0 else col
    let len ← ed.getLineLen row
    return some (row, if len < col then len else col)

/-- `scene_px_to_filetree`: the index, -1 below the entries. -/
def pxToFiletree (s : Scene) (ft : FileTree) (px py : Int) : Option Int :=
  if !ft.visible then none
  else if px < 0 ∨ s.filetree.w ≤ px then none
  else if py < editorY then none
  else
    let index := ft.scroll + (py - editorY).tdiv fontH
    if ft.entryCount ≤ index then some (-1) else some index

end Scene

/-! ## The process -/

structure App where
  editor : Editor
  bar : CommandBar
  tree : FileTree
  scene : Scene
  files : Files
  renderMode : RenderMode
  language : SyntaxLanguage
  /-- `scene_set_language` was called. -/
  languageSet : Bool
  quit : Bool
  /-- The `remote` of `commands.c`. -/
  remote : Bool
  fileNumLines : Nat
  linesContador : Nat
  sent : List UInt8

namespace App

/-- `set_render`. -/
def setRender (app : App) (mode : RenderMode) : App :=
  { app with renderMode := setRenderMode app.renderMode mode }

/-- `set_render_ex`: a full redraw if the view moved or a selection is shown.
The flags are consumed from left to right, until one is set. -/
def setRenderEx (app : App) (mode : RenderMode) : App :=
  let (scrolled, editor) := app.editor.consumeScrollDirty
  let app := { app with editor }
  if scrolled then app.setRender .full
  else
    let (selDirty, editor) := app.editor.consumeSelDirty
    let app := { app with editor }
    if selDirty then app.setRender .full
    else app.setRender (if app.editor.selActive then .full else mode)

/-- `command_bar_set_status`. -/
def setStatus (app : App) (msg : String) : App :=
  { app with bar := app.bar.setStatus (ascii msg) }

/-- The answer to a failed allocation. -/
def outOfMemory (app : App) : App := (app.setStatus "Out of memory").setRender .status

/-- `command_bar_set_filename` and `scene_set_language`, after a file was read
or written. -/
def setFile (app : App) (name : List UInt8) : App :=
  { app with
    bar := app.bar.setFilename name
    language := syntaxDetectLanguage name
    languageSet := true }

/-- `scene_click_scrollbar`: whether the click was on it, and the state. -/
def clickScrollbar (app : App) (px py : Int) : Bool × App :=
  let bar := app.scene.scrollbar
  if px < bar.x ∨ bar.x + bar.w ≤ px then (false, app)
  else if py < bar.y ∨ bar.y + bar.h ≤ py then (false, app)
  else
    let rowCount := app.editor.doc.rowCount
    let maxScroll := if app.scene.visRows < rowCount then rowCount - app.scene.visRows else 0
    let target := if 0 < maxScroll then ((py - bar.y) * maxScroll).tdiv bar.h else 0
    let (dirty, editor) :=
      (app.editor.scrollBy (target - app.editor.scrollRow) 0).consumeScrollDirty
    let app := { app with editor }
    (true, if dirty then app.setRender .full else app)

/-- What `view_render` does to this state: the schedule is cleared, and a full
redraw computes the layout anew and hands the viewport to the editor. -/
def viewRender (app : App) : App :=
  if app.renderMode = .full then
    let scene := app.scene.updateLayout app.tree.visible app.editor.doc.rowCount
    { app with
      scene
      editor := app.editor.setViewport scene.visRows scene.visCols
      renderMode := .none }
  else { app with renderMode := .none }

/-- The state of `commands.c` and its modules before `main`. -/
def static (files : Files) (heap : Heap) : App where
  editor := .static heap
  bar := .init (ascii "untitled")
  tree := .static
  scene := .static
  files
  renderMode := .none
  language := .none
  languageSet := false
  quit := false
  remote := false
  fileNumLines := 0
  linesContador := 0
  sent := []

/-- `proj_main_loop` up to its loop, for the file name on the command line; no
result when `editor_init` fails. -/
def start (files : Files) (heap : Heap) (name : List UInt8) : Option App := do
  let app := static files heap
  let (ok, editor) ← app.editor.init
  if !ok then none
  let tree := app.tree.init files
  let scene := app.scene.updateLayout tree.visible editor.doc.rowCount
  let lang := syntaxDetectLanguage name
  return { app with
    editor := editor.setViewport scene.visRows scene.visCols
    bar := .init name
    tree
    scene
    renderMode := .full
    language := if lang = .none then .c else lang
    languageSet := true }

end App

end LCode
