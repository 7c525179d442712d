import LCode.App.Events
import LCode.Lib.Machine
import LCode.View.MouseCursor

/-!
# Flips

How a frame gets to the screen: `vg_flip_region` of `video.c`, and `view_render` of
`scene.c` with the regions it flips. Coordinates are `int` in `scene.c` and 16 bits
wide in `video.c`. A frame of RENDER_FULL flips the whole buffer and no region.
-/

namespace LCode

/-! ## Video memory -/

/-- `h_res`, `v_res` and `bytes_per_pixel`. -/
structure VideoMode where
  hRes : UInt32
  vRes : UInt32
  bytesPerPixel : UInt32

/-- `VBE_864p_DC`: 1152 by 864 pixels of 32 bits. -/
def videoMode : VideoMode := ⟨1152, 864, 4⟩

namespace VideoMode

/-- `frame_size`. -/
def frameSize (m : VideoMode) : UInt32 := m.hRes * m.vRes * m.bytesPerPixel

end VideoMode

/-- The arguments of `vg_flip_region`. -/
structure Region where
  x : UInt16
  y : UInt16
  w : UInt16
  h : UInt16
  deriving DecidableEq, Repr

/-- A `memcpy` from the back buffer to the same place of the video memory. -/
structure Copy where
  offset : UInt32
  bytes : UInt32
  deriving DecidableEq, Repr

namespace Region

/-- The conversion of `int` arguments. -/
def ofInt (x y w h : Int) : Region :=
  ⟨UInt16.ofInt x, UInt16.ofInt y, UInt16.ofInt w, UInt16.ofInt h⟩

/-- The loop of `vg_flip_region` from a row on, with a bound on its rounds: what it
copies. -/
def flipLoop (m : VideoMode) (r : Region) : Nat → UInt16 → Option (List Copy)
  | 0, _ => none
  | fuel + 1, row =>
    if row.toNat < r.y.toNat + r.h.toNat then do
      let offset := (row.toUInt32 * m.hRes + r.x.toUInt32) * m.bytesPerPixel
      return ⟨offset, r.w.toUInt32 * m.bytesPerPixel⟩ :: (← flipLoop m r fuel (row + 1))
    else some []

/-- `vg_flip_region`, with a bound on its rounds. -/
def vgFlipRegion (m : VideoMode) (r : Region) (fuel : Nat) : Option (List Copy) :=
  flipLoop m r fuel r.y

end Region

/-! ## The regions of a frame -/

/-- The process with what `scene.c` and `mouse_cursor.c` remember of the last frame:
`prev_row` and `prev_col`, `prev_x` and `prev_y`. -/
structure Screen where
  proj : Proj
  prevRow : Int
  prevCol : Int
  prevX : Int
  prevY : Int

namespace Screen

open Scene

/-- `vg_get_h_res` and `vg_get_v_res`, as `int`. -/
def hRes : Int := videoMode.hRes.toNat
def vRes : Int := videoMode.vRes.toNat

/-- `model_to_px`. -/
def modelToPx (app : App) (col : Int) : Int :=
  app.scene.editor.x + (col - app.editor.scrollCol) * fontW

/-- `model_to_py`. -/
def modelToPy (app : App) (row : Int) : Int :=
  app.scene.editor.y + (row - app.editor.scrollRow) * fontH

/-- `prev_vis` and `curr_vis`: whether the place is in the viewport. -/
def visible (app : App) (row col : Int) : Bool :=
  app.editor.scrollRow ≤ row && row < app.editor.scrollRow + app.scene.visRows &&
    app.editor.scrollCol ≤ col && col < app.editor.scrollCol + app.scene.visCols

/-- The flip of the row of a RENDER_LINE or a RENDER_REMOTE_LINE. -/
def flipRow (app : App) (row : Int) : Region :=
  .ofInt app.scene.editor.x (editorY + (row - app.editor.scrollRow) * fontH)
    app.scene.editor.w fontH

/-- `flip_cursor_region`. -/
def flipCursorRegion (sprite : XpmImage) (x y : Int) : List Region :=
  let w : Int := sprite.width.toNat
  let h : Int := sprite.height.toNat
  let x := if x < 0 then 0 else x
  let y := if y < 0 then 0 else y
  let w := if hRes < x + w then hRes - x else w
  let h := if vRes < y + h then vRes - y else h
  if 0 < w ∧ 0 < h then [.ofInt x y w h] else []

/-- `flip_editor_ui`. -/
def flipEditorUi (s : Screen) : List Region :=
  let app := s.proj.app
  let row := app.editor.cursorRow
  let col := app.editor.cursorCol
  match app.renderMode with
  | .status =>
    let bar := app.scene.statusBar
    [.ofInt bar.x bar.y bar.w bar.h]
  | .line => [flipRow app row]
  | .remoteLine => [flipRow app app.editor.remoteCursorRow]
  | .char =>
    (if visible app s.prevRow s.prevCol then
      [.ofInt (modelToPx app s.prevCol) (modelToPy app s.prevRow) fontW fontH] else []) ++
    (if visible app row col then
      [.ofInt (modelToPx app col) (modelToPy app row) fontW fontH] else [])
  | .word =>
    [.ofInt (modelToPx app col) (modelToPy app s.prevRow) ((s.prevCol - col + 1) * fontW) fontH]
  | .full | .mouse | .none => []

/-- The calls of `vg_flip_region` in `view_render`. -/
def flips (sprite : XpmImage) (s : Screen) : List Region :=
  if s.proj.app.renderMode = .full then []
  else
    (if 0 ≤ s.prevX then flipCursorRegion sprite s.prevX s.prevY else []) ++
      flipCursorRegion sprite s.proj.pointer.x s.proj.pointer.y ++ s.flipEditorUi

/-- What `view_render` leaves. -/
def viewRender (s : Screen) : Screen :=
  let app := s.proj.app
  let moved := app.renderMode ≠ .mouse ∧ app.renderMode ≠ .status
  { proj := { s.proj with app := app.viewRender }
    prevRow := if moved then app.editor.cursorRow else s.prevRow
    prevCol := if moved then app.editor.cursorCol else s.prevCol
    prevX := s.proj.pointer.x
    prevY := s.proj.pointer.y }

/-! ## Rounds of the main loop -/

/-- `INT_MAX`. -/
def intMax : Int := 2147483647

/-- `if (get_render()) view_render();` with the screen that `view_render` met. The
`int` that counts the rows must not have overflowed. -/
def render (s : Screen) : Option (Screen × List Screen) :=
  if intMax < s.proj.app.editor.doc.rowCount then none
  else if s.proj.app.renderMode = .none then some (s, [])
  else some (s.viewRender, [s])

/-- A round of `proj_main_loop`, which a handler may have asked to end: it gives the
screen that `view_render` met, if it was called. -/
def round : Machine Screen Proj.Message Screen := fun s msg =>
  if s.proj.app.quit then some (s, [])
  else match msg with
  | .failed => some (s, [])
  | .other => do
    let proj ← s.proj.inputDispatch
    render { s with proj }
  | .notify n => do
    let (proj, _) ← s.proj.interruptsHandler n
    let proj ← proj.inputDispatch
    render { s with proj }

/-- Before the main loop. -/
def start (app : App) (id : UInt8) : Screen := ⟨.start app id, 0, 0, -1, -1⟩

end Screen

end LCode
