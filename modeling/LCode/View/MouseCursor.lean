import LCode.Lib.Raster

/-!
# Mouse cursor

`mouse_cursor.c` over the back buffer of `video.c`. The resolution is what
`vg_map_vram` reads from the mode; the back buffer holds one word per pixel. The
transparent colour of the sprite's format is a parameter, `xpm_transparency_color`
being library code.
-/

namespace LCode

/-- `h_res` and `v_res`, the 16-bit fields of the mode information. -/
structure Resolution where
  hRes : UInt16
  vRes : UInt16

variable {s : Resolution}

abbrev BackBuffer (s : Resolution) := Raster UInt32 s.hRes.toNat s.vRes.toNat

namespace BackBuffer

/-- `bb_draw_pixel`. -/
def bbDrawPixel (bb : BackBuffer s) (x y : UInt16) (color : UInt32) : BackBuffer s :=
  if h : s.hRes ≤ x ∨ s.vRes ≤ y then bb
  else bb.put ⟨x.toNat, UInt16.not_le.1 (mt .inl h)⟩ ⟨y.toNat, UInt16.not_le.1 (mt .inr h)⟩ color

/-- `bb_get_pixel`. -/
def bbGetPixel (bb : BackBuffer s) (x y : UInt16) : UInt32 :=
  if h : s.hRes ≤ x ∨ s.vRes ≤ y then 0
  else bb.cell ⟨x.toNat, UInt16.not_le.1 (mt .inl h)⟩ ⟨y.toNat, UInt16.not_le.1 (mt .inr h)⟩

end BackBuffer

/-- `xpm_image_t`, its bytes read as words of 32 bits. -/
structure XpmImage where
  width : UInt16
  height : UInt16
  bytes : Raster UInt32 width.toNat height.toNat

/-- The static state of `mouse_cursor.c`; `bgBuf` is `none` while `bg_buf` is `NULL`. -/
structure MouseCursor (img : XpmImage) where
  bgBuf : Option (Raster UInt32 img.width.toNat img.height.toNat)
  prevX : Int
  prevY : Int

namespace MouseCursor

variable {img : XpmImage}

/-- `mouse_cursor_init`: what `malloc` returns is not cleared, and may be `NULL`. -/
def init (bgBuf : Option (Raster UInt32 img.width.toNat img.height.toNat)) : MouseCursor img :=
  ⟨bgBuf, -1, -1⟩

/-- `px >= 0 && px < h_res && py >= 0 && py < v_res`. -/
def InBounds (s : Resolution) (px py : Int) : Prop :=
  0 ≤ px ∧ px < s.hRes.toNat ∧ 0 ≤ py ∧ py < s.vRes.toNat

instance (px py : Int) : Decidable (InBounds s px py) :=
  inferInstanceAs (Decidable (_ ∧ _ ∧ _ ∧ _))

/-- The body of the loop of `mouse_cursor_hide`. -/
def restorePixel (bg : Raster UInt32 img.width.toNat img.height.toNat) (x y : Int)
    (bb : BackBuffer s) (i : Fin img.width.toNat) (j : Fin img.height.toNat) : BackBuffer s :=
  let px := x + i.val
  let py := y + j.val
  if InBounds s px py then bb.bbDrawPixel (UInt16.ofInt px) (UInt16.ofInt py) (bg.cell i j) else bb

/-- `mouse_cursor_hide`. -/
def hide (m : MouseCursor img) (bb : BackBuffer s) : BackBuffer s :=
  match m.bgBuf with
  | none => bb
  | some bg => if m.prevX < 0 then bb else Raster.loop _ _ (restorePixel bg m.prevX m.prevY) bb

/-- The body of the loop of `mouse_cursor_show`. -/
def savePixel (transparent : UInt32) (x y : Int)
    (st : Raster UInt32 img.width.toNat img.height.toNat × BackBuffer s)
    (i : Fin img.width.toNat) (j : Fin img.height.toNat) :
    Raster UInt32 img.width.toNat img.height.toNat × BackBuffer s :=
  let (bg, bb) := st
  let px := x + i.val
  let py := y + j.val
  let spritePx := img.bytes.cell i j
  if ¬ InBounds s px py then (bg.put i j 0, bb)
  else
    (bg.put i j (bb.bbGetPixel (UInt16.ofInt px) (UInt16.ofInt py)),
      -- the alpha byte is masked out
      if spritePx ≠ transparent then
        bb.bbDrawPixel (UInt16.ofInt px) (UInt16.ofInt py) (spritePx &&& 0x00FFFFFF)
      else bb)

/-- `mouse_cursor_show`. -/
def showAt (transparent : UInt32) (m : MouseCursor img) (x y : Int) (bb : BackBuffer s) :
    MouseCursor img × BackBuffer s :=
  match m.bgBuf with
  | none => (m, bb)
  | some bg =>
    let (bg, bb) := Raster.loop _ _ (savePixel transparent x y) (bg, bb)
    (⟨some bg, x, y⟩, bb)

end MouseCursor

/-! ## Frames -/

/-- A frame of `view_render`: what is drawn between hide and show, and where the
pointer is. -/
structure Frame (s : Resolution) where
  draw : BackBuffer s → BackBuffer s
  x : Int
  y : Int
  onScreen : MouseCursor.InBounds s x y

namespace Frame

variable {img : XpmImage}

/-- `view_render`: hide erases the sprite, the scene is drawn, show redraws it. -/
def render (transparent : UInt32) (f : Frame s) (m : MouseCursor img) (bb : BackBuffer s) :
    MouseCursor img × BackBuffer s :=
  m.showAt transparent f.x f.y (f.draw (m.hide bb))

/-- The back buffer right after each hide of a run. -/
def hidden (transparent : UInt32) : List (Frame s) → MouseCursor img → BackBuffer s →
    List (BackBuffer s)
  | [], _, _ => []
  | f :: frames, m, bb =>
    let (m', bb') := f.render transparent m bb
    m.hide bb :: hidden transparent frames m' bb'

/-- The back buffer before each drawing step of a run without a cursor. -/
def bare : List (Frame s) → BackBuffer s → List (BackBuffer s)
  | [], _ => []
  | f :: frames, bb => bb :: bare frames (f.draw bb)

end Frame

end LCode
