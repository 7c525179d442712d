import LCode.Lib.Layer
import LCode.View.Picture
import LCode.View.Verify.Painting

/-!
# What a stroke puts on the pixels

Each drawing primitive draws a layer. A rectangle is taken modulo the 16 bits of its
coordinates, so its rows may go on at the top of the screen; a character is drawn where
its glyph has a bit, as long as its rows do not reach the end of the 16 bits.
-/

namespace LCode

open Raster (Paints)
open Layer (Draws)

variable {s : Resolution}

/-! ## Glyphs -/

/-- The glyph of the character has a bit at this place of its cell. -/
def inked (font : Font) (c : UInt8) (dx dy : Int) : Bool :=
  decide (c < 128) && decide (0 ≤ dx ∧ dx < 8 ∧ 0 ≤ dy ∧ dy < 16) &&
    (font c dy.toNat &&& ((0x80 : UInt8) >>> UInt8.ofNat dx.toNat) != 0)

/-- Outside its cell a character has no bits. -/
theorem inked_eq_false {font : Font} {c : UInt8} {dx dy : Int}
    (hout : ¬ (0 ≤ dx ∧ dx < 8 ∧ 0 ≤ dy ∧ dy < 16)) : inked font c dx dy = false := by
  rw [inked, decide_eq_false hout, Bool.and_false, Bool.false_and]

/-- A character with its corner at `x` and `y`. -/
def charLayer (font : Font) (x y : Int) (c : UInt8) (color : UInt32) : Layer UInt32 :=
  Layer.fill (fun i j => inked font c (i - x) (j - y) = true) color

theorem charLayer_eq_none {font : Font} {x y : Int} {c : UInt8} {color : UInt32} {i j : Nat}
    (hout : ¬ Screen.InCell x y i j) : charLayer font x y c color i j = none := by
  have hfalse : inked font c (i - x) (j - y) = false := by
    refine inked_eq_false fun hin => hout ?_
    simp only [Screen.InCell, Scene.fontW, Scene.fontH]
    omega
  simp only [charLayer, Layer.fill, hfalse, Bool.false_eq_true, if_false]

namespace BackBuffer

/-- The bits of a row of a glyph. -/
theorem drawBits_paints (bb : BackBuffer s) {y : UInt16} (hy : y < s.vRes) (bits : UInt8) (x : Int)
    (color : UInt32) :
    Paints (fun i j => j = y.toNat ∧ ∃ col < 8, (i : Int) = x + (col : Nat) ∧
      bits &&& ((0x80 : UInt8) >>> UInt8.ofNat col) ≠ 0) color bb
      (bb.drawBits (y.toNat * s.hRes.toNat) bits x color) := by
  unfold drawBits
  refine Paints.congr (Paints.foldl (A := fun (col : Nat) i j => j = y.toNat ∧
    (i : Int) = x + (col : Nat) ∧ bits &&& ((0x80 : UInt8) >>> UInt8.ofNat col) ≠ 0)
    (fun col _ r => ?_) bb) fun i j _ _ => ?_
  · dsimp only
    split
    · next hout => exact .refl (fun i j hi _ => by omega) color r
    · next hin =>
      have hcol : (x + col).toNat < s.hRes.toNat := by omega
      split
      · next hbit =>
        rw [Raster.setIfInBounds_eq_put r ⟨(x + col).toNat, hcol⟩ ⟨y.toNat, hy⟩ color]
        refine (Paints.put r _ _ color).congr fun i j _ _ => ?_
        dsimp only
        constructor
        · rintro ⟨hi, hj⟩
          exact ⟨hj, by omega, hbit⟩
        · rintro ⟨hj, hi, -⟩
          exact ⟨by omega, hj⟩
      · next hbit => exact .refl (fun i j _ _ hin' => hbit hin'.2.2) color r
  · simp only [List.mem_range]
    constructor
    · rintro ⟨col, hcol, hj, hi, hbit⟩
      exact ⟨hj, col, hcol, hi, hbit⟩
    · rintro ⟨hj, col, hcol, hi, hbit⟩
      exact ⟨col, hcol, hj, hi, hbit⟩

/-- The rows of a glyph from `row` on. -/
theorem drawRows_paints (glyph : Nat → UInt8) (x : Int) {y : Int} (color : UInt32) (n row : Nat)
    (hfit : y + row + n ≤ 65536) (bb : BackBuffer s) :
    Paints (fun i j => ∃ k, row ≤ k ∧ k < row + n ∧ (j : Int) = y + (k : Nat) ∧
      ∃ col < 8, (i : Int) = x + (col : Nat) ∧
        glyph k &&& ((0x80 : UInt8) >>> UInt8.ofNat col) ≠ 0) color bb
      (drawRows glyph x y color n row bb) := by
  induction n generalizing row bb with
  | zero =>
    refine .refl (fun i j _ _ => ?_) color bb
    rintro ⟨k, hk, hk', -⟩
    omega
  | succ n ih =>
    have hrest := fun bb : BackBuffer s => ih (row + 1) (by omega) bb
    rw [drawRows]
    split
    · next hneg =>
      refine (hrest bb).congr fun i j _ _ => ?_
      constructor
      · rintro ⟨k, hk, hk', hrow⟩
        exact ⟨k, by omega, by omega, hrow⟩
      · rintro ⟨k, hk, hk', hj, hcol⟩
        exact ⟨k, by omega, by omega, hj, hcol⟩
    · next hpos =>
      have hpy : ((UInt16.ofInt (y + row)).toNat : Int) = y + row := by
        rw [Region.toNat_ofInt]
        omega
      rw [bbRowPtr]
      split
      · next hout =>
        -- the row is below the screen, and so are those after it
        have hbelow : s.vRes.toNat ≤ (UInt16.ofInt (y + row)).toNat := by
          by_contra hlt
          rw [if_neg (by rw [UInt16.le_iff_toNat_le]; omega)] at hout
          exact nomatch hout
        refine .refl (fun i j _ hj => ?_) color bb
        rintro ⟨k, hk, -, hj', -⟩
        omega
      · next line hin =>
        have hy : UInt16.ofInt (y + row) < s.vRes := by
          by_contra hge
          rw [if_pos (UInt16.not_lt.1 hge)] at hin
          exact nomatch hin
        rw [if_neg (UInt16.not_le.2 hy), Option.some.injEq] at hin
        subst hin
        refine ((drawBits_paints bb hy (glyph row) x color).trans (hrest _)).congr fun i j _ _ => ?_
        constructor
        · rintro (⟨hj, hcol⟩ | ⟨k, hk, hk', hrow⟩)
          · exact ⟨row, by omega, by omega, by omega, hcol⟩
          · exact ⟨k, by omega, by omega, hrow⟩
        · rintro ⟨k, hk, hk', hj, hcol⟩
          by_cases hkr : k = row
          · subst hkr
            exact .inl ⟨by omega, hcol⟩
          · exact .inr ⟨k, by omega, by omega, hj, hcol⟩

theorem drawChar_draws (font : Font) (bb : BackBuffer s) {x y : Int} (hfit : y + 16 ≤ 65536)
    (c : UInt8) (color : UInt32) :
    Draws (charLayer font x y c color) bb (bb.drawChar font x y c color) := by
  refine .of_paints ?_
  unfold drawChar
  split
  · next hc =>
    refine .refl (fun i j _ _ => ?_) color bb
    rw [inked, decide_eq_false (UInt8.not_lt.2 hc), Bool.false_and, Bool.false_and]
    exact Bool.false_ne_true
  · next hc =>
    refine (drawRows_paints (font c) x color 16 0 (by omega) bb).congr fun i j _ _ => ?_
    rw [inked, decide_eq_true (UInt8.not_le.1 hc), Bool.true_and, Bool.and_eq_true,
      decide_eq_true_eq, bne_iff_ne]
    constructor
    · rintro ⟨k, -, hk, hj, col, hcol, hi, hbit⟩
      refine ⟨by omega, ?_⟩
      rwa [show ((i : Int) - x).toNat = col by omega, show ((j : Int) - y).toNat = k by omega]
    · rintro ⟨hin, hbit⟩
      exact ⟨((j : Int) - y).toNat, by omega, by omega, by omega, ((i : Int) - x).toNat, by omega,
        by omega, hbit⟩

/-! ## Strings -/

/-- What `draw_string` draws of a text from `x` and `y` on. -/
def stringLayer (font : Font) (startX : Int) (color : UInt32) :
    List UInt8 → Int → Int → Layer UInt32
  | [], _, _ => Layer.empty
  | c :: text, x, y =>
    if c = '\n'.toUInt8 then stringLayer font startX color text startX (y + 16)
    else (stringLayer font startX color text (x + 8) y).atop (charLayer font x y c color)

theorem drawStringLoop_draws (font : Font) (startX : Int) (color : UInt32) {text : List UInt8}
    {x y : Int} (hfit : y + 16 * text.length ≤ 65536) (bb : BackBuffer s) :
    Draws (stringLayer font startX color text x y) bb
      (drawStringLoop font startX color text x y bb) := by
  induction text generalizing x y bb with
  | nil => exact .refl bb
  | cons c text ih =>
    rw [List.length_cons] at hfit
    rw [drawStringLoop, stringLayer]
    split
    · exact ih (show y + 16 + 16 * (text.length : Int) ≤ 65536 by omega) bb
    · exact (drawChar_draws font bb (by omega) c color).trans (ih (by omega) _)

/-- A string stays below its first line, and between its left margin and its length. -/
theorem stringLayer_eq_none (font : Font) {startX : Int} (color : UInt32) {text : List UInt8}
    {x y : Int} {i j : Nat}
    (hout : (j : Int) < y ∨ (startX + 8 * text.length ≤ i ∧ x + 8 * text.length ≤ i)) :
    stringLayer font startX color text x y i j = none := by
  induction text generalizing x y with
  | nil => rfl
  | cons c text ih =>
    rw [List.length_cons] at hout
    rw [stringLayer]
    split
    · exact ih (by omega)
    · have hchar : charLayer font x y c color i j = none := by
        refine charLayer_eq_none ?_
        simp only [Screen.InCell, Scene.fontW, Scene.fontH]
        omega
      rw [Layer.atop, hchar, Option.or_none]
      exact ih (by omega)

/-! ## Rectangles -/

/-- The pixel is in a rectangle whose coordinates are taken modulo `2 ^ 16`. -/
def InRect (x y w h : Int) (i j : Nat) : Prop :=
  x % 65536 ≤ i ∧ (i : Int) < x % 65536 + w % 65536 ∧ ((j : Int) - y) % 65536 < h % 65536

instance (x y w h : Int) (i j : Nat) : Decidable (InRect x y w h i j) :=
  inferInstanceAs (Decidable (_ ∧ _ ∧ _))

/-- Every rectangle, the ones that wrap around included. -/
theorem paint_draws (bb : BackBuffer s) (f : Fill) :
    Draws (Layer.fill (InRect f.x f.y f.w f.h) f.color) bb (f.paint bb) := by
  have hx := Region.toNat_ofInt f.x
  have hy := Region.toNat_ofInt f.y
  have hw := Region.toNat_ofInt f.w
  have hh := Region.toNat_ofInt f.h
  refine .of_paints ?_
  unfold Fill.paint bbDrawRect
  refine Paints.congr (Paints.foldl (A := fun (k : Nat) i j => (UInt16.ofInt f.x).toNat ≤ i ∧
    i < (UInt16.ofInt f.x).toNat + (UInt16.ofInt f.w).toNat ∧
    j = (UInt16.ofInt f.y + UInt16.ofNat k).toNat)
    (fun k _ r => bbDrawHline_paints r _ _ _ _) bb) fun i j _ hj => ?_
  have hrow (k : Nat) : (UInt16.ofInt f.y + UInt16.ofNat k).toNat =
      ((UInt16.ofInt f.y).toNat + k) % 65536 := by
    rw [UInt16.toNat_add, UInt16.toNat_ofNat', Nat.add_mod_mod]
  have hscreen := s.vRes.toNat_lt
  simp only [List.mem_range, hrow, InRect]
  constructor
  · rintro ⟨k, hk, h₁, h₂, h₃⟩
    omega
  · rintro ⟨h₁, h₂, h₃⟩
    exact ⟨(((j : Int) - f.y) % 65536).toNat, by omega, by omega, by omega, by omega⟩

/-- The loop of `bb_clear` over the first `n` pixels. -/
theorem clear_getElem (bb : BackBuffer s) (color : UInt32) (n : Nat) {i : Nat}
    (hi : i < s.vRes.toNat * s.hRes.toNat) :
    ((List.range n).foldl (fun bb i => bb.setIfInBounds i color) bb)[i] =
      if i < n then color else bb[i] := by
  induction n with
  | zero => rfl
  | succ n ih =>
    rw [List.range_succ, List.foldl_append, List.foldl_cons, List.foldl_nil,
      Vector.getElem_setIfInBounds, ih]
    split_ifs <;> first | rfl | omega

theorem bbClear_draws (bb : BackBuffer s) (color : UInt32) :
    Draws (fun _ _ => some color) bb (bb.bbClear color) := by
  intro x y
  have hlt := Raster.index_lt x y
  rw [Option.getD_some, bbClear, Raster.cell]
  split
  · next hzero => rw [Vector.getElem_replicate, hzero]
  · rw [clear_getElem bb color _ hlt, if_pos hlt]

end BackBuffer

/-! ## Strokes -/

namespace Stroke

/-- What the stroke draws. -/
def layer (font : Font) : Stroke → Layer UInt32
  | .clear color => fun _ _ => some color
  | .fill f => Layer.fill (BackBuffer.InRect f.x f.y f.w f.h) f.color
  | .char x y c color => charLayer font x y c color
  | .label l => BackBuffer.stringLayer font l.x l.color l.text l.x l.y

/-- The characters of the stroke do not reach the end of the 16 bits. -/
def Fits : Stroke → Prop
  | .clear _ | .fill _ => True
  | .char _ y _ _ => y + 16 ≤ 65536
  | .label l => l.y + 16 * l.text.length ≤ 65536

variable {font : Font}

theorem Fits.draws {k : Stroke} (h : k.Fits) (bb : BackBuffer s) :
    Draws (k.layer font) bb (k.paint font bb) := by
  cases k with
  | clear color => exact bb.bbClear_draws color
  | fill f => exact bb.paint_draws f
  | char x y c color => exact bb.drawChar_draws font h c color
  | label l => exact BackBuffer.drawStringLoop_draws font l.x l.color h bb

/-- What a list of strokes draws. -/
def layers (font : Font) (ks : List Stroke) : Layer UInt32 := Layer.stack (ks.map (layer font))

theorem layers_append (ks ks' : List Stroke) :
    layers font (ks ++ ks') = (layers font ks').atop (layers font ks) := by
  rw [layers, List.map_append, Layer.stack_append]
  rfl

theorem draws_all {ks : List Stroke} (h : ∀ k ∈ ks, k.Fits) (bb : BackBuffer s) :
    Draws (layers font ks) bb (ks.foldl (paint font) bb) :=
  .foldl (fun k hk r => (h k hk).draws r) bb

end Stroke

end LCode
