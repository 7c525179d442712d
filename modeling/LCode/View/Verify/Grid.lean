import LCode.View.Verify.Strokes

/-!
# The text area as a grid

What the text area shows is a grid of cells, each a character in its colour over a
background. A back buffer displays a grid in a layout; the strokes of a widget leave the
grid alone, block out some of its cells or write characters into it.
-/

namespace LCode

open Layer (Draws)

/-- A cell of the text area. -/
structure Cell where
  fore : Option (UInt8 × UInt32)
  back : UInt32
  deriving DecidableEq, Repr

/-- The bits of a character, if there is one. -/
def ink (font : Font) (fore : Option (UInt8 × UInt32)) (dx dy : Int) : Option UInt32 :=
  fore.bind fun (c, color) => if inked font c dx dy then some color else none

/-- The colour of a pixel of the cell. -/
def Cell.pixel (font : Font) (c : Cell) (dx dy : Int) : UInt32 := (ink font c.fore dx dy).getD c.back

/-- The cell in each row and column of the view. -/
abbrev Grid := Nat → Nat → Cell

namespace Grid

/-- The cells of `P` are one colour. -/
def block (g : Grid) (P : Nat → Nat → Prop) [∀ i j, Decidable (P i j)] (color : UInt32) : Grid :=
  fun i j => if P i j then ⟨none, color⟩ else g i j

/-- The characters of `o` are written into the grid. -/
def write (g : Grid) (o : Nat → Nat → Option (UInt8 × UInt32)) : Grid :=
  fun i j => ⟨(o i j).or (g i j).fore, (g i j).back⟩

end Grid

namespace Scene

/-- The pixel is in the cell in row `i` and column `j` of the view. -/
structure InView (sc : Scene) (i j x y : Nat) : Prop where
  row : (i : Int) < sc.visRows
  col : (j : Int) < sc.visCols
  cell : Screen.InCell (sc.editor.x + j * fontW) (sc.editor.y + i * fontH) x y

/-- The back buffer shows the grid in the cells of the view. -/
def Displays (font : Font) (sc : Scene) {s : Resolution} (bb : BackBuffer s) (g : Grid) : Prop :=
  ∀ (i j : Nat) (x : Fin s.hRes.toNat) (y : Fin s.vRes.toNat), sc.InView i j x y →
    bb.cell x y = (g i j).pixel font (x - (sc.editor.x + j * fontW)) (y - (sc.editor.y + i * fontH))

/-! ## The layout -/

/-- The rectangles of a layout for so many rows. -/
theorem updateLayout_rects (visible : Bool) {rowCount : Int} {k : Nat} (hk : 2 ≤ k)
    (hrows : rowCount < 10 ^ (k + 1)) :
    ∃ panel digits : Int, (panel = if visible then 160 else 0) ∧ 3 ≤ digits ∧ digits ≤ k + 1 ∧
      static.updateLayout visible rowCount = {
        hRes := 1152
        vRes := 864
        editor := ⟨panel + 8 * (digits + 2), 10, 1144 - (panel + 8 * (digits + 2)), 838⟩
        filetree := ⟨0, 0, panel, 864⟩
        gutter := ⟨panel, 10, 8 * (digits + 2), 838⟩
        scrollbar := ⟨1144, 10, 8, 838⟩
        statusBar := ⟨0, 848, 1152, 16⟩
        visRows := 52
        visCols := (1144 - (panel + 8 * (digits + 2))).tdiv 8 } := by
  have hcount : countDigits rowCount.toNat rowCount 1 ≤ 1 + (k : Nat) := countDigits_le hrows
  obtain ⟨digits, hdigits, hmin, hmax⟩ : ∃ digits,
      (if countDigits rowCount.toNat rowCount 1 < gutterDigitsMin then gutterDigitsMin
        else countDigits rowCount.toNat rowCount 1) = digits ∧ 3 ≤ digits ∧ digits ≤ k + 1 := by
    refine ⟨_, rfl, ?_⟩
    rw [show gutterDigitsMin = 3 from rfl]
    split <;> omega
  refine ⟨_, digits, rfl, hmin, hmax, ?_⟩
  simp only [Scene.updateLayout]
  rw [hdigits]
  rfl

/-- What the drawing relies on of a layout. -/
structure Framed (sc : Scene) : Prop where
  left : 40 ≤ sc.editor.x
  right : sc.editor.x + sc.visCols * 8 ≤ 1144
  top : sc.editor.y = 10
  bottom : sc.visRows = 52
  width : sc.editor.x + sc.editor.w = 1144
  panel : sc.filetree.w + 40 ≤ sc.editor.x
  bar : sc.statusBar = ⟨0, 848, 1152, 16⟩
  scrollbar : sc.scrollbar = ⟨1144, 10, 8, 838⟩

theorem Laid.framed {sc : Scene} (h : sc.Laid) : sc.Framed := by
  obtain ⟨visible, rowCount, hrows, rfl⟩ := h
  obtain ⟨panel, digits, hpanel, hmin, hmax, heq⟩ := updateLayout_rects visible (k := 9) (by decide)
    (Int.lt_of_le_of_lt hrows (by decide))
  rw [heq]
  have hwidth : panel = 0 ∨ panel = 160 := by
    cases visible
    · exact .inl hpanel
    · exact .inr hpanel
  have hcols : (1144 - (panel + 8 * (digits + 2))).tdiv 8 = (1144 - (panel + 8 * (digits + 2))) / 8 :=
    Int.tdiv_eq_ediv_of_nonneg (by omega)
  constructor
  case top | bottom | bar | scrollbar => rfl
  all_goals
    dsimp only
    omega

section Frame

variable {sc : Scene} {font : Font} {s : Resolution} {g : Grid} {ks : List Stroke}

/-- Where a pixel of a cell is. -/
theorem Framed.bounds (h : sc.Framed) {i j x y : Nat} (hv : sc.InView i j x y) :
    i < 52 ∧ (j : Int) * 8 + 8 + sc.editor.x ≤ 1144 ∧ sc.editor.x + j * 8 ≤ x ∧
      (x : Int) < sc.editor.x + j * 8 + 8 ∧ 10 + (i : Int) * 16 ≤ y ∧ (y : Int) < 10 + i * 16 + 16 := by
  have hrow := hv.row
  have hcol := hv.col
  have hcell := hv.cell
  have hright := h.right
  simp only [Screen.InCell, fontW, fontH, h.top, h.bottom] at hrow hcell
  omega

/-! ## What strokes do to the grid -/

/-- The strokes change the pixels of each cell as `g'` says. -/
theorem Displays.of_layers {g' : Grid} (hfits : ∀ k ∈ ks, k.Fits)
    (hcell : ∀ i j x y, sc.InView i j x y → ∀ dx dy : Int, dx = x - (sc.editor.x + j * fontW) →
      dy = y - (sc.editor.y + i * fontH) →
      (Stroke.layers font ks x y).getD ((g i j).pixel font dx dy) = (g' i j).pixel font dx dy)
    {bb : BackBuffer s} (hd : sc.Displays font bb g) :
    sc.Displays font (ks.foldl (Stroke.paint font) bb) g' := by
  intro i j x y hv
  rw [Stroke.draws_all hfits bb x y, hd i j x y hv]
  exact hcell i j x y hv _ _ rfl rfl

/-- Strokes that fit and put nothing on the cells of the view. -/
structure Spares (sc : Scene) (font : Font) (ks : List Stroke) : Prop where
  fits : ∀ k ∈ ks, k.Fits
  none : ∀ i j x y, sc.InView i j x y → ∀ k ∈ ks, k.layer font x y = none

theorem Spares.displays (h : sc.Spares font ks) {bb : BackBuffer s} (hd : sc.Displays font bb g) :
    sc.Displays font (ks.foldl (Stroke.paint font) bb) g := by
  refine hd.of_layers h.fits fun i j x y hv dx dy _ _ => ?_
  have hnone : Stroke.layers font ks x y = Option.none := by
    refine Layer.stack_eq_none fun L hL => ?_
    obtain ⟨k, hk, rfl⟩ := List.mem_map.1 hL
    exact h.none i j x y hv k hk
  rw [hnone, Option.getD_none]

theorem Spares.append {ks' : List Stroke} (h : sc.Spares font ks) (h' : sc.Spares font ks') :
    sc.Spares font (ks ++ ks') where
  fits k hk := (List.mem_append.1 hk).elim (h.fits k) (h'.fits k)
  none i j x y hv k hk := (List.mem_append.1 hk).elim (h.none i j x y hv k) (h'.none i j x y hv k)

theorem spares_nil : sc.Spares font [] := ⟨by simp, by simp⟩

/-- A rectangle beside the cells. -/
theorem spares_fill {f : Fill} (hout : ∀ i j x y, sc.InView i j x y →
    ¬ BackBuffer.InRect f.x f.y f.w f.h x y) : sc.Spares font [.fill f] where
  fits := by simp [Stroke.Fits]
  none i j x y hv k hk := by
    obtain rfl := List.mem_singleton.1 hk
    exact if_neg (hout i j x y hv)

/-- A string above or beside the cells. -/
theorem spares_label {l : Label} (hfits : l.y + 16 * l.text.length ≤ 65536)
    (hout : ∀ i j x y : Nat, sc.InView i j x y → (y : Int) < l.y ∨ l.x + 8 * l.text.length ≤ x) :
    sc.Spares font [.label l] where
  fits k hk := by
    obtain rfl := List.mem_singleton.1 hk
    exact hfits
  none i j x y hv k hk := by
    obtain rfl := List.mem_singleton.1 hk
    exact BackBuffer.stringLayer_eq_none font l.color ((hout i j x y hv).imp id fun h => ⟨h, h⟩)

/-- A rectangle that covers the cells of `P` and no part of another. -/
theorem Displays.block {P : Nat → Nat → Prop} [∀ i j, Decidable (P i j)] {f : Fill}
    (hcover : ∀ i j x y, sc.InView i j x y → (BackBuffer.InRect f.x f.y f.w f.h x y ↔ P i j))
    {bb : BackBuffer s} (hd : sc.Displays font bb g) :
    sc.Displays font (Stroke.paint font bb (.fill f)) (g.block P f.color) := by
  have hfits : ∀ k ∈ [Stroke.fill f], k.Fits := by simp [Stroke.Fits]
  refine hd.of_layers hfits fun i j x y hv dx dy _ _ => ?_
  have hlayer : Stroke.layers font [.fill f] x y = if P i j then some f.color else none := by
    simp only [Stroke.layers, List.map_cons, List.map_nil, Layer.stack, Layer.empty_atop,
      Stroke.layer, Layer.fill, hcover i j x y hv]
  rw [hlayer, Grid.block]
  split <;> rfl

/-- Characters written into cells that have none. -/
theorem Displays.write {o : Nat → Nat → Option (UInt8 × UInt32)} (hfits : ∀ k ∈ ks, k.Fits)
    (hlayer : ∀ i j x y, sc.InView i j x y → Stroke.layers font ks x y =
      ink font (o i j) (x - (sc.editor.x + j * fontW)) (y - (sc.editor.y + i * fontH)))
    (hempty : ∀ i j, (o i j).isSome → (g i j).fore = none) {bb : BackBuffer s}
    (hd : sc.Displays font bb g) :
    sc.Displays font (ks.foldl (Stroke.paint font) bb) (g.write o) := by
  refine hd.of_layers hfits fun i j x y hv dx dy hdx hdy => ?_
  rw [hlayer i j x y hv, ← hdx, ← hdy, Grid.write]
  cases ho : o i j with
  | none => rfl
  | some c =>
    have hnone : (g i j).fore = none := hempty i j (by rw [ho]; rfl)
    rw [Cell.pixel, Cell.pixel, hnone]
    rfl

/-- After `bb_clear` every cell is empty. -/
theorem displays_clear (bb : BackBuffer s) (color : UInt32) :
    sc.Displays font (Stroke.paint font bb (.clear color)) fun _ _ => ⟨none, color⟩ := by
  intro i j x y _
  exact (bb.bbClear_draws color).eq_of_some rfl

end Frame

end Scene

end LCode
