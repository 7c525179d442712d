import LCode.Editor.Verify.Selection
import LCode.View.Verify.Flip
import LCode.View.Verify.Picking

/-!
# Painting

What the drawing primitives of `video.c` paint, and what `draw_selection_bg` paints with
them: the cells in view of the selected characters, and no other pixel.
-/

namespace LCode

open Raster (Paints)

/-! ## The primitives -/

namespace BackBuffer

variable {s : Resolution}

theorem bbDrawHline_paints (bb : BackBuffer s) (x y len : UInt16) (color : UInt32) :
    Paints (fun i j => x.toNat ≤ i ∧ i < x.toNat + len.toNat ∧ j = y.toNat) color bb
      (bb.bbDrawHline x y len color) := by
  unfold bbDrawHline
  split
  · next hout =>
    simp only [UInt16.le_iff_toNat_le] at hout
    exact .refl (fun i j hi hj => by omega) color bb
  · next hin =>
    simp only [UInt16.le_iff_toNat_le, not_or, Nat.not_le] at hin
    obtain ⟨hy, hx⟩ := hin
    obtain ⟨n, hn, hclip, hfit⟩ : ∃ n : UInt16,
        (if s.hRes.toNat < x.toNat + len.toNat then s.hRes - x else len) = n ∧
        x.toNat + n.toNat ≤ s.hRes.toNat ∧
        ∀ i < s.hRes.toNat, i < x.toNat + n.toNat ↔ i < x.toNat + len.toNat := by
      refine ⟨_, rfl, ?_⟩
      have hsub : (s.hRes - x).toNat = s.hRes.toNat - x.toNat :=
        UInt16.toNat_sub_of_le _ _ (UInt16.le_iff_toNat_le.2 (Nat.le_of_lt hx))
      split
      · rw [hsub]
        exact ⟨by omega, fun i hi => by omega⟩
      · exact ⟨by omega, fun i hi => Iff.rfl⟩
    simp only [hn]
    refine Paints.congr (Paints.foldl (A := fun k i j => i = x.toNat + k ∧ j = y.toNat)
      (fun k hk r => ?_) bb) fun i j hi hj => ?_
    · have hk' := List.mem_range.1 hk
      have hcol : x.toNat + k < s.hRes.toNat := by omega
      have hput := Raster.setIfInBounds_eq_put r ⟨x.toNat + k, hcol⟩ ⟨y.toNat, hy⟩ color
      rw [Nat.add_assoc, hput]
      exact Paints.put r ⟨x.toNat + k, hcol⟩ ⟨y.toNat, hy⟩ color
    · simp only [List.mem_range]
      constructor
      · rintro ⟨k, hk, rfl, rfl⟩
        exact ⟨by omega, (hfit _ hi).1 (by omega), rfl⟩
      · rintro ⟨h₁, h₂, rfl⟩
        have := (hfit i hi).2 h₂
        exact ⟨i - x.toNat, by omega, by omega, rfl⟩

/-- A rectangle that does not wrap around. -/
theorem bbDrawRect_paints (bb : BackBuffer s) (x y w h : UInt16) (color : UInt32)
    (hfit : y.toNat + h.toNat ≤ 65536) :
    Paints (fun i j => x.toNat ≤ i ∧ i < x.toNat + w.toNat ∧ y.toNat ≤ j ∧
      j < y.toNat + h.toNat) color bb (bb.bbDrawRect x y w h color) := by
  unfold bbDrawRect
  refine Paints.congr (Paints.foldl (A := fun k i j => x.toNat ≤ i ∧ i < x.toNat + w.toNat ∧
    j = y.toNat + k) (fun k hk r => ?_) bb) fun i j hi hj => ?_
  · have hk' := List.mem_range.1 hk
    have hrow : (y + UInt16.ofNat k).toNat = y.toNat + k := by
      rw [UInt16.toNat_add, UInt16.toNat_ofNat']
      omega
    exact hrow ▸ bbDrawHline_paints r x (y + UInt16.ofNat k) w color
  · simp only [List.mem_range]
    constructor
    · rintro ⟨k, hk, h₁, h₂, rfl⟩
      exact ⟨h₁, h₂, by omega, by omega⟩
    · rintro ⟨h₁, h₂, h₃, h₄⟩
      exact ⟨j - y.toNat, by omega, h₁, h₂, by omega⟩

end BackBuffer

/-- A call whose rectangle starts on the screen and fits into 16 bits. -/
theorem Fill.paint_paints {s : Resolution} (bb : BackBuffer s) {x y w h : Int} (color : UInt32)
    (hx : 0 ≤ x) (hy : 0 ≤ y) (hw : 0 ≤ w) (hh : 0 ≤ h) (hxw : x + w < 65536)
    (hyh : y + h < 65536) :
    Paints (fun i j => x ≤ i ∧ (i : Int) < x + w ∧ y ≤ j ∧ (j : Int) < y + h) color bb
      (Fill.paint bb ⟨x, y, w, h, color⟩) := by
  have hx' := Region.toNat_ofInt x
  have hy' := Region.toNat_ofInt y
  have hw' := Region.toNat_ofInt w
  have hh' := Region.toNat_ofInt h
  have hfit : (UInt16.ofInt y).toNat + (UInt16.ofInt h).toNat ≤ 65536 := by omega
  refine (BackBuffer.bbDrawRect_paints bb (UInt16.ofInt x) (UInt16.ofInt y) (UInt16.ofInt w)
    (UInt16.ofInt h) color hfit).congr fun i j _ _ => ?_
  omega

/-! ## The background of the selection -/

namespace Scene

/-- The character at `q` is selected between the anchor `s` and the cursor `p`. -/
def Selects (s p q : Pos) : Prop :=
  (Text.before s q ∧ ¬ Text.before p q) ∨ (Text.before p q ∧ ¬ Text.before s q)

/-- The pixel is in the cell of the character at `q`, which is selected and in view. -/
def SelectedCell (app : App) (t : List (List UInt8)) (s p q : Pos) (x y : Int) : Prop :=
  Screen.visible app q.row q.col = true ∧ Selects s p q ∧ q.col < (Text.row t q.row).length ∧
    Screen.InCell (Screen.modelToPx app q.col) (Screen.modelToPy app q.row) x y

/-- Between the two ends in document order: after the first of them and before the
second, each in its own row only. -/
theorem selects_iff {s p b e q : Pos} (hbe : Text.before b e)
    (hends : (b = s ∧ e = p) ∨ (b = p ∧ e = s)) : Selects s p q ↔
      b.row ≤ q.row ∧ q.row ≤ e.row ∧ (q.row = b.row → b.col ≤ q.col) ∧
        (q.row = e.row → q.col < e.col) := by
  unfold Selects
  unfold Text.before at hbe ⊢
  rcases hends with ⟨rfl, rfl⟩ | ⟨rfl, rfl⟩ <;> omega

section Rows

variable {T : Prop} {app : App} {t : List (List UInt8)} {s p b e : Pos} {res : Resolution}

/-- The columns `left` to `right` of the view, in row `k`. -/
def columns (app : App) (k : Nat) (left right : Int) : List Fill :=
  if app.scene.editor.x + left * fontW < app.scene.editor.x + right * fontW then
    [⟨app.scene.editor.x + left * fontW, app.scene.editor.y + (k - app.editor.scrollRow) * fontH,
      app.scene.editor.x + right * fontW - (app.scene.editor.x + left * fontW), fontH,
      colorSelBg⟩]
  else []

theorem columns_paint (harr : app.scene.Arranged) (hres : app.scene.hRes = res.hRes.toNat)
    (vres : app.scene.vRes = res.vRes.toNat) {k : Nat} {left right : Int} (hleft : 0 ≤ left)
    (hfirst : 0 ≤ app.editor.scrollCol + left) (hright : right ≤ app.scene.visCols)
    (hscroll : app.editor.scrollRow ≤ k)
    (hview : (k : Int) < app.editor.scrollRow + app.scene.visRows) (bb : BackBuffer res) :
    Paints (fun x y => ∃ q : Pos, q.row = k ∧ left ≤ q.col - app.editor.scrollCol ∧
      q.col - app.editor.scrollCol < right ∧
      Screen.InCell (Screen.modelToPx app q.col) (Screen.modelToPy app k) x y) colorSelBg bb
      ((columns app k left right).foldl Fill.paint bb) := by
  have hx0 := harr.panel_le
  have hw0 := harr.panel_nonneg
  have hy0 := harr.editor_y
  have hxmax := harr.right
  have hymax := harr.bottom
  have hxlt := res.hRes.toNat_lt
  have hylt := res.vRes.toNat_lt
  simp only [fontH, scrollbarW, editorY] at hy0 hxmax hymax
  unfold columns
  split
  · next hlt =>
    simp only [fontW] at hlt
    have hcols := harr.cols_fit (by omega)
    have hrows := harr.rows_fit (by omega)
    simp only [fontW, fontH, editorY] at hcols hrows
    rw [List.foldl_cons, List.foldl_nil]
    refine (Fill.paint_paints bb colorSelBg ?_ ?_ ?_ ?_ ?_ ?_).congr fun x y _ _ => ?_
    case refine_7 =>
      simp only [Screen.InCell, Screen.modelToPx, Screen.modelToPy, fontW, fontH]
      constructor
      · intro hin
        refine ⟨⟨k, (app.editor.scrollCol + (x - app.scene.editor.x) / 8).toNat⟩, rfl, ?_⟩
        dsimp only
        omega
      · rintro ⟨q, -, hin⟩
        omega
    all_goals
      simp only [fontW, fontH]
      omega
  · next hle =>
    refine .refl (fun x y _ _ => ?_) colorSelBg bb
    rintro ⟨q, -, hl, hr, -⟩
    simp only [fontW] at hle
    omega

variable (hdoc : app.editor.doc.Shows T t)
  (hrange : app.editor.selGetRange = (↑b.row, ↑b.col, ↑e.row, ↑e.col))
  (hbe : Text.before b e) (he : Text.Valid t e)
  (hends : (b = s ∧ e = p) ∨ (b = p ∧ e = s))

include hdoc hrange hbe he hends

/-- One row of the loop of `draw_selection_bg`: the selected characters in view of that
row are a stretch of columns. -/
theorem selectionRow_eq {k : Nat} (hbk : b.row ≤ k) (hke : k ≤ e.row)
    (hscroll : app.editor.scrollRow ≤ k)
    (hview : (k : Int) < app.editor.scrollRow + app.scene.visRows) :
    ∃ left right : Int, 0 ≤ left ∧ 0 ≤ app.editor.scrollCol + left ∧ right ≤ app.scene.visCols ∧
      selectionRow app.scene app.editor k = some (columns app k left right) ∧
      ∀ (q : Pos) (x y : Int), q.row = k → (SelectedCell app t s p q x y ↔
        left ≤ q.col - app.editor.scrollCol ∧ q.col - app.editor.scrollCol < right ∧
          Screen.InCell (Screen.modelToPx app q.col) (Screen.modelToPy app k) x y) := by
  -- The columns of the row that are selected, and those of them that are in view.
  obtain ⟨lo, hlo, hlo0, hlo'⟩ : ∃ lo : Int, (if (k : Int) = b.row then (b.col : Int) else 0) = lo ∧
      0 ≤ lo ∧ ∀ c : Nat, lo ≤ c ↔ (k = b.row → b.col ≤ c) := by
    refine ⟨_, rfl, ?_, fun c => ?_⟩ <;> split <;> omega
  obtain ⟨hi, hhi, hhi'⟩ : ∃ hi : Int, (if (k : Int) = e.row then (e.col : Int)
      else ((Text.row t k).length : Int)) = hi ∧
      ∀ c : Nat, c < hi ↔ (k = e.row → c < e.col) ∧ c < (Text.row t k).length := by
    refine ⟨_, rfl, fun c => ?_⟩
    split
    · next hk =>
      obtain rfl : k = e.row := by omega
      have := he.2
      omega
    · omega
  obtain ⟨left, hleft, hleft0, hfirst, hleft'⟩ : ∃ left : Int, (if app.editor.scrollCol < lo then
      lo - app.editor.scrollCol else 0) = left ∧ 0 ≤ left ∧ 0 ≤ app.editor.scrollCol + left ∧
      ∀ c, app.editor.scrollCol ≤ c → (left ≤ c - app.editor.scrollCol ↔ lo ≤ c) := by
    refine ⟨_, rfl, ?_, ?_, fun c hc => ?_⟩ <;> split <;> omega
  obtain ⟨right, hright, hright0, hright'⟩ : ∃ right : Int,
      (if hi < app.editor.scrollCol + app.scene.visCols then hi - app.editor.scrollCol
        else app.scene.visCols) = right ∧ right ≤ app.scene.visCols ∧
      ∀ c, c < app.editor.scrollCol + app.scene.visCols →
        (c - app.editor.scrollCol < right ↔ c < hi) := by
    refine ⟨_, rfl, ?_, fun c hc => ?_⟩ <;> split <;> omega
  refine ⟨left, right, hleft0, hfirst, hright0, ?_, fun q x y hq => ?_⟩
  · simp only [selectionRow, hrange, Editor.getLineLen_row hdoc, Option.bind_eq_bind,
      Option.bind_some, hlo, hhi, hleft, hright, columns]
    split <;> rfl
  · have hcol := hleft' q.col
    have hcol' := hright' q.col
    have hselect := hlo' q.col
    have hselect' := hhi' q.col
    simp only [SelectedCell, Screen.visible, Bool.and_eq_true, decide_eq_true_eq,
      selects_iff hbe hends, hq]
    constructor
    · rintro ⟨hvis, hsel, hlen, hin⟩
      exact ⟨by omega, by omega, hin⟩
    · rintro ⟨hl, hr, hin⟩
      exact ⟨by omega, by omega, by omega, hin⟩

variable (harr : app.scene.Arranged) (hres : app.scene.hRes = res.hRes.toNat)
  (vres : app.scene.vRes = res.vRes.toNat)

include harr hres vres

/-- The loop of `draw_selection_bg` over rows that are selected and in view. -/
theorem selectionRows_paints {k n : Nat} (hbk : b.row ≤ k) (hscroll : app.editor.scrollRow ≤ k)
    (hin : ∀ j : Nat, k ≤ j → j < k + n →
      j ≤ e.row ∧ (j : Int) < app.editor.scrollRow + app.scene.visRows) :
    ∃ fills, selectionRows app.scene app.editor k n = some fills ∧ ∀ bb : BackBuffer res,
      Paints (fun x y => ∃ q : Pos, k ≤ q.row ∧ q.row < k + n ∧ SelectedCell app t s p q x y)
        colorSelBg bb (fills.foldl Fill.paint bb) := by
  induction n generalizing k with
  | zero =>
    refine ⟨[], rfl, fun bb => .refl (fun x y _ _ => ?_) colorSelBg bb⟩
    rintro ⟨q, hk, hk', -⟩
    omega
  | succ n ih =>
    obtain ⟨hke, hview⟩ := hin k (Nat.le_refl k) (by omega)
    obtain ⟨left, right, hleft, hfirst, hright, hrow, hcell⟩ :=
      selectionRow_eq hdoc hrange hbe he hends hbk hke hscroll hview
    have hpaints := columns_paint harr hres vres hleft hfirst hright hscroll hview
    obtain ⟨rest, hrows, hpaints'⟩ := ih (k := k + 1) (by omega) (by omega)
      fun j hj hj' => hin j (by omega) (by omega)
    refine ⟨columns app k left right ++ rest, ?_, fun bb => ?_⟩
    · rw [Int.natCast_add_one] at hrows
      simp only [selectionRows, hrow, hrows, Option.bind_eq_bind, Option.bind_some, Option.pure_def]
    · rw [List.foldl_append]
      refine ((hpaints bb).trans (hpaints' _)).congr fun x y _ _ => ?_
      constructor
      · rintro (⟨q, hq, hsel⟩ | ⟨q, hq, hq', hsel⟩)
        · exact ⟨q, by omega, by omega, (hcell q x y hq).2 hsel⟩
        · exact ⟨q, by omega, by omega, hsel⟩
      · rintro ⟨q, hq, hq', hsel⟩
        by_cases hqk : q.row = k
        · exact .inl ⟨q, hqk, (hcell q x y hqk).1 hsel⟩
        · exact .inr ⟨q, by omega, by omega, hsel⟩

end Rows

/-- `draw_selection_bg` in a layout whose rectangles do not overlap. -/
theorem drawSelectionBg_paints {T : Prop} (app : App) {t : List (List UInt8)}
    (hdoc : app.editor.doc.Shows T t) (harr : app.scene.Arranged) {res : Resolution}
    (hres : app.scene.hRes = res.hRes.toNat) (vres : app.scene.vRes = res.vRes.toNat) {s p : Pos}
    (hsel : app.editor.Selected t s) (hrow : app.editor.cursorRow = p.row)
    (hcol : app.editor.cursorCol = p.col) (hp : Text.Valid t p) :
    ∃ fills, app.scene.drawSelectionBg app.editor (app.scene.endRow app.editor) = some fills ∧
      ∀ bb : BackBuffer res, Paints (fun x y => ∃ q, SelectedCell app t s p q x y) colorSelBg bb
        (fills.foldl Fill.paint bb) := by
  obtain ⟨b, e, hrange, hbe, hends⟩ := hsel.ends hrow hcol
  have he : Text.Valid t e := by
    rcases hends with ⟨-, rfl⟩ | ⟨-, rfl⟩
    · exact hp
    · exact hsel.valid
  have hcount := hdoc.rowCount_eq
  have hlt := he.1
  obtain ⟨k, hk, hbk, hscroll, hfirst⟩ : ∃ k : Nat, (if app.editor.scrollRow < (b.row : Int) then
      (b.row : Int) else app.editor.scrollRow) = k ∧ b.row ≤ k ∧ app.editor.scrollRow ≤ k ∧
      ∀ j : Nat, b.row ≤ j → app.editor.scrollRow ≤ j → k ≤ j := by
    refine ⟨(if app.editor.scrollRow < (b.row : Int) then (b.row : Int)
      else app.editor.scrollRow).toNat, ?_, ?_, ?_, fun j hj hj' => ?_⟩ <;> split <;> omega
  obtain ⟨n, hn, hlast, hlast'⟩ : ∃ n : Nat, ((if (e.row : Int) < app.scene.endRow app.editor - 1 then
      (e.row : Int) else app.scene.endRow app.editor - 1) + 1 - k).toNat = n ∧
      (∀ j : Nat, k ≤ j → j < k + n →
        j ≤ e.row ∧ (j : Int) < app.editor.scrollRow + app.scene.visRows) ∧
      ∀ j : Nat, j ≤ e.row → (j : Int) < app.editor.scrollRow + app.scene.visRows → j < k + n := by
    have hend : app.scene.endRow app.editor ≤ app.editor.scrollRow + app.scene.visRows ∧
        app.scene.endRow app.editor ≤ t.length ∧
        (app.scene.endRow app.editor = t.length ∨
          app.scene.endRow app.editor = app.editor.scrollRow + app.scene.visRows) := by
      unfold endRow
      split <;> omega
    refine ⟨_, rfl, fun j hj hj' => ?_, fun j hj hj' => ?_⟩ <;> split at * <;> omega
  obtain ⟨fills, hfills, hpaints⟩ := selectionRows_paints hdoc hrange hbe he hends harr
    hres vres hbk hscroll hlast
  refine ⟨fills, ?_, fun bb => (hpaints bb).congr fun x y _ _ => ?_⟩
  · simp only [drawSelectionBg, hrange, hk, hn]
    exact hfills
  · constructor
    · rintro ⟨q, -, -, hcell⟩
      exact ⟨q, hcell⟩
    · rintro ⟨q, hcell⟩
      have hsel := (selects_iff hbe hends).1 hcell.2.1
      have hvis := hcell.1
      simp only [Screen.visible, Bool.and_eq_true, decide_eq_true_eq] at hvis
      exact ⟨q, hfirst q.row (by omega) (by omega), hlast' q.row (by omega) (by omega), hcell⟩

/-- `draw_selection_bg` paints the cells in view of the selected characters, on whichever
side of the cursor the anchor is, and leaves every other pixel alone. -/
theorem selection_painted_exactly {T : Prop} (app : App) {t : List (List UInt8)}
    (hdoc : app.editor.doc.Shows T t) {s₀ : Scene} {treeVisible : Bool} {rowCount : Int}
    (hscene : app.scene = s₀.updateLayout treeVisible rowCount) {res : Resolution}
    (hres : app.scene.hRes = res.hRes.toNat) (vres : app.scene.vRes = res.vRes.toNat) {s p : Pos}
    (hsel : app.editor.Selected t s) (hrow : app.editor.cursorRow = p.row)
    (hcol : app.editor.cursorCol = p.col) (hp : Text.Valid t p) :
    ∃ fills, app.scene.drawSelectionBg app.editor (app.scene.endRow app.editor) = some fills ∧
      ∀ bb : BackBuffer res, Paints (fun x y => ∃ q, SelectedCell app t s p q x y) colorSelBg bb
        (fills.foldl Fill.paint bb) := by
  have harr : app.scene.Arranged := hscene ▸ arranged_updateLayout s₀ treeVisible rowCount
  exact drawSelectionBg_paints app hdoc harr hres vres hsel hrow hcol hp

/-- Two rows, selected backwards from the end of the second. -/
def twoSelected : App :=
  { Screen.twoRows with
    editor := { Screen.twoRows.editor with
      selActive := true, selAnchorRow := 1, selAnchorCol := 1 } }

theorem selection_painted_exactly_two_rows : ∃ fills,
    twoSelected.scene.drawSelectionBg twoSelected.editor
      (twoSelected.scene.endRow twoSelected.editor) = some fills ∧
    ∀ bb : BackBuffer ⟨1152, 864⟩,
      Paints (fun x y => ∃ q, SelectedCell twoSelected [ascii "ab", ascii "c"] ⟨1, 1⟩ ⟨0, 0⟩ q x y)
        colorSelBg bb (fills.foldl Fill.paint bb) :=
  selection_painted_exactly twoSelected (Commands.holding_holds _).shows rfl (by decide)
    (by decide) ⟨rfl, rfl, rfl, by decide⟩ rfl rfl (by decide)

end Scene

end LCode
