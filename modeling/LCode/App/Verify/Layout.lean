import LCode.Commands.Verify.Transmit

/-!
# The layout

The areas that `scene_update_layout` computes fit together on every screen, however
small, and `scene_px_to_text` finds nothing but positions of the document.
-/

namespace LCode

namespace Scene

/-- The areas of a layout fit together: the panel and the gutter are left of the text,
the scrollbar right of it, the status bar below it. -/
structure Arranged (s : Scene) : Prop where
  panel_nonneg : 0 ≤ s.filetree.w
  panel_le : s.filetree.w + 40 ≤ s.editor.x
  editor_y : s.editor.y = editorY
  editor_right : s.editor.x + s.editor.w = s.scrollbar.x
  editor_bottom : editorY + s.editor.h = s.statusBar.y
  bottom : s.statusBar.y + fontH = s.vRes
  right : s.scrollbar.x + scrollbarW = s.hRes
  scrollbar_y : s.scrollbar.y = editorY
  scrollbar_h : s.scrollbar.h = s.editor.h
  visCols : s.visCols = s.editor.w.tdiv fontW
  visRows : s.visRows = s.editor.h.tdiv fontH

theorem arranged_updateLayout (s : Scene) (visible : Bool) (rowCount : Int) :
    (s.updateLayout visible rowCount).Arranged := by
  obtain ⟨digits, hdigits, hmin⟩ : ∃ digits,
      (if countDigits rowCount.toNat rowCount 1 < gutterDigitsMin then gutterDigitsMin
        else countDigits rowCount.toNat rowCount 1) = digits ∧ 3 ≤ digits := by
    refine ⟨_, rfl, ?_⟩
    rw [show gutterDigitsMin = 3 from rfl]
    split <;> omega
  obtain ⟨panel, hpanel, hwidth⟩ : ∃ panel,
      (if visible then filetreeWPx else 0) = panel ∧ 0 ≤ panel := by
    cases visible
    · exact ⟨0, rfl, Int.le_refl 0⟩
    · exact ⟨160, rfl, by decide⟩
  simp only [Scene.updateLayout]
  rw [hdigits, hpanel]
  constructor
  case visCols => rfl
  case visRows => rfl
  case editor_y => rfl
  case scrollbar_y => rfl
  case scrollbar_h => rfl
  all_goals
    simp only [fontW, fontH, gutterPad, scrollbarW, editorY]
    omega

theorem tdiv_mul_le {a b : Int} (hb : 0 < b) (hpos : 0 < a.tdiv b) : a.tdiv b * b ≤ a := by
  have ha : 0 ≤ a := by
    by_contra hneg
    have hquot := Int.tdiv_nonneg (a := -a) (b := b) (by omega) (by omega)
    rw [Int.neg_tdiv] at hquot
    omega
  rw [Int.tdiv_eq_ediv_of_nonneg ha]
  exact Int.ediv_mul_le a (by omega)

variable {s : Scene}

/-- The columns in view fit into the text area. -/
theorem Arranged.cols_fit (h : s.Arranged) (hpos : 0 < s.visCols) :
    s.editor.x + s.visCols * fontW ≤ s.scrollbar.x := by
  have := tdiv_mul_le (b := fontW) (by decide) (h.visCols ▸ hpos)
  have := h.editor_right
  rw [h.visCols]
  omega

/-- The rows in view end above the status bar. -/
theorem Arranged.rows_fit (h : s.Arranged) (hpos : 0 < s.visRows) :
    editorY + s.visRows * fontH ≤ s.statusBar.y := by
  have := tdiv_mul_le (b := fontH) (by decide) (h.visRows ▸ hpos)
  have := h.editor_bottom
  rw [h.visRows]
  omega

/-! ## The text area -/

section Text

variable {T : Prop} {ed : Editor} {t : List (List UInt8)}

/-- `scene_px_to_text` finds a position of the text. -/
theorem pxToText_valid (h : ed.doc.Shows T t) (hne : 0 < t.length) (s : Scene) (px py : Int) :
    ∃ q : Option Pos, s.pxToText ed px py = some (q.map fun q => ((q.row : Int), (q.col : Int))) ∧
      ∀ q', q = some q' → Text.Valid t q' := by
  unfold Scene.pxToText
  split
  · exact ⟨none, rfl, fun _ hq => nomatch hq⟩
  split
  · exact ⟨none, rfl, fun _ hq => nomatch hq⟩
  dsimp only
  rw [h.rowCount_eq]
  generalize (py - Scene.editorY).tdiv Scene.fontH + ed.scrollRow = row
  generalize (px - s.editor.x).tdiv Scene.fontW + ed.scrollCol = col
  obtain ⟨k, hk, hlt⟩ : ∃ k : Nat, (if (t.length : Int) ≤ if row < 0 then 0 else row then
      (t.length : Int) - 1 else if row < 0 then 0 else row) = k ∧ k < t.length :=
    ⟨(if (t.length : Int) ≤ if row < 0 then 0 else row then
      (t.length : Int) - 1 else if row < 0 then 0 else row).toNat, by omega, by omega⟩
  obtain ⟨c, hc, hle⟩ : ∃ c : Nat, (if ((Text.row t k).length : Int) < if col < 0 then 0 else col
      then ((Text.row t k).length : Int) else if col < 0 then 0 else col) = c ∧
        c ≤ (Text.row t k).length :=
    ⟨(if ((Text.row t k).length : Int) < if col < 0 then 0 else col then
      ((Text.row t k).length : Int) else if col < 0 then 0 else col).toNat, by omega, by omega⟩
  refine ⟨some ⟨k, c⟩, ?_, fun q' hq => Option.some.inj hq ▸ ⟨hlt, hle⟩⟩
  rw [hk, Editor.getLineLen_row h]
  simp only [Option.bind_eq_bind, Option.bind_some, hc]
  rfl

end Text

end Scene

/-! ## Clicks beside the text -/

/-- What `scene_click_scrollbar` does to the view. -/
theorem App.clickScrollbar_cases (app : App) (px py : Int) :
    app.clickScrollbar px py = (false, app) ∨
      (app.clickScrollbar px py).1 = true ∧ app.scene.scrollbar.y ≤ py ∧
        py < app.scene.scrollbar.y + app.scene.scrollbar.h ∧
        (app.clickScrollbar px py).2.scene = app.scene ∧
        ∃ target, (app.clickScrollbar px py).2.editor =
            { app.editor.scrollBy (target - app.editor.scrollRow) 0 with scrollDirty := false } ∧
          target = ((py - app.scene.scrollbar.y) *
            max 0 (app.editor.doc.rowCount - app.scene.visRows)).tdiv app.scene.scrollbar.h := by
  unfold clickScrollbar
  extract_lets bar rowCount maxScroll target
  split
  · exact Or.inl rfl
  · split
    · exact Or.inl rfl
    · next hin =>
      simp only [bar] at hin
      refine Or.inr ⟨rfl, by omega, by omega, ?_, target, ?_, ?_⟩
      · dsimp only [Editor.consumeScrollDirty]
        cases (app.editor.scrollBy (target - app.editor.scrollRow) 0).scrollDirty <;> rfl
      · dsimp only [Editor.consumeScrollDirty]
        cases (app.editor.scrollBy (target - app.editor.scrollRow) 0).scrollDirty <;> rfl
      · simp only [target, maxScroll, rowCount, bar]
        by_cases hpage : app.scene.visRows < app.editor.doc.rowCount
        · rw [if_pos hpage, if_pos (by omega), Int.max_eq_right (by omega)]
        · rw [if_neg hpage, if_neg (by omega), Int.max_eq_left (by omega), Int.mul_zero,
            Int.zero_tdiv]

/-- A click beside the scrollbar leaves the process alone. -/
theorem clickScrollbar_beside {app : App} {px py : Int} (h : (app.clickScrollbar px py).1 = false) :
    (app.clickScrollbar px py).2 = app := by
  rcases app.clickScrollbar_cases px py with hbeside | ⟨hon, -⟩
  · rw [hbeside]
  · exact absurd (hon.symm.trans h) (by decide)

/-- Beside the file tree a mouse event takes the focus from it. -/
theorem filetreeCommandsMouse_beside {app : App} {me : MouseEvent}
    (h : app.scene.pxToFiletree app.tree me.clickX me.clickY = none) :
    Commands.filetreeCommandsMouse app me =
      some (false, { app with tree := { app.tree with focused := false } }.setRender .full) := by
  unfold Commands.filetreeCommandsMouse
  dsimp only
  rw [show app.scene.pxToFiletree { app.tree with focused := false } me.clickX me.clickY = none
    from h]

end LCode
