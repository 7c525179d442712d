import LCode.App.Verify.Layout
import LCode.Commands.Verify.Files
import LCode.View.Flip
import LCode.View.Widgets

/-!
# Pixels and positions

Drawing and hit testing are separate computations. In the text area they are inverse to
each other for every layout: the pixels of a drawn cell lead back to its position. In
the panel of the file tree they agree on the rows that are drawn, but the hit test goes
on below the last of them, down to the end of the screen.
-/

namespace LCode

/-! ## Clicks on the text -/

namespace Screen

open Scene

/-- The pixel is in the cell of 8 by 16 pixels whose corner is at `x` and `y`. -/
def InCell (x y px py : Int) : Prop := x ≤ px ∧ px < x + fontW ∧ y ≤ py ∧ py < y + fontH

instance (x y px py : Int) : Decidable (InCell x y px py) :=
  inferInstanceAs (Decidable (_ ∧ _))

/-- A click on a character in view puts the cursor on it, whatever pixel of its cell is
hit, and a click that is accepted at all names a position of the document. -/
theorem click_inverts_drawing {T : Prop} (app : App) {t : List (List UInt8)}
    (hdoc : app.editor.doc.Shows T t) (hne : 1 ≤ t.length) {s : Scene} {treeVisible : Bool}
    {rowCount : Int} (hscene : app.scene = s.updateLayout treeVisible rowCount)
    (hrows : 1 ≤ app.scene.visRows) (hcols : 1 ≤ app.scene.visCols) :
    (∀ q : Pos, Text.Valid t q → visible app q.row q.col = true → ∀ px py,
      InCell (modelToPx app q.col) (modelToPy app q.row) px py →
        app.scene.pxToText app.editor px py = some (some ((q.row : Int), (q.col : Int)))) ∧
    ∀ px py, ∃ r, app.scene.pxToText app.editor px py = some r ∧
      ∀ row col, r = some (row, col) → ∃ q : Pos, Text.Valid t q ∧ row = q.row ∧ col = q.col := by
  have harr : app.scene.Arranged := hscene ▸ arranged_updateLayout s treeVisible rowCount
  refine ⟨fun q hq hvis px py hcell => ?_, fun px py => ?_⟩
  · obtain ⟨hpx, hpx', hpy, hpy'⟩ := hcell
    simp only [visible, Bool.and_eq_true, decide_eq_true_eq] at hvis
    obtain ⟨⟨⟨hrow, hrow'⟩, hcol⟩, hcol'⟩ := hvis
    have hright := harr.cols_fit (by omega)
    have hbottom := harr.rows_fit (by omega)
    have htop := harr.editor_y
    simp only [modelToPx, modelToPy, fontW, fontH, editorY] at hpx hpx' hpy hpy' hright hbottom htop
    have hlen := hq.2
    have hcount : app.editor.doc.rowCount = t.length := hdoc.rowCount_eq
    have hlt := hq.1
    have hdivx : (px - app.scene.editor.x).tdiv 8 + app.editor.scrollCol = q.col := by
      rw [Int.tdiv_eq_ediv_of_nonneg (by omega)]
      omega
    have hdivy : (py - 10).tdiv 16 + app.editor.scrollRow = q.row := by
      rw [Int.tdiv_eq_ediv_of_nonneg (by omega)]
      omega
    unfold Scene.pxToText
    rw [if_neg (by omega), if_neg (by omega)]
    simp only [fontW, fontH, editorY, hdivx, hdivy, hcount]
    rw [if_neg (by omega : ¬ (q.row : Int) < 0), if_neg (by omega : ¬ (t.length : Int) ≤ q.row),
      if_neg (by omega : ¬ (q.col : Int) < 0), Editor.getLineLen_row hdoc]
    simp only [Option.bind_eq_bind, Option.bind_some]
    rw [if_neg (by omega)]
    rfl
  · obtain ⟨q, hpx, hvalid⟩ := pxToText_valid hdoc (by omega) app.scene px py
    refine ⟨_, hpx, fun row col heq => ?_⟩
    obtain ⟨q', hq', hpair⟩ := Option.map_eq_some_iff.1 heq
    obtain ⟨rfl, rfl⟩ := Prod.mk.inj hpair
    exact ⟨q', hvalid q' hq', rfl, rfl⟩

/-- Two rows in a window beside the file tree. -/
def twoRows : App :=
  { Commands.holding [ascii "ab", ascii "c"] with scene := Scene.static.updateLayout true 2 }

theorem click_inverts_drawing_two_rows :
    twoRows.scene.pxToText twoRows.editor 211 20 = some (some (0, 1)) ∧
      ∀ px py, ∃ r, twoRows.scene.pxToText twoRows.editor px py = some r ∧
        ∀ row col, r = some (row, col) →
          ∃ q : Pos, Text.Valid [ascii "ab", ascii "c"] q ∧ row = q.row ∧ col = q.col := by
  obtain ⟨hcell, hvalid⟩ := click_inverts_drawing twoRows
    (Commands.holding_holds _).shows (by decide) rfl (by decide) (by decide)
  exact ⟨hcell ⟨0, 1⟩ (by decide) (by decide) 211 20 (by decide), hvalid⟩

end Screen

/-! ## Clicks on the file tree -/

namespace Scene

/-- The row of entry `i` is drawn over the pixels of height `py`. -/
def DrawnAt (rows : List EntryRow) (i py : Int) : Prop :=
  ∃ row ∈ rows, row.index = i ∧ row.y ≤ py ∧ py < row.y + fontH

/-- The hit test names the entry that is drawn there, and none where none is. -/
def PicksDrawn (s : Scene) (ft : FileTree) (rows : List EntryRow) (px py : Int) : Prop :=
  (∀ i, 0 ≤ i → (s.pxToFiletree ft px py = some i ↔ DrawnAt rows i py)) ∧
    (s.pxToFiletree ft px py = some (-1) ↔ ∀ i, ¬ DrawnAt rows i py)

/-- The pixel is in one of the rows in view, or below the end of the listing. -/
def OverRow (s : Scene) (ft : FileTree) (py : Int) : Prop :=
  (py - editorY).tdiv fontH < s.visRows ∨
    ft.entryCount ≤ ft.scroll + (py - editorY).tdiv fontH

section Panel

variable {s : Scene} {ft : FileTree} {vrows : Int}

theorem drawEntry_eq {i : Int} (h0 : 0 ≤ i) (hi : i < ft.entryCount) : ∃ row,
    drawEntry s ft i = some row ∧ row.index = i ∧ row.y = editorY + (i - ft.scroll) * fontH := by
  have hlt : i.toNat < ft.entries.length := by
    unfold FileTree.entryCount at hi
    omega
  have hread : Block.read ft.entries i = some ft.entries[i.toNat] := by
    simp [Block.read, h0, hlt]
  exact ⟨_, by rw [drawEntry, hread]; rfl, rfl, rfl⟩

/-- The loop draws the entries from the first in view to the last one. -/
theorem drawEntries_eq (s : Scene) {fuel : Nat} {i : Int} (h0 : 0 ≤ i)
    (hfuel : ft.scroll + vrows < i + fuel) (hpos : 0 < fuel) :
    ∃ rows, drawEntries s ft vrows fuel i = some rows ∧
      (∀ row ∈ rows, i ≤ row.index ∧ row.index < ft.scroll + vrows ∧ row.index < ft.entryCount ∧
        row.y = editorY + (row.index - ft.scroll) * fontH) ∧
      ∀ j, i ≤ j → j < ft.scroll + vrows → j < ft.entryCount → ∃ row ∈ rows, row.index = j := by
  induction fuel generalizing i with
  | zero => omega
  | succ fuel ih =>
    rw [drawEntries]
    split
    · next hin =>
      obtain ⟨row, hrow, hindex, hy⟩ := drawEntry_eq (s := s) h0 hin.2
      obtain ⟨rows, hrows, hsound, hall⟩ := ih (i := i + 1) (by omega) (by omega) (by omega)
      refine ⟨row :: rows, by simp [hrow, hrows], fun r hr => ?_, fun j hij hj hj' => ?_⟩
      · rcases List.mem_cons.1 hr with rfl | hr
        · exact ⟨by omega, by omega, by omega, by rw [hy, hindex]⟩
        · obtain ⟨h₁, h₂, h₃, h₄⟩ := hsound r hr
          exact ⟨by omega, h₂, h₃, h₄⟩
      · by_cases hji : j = i
        · exact ⟨row, List.mem_cons_self, hindex.trans hji.symm⟩
        · obtain ⟨r, hr, hrj⟩ := hall j (by omega) hj hj'
          exact ⟨r, List.mem_cons_of_mem _ hr, hrj⟩
    · next hout =>
      exact ⟨[], rfl, nofun, fun j hij hj hj' => by omega⟩

/-- What `draw_filetree` draws, and where. -/
theorem drawFiletree_eq (s : Scene) (ft : FileTree) (vrows : Int) (h0 : 0 ≤ ft.scroll) :
    ∃ panel rows, s.drawFiletree ft vrows = some (panel, rows) ∧ ∀ i py, DrawnAt rows i py ↔
      ft.scroll ≤ i ∧ i < ft.scroll + vrows ∧ i < ft.entryCount ∧
        editorY + (i - ft.scroll) * fontH ≤ py ∧
        py < editorY + (i - ft.scroll) * fontH + fontH := by
  obtain ⟨rows, hrows, hsound, hall⟩ := drawEntries_eq s (i := ft.scroll) h0
    (by omega : ft.scroll + vrows < ft.scroll + ((vrows.toNat + 1 : Nat) : Int)) (by omega)
  refine ⟨_, rows, by rw [drawFiletree, hrows]; rfl, fun i py => ⟨?_, ?_⟩⟩
  · rintro ⟨row, hrow, rfl, hy, hy'⟩
    obtain ⟨h₁, h₂, h₃, h₄⟩ := hsound row hrow
    exact ⟨h₁, h₂, h₃, h₄ ▸ hy, h₄ ▸ hy'⟩
  · rintro ⟨h₁, h₂, h₃, hy, hy'⟩
    obtain ⟨row, hrow, rfl⟩ := hall i h₁ h₂ h₃
    obtain ⟨-, -, -, h₄⟩ := hsound row hrow
    exact ⟨row, hrow, rfl, h₄ ▸ hy, h₄ ▸ hy'⟩

/-- The row over the pixels of a height. -/
theorem drawnAt_iff {rows : List EntryRow} {i py : Int} (hpy : editorY ≤ py)
    (hdrawn : DrawnAt rows i py ↔ ft.scroll ≤ i ∧ i < ft.scroll + vrows ∧ i < ft.entryCount ∧
      editorY + (i - ft.scroll) * fontH ≤ py ∧ py < editorY + (i - ft.scroll) * fontH + fontH) :
    DrawnAt rows i py ↔ i = ft.scroll + (py - editorY).tdiv fontH ∧
      (py - editorY).tdiv fontH < vrows ∧ i < ft.entryCount := by
  rw [hdrawn, Int.tdiv_eq_ediv_of_nonneg (by omega)]
  simp only [editorY, fontH] at hpy ⊢
  omega

/-- `scene_px_to_filetree` inside the panel. -/
theorem pxToFiletree_eq (hvisible : ft.visible = true) {px py : Int} (hpx : 0 ≤ px)
    (hpx' : px < s.filetree.w) (hpy : editorY ≤ py) : s.pxToFiletree ft px py =
      if ft.entryCount ≤ ft.scroll + (py - editorY).tdiv fontH then some (-1)
      else some (ft.scroll + (py - editorY).tdiv fontH) := by
  unfold pxToFiletree
  rw [hvisible, if_neg (by decide), if_neg (by omega), if_neg (by omega)]

end Panel

end Scene

namespace App

/-- The entry that a click selects, or opens if it is the selected one. -/
def clickedEntry (app : App) (me : MouseEvent) : Option Int :=
  if me.scroll ≠ 0 then none
  else (app.scene.pxToFiletree app.tree me.clickX me.clickY).filter (· ≠ -1)

/-- The state in which `filetree_set_cursor` was called for an entry. -/
def selectEntry (app : App) (i : Int) : App :=
  { app with tree := { app.tree with focused := true }.setCursor i app.scene.visRows }

/-- A click of `filetree_commands_mouse` on an entry. -/
theorem filetreeCommandsMouse_clicked {app : App} {me : MouseEvent} {i : Int}
    (h : app.clickedEntry me = some i) : Commands.filetreeCommandsMouse app me =
      (if i = app.tree.cursor then Commands.openFiletreeFile (app.selectEntry i)
        else some (app.selectEntry i)).map fun app => (true, app.setRender .full) := by
  unfold clickedEntry at h
  split at h
  · exact nomatch h
  next hscroll =>
  obtain ⟨hhit, hne⟩ := Option.filter_eq_some_iff.1 h
  have hhit' : app.scene.pxToFiletree { app.tree with focused := false } me.clickX me.clickY =
      some i := hhit
  have hne' : ¬ i = -1 := by simpa using hne
  unfold Commands.filetreeCommandsMouse
  simp only [hhit', if_neg hscroll, if_neg hne']
  by_cases hsame : i = app.tree.cursor
  · simp only [if_pos hsame]
    exact Option.map_eq_bind.symm
  · simp only [if_neg hsame]
    rfl

end App

namespace Scene

/-- The hit test of the panel agrees with what is drawn there exactly on the rows in
view and below the end of the listing; there a click acts on a drawn entry only. -/
theorem filetree_click_iff (s : Scene) (ft : FileTree) (hvisible : ft.visible = true)
    (h0 : 0 ≤ ft.scroll) (px py : Int) (hpx : 0 ≤ px) (hpx' : px < s.filetree.w)
    (hpy : editorY ≤ py) :
    ∃ panel rows, s.drawFiletree ft s.visRows = some (panel, rows) ∧
      (PicksDrawn s ft rows px py ↔ OverRow s ft py) ∧
      (OverRow s ft py → ∀ (app : App) (me : MouseEvent) (i : Int), app.scene = s →
        app.tree = ft → me.clickX = px → me.clickY = py → app.clickedEntry me = some i →
          DrawnAt rows i py) := by
  obtain ⟨panel, rows, hdraw, hdrawn⟩ := drawFiletree_eq s ft s.visRows h0
  have hrow (i : Int) := drawnAt_iff hpy (hdrawn i py)
  have hhit := pxToFiletree_eq hvisible hpx hpx' hpy
  have hk : 0 ≤ (py - editorY).tdiv fontH := Int.tdiv_nonneg (by omega) (by decide)
  refine ⟨panel, rows, hdraw, ?_, ?_⟩
  · unfold PicksDrawn OverRow
    simp only [hrow, hhit]
    generalize (py - editorY).tdiv fontH = k at hk
    by_cases hbelow : ft.entryCount ≤ ft.scroll + k
    · simp only [if_pos hbelow, Option.some.injEq, true_iff]
      refine iff_of_true ⟨fun i hi => ?_, fun i hi => ?_⟩ (.inr hbelow)
      · omega
      · omega
    · simp only [if_neg hbelow, Option.some.injEq, or_iff_left hbelow]
      constructor
      · intro hpicks
        exact ((hpicks.1 (ft.scroll + k) (by omega)).1 rfl).2.1
      · intro hview
        refine ⟨fun i hi => ?_, ?_⟩
        · omega
        · exact iff_of_false (by omega) fun hnone =>
            hnone (ft.scroll + k) ⟨rfl, hview, by omega⟩
  · rintro hover app me i rfl rfl rfl rfl hi
    unfold App.clickedEntry at hi
    split at hi
    · exact nomatch hi
    obtain ⟨hhit', hne⟩ := Option.filter_eq_some_iff.1 hi
    have hne' : i ≠ -1 := by simpa using hne
    rw [hhit] at hhit'
    rw [hrow]
    unfold OverRow at hover
    split at hhit'
    · exact absurd (Option.some.inj hhit').symm hne'
    · next hbelow =>
      exact ⟨(Option.some.inj hhit').symm, hover.resolve_right hbelow,
        Option.some.inj hhit' ▸ Int.not_le.1 hbelow⟩

/-- Sixty files on the screen of the program. -/
def sixtyFiles : App :=
  { App.static Commands.emptyDisk .zeros with
    tree := { FileTree.static with entries := List.replicate 60 ⟨ascii "a", false⟩ }
    scene := Scene.static.updateLayout true 1 }

/-- In the first row of the panel. -/
theorem filetree_click_iff_first_row : ∃ panel rows,
    sixtyFiles.scene.drawFiletree sixtyFiles.tree sixtyFiles.scene.visRows = some (panel, rows) ∧
      PicksDrawn sixtyFiles.scene sixtyFiles.tree rows 20 12 := by
  obtain ⟨panel, rows, hdraw, hpicks, -⟩ := filetree_click_iff sixtyFiles.scene sixtyFiles.tree
    rfl (by decide) 20 12 (by decide) (by decide) (by decide)
  exact ⟨panel, rows, hdraw, hpicks.2 (.inl (by decide))⟩

/-- A click on the status bar selects the first entry behind those in view. -/
theorem status_bar_click_selects : ∃ panel rows app',
    sixtyFiles.scene.drawFiletree sixtyFiles.tree sixtyFiles.scene.visRows = some (panel, rows) ∧
    sixtyFiles.scene.statusBar.y ≤ 850 ∧ 850 < sixtyFiles.scene.filetree.h ∧
    sixtyFiles.scene.pxToFiletree sixtyFiles.tree 20 850 = some 52 ∧
    (∀ i, ¬ DrawnAt rows i 850) ∧
    Commands.filetreeCommandsMouse sixtyFiles ⟨true, false, 20, 850, 0⟩ = some (true, app') ∧
    app'.tree.cursor = 52 := by
  obtain ⟨panel, rows, hdraw, hdrawn⟩ := drawFiletree_eq sixtyFiles.scene sixtyFiles.tree
    sixtyFiles.scene.visRows (by decide)
  refine ⟨panel, rows, _, hdraw, by decide, by decide, by decide, fun i hi => ?_,
    App.filetreeCommandsMouse_clicked (i := 52) (by decide), by decide⟩
  obtain ⟨-, hview, -⟩ := (drawnAt_iff (by decide) (hdrawn i 850)).1 hi
  exact absurd hview (by decide)

end Scene

end LCode
