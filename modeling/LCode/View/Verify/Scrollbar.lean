import LCode.App.Verify.Layout
import LCode.Commands.Verify.Files
import LCode.Commands.Verify.Keys
import LCode.Lib.Along
import LCode.View.Widgets

/-!
# The handle of the scrollbar

`draw_scrollbar` places the handle by the scroll row, and trusts that the last page is
the lowest one. `scene_click_scrollbar` and `clamp_scroll` keep to that, but
`editor_scroll_by` lets the wheel go on until the last row is the first in view, and the
handle leaves its track.
-/

namespace LCode

namespace Scene

/-! ## One frame -/

/-- The handle is drawn, and inside the track. -/
def HandleInTrack (s : Scene) (rowCount scrollRow : Int) : Prop :=
  ∃ track handle, s.drawScrollbar rowCount scrollRow = some (track, some handle) ∧
    s.scrollbar.y ≤ handle.y ∧ handle.y + handle.h ≤ s.scrollbar.y + s.scrollbar.h

/-- The first row of the last page: `max_scroll`. -/
def lastPage (s : Scene) (rowCount : Int) : Int :=
  if s.visRows < rowCount then rowCount - s.visRows else 1

/-- What the handle, a share of at least four pixels, leaves free of the track. -/
def freeTrack (s : Scene) (rowCount : Int) : Int :=
  if s.visRows < rowCount then
    s.scrollbar.h - max scrollbarHandleMin ((s.visRows * s.scrollbar.h).tdiv rowCount)
  else 0

/-- The scroll row is not so far behind the last page that the handle shows it, and its
product with the pixels is an `int`. -/
def Tracked (s : Scene) (rowCount scrollRow : Int) : Prop :=
  scrollRow * s.freeTrack rowCount ≤ 2147483647 ∧
    scrollRow * s.freeTrack rowCount < (s.freeTrack rowCount + 1) * s.lastPage rowCount

instance (s : Scene) (rowCount scrollRow : Int) : Decidable (s.Tracked rowCount scrollRow) :=
  inferInstanceAs (Decidable (_ ∧ _))

section Frame

variable {s : Scene} {rowCount : Int}

theorem lastPage_pos (s : Scene) (rowCount : Int) : 1 ≤ s.lastPage rowCount := by
  unfold lastPage
  split <;> omega

/-- The height of the track, where a row is in view. -/
theorem Arranged.track (harr : s.Arranged) (hvis : 1 ≤ s.visRows) :
    s.visRows * 16 ≤ s.scrollbar.h ∧ s.scrollbar.h < s.vRes := by
  have hrows := harr.rows_fit (by omega)
  have hbar := harr.scrollbar_h
  have hbottom := harr.editor_bottom
  have hscreen := harr.bottom
  simp only [fontH, editorY] at hrows hbottom hscreen
  omega

theorem handleHeight_eq (harr : s.Arranged) (hvis : 1 ≤ s.visRows) (hscreen : s.vRes ≤ 65535)
    (hcount : 1 ≤ rowCount) :
    handleHeight s.scrollbar.h s.visRows rowCount =
        some (s.scrollbar.h - s.freeTrack rowCount) ∧ 0 ≤ s.freeTrack rowCount := by
  obtain ⟨htrack, hbound⟩ := harr.track hvis
  unfold handleHeight freeTrack
  by_cases hpage : s.visRows < rowCount
  · have hprod : 0 ≤ s.visRows * s.scrollbar.h := by
      exact Int.mul_nonneg (by omega) (by omega)
    have hprod' : s.visRows * s.scrollbar.h ≤ 4096 * 65536 :=
      Int.mul_le_mul (by omega) (by omega) (by omega) (by omega)
    have hfits : FitsInt (s.visRows * s.scrollbar.h) := ⟨by omega, by omega⟩
    have hshare : (s.visRows * s.scrollbar.h).tdiv rowCount ≤ s.scrollbar.h := by
      rw [Int.tdiv_eq_ediv_of_nonneg hprod]
      refine Int.ediv_le_of_le_mul (by omega) ?_
      rw [Int.mul_comm]
      exact Int.mul_le_mul_of_nonneg_left (by omega) (by omega)
    rw [if_neg (by omega), if_pos hpage, intMul, if_pos hfits]
    simp only [scrollbarHandleMin, Option.map_some, Option.bind_eq_bind, Option.bind_some,
      Option.pure_def, Option.some.injEq]
    constructor
    · split_ifs <;> omega
    · omega
  · rw [if_pos (by omega), if_neg hpage]
    simp only [scrollbarHandleMin, Option.bind_eq_bind, Option.bind_some, Option.pure_def,
      Option.some.injEq]
    constructor
    · split_ifs <;> omega
    · exact Int.le_refl 0

/-- Where the handle is in its track. -/
theorem handleInTrack_iff (harr : s.Arranged) (hvis : 1 ≤ s.visRows) (hscreen : s.vRes ≤ 65535)
    (hcount : 1 ≤ rowCount) {row : Int} (hrow : 0 ≤ row) :
    s.HandleInTrack rowCount row ↔ s.Tracked rowCount row := by
  obtain ⟨hheight, hfree⟩ := handleHeight_eq harr hvis hscreen hcount
  have hprod : 0 ≤ row * s.freeTrack rowCount := Int.mul_nonneg hrow hfree
  have hlast := lastPage_pos s rowCount
  have hrest : s.scrollbar.y + s.scrollbar.h - (s.scrollbar.h - s.freeTrack rowCount) -
      s.scrollbar.y = s.freeTrack rowCount := by omega
  have hdraw : s.drawScrollbar rowCount row =
      (intMul row (s.freeTrack rowCount)).bind fun n =>
        some (⟨s.scrollbar.x, s.scrollbar.y, s.scrollbar.w, s.scrollbar.h, colorGutterBg⟩,
          some ⟨s.scrollbar.x + 2, s.scrollbar.y + n.tdiv (s.lastPage rowCount),
            s.scrollbar.w - 4, s.scrollbar.h - s.freeTrack rowCount, colorGutterFg⟩) := by
    unfold drawScrollbar lastPage
    rw [if_neg (by omega)]
    simp only [hheight, Option.bind_eq_bind, Option.bind_some, hrest, Option.pure_def]
  unfold HandleInTrack Tracked
  rw [hdraw, intMul]
  by_cases hfits : FitsInt (row * s.freeTrack rowCount)
  · have hmax := hfits.2
    simp only [if_pos hfits, Option.bind_some, Option.some.injEq, Prod.mk.injEq, hmax, true_and]
    rw [← Int.ediv_lt_iff_lt_mul (by omega), ← Int.tdiv_eq_ediv_of_nonneg hprod]
    have hquot := Int.tdiv_nonneg hprod (show 0 ≤ s.lastPage rowCount by omega)
    constructor
    · rintro ⟨-, handle, ⟨-, rfl⟩, -, hy⟩
      simp only at hy
      omega
    · intro hlt
      exact ⟨_, _, ⟨rfl, rfl⟩, by simp only; omega, by simp only; omega⟩
  · have hmax : ¬ row * s.freeTrack rowCount ≤ 2147483647 := fun hle => hfits ⟨by omega, hle⟩
    rw [if_neg hfits]
    simp [hmax]

/-- What is tracked at a row is tracked before it. -/
theorem Tracked.mono (harr : s.Arranged) (hvis : 1 ≤ s.visRows) (hscreen : s.vRes ≤ 65535)
    (hcount : 1 ≤ rowCount) {row row' : Int} (h : s.Tracked rowCount row) (hle : row' ≤ row) :
    s.Tracked rowCount row' := by
  have hfree := (handleHeight_eq harr hvis hscreen hcount).2
  have hprod := Int.mul_le_mul_of_nonneg_right hle hfree
  exact ⟨Int.le_trans hprod h.1, Int.lt_of_le_of_lt hprod h.2⟩

/-- The first page is always tracked. -/
theorem Arranged.tracked_zero (harr : s.Arranged) (hvis : 1 ≤ s.visRows)
    (hscreen : s.vRes ≤ 65535) (hcount : 1 ≤ rowCount) : s.Tracked rowCount 0 := by
  have hfree := (handleHeight_eq harr hvis hscreen hcount).2
  have hlast := lastPage_pos s rowCount
  refine ⟨by omega, ?_⟩
  rw [Int.zero_mul]
  exact Int.mul_pos (by omega) (by omega)

/-- So is the last one, if its product is an `int`. -/
theorem Arranged.tracked_lastPage (harr : s.Arranged) (hvis : 1 ≤ s.visRows)
    (hscreen : s.vRes ≤ 65535) (hcount : 1 ≤ rowCount) {row : Int}
    (hrow : row ≤ max 0 (rowCount - s.visRows)) (hfits : row * s.freeTrack rowCount ≤ 2147483647) :
    s.Tracked rowCount row := by
  have hfree := (handleHeight_eq harr hvis hscreen hcount).2
  have hlast := lastPage_pos s rowCount
  have hle : row ≤ s.lastPage rowCount := by
    unfold lastPage at hlast ⊢
    split <;> omega
  refine ⟨hfits, ?_⟩
  have hprod := Int.mul_le_mul_of_nonneg_right hle hfree
  rw [Int.add_mul, Int.one_mul, Int.mul_comm (s.freeTrack rowCount)]
  omega

end Frame

end Scene

/-! ## The scroll row -/

namespace Editor

theorem scrollBy_scrollRow (ed : Editor) (drow dcol : Int) :
    (ed.scrollBy drow dcol).scrollRow =
      min (max (ed.scrollRow + drow) 0) (ed.doc.rowCount - 1) := by
  unfold Editor.scrollBy
  extract_lets newRow newCol newRow' newRow'' newCol'
  have hrow : newRow'' = min (max newRow 0) (ed.doc.rowCount - 1) := by
    simp only [newRow'', newRow']
    split <;> split <;> omega
  rw [← hrow]
  split
  · rfl
  · omega

theorem clampScroll_scrollRow (ed : Editor) : ed.clampScroll.scrollRow =
    if ed.cursorRow < ed.scrollRow then ed.cursorRow
    else if ed.scrollRow + ed.visibleRows ≤ ed.cursorRow then ed.cursorRow - ed.visibleRows + 1
    else ed.scrollRow := by
  have hrow : ed.clampScrollRow.scrollRow = if ed.cursorRow < ed.scrollRow then ed.cursorRow
      else if ed.scrollRow + ed.visibleRows ≤ ed.cursorRow then ed.cursorRow - ed.visibleRows + 1
      else ed.scrollRow := by
    unfold clampScrollRow
    split
    · rfl
    · split <;> rfl
  have hcol : ed.clampScrollRow.clampScrollCol.scrollRow = ed.clampScrollRow.scrollRow := by
    unfold clampScrollCol
    split
    · rfl
    · split <;> rfl
  rw [← hrow, ← hcol]
  unfold clampScroll
  dsimp only
  split <;> rfl

/-- Where a move of the cursor ends. -/
def Lands (ed : Editor) (t : List (List UInt8)) (ed' : Editor) : Prop :=
  ed' = ed ∨ ∃ q, Text.Valid t q ∧ ed' = ed.goto ed.doc q

/-- `editor_set_cursor` goes to the nearest position, unless the row is refused. -/
theorem Pointed.setCursor_lands {T : Prop} {ed : Editor} {t : List (List UInt8)} {p : Pos}
    (h : ed.Pointed T t p) (row col : Int) :
    ∃ ed', ed.setCursor row col = some ed' ∧ ed.Lands t ed' := by
  have hcount := h.rowCount_eq
  have hpos := h.valid.1
  unfold Editor.setCursor
  split
  · exact ⟨ed, rfl, Or.inl rfl⟩
  · obtain ⟨r, hr, hlt⟩ : ∃ r : Nat, (if ed.doc.rowCount ≤ if row < 0 then 0 else row then
        ed.doc.rowCount - 1 else if row < 0 then 0 else row) = r ∧ r < t.length :=
      ⟨(if ed.doc.rowCount ≤ if row < 0 then 0 else row then
        ed.doc.rowCount - 1 else if row < 0 then 0 else row).toNat, by omega, by omega⟩
    obtain ⟨ln, hln, hx⟩ := h.shows.line_row hlt
    obtain ⟨c, hc, hle⟩ : ∃ c : Nat, (if ln.len < if col < 0 then 0 else col then ln.len
        else if col < 0 then 0 else col) = c ∧ c ≤ (Text.row t r).length := by
      have hlen := hx.len_eq
      exact ⟨(if ln.len < if col < 0 then 0 else col then ln.len
        else if col < 0 then 0 else col).toNat, by omega, by omega⟩
    refine ⟨ed.goto ed.doc ⟨r, c⟩, ?_, Or.inr ⟨⟨r, c⟩, ⟨hlt, hle⟩, rfl⟩⟩
    simp only [hr, hln, hc, Option.bind_eq_bind, Option.bind_some, Option.pure_def]
    rfl

end Editor

/-! ## Runs -/

/-- What moves the view of the document. -/
inductive ViewOp where
  | wheel (drow : Int)
  | click (px py : Int)
  | key (ev : KeyEvent)
  | setCursor (row col : Int)
  deriving DecidableEq, Repr

namespace App

open Commands (moveCursor)

/-- `scene_click_scrollbar`, in which the product under the target must be an `int`. -/
def clickScrollbarInt (app : App) (px py : Int) : Option App :=
  if (app.clickScrollbar px py).1 then
    (Scene.intMul (py - app.scene.scrollbar.y)
      (max 0 (app.editor.doc.rowCount - app.scene.visRows))).map fun _ =>
        (app.clickScrollbar px py).2
  else some (app.clickScrollbar px py).2

/-- A wheel scroll, a click on the scrollbar, or a move of the cursor by key or mouse. -/
def viewStep (app : App) : ViewOp → Option App
  | .wheel drow => some { app with editor := app.editor.scrollBy drow 0 }
  | .click px py => app.clickScrollbarInt px py
  | .key ev => do return { app with editor := ← moveCursor app.editor ev }
  | .setCursor row col => do return { app with editor := ← app.editor.setCursor row col }

def HandleInTrack (app : App) : Prop :=
  app.scene.HandleInTrack app.editor.doc.rowCount app.editor.scrollRow

/-- The view may begin at the row. -/
def Tracked (app : App) (row : Int) : Prop := app.scene.Tracked app.editor.doc.rowCount row

instance (app : App) (row : Int) : Decidable (app.Tracked row) :=
  inferInstanceAs (Decidable (Scene.Tracked _ _ _))

/-- The operation asks for no row that the handle cannot show. The cursor of a move is to
be in the last row in view. -/
def Admits (app : App) : ViewOp → Prop
  | .wheel drow => app.Tracked (app.editor.scrollRow + drow) ∨
      app.Tracked (app.editor.doc.rowCount - 1)
  | .click px py => (app.clickScrollbar px py).1 = true →
      Scene.FitsInt ((py - app.scene.scrollbar.y) *
        max 0 (app.editor.doc.rowCount - app.scene.visRows))
  | .key ev => ∀ ed ∈ moveCursor app.editor ev, ed = app.editor ∨
      app.Tracked (ed.cursorRow - app.scene.visRows + 1)
  | .setCursor row col => ∀ ed ∈ app.editor.setCursor row col, ed = app.editor ∨
      app.Tracked (ed.cursorRow - app.scene.visRows + 1)

section Run

variable {T : Prop} {app : App} {t : List (List UInt8)} {p : Pos}

/-- A cursor on a document, a layout with a row in view, and a view that does not begin
before the document. -/
structure Viewed (T : Prop) (app : App) (t : List (List UInt8)) (p : Pos) : Prop where
  pointed : app.editor.Pointed T t p
  arranged : app.scene.Arranged
  visRows : 1 ≤ app.scene.visRows
  screen : app.scene.vRes ≤ 65535
  viewport : app.editor.visibleRows = app.scene.visRows
  scroll : 0 ≤ app.editor.scrollRow

theorem Viewed.rowCount_pos (h : app.Viewed T t p) : 1 ≤ app.editor.doc.rowCount := by
  have := h.pointed.valid.1
  have := h.pointed.rowCount_eq
  omega

theorem Viewed.handleInTrack_iff (h : app.Viewed T t p) :
    app.HandleInTrack ↔ app.Tracked app.editor.scrollRow :=
  Scene.handleInTrack_iff h.arranged h.visRows h.screen h.rowCount_pos h.scroll

theorem Viewed.mono (h : app.Viewed T t p) {row row' : Int} (htracked : app.Tracked row)
    (hle : row' ≤ row) : app.Tracked row' :=
  Scene.Tracked.mono h.arranged h.visRows h.screen h.rowCount_pos htracked hle

/-- A state with the same document and the same layout. -/
theorem Viewed.of_editor (h : app.Viewed T t p) (app' : App) {q : Pos}
    (hscene : app'.scene = app.scene) (hq : app'.editor.Pointed T t q)
    (hview : app'.editor.visibleRows = app.editor.visibleRows)
    (hscroll : 0 ≤ app'.editor.scrollRow) :
    app'.Viewed T t q ∧ ∀ row, app'.Tracked row ↔ app.Tracked row := by
  refine ⟨⟨hq, hscene ▸ h.arranged, hscene ▸ h.visRows, hscene ▸ h.screen, ?_, hscroll⟩,
    fun row => ?_⟩
  · rw [hview, hscene, h.viewport]
  · rw [Tracked, Tracked, hscene, hq.rowCount_eq, h.pointed.rowCount_eq]

/-- The view is scrolled, by the wheel or by a click. -/
theorem Viewed.scrollBy (h : app.Viewed T t p) (app' : App) (hscene : app'.scene = app.scene)
    {drow : Int} {dirty : Bool}
    (hed : app'.editor = { app.editor.scrollBy drow 0 with scrollDirty := dirty }) :
    app'.Viewed T t p ∧ (app'.HandleInTrack ↔
      app.Tracked (app.editor.scrollRow + drow) ∨ app.Tracked (app.editor.doc.rowCount - 1)) := by
  have hrow : app'.editor.scrollRow =
      min (max (app.editor.scrollRow + drow) 0) (app.editor.doc.rowCount - 1) := by
    rw [hed]
    exact app.editor.scrollBy_scrollRow drow 0
  have hcount := h.rowCount_pos
  have hscroll := h.scroll
  obtain ⟨_, _, _, heq⟩ := app.editor.scrollBy_eq drow 0
  obtain ⟨hview, htracked⟩ := h.of_editor app' (q := p) hscene
    (by rw [hed, heq]; exact ⟨h.pointed.shows, h.pointed.row, h.pointed.col, h.pointed.valid⟩)
    (by rw [hed, heq]) (by rw [hrow]; omega)
  refine ⟨hview, ?_⟩
  rw [hview.handleInTrack_iff, htracked, hrow]
  constructor
  · intro htrack
    by_cases hle : app.editor.scrollRow + drow ≤ app.editor.doc.rowCount - 1
    · exact Or.inl (h.mono htrack (by omega))
    · exact Or.inr (h.mono htrack (by omega))
  · rintro (htrack | htrack)
    · by_cases h0 : 0 ≤ app.editor.scrollRow + drow
      · exact h.mono htrack (by omega)
      · have hzero : app.Tracked 0 :=
          h.arranged.tracked_zero h.visRows h.screen h.rowCount_pos
        exact h.mono hzero (by omega)
    · exact h.mono htrack (by omega)

/-- A turn of the wheel. -/
theorem Viewed.wheel (h : app.Viewed T t p) (drow : Int) :
    ({ app with editor := app.editor.scrollBy drow 0 } : App).Viewed T t p ∧
      (({ app with editor := app.editor.scrollBy drow 0 } : App).HandleInTrack ↔
        app.Tracked (app.editor.scrollRow + drow) ∨ app.Tracked (app.editor.doc.rowCount - 1)) :=
  h.scrollBy { app with editor := app.editor.scrollBy drow 0 } rfl rfl

/-- A move of the cursor. -/
theorem Viewed.land (h : app.Viewed T t p) (htrack : app.HandleInTrack) {ed' : Editor}
    (hland : app.editor.Lands t ed') :
    (∃ q, ({ app with editor := ed' } : App).Viewed T t q) ∧
      (({ app with editor := ed' } : App).HandleInTrack ↔
        ed' = app.editor ∨ app.Tracked (ed'.cursorRow - app.scene.visRows + 1)) := by
  rcases hland with rfl | ⟨q, hq, rfl⟩
  · exact ⟨⟨p, h⟩, iff_of_true htrack (Or.inl rfl)⟩
  · have hrow : (app.editor.goto app.editor.doc q).scrollRow = _ := Editor.clampScroll_scrollRow _
    have hvis := h.visRows
    have hscroll := h.scroll
    have hview := h.viewport
    simp only [hview] at hrow
    obtain ⟨hview', htracked⟩ := h.of_editor
      { app with editor := app.editor.goto app.editor.doc q } rfl (h.pointed.goto hq)
      (by obtain ⟨_, _, _, _, heq⟩ := app.editor.goto_eq app.editor.doc q; rw [heq])
      (by simp only [hrow]; split <;> omega)
    refine ⟨⟨q, hview'⟩, ?_⟩
    rw [hview'.handleInTrack_iff, htracked, Editor.goto_cursorRow]
    rw [h.handleInTrack_iff] at htrack
    simp only [hrow]
    constructor
    · intro hnew
      refine Or.inr (h.mono hnew ?_)
      split <;> omega
    · rintro (hsame | hnew)
      · have hsame' := congrArg Editor.scrollRow hsame
        rw [← hrow, hsame']
        exact htrack
      · split
        · exact h.mono htrack (by omega)
        · split
          · exact hnew
          · exact htrack

/-- The row that a click on the scrollbar asks for can be shown. -/
theorem Viewed.tracked_target (h : app.Viewed T t p) {d : Int} (h0 : 0 ≤ d)
    (hd : d < app.scene.scrollbar.h)
    (hfits : Scene.FitsInt (d * max 0 (app.editor.doc.rowCount - app.scene.visRows))) :
    app.Tracked ((d * max 0 (app.editor.doc.rowCount - app.scene.visRows)).tdiv
      app.scene.scrollbar.h) := by
  generalize hM : max 0 (app.editor.doc.rowCount - app.scene.visRows) = M at hfits
  have hM0 : 0 ≤ M := by omega
  have hprod : 0 ≤ d * M := Int.mul_nonneg h0 hM0
  rw [Int.tdiv_eq_ediv_of_nonneg hprod]
  refine h.arranged.tracked_lastPage h.visRows h.screen h.rowCount_pos ?_ ?_
  · rw [hM]
    refine Int.ediv_le_of_le_mul (by omega) ?_
    rw [Int.mul_comm]
    exact Int.mul_le_mul_of_nonneg_left (by omega) hM0
  · have hquot : 0 ≤ d * M / app.scene.scrollbar.h := Int.ediv_nonneg hprod (by omega)
    have hfree : app.scene.freeTrack app.editor.doc.rowCount ≤ app.scene.scrollbar.h := by
      unfold Scene.freeTrack
      rw [show Scene.scrollbarHandleMin = 4 from rfl]
      split <;> omega
    calc d * M / app.scene.scrollbar.h * app.scene.freeTrack app.editor.doc.rowCount
        ≤ d * M / app.scene.scrollbar.h * app.scene.scrollbar.h :=
          Int.mul_le_mul_of_nonneg_left hfree hquot
      _ ≤ d * M := Int.ediv_mul_le _ (by omega)
      _ ≤ 2147483647 := hfits.2

/-- A click on the scrollbar. -/
theorem Viewed.click (h : app.Viewed T t p) (htrack : app.HandleInTrack) (px py : Int) :
    (∀ app', app.clickScrollbarInt px py = some app' → app'.Viewed T t p) ∧
      ((app.Admits (.click px py)) ↔
        ∃ app', app.clickScrollbarInt px py = some app' ∧ app'.HandleInTrack) := by
  rcases app.clickScrollbar_cases px py with
    hbeside | ⟨hon, hpy, hpy', hscene, target, hed, htarget⟩
  · have hstep : app.clickScrollbarInt px py = some app := by
      simp [clickScrollbarInt, hbeside]
    refine ⟨fun app' heq => ?_, iff_of_true ?_ ⟨app, hstep, htrack⟩⟩
    · exact Option.some.inj (hstep.symm.trans heq) ▸ h
    · simp [Admits, hbeside]
  · obtain ⟨hview, hiff⟩ := h.scrollBy _ hscene hed
    have hstep : app.clickScrollbarInt px py =
        (Scene.intMul (py - app.scene.scrollbar.y)
          (max 0 (app.editor.doc.rowCount - app.scene.visRows))).map
          fun _ => (app.clickScrollbar px py).2 := by
      rw [clickScrollbarInt, if_pos hon]
    simp only [hstep, Admits, hon, true_implies, Scene.intMul]
    split
    · next hfits =>
      have htracked := h.tracked_target (by omega) (by omega) hfits
      have hsum : app.editor.scrollRow + (target - app.editor.scrollRow) = target := by omega
      rw [← htarget, ← hsum] at htracked
      refine ⟨fun app' heq => Option.some.inj heq ▸ hview, iff_of_true hfits ⟨_, rfl, ?_⟩⟩
      exact hiff.2 (Or.inl htracked)
    · next hfits =>
      exact ⟨by simp, iff_of_false hfits (by simp)⟩

theorem Viewed.step (h : app.Viewed T t p) (htrack : app.HandleInTrack) (op : ViewOp) :
    (∀ app', app.viewStep op = some app' → ∃ q, app'.Viewed T t q) ∧
      (app.Admits op ↔ ∃ app', app.viewStep op = some app' ∧ app'.HandleInTrack) := by
  have hland {ed' : Editor} {P : Prop} (hed : app.editor.Lands t ed') (o : Option Editor)
      (ho : o = some ed') (hP : P ↔ ∀ ed ∈ o, ed = app.editor ∨
        app.Tracked (ed.cursorRow - app.scene.visRows + 1)) :
      (∀ app', (do return { app with editor := ← o } : Option App) = some app' →
        ∃ q, app'.Viewed T t q) ∧
        (P ↔ ∃ app', (do return { app with editor := ← o } : Option App) = some app' ∧
          app'.HandleInTrack) := by
    subst ho
    obtain ⟨hview, hiff⟩ := h.land htrack hed
    refine ⟨fun app' heq => ?_, ?_⟩
    · simp only [Option.bind_eq_bind, Option.bind_some, Option.pure_def, Option.some.injEq] at heq
      exact heq ▸ hview
    · rw [hP]
      simp only [Option.mem_some_iff, forall_eq', Option.bind_eq_bind, Option.bind_some,
        Option.pure_def, Option.some.injEq, exists_eq_left', hiff]
  cases op with
  | wheel drow =>
    obtain ⟨hview, hiff⟩ := h.wheel drow
    refine ⟨fun app' heq => ⟨p, Option.some.inj heq ▸ hview⟩, ?_⟩
    simp only [Admits, viewStep, Option.some.injEq, exists_eq_left', hiff]
  | click px py =>
    obtain ⟨hview, hiff⟩ := h.click htrack px py
    exact ⟨fun app' heq => ⟨p, hview app' heq⟩, hiff⟩
  | key ev =>
    obtain ⟨q, ed', hmove, hq, -, hgo⟩ := Commands.moveCursor_pointed h.pointed ev
    refine hland ?_ _ hmove Iff.rfl
    rcases hgo with ⟨heq, -⟩ | heq
    · exact Or.inl heq
    · exact Or.inr ⟨q, hq, heq⟩
  | setCursor row col =>
    obtain ⟨ed', hmove, hed⟩ := h.pointed.setCursor_lands row col
    exact hland hed _ hmove Iff.rfl

end Run

/-- In a run that begins with the handle in its track it stays there in every state
reached exactly if the wheel never turns too far behind the last page, and the scroll row
can be multiplied by the pixels. -/
theorem handle_in_track_iff {T : Prop} (app : App) {t : List (List UInt8)} {p : Pos}
    (hpointed : app.editor.Pointed T t p) {s : Scene} {treeVisible : Bool} {rowCount : Int}
    (hscene : app.scene = s.updateLayout treeVisible rowCount) (hvis : 1 ≤ app.scene.visRows)
    (hscreen : app.scene.vRes ≤ 65535) (hviewport : app.editor.visibleRows = app.scene.visRows)
    (hscroll : 0 ≤ app.editor.scrollRow) (ops : List ViewOp) :
    (∀ n, ∃ app', (ops.take n).foldlM viewStep app = some app' ∧ app'.HandleInTrack) ↔
      app.Tracked app.editor.scrollRow ∧ Along viewStep Admits app ops := by
  have hview : app.Viewed T t p :=
    ⟨hpointed, hscene ▸ Scene.arranged_updateLayout s treeVisible rowCount, hvis, hscreen,
      hviewport, hscroll⟩
  rw [← hview.handleInTrack_iff]
  refine Along.prefixes_iff (I := fun app => ∃ q, app.Viewed T t q) (fun a op a' ha htrack => ?_)
    (fun a op ha htrack => ?_) ⟨p, hview⟩
  · obtain ⟨q, hq⟩ := ha
    exact (hq.step htrack op).1 a'
  · obtain ⟨q, hq⟩ := ha
    exact (hq.step htrack op).2

/-- Sixty empty rows, eight more than the screen of the program has. -/
def sixtyRows : App :=
  let scene := Scene.static.updateLayout true 60
  let app := Commands.holding (List.replicate 60 [])
  { app with scene, editor := app.editor.setViewport scene.visRows scene.visCols }

theorem sixtyRows_pointed : sixtyRows.editor.Pointed True (List.replicate 60 []) ⟨0, 0⟩ :=
  ⟨(Commands.holding_holds _).shows, rfl, rfl, by decide⟩

/-- The wheel, and a click in the middle of the scrollbar. -/
theorem handle_in_track_sixty_rows :
    ∃ app', [.wheel 3, .click 1148 400].foldlM viewStep sixtyRows = some app' ∧
      app'.HandleInTrack :=
  (handle_in_track_iff sixtyRows sixtyRows_pointed rfl (by decide) (by decide) rfl (by decide)
    [.wheel 3, .click 1148 400]).2 ⟨by decide, Or.inl (by decide), fun _ heq =>
      ⟨Option.some.inj heq ▸ fun _ => by decide, fun _ _ => trivial⟩⟩ 2

/-- Three ticks of the wheel take the handle out of its track. -/
theorem wheel_leaves_track : sixtyRows.HandleInTrack ∧ ∃ app',
    [.wheel 3, .wheel 3, .wheel 3].foldlM viewStep sixtyRows = some app' ∧
      ¬ app'.HandleInTrack := by
  have hview : sixtyRows.Viewed True (List.replicate 60 []) ⟨0, 0⟩ :=
    ⟨sixtyRows_pointed, Scene.arranged_updateLayout _ _ _, by decide, by decide, rfl, by decide⟩
  have hlast := ((hview.wheel 3).1.wheel 3).1.wheel 3
  refine ⟨hview.handleInTrack_iff.2 (by decide), _, rfl, ?_⟩
  rw [hlast.1.handleInTrack_iff]
  decide

end App

end LCode
