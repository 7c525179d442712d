import LCode.View.Verify.Lettering
import LCode.View.Verify.Surround

/-!
# Frames

A full redraw makes of whatever was on the screen the grid of the document: each cell of
the text area shows the character at its place, in the colour that a scan of the whole
document gives it, under the cursors and over the background of the selection.
-/

namespace LCode

open HighlightCache Scene

variable {font : Font}

/-! ## The grid of the document -/

/-- A cursor at `row` and `col` is drawn over the place. Pixels have 16 bits, so it is
drawn again 4096 rows or 8192 columns further. -/
def DrawnOver (row col : Int) (q : Pos) : Prop :=
  (row - q.row) % 4096 = 0 ∧ (col - q.col) % 8192 = 0

instance (row col : Int) (q : Pos) : Decidable (DrawnOver row col q) :=
  inferInstanceAs (Decidable (_ ∧ _))

instance (a p q : Pos) : Decidable (Selects a p q) := inferInstanceAs (Decidable (_ ∨ _))

namespace App

/-- The place shown in row `i` and column `j` of the view. -/
def place (app : App) (i j : Nat) : Pos :=
  ⟨app.editor.scrollRow.toNat + i, app.editor.scrollCol.toNat + j⟩

/-- The cursor is drawn over the place: it is not while the file tree has the focus. -/
def CursorOver (app : App) (q : Pos) : Prop :=
  app.tree.focused = false ∧ DrawnOver app.editor.cursorRow app.editor.cursorCol q

instance (app : App) (q : Pos) : Decidable (app.CursorOver q) := inferInstanceAs (Decidable (_ ∧ _))

/-- The remote cursor is drawn over the place, once its position is known. -/
def RemoteOver (app : App) (q : Pos) : Prop :=
  (0 ≤ app.editor.remoteCursorRow ∧ 0 ≤ app.editor.remoteCursorCol) ∧
    DrawnOver app.editor.remoteCursorRow app.editor.remoteCursorCol q

instance (app : App) (q : Pos) : Decidable (app.RemoteOver q) := inferInstanceAs (Decidable (_ ∧ _))

/-- The character at the place is selected, where the document is `t`. -/
def SelectedOver (app : App) (t : List (List UInt8)) (q : Pos) : Prop :=
  app.editor.selActive = true ∧
    Selects ⟨app.editor.selAnchorRow.toNat, app.editor.selAnchorCol.toNat⟩
      ⟨app.editor.cursorRow.toNat, app.editor.cursorCol.toNat⟩ q ∧
    q.col < (Text.row t q.row).length

instance (app : App) (t : List (List UInt8)) (q : Pos) : Decidable (app.SelectedOver t q) :=
  inferInstanceAs (Decidable (_ ∧ _ ∧ _))

/-- What is shown of the document `t`: the remote cursor before the cursor before the
characters of `letter`, over the background of the selection. -/
def page (app : App) (t : List (List UInt8)) (letter : Pos → Option (UInt8 × UInt32)) : Grid :=
  fun i j =>
    let q := app.place i j
    if app.RemoteOver q then ⟨none, colorRemote⟩
    else if app.CursorOver q then ⟨none, colorText⟩
    else ⟨letter q, if app.SelectedOver t q then colorSelBg else colorBg⟩

end App

/-- The strings of the status bar end before the 16 bits of a coordinate do. -/
structure App.ShortTexts (app : App) (times : Times) : Prop where
  bar : app.bar.input.length ≤ 4000 ∧ app.bar.statusMsg.length ≤ 4000 ∧
    app.bar.filename.length ≤ 4000
  times : times.clock.length ≤ 4000 ∧ times.session.length ≤ 4000

namespace Desk

/-- The character at the place, in the colour that a scan of the document gives it. -/
def letterAt (s : Desk) (q : Pos) : Option (UInt8 × UInt32) :=
  (lettersAt s.cache.currentLang s.rows q.row)[q.col]?

/-- The grid of the document. -/
def grid (s : Desk) : Grid := s.app.page s.rows s.letterAt

/-- A full redraw is scheduled of a document so short that the product in the scrollbar is
an `int`. -/
structure FullFrame (s : Desk) (times : Times) : Prop where
  mode : s.app.renderMode = .full
  rows : s.app.editor.doc.rowCount ≤ 2500000
  scroll : s.app.editor.scrollRow ≤ 2500000
  short : s.app.ShortTexts times

end Desk

/-- The layout is one that `scene_update_layout` computed. -/
def App.Computed (app : App) : Prop :=
  ∃ visible rowCount, app.scene = Scene.static.updateLayout visible rowCount

theorem App.inert_computed : Commands.Inert App.Computed where
  editor _ h := h
  sent _ h := h
  status _ h := h
  render _ h := h
  bar _ h := h
  tree _ h := h
  files _ h := h
  language _ _ h := h
  quit _ h := h
  remote _ h := h
  lines _ _ h := h

/-- The screen of the program. -/
def Screen.resolution : Resolution := ⟨1152, 864⟩

/-- The frame succeeds, and `render_editor_ui` leaves the grid of the document on the screen,
whatever was there before; the pointer is drawn over it afterwards. -/
def Desk.Pictured (font : Font) (times : Times) (s : Desk) : Prop :=
  ∃ s' fs, s.viewRender = some (s', fs) ∧ ∀ bb : BackBuffer Screen.resolution,
    ∃ bb', s.paint font times fs bb = some bb' ∧ s'.app.scene.Displays font bb' s.grid

/-! ## Cursors -/

section Blocks

variable {app : App} {res : Resolution} {g g' : Grid} {bb : BackBuffer res}

/-- Only the rows in view matter. -/
theorem Scene.Displays.congr {sc : Scene} (hf : sc.Framed) (hd : sc.Displays font bb g)
    (heq : ∀ i j, i < 52 → g' i j = g i j) : sc.Displays font bb g' := by
  intro i j x y hv
  rw [heq i j (hf.bounds hv).1]
  exact hd i j x y hv

/-- A rectangle of one cell covers the cells whose places it is drawn over. -/
theorem inRect_iff (hf : app.scene.Framed) (hs : app.editor.Scrolled) (row col : Int)
    {i j x y : Nat} (hv : app.scene.InView i j x y) :
    BackBuffer.InRect (Screen.modelToPx app col) (Screen.modelToPy app row) fontW fontH x y ↔
      DrawnOver row col ⟨app.editor.scrollRow.toNat + i, app.editor.scrollCol.toNat + j⟩ := by
  have hb := hf.bounds hv
  have hleft := hf.left
  have hrow := hs.row
  have hcol := hs.col
  simp only [BackBuffer.InRect, DrawnOver, Screen.modelToPx, Screen.modelToPy, fontW, fontH, hf.top]
  constructor
  · rintro ⟨h₁, h₂, h₃⟩
    omega
  · rintro ⟨h₁, h₂⟩
    omega

theorem drawCursor_displays (hf : app.scene.Framed) (hs : app.editor.Scrolled)
    (hd : app.scene.Displays font bb g) :
    app.scene.Displays font ((Screen.drawCursor app app.editor.cursorCol
        app.editor.cursorRow).foldl (Stroke.paint font) bb)
      (g.block (fun i j => app.CursorOver (app.place i j)) colorText) := by
  unfold Screen.drawCursor
  split
  · next hfocus =>
    refine hd.congr hf fun i j _ => ?_
    rw [Grid.block, if_neg fun hin => absurd hin.1 (by rw [hfocus]; decide)]
  · next hfocus =>
    refine hd.block fun i j x y hv => (inRect_iff hf hs _ _ hv).trans ?_
    rw [Bool.not_eq_true] at hfocus
    exact (and_iff_right hfocus).symm

theorem drawRemoteCursor_displays (hf : app.scene.Framed) (hs : app.editor.Scrolled)
    (hd : app.scene.Displays font bb g) :
    app.scene.Displays font ((Screen.drawRemoteCursor app app.editor.remoteCursorCol
        app.editor.remoteCursorRow).foldl (Stroke.paint font) bb)
      (g.block (fun i j => app.RemoteOver (app.place i j)) colorRemote) := by
  unfold Screen.drawRemoteCursor
  split
  · next hunknown =>
    refine hd.congr hf fun i j _ => ?_
    rw [Grid.block, if_neg fun hin => absurd hin.1 (by omega)]
  · next hknown =>
    refine hd.block fun i j x y hv => (inRect_iff hf hs _ _ hv).trans ?_
    exact (and_iff_right (by omega)).symm

/-! ## The selection -/

/-- The character whose cell a pixel in view is in. -/
theorem inCell_iff (hs : app.editor.Scrolled) {i j x y : Nat} (hv : app.scene.InView i j x y)
    {q : Pos} : Screen.visible app q.row q.col = true ∧
      Screen.InCell (Screen.modelToPx app q.col) (Screen.modelToPy app q.row) x y ↔
      q = ⟨app.editor.scrollRow.toNat + i, app.editor.scrollCol.toNat + j⟩ := by
  have hrow := hs.row
  have hcol := hs.col
  obtain ⟨hi, hj, hcell⟩ := hv
  obtain ⟨qrow, qcol⟩ := q
  simp only [Screen.InCell, Screen.visible, Screen.modelToPx, Screen.modelToPy, fontW, fontH,
    Bool.and_eq_true, decide_eq_true_eq, Pos.mk.injEq] at hcell ⊢
  constructor
  · rintro ⟨-, hin⟩
    omega
  · rintro ⟨rfl, rfl⟩
    omega

variable (font) in
/-- `draw_selection_bg`. -/
theorem drawSelectionBg_displays {T : Prop} {t : List (List UInt8)} {a p : Pos}
    (hdoc : app.editor.doc.Shows T t) (harr : app.scene.Arranged) (hs : app.editor.Scrolled)
    (hres : app.scene.hRes = res.hRes.toNat) (vres : app.scene.vRes = res.vRes.toNat)
    (hsel : app.editor.Selected t a) (hrow : app.editor.cursorRow = p.row)
    (hcol : app.editor.cursorCol = p.col) (hp : Text.Valid t p) :
    ∃ fills, app.scene.drawSelectionBg app.editor (app.scene.endRow app.editor) = some fills ∧
      ∀ (bb : BackBuffer res) (g : Grid), app.scene.Displays font bb g →
        app.scene.Displays font ((fills.map Stroke.fill).foldl (Stroke.paint font) bb)
          (g.block (fun i j => Selects a p
            ⟨app.editor.scrollRow.toNat + i, app.editor.scrollCol.toNat + j⟩ ∧
            app.editor.scrollCol.toNat + j <
              (Text.row t (app.editor.scrollRow.toNat + i)).length) colorSelBg) := by
  obtain ⟨fills, hfills, hpaints⟩ :=
    drawSelectionBg_paints app hdoc harr hres vres hsel hrow hcol hp
  refine ⟨fills, hfills, fun bb g hd => ?_⟩
  rw [List.foldl_map]
  refine hd.of_paints (hpaints bb) fun i j x y hv => ?_
  constructor
  · rintro ⟨q, hvis, hselects, hlen, hin⟩
    obtain rfl := (inCell_iff hs hv).1 ⟨hvis, hin⟩
    exact ⟨hselects, hlen⟩
  · rintro ⟨hselects, hlen⟩
    obtain ⟨hvis, hin⟩ := (inCell_iff hs hv).2 rfl
    exact ⟨_, hvis, hselects, hlen, hin⟩

end Blocks

/-! ## A full redraw -/

section Full

variable {app : App} {t : List (List UInt8)} {p : Pos} {times : Times}

variable (font) in
/-- The panel of the file tree, where it is shown. -/
theorem drawTree_spares (hf : app.scene.Framed) (hin : app.tree.InRange)
    (hpanel : app.tree.visible = true → app.scene.filetree = ⟨0, 0, 160, 864⟩) :
    ∃ tree, Desk.drawTree app = some tree ∧ app.scene.Spares font tree := by
  unfold Desk.drawTree
  split
  · next hvisible =>
    obtain ⟨panel, rows, hdraw, hspares⟩ :=
      drawFiletree_spares font hf (hpanel hvisible) hin.scroll_nonneg
    rw [hf.bottom, hdraw]
    exact ⟨_, rfl, hspares⟩
  · exact ⟨[], rfl, spares_nil⟩

variable (font) in
/-- The background of the selection, where there is one. -/
theorem drawSelection_displays (good : app.Good True t p) (hs : app.editor.Scrolled)
    (hf : app.scene.Framed) (harr : app.scene.Arranged) {res : Resolution}
    (hres : app.scene.hRes = res.hRes.toNat) (vres : app.scene.vRes = res.vRes.toNat) :
    ∃ fills, Desk.drawSelection app = some fills ∧
      ∀ (bb : BackBuffer res) (g : Grid), app.scene.Displays font bb g →
        app.scene.Displays font ((fills.map Stroke.fill).foldl (Stroke.paint font) bb)
          (g.block (fun i j => app.SelectedOver t (app.place i j)) colorSelBg) := by
  have hat := good.sound.at'
  unfold Desk.drawSelection
  split
  · next hactive =>
    obtain ⟨a, hsel⟩ := good.sound.selected hactive
    obtain ⟨fills, hfills, hdisplays⟩ := drawSelectionBg_displays font hat.holds.shows
      harr hs hres vres hsel hat.row hat.col hat.valid
    refine ⟨fills, hfills, fun bb g hd => (hdisplays bb g hd).congr hf fun i j _ => ?_⟩
    have hends : (⟨app.editor.selAnchorRow.toNat, app.editor.selAnchorCol.toNat⟩ : Pos) = a ∧
        (⟨app.editor.cursorRow.toNat, app.editor.cursorCol.toNat⟩ : Pos) = p := by
      rw [hsel.row, hsel.col, hat.row, hat.col]
      exact ⟨rfl, rfl⟩
    simp only [Grid.block, App.SelectedOver, App.place, hends.1, hends.2, hactive, true_and]
  · next hinactive =>
    refine ⟨[], rfl, fun bb g hd => hd.congr hf fun i j _ => ?_⟩
    rw [Grid.block, if_neg fun hin => hinactive hin.1]

/-- A full redraw makes of any screen the page, if it draws its characters. -/
theorem drawFull_displays (good : app.Good True t p) (hs : app.editor.Scrolled)
    (hscene : app.scene = static.updateLayout app.tree.visible app.editor.doc.rowCount)
    {res : Resolution} (hres : app.scene.hRes = res.hRes.toNat)
    (vres : app.scene.vRes = res.vRes.toNat) (hrows : app.editor.doc.rowCount ≤ 2500000)
    (hscroll : app.editor.scrollRow ≤ 2500000) (hshort : app.ShortTexts times) {fs : List Fetch}
    {text : List Stroke} {letter : Pos → Option (UInt8 × UInt32)}
    (htext : Fetch.drawAll app.editor (fun _ => app.scene.editor.x)
      (fun f => editorY + (f.row - app.editor.scrollRow) * fontH) fs = some text)
    (hinks : Inks font app.scene text fun i j => letter (app.place i j)) :
    ∃ ks, Desk.drawFull app times fs = some ks ∧ ∀ bb : BackBuffer res,
      app.scene.Displays font (ks.foldl (Stroke.paint font) bb) (app.page t letter) := by
  have hat := good.sound.at'
  have hcount := hat.rowCount_eq
  have hpos := hat.valid.1
  obtain ⟨panel, digits, hpanel, hmin, hmax, hrects⟩ := updateLayout_rects app.tree.visible
    (k := 7) (by decide) (Int.lt_of_le_of_lt hrows (by decide))
  rw [← hscene] at hrects
  have hf : app.scene.Framed := Laid.framed ⟨_, _, Int.le_trans hrows (by decide), hscene⟩
  have harr : app.scene.Arranged := hscene ▸ arranged_updateLayout _ _ _
  have hend : app.scene.endRow app.editor ≤ app.editor.scrollRow + 52 := by
    unfold endRow
    rw [hf.bottom]
    split <;> omega
  have hwidth : 0 ≤ panel := by
    rw [hpanel]
    split <;> omega
  obtain ⟨tree, htree, htreeSpares⟩ := drawTree_spares font hf good.tree fun hvisible => by
    rw [hrects, hpanel, if_pos hvisible]
  have hgutterRect : app.scene.gutter = ⟨panel, 10, 8 * (digits + 2), 838⟩ := by rw [hrects]
  have hleft : app.scene.editor.x = panel + 8 * (digits + 2) := by rw [hrects]
  have hcount₁ : 1 ≤ app.editor.doc.rowCount := by omega
  obtain ⟨gutter, hgutter, hgutterSpares⟩ :=
    drawGutter_spares font hf hwidth hgutterRect hleft (by omega) (by omega) hend
  obtain ⟨fills, hfills, hselection⟩ := drawSelection_displays font good hs hf harr hres vres
  obtain ⟨track, handle, hscrollbar, hscrollbarSpares⟩ :=
    drawScrollbar_spares font hf harr hcount₁ hs.row hscroll
  have hstatus := renderStatusBar_spares font hf hshort.bar hshort.times
  refine ⟨_, by
    rw [Desk.drawFull]
    simp only [htree, hgutter, hfills, htext, hscrollbar, Option.bind_eq_bind, Option.bind_some]
    rfl, fun bb => ?_⟩
  simp only [List.foldl_append, List.foldl_cons, List.foldl_nil]
  have hempty : app.scene.Displays font _ _ := displays_clear bb colorBg
  have hback := hselection _ _ (hgutterSpares.displays (htreeSpares.displays hempty))
  have hwritten := hback.write hinks.fits hinks.layer fun i j _ => by
    rw [Grid.block]
    split <;> rfl
  have hcursors := drawRemoteCursor_displays hf hs (drawCursor_displays hf hs hwritten)
  refine (hstatus.displays (hscrollbarSpares.displays hcursors)).congr hf fun i j _ => ?_
  simp only [App.page, Grid.block, Grid.write]
  split_ifs <;> simp only [Option.or_none]

end Full

namespace Desk

variable {s s' : Desk} {t : List (List UInt8)} {p : Pos} {times : Times}

/-- A full redraw of a cache that is ready paints the grid of the document. -/
theorem Sound.pictured (h : s.Sound t p) (hcomputed : s.app.Computed)
    (hready : s.Ready s.cache.currentLang t p) (hframe : s.FullFrame times) :
    s.Pictured font times := by
  have hat := h.good.sound.at'
  have hcount := hat.rowCount_eq
  have hmode := hframe.mode
  have hdid := viewRender_did h.good
  have hview : s.app.viewRender = { s.app with
      scene := s.app.scene.updateLayout s.app.tree.visible s.app.editor.doc.rowCount
      editor := s.app.editor.setViewport
        (s.app.scene.updateLayout s.app.tree.visible s.app.editor.doc.rowCount).visRows
        (s.app.scene.updateLayout s.app.tree.visible s.app.editor.doc.rowCount).visCols
      renderMode := .none } := by
    rw [App.viewRender, if_pos hmode]
  have hscene : s.app.viewRender.scene = static.updateLayout s.app.viewRender.tree.visible
      s.app.viewRender.editor.doc.rowCount := by
    obtain ⟨_, _, hcomputed⟩ := hcomputed
    rw [hview, hcomputed]
    rfl
  have hrows : s.app.viewRender.editor.doc.rowCount ≤ 2500000 := by
    rw [hview]
    exact hframe.rows
  have hf : s.app.viewRender.scene.Framed :=
    Laid.framed ⟨_, _, Int.le_trans hrows (by decide), hscene⟩
  obtain ⟨R, hR⟩ := Int.eq_ofNat_of_zero_le h.scrolled.row
  obtain ⟨K, hK⟩ := Int.eq_ofNat_of_zero_le h.scrolled.col
  obtain ⟨n, hn, hfew, hall⟩ : ∃ n : Nat, ((if (t.length : Int) < R + 52 then (t.length : Int)
      else R + 52) - R).toNat = n ∧ R + n ≤ R + 52 ∧
      ∀ i < 52, R + i < R + n ∨ t.length ≤ R + i := by
    refine ⟨_, rfl, ?_, fun i hi => ?_⟩ <;> split <;> omega
  obtain ⟨c₁, hsync, hcoherent⟩ := hready.sync h hmode
  obtain ⟨fs, c, text, hlines, hcoherent', htext, hinks⟩ := drawTextLines_inks font hf hat
    hdid.good.sound.at' (K := K) hcoherent (Nat.le_refl R) hfew
  have hdraw : s.renderEditorUi (s.cache.withHeap s.app.editor.doc.heap) = some (fs, c) := by
    rw [renderEditorUi, hmode]
    simp only [renderFull, hcount, hat.row, hsync, hf.bottom, hR, hK, hn, Option.bind_eq_bind,
      Option.bind_some]
    exact hlines
  have hletters : Inks font s.app.viewRender.scene text fun i j =>
      s.letterAt (s.app.viewRender.place i j) := by
    refine hinks.congr hf fun i j hi => ?_
    simp only [letterAt, App.place, hview, Editor.setViewport, hR, hK, Int.toNat_natCast, h.rows_eq]
    rcases hall i hi with hin | hbeyond
    · rw [if_pos ⟨by omega, hin⟩]
    · rw [lettersAt, Text.row_beyond hbeyond, List.zip_nil_left, List.getElem?_nil, ite_self]
  have hscroll : s.app.viewRender.editor.scrollRow = R := by
    rw [hview]
    exact hR
  have hshort : s.app.viewRender.ShortTexts times := by
    rw [hview]
    exact ⟨hframe.short.bar, hframe.short.times⟩
  have hres : s.app.viewRender.scene.hRes = Screen.resolution.hRes.toNat := by
    rw [hscene]
    rfl
  have vres : s.app.viewRender.scene.vRes = Screen.resolution.vRes.toNat := by
    rw [hscene]
    rfl
  obtain ⟨ks, hks, hdisplays⟩ := drawFull_displays hdid.good (hdid.scrolled h.scrolled) hscene hres
    vres hrows (by rw [hview]; exact hframe.scroll) hshort (by rw [hscroll]; exact htext) hletters
  have hgrid : s.app.viewRender.page t s.letterAt = s.grid := by
    rw [hview, grid, h.rows_eq]
    rfl
  have hstrokes : s.strokes times fs = some ks := by
    rw [strokes, hmode]
    exact hks
  refine ⟨_, fs, by
    rw [Desk.viewRender, hdraw]
    simp only [hmode, Option.bind_eq_bind, Option.bind_some]
    rfl, fun bb => ⟨_, by rw [paint, hstrokes]; rfl, ?_⟩⟩
  rw [← hgrid]
  exact hdisplays bb

/-! ## Frames of a run -/

/-- What a run of frames that are right keeps. -/
structure PicturedRun (s : Desk) : Prop where
  run : s.CoherentRun
  computed : s.app.Computed

theorem Computed.withHeap {app : App} (h : app.Computed) (heap : Heap) :
    (app.withHeap heap).Computed := h

theorem setLanguage_computed (h : s.app.Computed) (hs' : s.setLanguage = some s') :
    s'.app.Computed := by
  unfold Desk.setLanguage at hs'
  split at hs'
  · obtain rfl := Option.some.inj hs'
    exact h
  · obtain ⟨c, -, hc⟩ := Option.bind_eq_some_iff.1 hs'
    obtain rfl := Option.some.inj hc
    exact h

theorem handle_computed (h : s.app.Computed) (e : Event) (hs' : s.handle e = some s') :
    s'.app.Computed := by
  cases e with
  | key ev =>
    obtain ⟨app, happ, hset⟩ := Option.bind_eq_some_iff.1 hs'
    exact setLanguage_computed (s := { s with app })
      (App.inert_computed.dispatch h ev app happ) hset
  | mouse me moved =>
    obtain ⟨app, happ, hset⟩ := Option.bind_eq_some_iff.1 hs'
    have hmoved : (if moved then s.app.setRender .mouse else s.app).Computed := by
      split
      · exact App.inert_computed.render nofun h
      · exact h
    exact setLanguage_computed (s := { s with app })
      (App.inert_computed.dispatchMouse hmoved me app happ) hset
  | pointer =>
    obtain rfl := Option.some.inj hs'
    exact App.inert_computed.render nofun h

theorem viewRender_computed (h : s.app.Computed) {fs : List Fetch}
    (hs' : s.viewRender = some (s', fs)) : s'.app.Computed := by
  have hview : s.app.viewRender.Computed := by
    unfold App.viewRender
    split
    · obtain ⟨visible, rowCount, heq⟩ := h
      exact ⟨_, _, by rw [heq]; rfl⟩
    · exact h
  obtain ⟨⟨fetches, c⟩, -, hs'⟩ := Option.bind_eq_some_iff.1 hs'
  dsimp only at hs'
  split at hs'
  all_goals
    obtain ⟨rfl, -⟩ := Prod.mk.inj (Option.some.inj hs')
    exact hview

theorem PicturedRun.next (h : s.PicturedRun) {r : Round} (htraces : s.Traces r)
    (hnext : s.next r = some s') : s'.PicturedRun := by
  refine ⟨h.run.next htraces hnext, ?_⟩
  obtain ⟨⟨s₂, fs⟩, hround, rfl⟩ := Option.map_eq_some_iff.1 hnext
  obtain ⟨s₁, hhandle, hround⟩ := Option.bind_eq_some_iff.1 hround
  have hcomputed := handle_computed h.computed r.event hhandle
  split at hround
  · obtain ⟨rfl, -⟩ := Prod.mk.inj (Option.some.inj hround)
    exact hcomputed
  · exact viewRender_computed hcomputed hround

variable (font times) in
/-- If the event leads to a full redraw, the grid of the document is painted. -/
def Pictures (s : Desk) (r : Round) : Prop :=
  ∀ s₁ ∈ s.handle r.event, s₁.FullFrame times → s₁.Pictured font times

theorem PicturedRun.pictures (h : s.PicturedRun) {r : Round} (htraces : s.Traces r) :
    s.Pictures font times r := by
  intro s₁ hs₁ hframe
  obtain ⟨s₂, t, p, hhandle, hsound, hready⟩ := h.run.handle htraces
  obtain rfl : s₁ = s₂ := Option.some.inj ((Option.mem_def.1 hs₁).symm.trans hhandle)
  exact hsound.pictured (handle_computed h.computed r.event hhandle) hready hframe

theorem executeOpen_computed (h : s.app.Computed) (name : List UInt8)
    (hs' : s.executeOpen name = some s') : s'.app.Computed := by
  obtain ⟨app, happ, hset⟩ := Option.bind_eq_some_iff.1 hs'
  exact setLanguage_computed (s := { s with app })
    (App.inert_computed.executeOpen h name app happ) hset

end Desk

theorem start_computed {files : Files} {heap : Heap} {name : List UInt8} {app : App}
    (happ : App.start files heap name = some app) : app.Computed := by
  obtain ⟨⟨ok, editor⟩, -, happ⟩ := Option.bind_eq_some_iff.1 happ
  dsimp only at happ
  split at happ
  · exact nomatch happ
  · obtain rfl := Option.some.inj happ
    exact ⟨_, _, rfl⟩

/-- From a file opened on, while every event leaves the colours that the next redraw keeps
those of the document, every full redraw leaves on the screen the document and nothing of
what was there before. -/
theorem full_frame_displays (font : Font) (times : Times) {s : Desk} {t : List (List UInt8)}
    {p : Pos} (h : s.Sound t p) (hcomputed : s.app.Computed) {name contents : List UInt8}
    (hname : name ≠ []) (hread : s.app.files.read name = some contents) :
    ∃ s', s.executeOpen name = some s' ∧ ∀ rounds, Along Desk.next Desk.Traces s' rounds →
      Along Desk.next (Desk.Pictures font times) s' rounds := by
  obtain ⟨s', hopen, -, hrun⟩ := h.executeOpen hname hread
  have hs' : s'.PicturedRun := ⟨hrun, Desk.executeOpen_computed hcomputed name hopen⟩
  refine ⟨s', hopen, fun rounds => Along.of_invariant ?_ ?_ hs'⟩
  · intro s r s' hrun htraces hnext
    exact hrun.next htraces hnext
  · intro s r hrun htraces
    exact hrun.pictures htraces

/-- The layout of that desk before its file is opened. -/
theorem cDesk_computed {app : App} {s : Desk} (happ : App.start cDisk .zeros (ascii "a.c") = some app)
    (hstart : Desk.start app = some s) : s.app.Computed :=
  Desk.setLanguage_computed (s := ⟨app, _, 0, 0⟩) (start_computed happ) hstart

/-- Glyphs with every bit set. -/
def solidFont : Font := fun _ _ => 0xFF

/-- The strings of the clocks. -/
def noon : Times := ⟨ascii "12:00", ascii "00:01"⟩

/-- A letter typed into a C file of one row, and Enter, which schedules a full redraw. -/
theorem full_frame_displays_typing : ∃ s, cDesk = some s ∧
    Along Desk.next (Desk.Pictures solidFont noon) s
      (typed [{ KeyEvent.none with c := 'x'.toUInt8 }, { KeyEvent.none with enter := true }]) ∧
    (s.handle (.key { KeyEvent.none with enter := true })).map (·.app.renderMode) = some .full := by
  obtain ⟨app, s, t, p, happ, hstart, hsound, hread, hcDesk⟩ := cDesk_opens
  have hcomputed := cDesk_computed happ hstart
  obtain ⟨s', hopen, hpictured⟩ :=
    full_frame_displays solidFont noon hsound hcomputed (by decide) hread
  have hdesk : cDesk = some s' := hcDesk.trans hopen
  have htraces : cDesk.map (fun s => decide (Along Desk.next Desk.Traces s (typed
      [{ KeyEvent.none with c := 'x'.toUInt8 }, { KeyEvent.none with enter := true }]) ∧
      (s.handle (.key { KeyEvent.none with enter := true })).map (·.app.renderMode) =
        some .full)) = some true := by
    decide +kernel
  rw [hdesk, Option.map_some, Option.some.injEq] at htraces
  obtain ⟨hruns, hfull⟩ := of_decide_eq_true htraces
  exact ⟨s', hdesk, hpictured _ hruns, hfull⟩

end LCode
