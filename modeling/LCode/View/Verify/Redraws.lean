import LCode.View.Verify.Frames

/-!
# Redraws of a part

A redraw of the cursor's row, or of the cells of the cursor, writes into the grid on the
screen what the document has there and changes no other cell; those of the status bar and
of the pointer change none.
-/

namespace LCode

open HighlightCache Scene

variable {font : Font}

/-! ## Fetched columns -/

section Fetched

variable {sc : Scene} {T T' : Prop} {ed ed' : Editor} {lang : SyntaxLanguage}
  {t : List (List UInt8)} {p p' : Pos} {c : HighlightCache}

variable (font) in
/-- The characters that a fetch of `n` columns from `k` on draws, in row `r - R` of the view. -/
theorem fetch_inks (hf : sc.Framed) (h : ed.At T t p) (h' : ed'.At T' t p')
    (hcoherent : Coherent lang t c) {R K r k n : Nat} (hr : R ≤ r) (hview : r < R + 52)
    (hk : K ≤ k) (hlen : k + n ≤ (Text.row t r).length) (hpos : 0 < n) {last x y : Int}
    (hlast : last = k + n) (hx : x = sc.editor.x + ((k : Int) - K) * 8)
    (hy : y = 10 + ((r : Int) - R) * 16) :
    ∃ fs c' ks, Desk.fetch ed c r k last = some (fs, c') ∧ Coherent lang t c' ∧
      Fetch.drawAll ed' (fun _ => x) (fun _ => y) fs = some ks ∧
      Inks font sc ks fun i j => if R + i = r ∧ k ≤ K + j ∧ K + j < k + n then
        (lettersAt lang t r)[K + j]? else none := by
  obtain ⟨colors, cap, c₁, hfetch, hcoherent₁, hcolors⟩ :=
    fetch_eq h hcoherent (by omega : 0 < (Text.row t r).length) k last
  have hrow := fetch_draw_eq h' (f := ⟨r, colors, cap, k, last⟩) rfl hcolors (k := k) (n := n)
    rfl (by dsimp only; omega) hlen x y
  have hinks : Inks font sc _ _ := chars_inks hf (a := k - K) (b := r - R) (by omega) (x := x)
    (y := y) (by omega) (by omega) (((lettersAt lang t r).drop k).take n)
  refine ⟨_, c₁, _, hfetch, hcoherent₁, by
    simp only [Fetch.drawAll, hrow, Option.bind_eq_bind, Option.bind_some]
    rfl, ?_⟩
  rw [List.append_nil]
  refine hinks.congr hf fun i j _ => ?_
  by_cases hin : R + i = r ∧ k ≤ K + j ∧ K + j < k + n
  · have hj : k + (j - (k - K)) = K + j := by omega
    rw [if_pos hin, if_pos ⟨by omega, by omega⟩, List.getElem?_take, if_pos (by omega),
      List.getElem?_drop, hj]
  · rw [if_neg hin]
    split
    · rw [List.getElem?_take, if_neg (by omega)]
    · rfl

variable (font) in
/-- The row of a line redraw. -/
theorem fetchRow_inks (hf : sc.Framed) (h : ed.At T t p) (h' : ed'.At T' t p')
    (hcoherent : Coherent lang t c) {R K r : Nat} (hr : R ≤ r) (hview : r < R + 52) {y : Int}
    (hy : y = 10 + ((r : Int) - R) * 16) :
    ∃ fs c' ks, (if (K : Int) < (Text.row t r).length then
        Desk.fetch ed c r K (Text.row t r).length else some ([], c)) = some (fs, c') ∧
      Coherent lang t c' ∧
      Fetch.drawAll ed' (fun _ => sc.editor.x) (fun _ => y) fs = some ks ∧
      Inks font sc ks fun i j => if R + i = r then (lettersAt lang t r)[K + j]? else none := by
  have hlen := lettersAt_length lang t r
  split
  · next hlt =>
    obtain ⟨fs, c', ks, hfetch, hcoherent', hdraw, hinks⟩ := fetch_inks font hf h h' hcoherent hr
      hview (Nat.le_refl K) (n := (Text.row t r).length - K) (by omega) (by omega)
      (by omega : ((Text.row t r).length : Int) = K + ((Text.row t r).length - K : Nat))
      (x := sc.editor.x) (by omega) hy
    refine ⟨fs, c', ks, hfetch, hcoherent', hdraw, hinks.congr hf fun i j _ => ?_⟩
    by_cases hi : R + i = r
    · by_cases hj : K + j < K + ((Text.row t r).length - K)
      · rw [if_pos hi, if_pos ⟨hi, Nat.le_add_right K j, hj⟩]
      · rw [if_pos hi, if_neg fun hall => hj hall.2.2, List.getElem?_eq_none (by omega)]
    · rw [if_neg hi, if_neg fun hall => hi hall.1]
  · next hle =>
    refine ⟨[], c, [], rfl, hcoherent, rfl, inks_nil.congr hf fun i j _ => ?_⟩
    split
    · rw [List.getElem?_eq_none (by omega)]
    · rfl

variable (font) in
/-- The cell of a character redraw. -/
theorem fetchCell_inks (hf : sc.Framed) (h : ed.At T t p) (h' : ed'.At T' t p')
    (hcoherent : Coherent lang t c) {R K r k : Nat} (hr : R ≤ r) (hview : r < R + 52) (hk : K ≤ k)
    {x y : Int} (hx : x = sc.editor.x + ((k : Int) - K) * 8) (hy : y = 10 + ((r : Int) - R) * 16) :
    ∃ fs c' ks, (if (k : Int) < (Text.row t r).length then
        Desk.fetch ed c r k (k + 1) else some ([], c)) = some (fs, c') ∧
      Coherent lang t c' ∧ Fetch.drawAll ed' (fun _ => x) (fun _ => y) fs = some ks ∧
      Inks font sc ks fun i j => if R + i = r ∧ K + j = k then
        (lettersAt lang t r)[K + j]? else none := by
  have hlen := lettersAt_length lang t r
  split
  · next hlt =>
    obtain ⟨fs, c', ks, hfetch, hcoherent', hdraw, hinks⟩ := fetch_inks font hf h h' hcoherent hr
      hview hk (n := 1) (by omega) (by omega) rfl hx hy
    refine ⟨fs, c', ks, hfetch, hcoherent', hdraw, hinks.congr hf fun i j _ => ?_⟩
    by_cases hin : R + i = r ∧ K + j = k
    · rw [if_pos hin, if_pos ⟨hin.1, by omega, by omega⟩]
    · rw [if_neg hin, if_neg fun hall => hin ⟨hall.1, by omega⟩]
  · next hle =>
    refine ⟨[], c, [], rfl, hcoherent, rfl, inks_nil.congr hf fun i j _ => ?_⟩
    split
    · rw [List.getElem?_eq_none (by omega)]
    · rfl

end Fetched

section Place

variable {app : App} {R K i j : Nat}

theorem App.place_eq (hR : app.editor.scrollRow = R) (hK : app.editor.scrollCol = K) :
    app.place i j = ⟨R + i, K + j⟩ := by
  rw [App.place, hR, hK]
  rfl

/-- The rectangle of a row in view. -/
theorem rowRect_iff (hf : app.scene.Framed) {r x y : Nat} (hr : R ≤ r) (hview : r < R + 52)
    (hv : app.scene.InView i j x y) :
    BackBuffer.InRect app.scene.editor.x (10 + ((r : Int) - R) * 16) app.scene.editor.w fontH x y ↔
      R + i = r := by
  have hb := hf.bounds hv
  have hleft := hf.left
  have hwidth := hf.width
  simp only [BackBuffer.InRect, fontH]
  constructor
  · rintro ⟨h₁, h₂, h₃⟩
    omega
  · intro hi
    omega

/-- The rectangle of a cell in view. -/
theorem cellRect_iff (hf : app.scene.Framed) (hs : app.editor.Scrolled)
    (hR : app.editor.scrollRow = R) (hK : app.editor.scrollCol = K) {row col : Int} {r k x y : Nat}
    (hrow : row = r) (hcol : col = k) (hr : R ≤ r) (hview : r < R + 52) (hk : K ≤ k)
    (hright : (k : Int) < K + app.scene.visCols) (hv : app.scene.InView i j x y) :
    BackBuffer.InRect (Screen.modelToPx app col) (Screen.modelToPy app row) fontW fontH x y ↔
      R + i = r ∧ K + j = k := by
  have hb := hf.bounds hv
  have hleft := hf.left
  have hright' := hf.right
  refine (inRect_iff hf hs row col hv).trans ?_
  simp only [DrawnOver, hR, hK, hrow, hcol, Int.toNat_natCast]
  omega

end Place

/-! ## Frames -/

namespace Desk

variable {s : Desk} {t : List (List UInt8)} {p : Pos} {times : Times}

/-- A redraw of a part is scheduled, in a layout computed for an `int` of rows: of a row in
view, of the two cells of the cursor, of the status bar or of the pointer. -/
structure PartFrame (s : Desk) (times : Times) : Prop where
  laid : s.app.scene.Laid
  mode : s.app.renderMode ∈ [.line, .char, .status, .mouse, .none]
  line : s.app.renderMode = .line → s.app.editor.scrollRow ≤ s.app.editor.cursorRow ∧
    s.app.editor.cursorRow < s.app.editor.scrollRow + s.app.scene.visRows
  short : s.app.ShortTexts times

/-- What a redraw of a part makes of a grid. The row of the cursor, or the cell it was in,
becomes what the document has there, without the background of the selection. -/
def redraw (s : Desk) (g : Grid) : Grid := fun i j =>
  let q := s.app.place i j
  match s.app.renderMode with
  | .line =>
    if s.app.CursorOver q then ⟨none, colorText⟩
    else if (q.row : Int) = s.app.editor.cursorRow then ⟨s.letterAt q, colorBg⟩
    else g i j
  | .char =>
    if Screen.visible s.app s.app.editor.cursorRow s.app.editor.cursorCol = true ∧
        s.app.CursorOver q then ⟨none, colorText⟩
    else if Screen.visible s.app s.prevRow s.prevCol = true ∧ (q.row : Int) = s.prevRow ∧
        (q.col : Int) = s.prevCol then ⟨s.letterAt q, colorBg⟩
    else g i j
  | _ => g i j

/-- The frame succeeds, and changes the grid on the screen as the redraw does. -/
def Redrawn (font : Font) (times : Times) (s : Desk) : Prop :=
  ∃ s' fs, s.viewRender = some (s', fs) ∧ ∀ (bb : BackBuffer Screen.resolution) (g : Grid),
    s.app.scene.Displays font bb g → ∃ bb', s.paint font times fs bb = some bb' ∧
      s'.app.scene.Displays font bb' (s.redraw g)

theorem redrawn_of_strokes {fs : List Fetch} {c : HighlightCache} {ks : List Stroke}
    (hmode : s.app.renderMode ≠ .full)
    (hdraw : s.renderEditorUi (s.cache.withHeap s.app.editor.doc.heap) = some (fs, c))
    (hstrokes : s.strokes times fs = some ks)
    (hdisplays : ∀ (bb : BackBuffer Screen.resolution) (g : Grid), s.app.scene.Displays font bb g →
      s.app.scene.Displays font (ks.foldl (Stroke.paint font) bb) (s.redraw g)) :
    s.Redrawn font times := by
  have hscene : s.app.viewRender.scene = s.app.scene := by
    rw [App.viewRender, if_neg hmode]
  have hpaint (bb : BackBuffer Screen.resolution) :
      s.paint font times fs bb = some (ks.foldl (Stroke.paint font) bb) := by
    rw [paint, hstrokes]
    rfl
  unfold Redrawn Desk.viewRender
  rw [hdraw]
  simp only [Option.bind_eq_bind, Option.bind_some]
  split
  all_goals
    refine ⟨_, fs, rfl, fun bb g hd => ⟨_, hpaint bb, ?_⟩⟩
    change s.app.viewRender.scene.Displays font _ _
    rw [hscene]
    exact hdisplays bb g hd

/-- A line redraw. -/
theorem Sound.line_redrawn (h : s.Sound t p) (hready : s.Ready s.cache.currentLang t p)
    (hframe : s.PartFrame times) (hmode : s.app.renderMode = .line) : s.Redrawn font times := by
  have hat := h.good.sound.at'
  have hf := hframe.laid.framed
  obtain ⟨habove, hbelow⟩ := hframe.line hmode
  obtain ⟨R, hR⟩ := Int.eq_ofNat_of_zero_le h.scrolled.row
  obtain ⟨K, hK⟩ := Int.eq_ofNat_of_zero_le h.scrolled.col
  rw [hR, hat.row] at habove hbelow
  rw [hf.bottom] at hbelow
  obtain ⟨c₁, c₂, hfree, hbuild, hcoherent⟩ := hready.rebuild h hmode
  obtain ⟨fs, c, text, hfetch, -, htext, hinks⟩ := fetchRow_inks font hf hat hat (K := K)
    hcoherent (R := R) (r := p.row) (by omega) (by omega) rfl
  have hdraw : s.renderEditorUi (s.cache.withHeap s.app.editor.doc.heap) = some (fs, c) := by
    rw [renderEditorUi, hmode]
    simp only [renderLine, hat.row, hfree, hbuild, Editor.getLineLen_row hat.holds.shows, hK,
      Option.bind_eq_bind, Option.bind_some]
    exact hfetch
  have hy : s.app.scene.editor.y + (s.app.editor.cursorRow - s.app.editor.scrollRow) * fontH =
      10 + ((p.row : Int) - R) * 16 := by
    rw [hf.top, hat.row, hR]
    rfl
  have hstrokes : s.strokes times fs = some (.fill ⟨s.app.scene.editor.x,
      10 + ((p.row : Int) - R) * 16, s.app.scene.editor.w, fontH, colorBg⟩ :: text ++
      Screen.drawCursor s.app s.app.editor.cursorCol s.app.editor.cursorRow) := by
    rw [strokes, hmode]
    simp only [drawLine, hy, htext, Option.bind_eq_bind, Option.bind_some]
    rfl
  refine redrawn_of_strokes (by rw [hmode]; decide) hdraw hstrokes fun bb g hd => ?_
  have hcleared : s.app.scene.Displays font _ _ := hd.block (P := fun i _ => R + i = p.row)
    (f := ⟨s.app.scene.editor.x, 10 + ((p.row : Int) - R) * 16, s.app.scene.editor.w, fontH,
      colorBg⟩)
    fun i j x y hv => rowRect_iff hf (by omega) (by omega) hv
  have hwritten := hcleared.write hinks.fits hinks.layer fun i j hsome => by
    split at hsome
    · next hi => rw [Grid.block, if_pos hi]
    · exact absurd hsome Bool.false_ne_true
  have hcursor := drawCursor_displays hf h.scrolled hwritten
  rw [List.foldl_append, List.foldl_cons]
  refine hcursor.congr hf fun i j _ => ?_
  simp only [redraw, hmode, Grid.block, Grid.write, App.place_eq hR hK, letterAt, hat.row,
    h.rows_eq]
  split
  · rfl
  · by_cases hi : R + i = p.row
    · rw [if_pos (by omega), if_pos hi, if_pos hi, hi, Option.or_none]
    · rw [if_neg (by omega), if_neg hi, if_neg hi, Option.none_or]

/-- The cursor of a character redraw, which is drawn where it is in view. -/
theorem charCursor_displays {app : App} {res : Resolution} {bb : BackBuffer res} {g : Grid}
    (hf : app.scene.Framed) (hs : app.editor.Scrolled) (hd : app.scene.Displays font bb g) :
    app.scene.Displays font ((if Screen.visible app app.editor.cursorRow app.editor.cursorCol then
        Screen.drawCursor app app.editor.cursorCol app.editor.cursorRow else []).foldl
          (Stroke.paint font) bb)
      (g.block (fun i j => Screen.visible app app.editor.cursorRow app.editor.cursorCol = true ∧
        app.CursorOver (app.place i j)) colorText) := by
  split
  · next hvis =>
    refine (drawCursor_displays hf hs hd).congr hf fun i j _ => ?_
    simp only [Grid.block, hvis, true_and]
  · next hhidden =>
    refine hd.congr hf fun i j _ => ?_
    simp only [Grid.block, hhidden, Bool.false_eq_true, false_and, if_false]

/-- A character redraw. -/
theorem Sound.char_redrawn (h : s.Sound t p) (hready : s.Ready s.cache.currentLang t p)
    (hframe : s.PartFrame times) (hmode : s.app.renderMode = .char) : s.Redrawn font times := by
  have hat := h.good.sound.at'
  have hf := hframe.laid.framed
  obtain ⟨R, hR⟩ := Int.eq_ofNat_of_zero_le h.scrolled.row
  obtain ⟨K, hK⟩ := Int.eq_ofNat_of_zero_le h.scrolled.col
  have hfull : s.app.renderMode ≠ .full := by
    rw [hmode]
    decide
  have hcoherent := hready.coherent h hfull (by rw [hmode]; decide)
  by_cases hvis : Screen.visible s.app s.prevRow s.prevCol = true
  · have hin : s.app.editor.scrollRow ≤ s.prevRow ∧
        s.prevRow < s.app.editor.scrollRow + s.app.scene.visRows ∧
        s.app.editor.scrollCol ≤ s.prevCol ∧
        s.prevCol < s.app.editor.scrollCol + s.app.scene.visCols := by
      simpa only [Screen.visible, Bool.and_eq_true, decide_eq_true_eq, and_assoc] using hvis
    have hin' := hin
    rw [hR, hK, hf.bottom] at hin'
    obtain ⟨r, hr⟩ := Int.eq_ofNat_of_zero_le h.prev
    obtain ⟨k, hk⟩ := Int.eq_ofNat_of_zero_le (by omega : 0 ≤ s.prevCol)
    rw [hr, hk] at hin'
    obtain ⟨c₁, hbuild, hcoherent₁⟩ := (painter_coherent hat).rebuild _ r hcoherent
    have hx : Screen.modelToPx s.app s.prevCol = s.app.scene.editor.x + ((k : Int) - K) * 8 := by
      rw [Screen.modelToPx, hk, hK]
      rfl
    have hy : Screen.modelToPy s.app s.prevRow = 10 + ((r : Int) - R) * 16 := by
      rw [Screen.modelToPy, hf.top, hr, hR]
      rfl
    obtain ⟨fs, c, text, hfetch, -, htext, hinks⟩ := fetchCell_inks font hf hat hat (R := R)
      (K := K) hcoherent₁ (r := r) (k := k) (by omega) (by omega) (by omega) hx hy
    have hdraw : s.renderEditorUi (s.cache.withHeap s.app.editor.doc.heap) = some (fs, c) := by
      rw [renderEditorUi, hmode]
      simp only [renderChar]
      rw [if_pos hin, hr, hk]
      simp only [hbuild, Editor.getLineLen_row hat.holds.shows, Option.bind_eq_bind,
        Option.bind_some]
      exact hfetch
    have hstrokes : s.strokes times fs = some (.fill ⟨Screen.modelToPx s.app s.prevCol,
        Screen.modelToPy s.app s.prevRow, fontW, fontH, colorBg⟩ :: text ++
        if Screen.visible s.app s.app.editor.cursorRow s.app.editor.cursorCol then
          Screen.drawCursor s.app s.app.editor.cursorCol s.app.editor.cursorRow else []) := by
      rw [strokes, hmode]
      simp only [drawCharCell, htext, Option.bind_eq_bind, Option.bind_some, if_pos hvis]
      rfl
    refine redrawn_of_strokes hfull hdraw hstrokes fun bb g hd => ?_
    have hcleared : s.app.scene.Displays font _ _ := hd.block
      (P := fun i j => R + i = r ∧ K + j = k)
      (f := ⟨Screen.modelToPx s.app s.prevCol, Screen.modelToPy s.app s.prevRow, fontW, fontH,
        colorBg⟩) fun i j x y hv => cellRect_iff hf h.scrolled hR hK hr hk (by omega) (by omega)
          (by omega) (by omega) hv
    have hwritten := hcleared.write hinks.fits hinks.layer fun i j hsome => by
      split at hsome
      · next hi => rw [Grid.block, if_pos hi]
      · exact absurd hsome Bool.false_ne_true
    rw [List.foldl_append, List.foldl_cons]
    refine (charCursor_displays hf h.scrolled hwritten).congr hf fun i j _ => ?_
    simp only [redraw, hmode, Grid.block, Grid.write, App.place_eq hR hK, letterAt, h.rows_eq,
      hvis, true_and]
    split
    · rfl
    · by_cases hi : R + i = r ∧ K + j = k
      · rw [if_pos (by omega), if_pos hi, if_pos hi, hi.1, Option.or_none]
      · rw [if_neg (by omega), if_neg hi, if_neg hi, Option.none_or]
  · have hout : ¬ (s.app.editor.scrollRow ≤ s.prevRow ∧
        s.prevRow < s.app.editor.scrollRow + s.app.scene.visRows ∧
        s.app.editor.scrollCol ≤ s.prevCol ∧
        s.prevCol < s.app.editor.scrollCol + s.app.scene.visCols) := fun hin => hvis (by
      simpa only [Screen.visible, Bool.and_eq_true, decide_eq_true_eq, and_assoc] using hin)
    have hstrokes : s.strokes times [] = some
        (if Screen.visible s.app s.app.editor.cursorRow s.app.editor.cursorCol then
          Screen.drawCursor s.app s.app.editor.cursorCol s.app.editor.cursorRow else []) := by
      rw [strokes, hmode]
      simp only [drawCharCell, Fetch.drawAll, Option.bind_eq_bind, Option.bind_some, if_neg hvis,
        List.nil_append]
      rfl
    refine redrawn_of_strokes hfull (by rw [renderEditorUi, hmode]; exact if_neg hout) hstrokes
      fun bb g hd => (charCursor_displays hf h.scrolled hd).congr hf fun i j _ => ?_
    simp only [redraw, hmode, Grid.block, hvis, Bool.false_eq_true, false_and, if_false]

/-- The frames that leave the text area alone. -/
theorem PartFrame.still_redrawn (hframe : s.PartFrame times)
    (hmode : s.app.renderMode = .status ∨ s.app.renderMode = .mouse ∨ s.app.renderMode = .none) :
    s.Redrawn font times := by
  have hf := hframe.laid.framed
  rcases hmode with hmode | hmode | hmode
  · refine redrawn_of_strokes (by rw [hmode]; decide) (by rw [renderEditorUi, hmode])
      (by rw [strokes, hmode]) fun bb g hd => ?_
    have hspares := renderStatusBar_spares font hf hframe.short.bar hframe.short.times
    have hdisplays := hspares.displays hd
    rwa [show s.redraw g = g by funext i j; simp only [redraw, hmode]]
  all_goals
    refine redrawn_of_strokes (by rw [hmode]; decide) (by rw [renderEditorUi, hmode])
      (by rw [strokes, hmode]) fun bb g hd => ?_
    rwa [show s.redraw g = g by funext i j; simp only [redraw, hmode]]

/-- A redraw of a part changes the grid on the screen as it should. -/
theorem Sound.redrawn (h : s.Sound t p) (hready : s.Ready s.cache.currentLang t p)
    (hframe : s.PartFrame times) : s.Redrawn font times := by
  have hmode := hframe.mode
  simp only [List.mem_cons, List.not_mem_nil, or_false] at hmode
  rcases hmode with hline | hchar | hstill
  · exact h.line_redrawn hready hframe hline
  · exact h.char_redrawn hready hframe hchar
  · exact hframe.still_redrawn hstill

end Desk

end LCode
