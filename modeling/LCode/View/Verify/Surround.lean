import LCode.View.Verify.Grid
import LCode.View.Verify.Scrollbar

/-!
# Around the text

The file tree, the gutter, the scrollbar and the status bar are drawn beside the cells of
the text area, however long their strings are; the selection is drawn behind the text.
-/

namespace LCode

open Scene

variable {font : Font}

section Widgets

variable {sc : Scene}

/-- A rectangle left of the text area or right of its columns. -/
theorem Scene.Framed.spares_beside (h : sc.Framed) {f : Fill} (hx : 0 ≤ f.x) (hw : 0 ≤ f.w)
    (hbeside : f.x + f.w ≤ sc.editor.x ∨ (1144 ≤ f.x ∧ f.x < 65536)) :
    sc.Spares font [.fill f] := by
  refine spares_fill fun i j x y hv hin => ?_
  have hb := h.bounds hv
  have hright := h.right
  unfold BackBuffer.InRect at hin
  omega

theorem Scene.Spares.all {ks : List Stroke} (h : ∀ k ∈ ks, sc.Spares font [k]) :
    sc.Spares font ks where
  fits k hk := (h k hk).fits k (List.mem_singleton.2 rfl)
  none i j x y hv k hk := (h k hk).none i j x y hv k (List.mem_singleton.2 rfl)

theorem Scene.Spares.cons {k : Stroke} {ks : List Stroke} (h : sc.Spares font [k])
    (h' : sc.Spares font ks) : sc.Spares font (k :: ks) := h.append h'

/-- An entry of the file tree stays in the panel. -/
theorem EntryRow.spares (h : sc.Framed) (hpanel : sc.filetree.w = 160) {ft : FileTree} {i : Int}
    (hi : i < ft.scroll + 52) {row : EntryRow} (hrow : drawEntry sc ft i = some row) :
    ∀ k ∈ row.strokes, sc.Spares font [k] := by
  obtain ⟨e, -, heq⟩ := Option.bind_eq_some_iff.1 hrow
  obtain rfl := Option.some.inj heq
  have hleft := h.panel
  intro k hk
  rcases List.mem_append.1 hk with hk | hk
  · obtain ⟨f, hf, rfl⟩ := Option.map_eq_some_iff.1 (Option.mem_toList.1 hk)
    dsimp only at hf
    split at hf
    · obtain rfl := Option.some.inj hf
      exact h.spares_beside (Int.le_refl 0) (by dsimp only; omega) (.inl (by dsimp only; omega))
    · exact nomatch hf
  · obtain rfl := List.mem_singleton.1 hk
    have hlen : (strncpy e.name (filetreeCols - 1)).length ≤ 19 := by
      rw [strncpy]
      exact List.length_take_le ..
    refine spares_label ?_ fun i' j x y hv => .inr ?_
    · simp only [editorY, fontH]
      omega
    · have hb := h.bounds hv
      dsimp only
      omega

theorem drawEntries_spares (h : sc.Framed) (hpanel : sc.filetree.w = 160) {ft : FileTree}
    {fuel : Nat} {i : Int} (h0 : 0 ≤ i) (hfuel : ft.scroll + 52 < i + fuel)
    (hpos : 0 < fuel) : ∃ rows, drawEntries sc ft 52 fuel i = some rows ∧
      ∀ k ∈ rows.flatMap EntryRow.strokes, sc.Spares font [k] := by
  induction fuel generalizing i with
  | zero => omega
  | succ fuel ih =>
    rw [drawEntries]
    split
    · next hin =>
      obtain ⟨row, hrow, -⟩ := drawEntry_eq (s := sc) h0 hin.2
      obtain ⟨rows, hrows, hspares⟩ := ih (i := i + 1) (by omega) (by omega) (by omega)
      refine ⟨row :: rows, by simp [hrow, hrows], fun k hk => ?_⟩
      rw [List.flatMap_cons] at hk
      rcases List.mem_append.1 hk with hk | hk
      · exact EntryRow.spares h hpanel hin.1 hrow k hk
      · exact hspares k hk
    · exact ⟨[], rfl, by simp⟩

variable (font) in
theorem drawFiletree_spares (h : sc.Framed) (hpanel : sc.filetree = ⟨0, 0, 160, 864⟩)
    {ft : FileTree} (h0 : 0 ≤ ft.scroll) :
    ∃ panel rows, sc.drawFiletree ft 52 = some (panel, rows) ∧
      sc.Spares font (panel.map .fill ++ rows.flatMap EntryRow.strokes) := by
  obtain ⟨rows, hrows, hspares⟩ := drawEntries_spares h (by rw [hpanel]) h0
    (by omega : ft.scroll + 52 < ft.scroll + ((53 : Nat) : Int)) (by decide)
  have hrows' : sc.drawEntries ft 52 (Int.toNat 52 + 1) ft.scroll = some rows := hrows
  have hleft := h.panel
  rw [hpanel] at hleft
  dsimp only at hleft
  refine ⟨_, rows, by rw [drawFiletree, hrows']; rfl,
    Scene.Spares.append (.all fun k hk => ?_) (.all hspares)⟩
  rw [hpanel] at hk
  simp only [List.map_cons, List.map_nil, List.mem_cons, List.not_mem_nil, or_false] at hk
  rcases hk with rfl | rfl
  · exact h.spares_beside (by decide) (by decide) (.inl (by dsimp only; omega))
  · exact h.spares_beside (by decide) (by decide) (.inl (by dsimp only; omega))

theorem writeDigits_length (n : Nat) (m : Int) (buf : List UInt8) :
    (writeDigits n m buf).length = n + buf.length := by
  induction n generalizing m buf with
  | zero => simp [writeDigits]
  | succ n ih =>
    rw [writeDigits, ih, List.length_cons]
    omega

theorem skipZeros_length (p : List UInt8) : (skipZeros p).length ≤ p.length := by
  fun_induction skipZeros p with
  | case1 => exact Nat.le_refl _
  | case2 c p hc ih => exact ih.trans (Nat.le_succ _)
  | case3 => exact Nat.le_refl _

theorem lineNumber_length (digits : Nat) (r : Int) : (lineNumber digits r).length ≤ digits := by
  have hdigits := writeDigits_length digits (r + 1) []
  have hskip := skipZeros_length (writeDigits digits (r + 1) [])
  have hstring : (lineNumber digits r).length ≤
      (skipZeros (writeDigits digits (r + 1) [])).length := (List.takeWhile_sublist _).length_le
  simp only [List.length_nil] at hdigits
  omega

variable (font) in
theorem drawGutter_spares (h : sc.Framed) {panel digits : Int} (h0 : 0 ≤ panel)
    (hgutter : sc.gutter = ⟨panel, 10, 8 * (digits + 2), 838⟩)
    (hx : sc.editor.x = panel + 8 * (digits + 2)) (hmin : 0 ≤ digits) (hmax : digits ≤ 8)
    {scrollRow endR : Int} (hrows : endR ≤ scrollRow + 52) :
    ∃ ks, sc.drawGutter scrollRow endR = some ks ∧ sc.Spares font ks := by
  have hdigits : (8 * (digits + 2)).tdiv fontW - gutterPad = digits := by
    simp only [fontW, gutterPad]
    rw [Int.tdiv_eq_ediv_of_nonneg (by omega)]
    omega
  have hright := h.right
  refine ⟨_, by
    rw [drawGutter, hgutter]
    simp only [hdigits]
    rw [if_neg (by omega)]
    rfl, .all fun k hk => ?_⟩
  rcases List.mem_cons.1 hk with rfl | hk
  · exact h.spares_beside h0 (by dsimp only; omega) (.inl (by dsimp only; omega))
  · obtain ⟨n, hn, rfl⟩ := List.mem_map.1 hk
    have hlen := lineNumber_length digits.toNat (scrollRow + (n : Int))
    have hn' := List.mem_range.1 hn
    refine spares_label ?_ fun i j x y hv => .inr ?_
    · simp only [h.top, fontH]
      omega
    · have hb := h.bounds hv
      simp only [gutterPad, fontW]
      omega

variable (font) in
theorem drawScrollbar_spares (h : sc.Framed) (harr : sc.Arranged) {rowCount scrollRow : Int}
    (hcount : 1 ≤ rowCount) (h0 : 0 ≤ scrollRow) (hmax : scrollRow ≤ 2500000) :
    ∃ track handle, sc.drawScrollbar rowCount scrollRow = some (track, handle) ∧
      sc.Spares font ((track :: handle.toList).map .fill) := by
  have hvis : 1 ≤ sc.visRows := by
    rw [h.bottom]
    decide
  have hres : sc.vRes ≤ 65535 := by
    have hbottom := harr.bottom
    rw [h.bar] at hbottom
    simp only [fontH] at hbottom
    omega
  obtain ⟨hheight, hfree⟩ := handleHeight_eq harr hvis hres hcount
  have hbar := h.scrollbar
  have hfree' : sc.freeTrack rowCount ≤ 838 := by
    unfold freeTrack
    rw [hbar]
    simp only [scrollbarHandleMin]
    split <;> omega
  have hfits : FitsInt (scrollRow * sc.freeTrack rowCount) := by
    have hprod := Int.mul_nonneg h0 hfree
    have hprod' : scrollRow * sc.freeTrack rowCount ≤ 2500000 * 838 :=
      Int.mul_le_mul hmax hfree' hfree (by decide)
    exact ⟨by omega, by omega⟩
  have hrest : sc.scrollbar.y + sc.scrollbar.h - (sc.scrollbar.h - sc.freeTrack rowCount) -
      sc.scrollbar.y = sc.freeTrack rowCount := by omega
  refine ⟨_, _, by
    unfold drawScrollbar
    rw [if_neg (by omega)]
    simp only [hheight, Option.bind_eq_bind, Option.bind_some, hrest, intMul, if_pos hfits]
    rfl, .all fun k hk => ?_⟩
  rw [hbar] at hk
  simp only [Option.toList_some, List.map_cons, List.map_nil, List.mem_cons, List.not_mem_nil,
    or_false] at hk
  rcases hk with rfl | rfl
  · exact h.spares_beside (by decide) (by decide) (.inr (by decide))
  · exact h.spares_beside (by dsimp only; omega) (by dsimp only; omega) (.inr (by dsimp only; omega))

variable (font) in
theorem renderStatusBar_spares (h : sc.Framed) {bar : CommandBar} {times : Times}
    (hbar : bar.input.length ≤ 4000 ∧ bar.statusMsg.length ≤ 4000 ∧ bar.filename.length ≤ 4000)
    (htimes : times.clock.length ≤ 4000 ∧ times.session.length ≤ 4000) :
    sc.Spares font (sc.renderStatusBar bar times) := by
  have hlabel (x : Int) (text : List UInt8) (color : UInt32) (hlen : text.length ≤ 4000) :
      sc.Spares font [.label ⟨x, 848, text, color⟩] := by
    refine spares_label (by dsimp only; omega) fun i j x y hv => .inl ?_
    have hb := h.bounds hv
    dsimp only
    omega
  have hfill (x w : Int) (color : UInt32) : sc.Spares font [.fill ⟨x, 848, w, 16, color⟩] := by
    refine spares_fill fun i j x y hv hin => ?_
    have hb := h.bounds hv
    unfold BackBuffer.InRect at hin
    dsimp only at hin
    omega
  have hcolon : (ascii ":").length ≤ 4000 := by decide
  simp only [renderStatusBar, h.bar]
  refine .append (.cons (hfill _ _ _) ?_) (.cons (hlabel _ _ _ htimes.1) (hlabel _ _ _ htimes.2))
  split
  · exact .cons (hlabel _ _ _ hcolon) (.cons (hlabel _ _ _ hbar.1) (hfill _ _ _))
  · split
    · exact hlabel _ _ _ hbar.2.1
    · exact hlabel _ _ _ hbar.2.2

/-- The background of the selection. -/
theorem Scene.Displays.of_paints {s : Resolution} {bb bb' : BackBuffer s} {g : Grid}
    {A P : Nat → Nat → Prop} [∀ i j, Decidable (P i j)] {color : UInt32}
    (hp : Raster.Paints A color bb bb') (hcell : ∀ i j x y, sc.InView i j x y → (A x y ↔ P i j))
    (hd : sc.Displays font bb g) : sc.Displays font bb' (g.block P color) := by
  intro i j x y hv
  obtain ⟨hin, hout⟩ := hp x y
  rw [Grid.block]
  split
  · next hP => exact hin ((hcell i j x y hv).2 hP)
  · next hP =>
    rw [hout (mt (hcell i j x y hv).1 hP)]
    exact hd i j x y hv

end Widgets

end LCode
