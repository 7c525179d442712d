import LCode.View.Verify.Coherence
import LCode.View.Verify.Grid

/-!
# Lettering

The characters a frame draws: those of the rows it fetches colours for, each in the cell
of its position and in the colour that the document gives it.
-/

namespace LCode

open HighlightCache Scene

variable {font : Font}

/-! ## Rows of characters -/

/-- Characters side by side, the first one at `x`. -/
def chars (x y : Int) : List (UInt8 × UInt32) → List Stroke
  | [] => []
  | (c, color) :: cells => .char x y c color :: chars (x + 8) y cells

theorem chars_fits {y : Int} (hy : y + 16 ≤ 65536) {x : Int} {cells : List (UInt8 × UInt32)} :
    ∀ k ∈ chars x y cells, k.Fits := by
  induction cells generalizing x with
  | nil => simp [chars]
  | cons cell cells ih =>
    intro k hk
    rcases List.mem_cons.1 hk with rfl | hk
    · exact hy
    · exact ih k hk

theorem Stroke.layers_cons (k : Stroke) (ks : List Stroke) :
    Stroke.layers font (k :: ks) = (Stroke.layers font ks).atop (k.layer font) := rfl

/-- The pixels of one character. -/
theorem charLayer_eq (x y : Int) (c : UInt8) (color : UInt32) (px py : Nat) :
    charLayer font x y c color px py = ink font (some (c, color)) (px - x) (py - y) := rfl

theorem ink_eq_none {fore : Option (UInt8 × UInt32)} {dx dy : Int}
    (hout : ¬ (0 ≤ dx ∧ dx < 8 ∧ 0 ≤ dy ∧ dy < 16)) : ink font fore dx dy = none := by
  cases fore with
  | none => rfl
  | some cell => exact if_neg (by rw [inked_eq_false hout]; exact Bool.false_ne_true)

/-- Beside and above its cells a row puts nothing. -/
theorem chars_beside {y : Int} {px py : Nat} {x : Int} {cells : List (UInt8 × UInt32)}
    (hout : (px : Int) < x ∨ ¬ (y ≤ py ∧ (py : Int) < y + 16)) :
    Stroke.layers font (chars x y cells) px py = none := by
  induction cells generalizing x with
  | nil => rfl
  | cons cell cells ih =>
    have hrest := ih (x := x + 8) (by omega)
    rw [chars, Stroke.layers_cons, Layer.atop, hrest, Option.none_or]
    exact (charLayer_eq x y cell.1 cell.2 px py).trans (ink_eq_none (by omega))

/-- In the cell of its `k`th character a row shows that character. -/
theorem chars_layers {y : Int} {px py : Nat} {x : Int} {k : Nat} {cells : List (UInt8 × UInt32)}
    (hpx : x + 8 * k ≤ px) (hpx' : (px : Int) < x + 8 * k + 8) :
    Stroke.layers font (chars x y cells) px py = ink font cells[k]? (px - (x + 8 * k)) (py - y) := by
  induction cells generalizing x k with
  | nil => rfl
  | cons cell cells ih =>
    rw [chars, Stroke.layers_cons, Layer.atop]
    cases k with
    | zero =>
      rw [chars_beside (x := x + 8) (.inl (by omega)), Option.none_or, List.getElem?_cons_zero]
      have hx : (px : Int) - (x + 8 * (0 : Nat)) = px - x := by omega
      rw [hx]
      exact charLayer_eq x y cell.1 cell.2 px py
    | succ k =>
      have hfirst : Stroke.layer font (.char x y cell.1 cell.2) px py = none :=
        (charLayer_eq x y cell.1 cell.2 px py).trans (ink_eq_none (by omega))
      rw [hfirst, Option.or_none, ih (x := x + 8) (k := k) (by omega) (by omega),
        List.getElem?_cons_succ]
      have hx : (px : Int) - (x + 8 + 8 * k) = px - (x + 8 * (k + 1 : Nat)) := by omega
      rw [hx]

/-! ## Characters in cells -/

/-- The strokes put the characters of `o` into the cells, and nothing else. -/
structure Inks (font : Font) (sc : Scene) (ks : List Stroke)
    (o : Nat → Nat → Option (UInt8 × UInt32)) : Prop where
  fits : ∀ k ∈ ks, k.Fits
  layer : ∀ i j x y, sc.InView i j x y → Stroke.layers font ks x y =
    ink font (o i j) (x - (sc.editor.x + j * fontW)) (y - (sc.editor.y + i * fontH))

section Inks

variable {sc : Scene} {ks ks' : List Stroke} {o o' : Nat → Nat → Option (UInt8 × UInt32)}

theorem inks_nil : Inks font sc [] fun _ _ => none where
  fits := by simp
  layer _ _ _ _ _ := rfl

/-- Only the rows in view matter. -/
theorem Inks.congr (hf : sc.Framed) (h : Inks font sc ks o)
    (heq : ∀ i j, i < 52 → o' i j = o i j) : Inks font sc ks o' where
  fits := h.fits
  layer i j x y hv := by
    rw [heq i j (hf.bounds hv).1]
    exact h.layer i j x y hv

theorem Inks.append (h : Inks font sc ks o) (h' : Inks font sc ks' o')
    (hapart : ∀ i j, o i j = none ∨ o' i j = none) :
    Inks font sc (ks ++ ks') fun i j => (o' i j).or (o i j) where
  fits k hk := (List.mem_append.1 hk).elim (h.fits k) (h'.fits k)
  layer i j x y hv := by
    rw [Stroke.layers_append, Layer.atop, h.layer i j x y hv, h'.layer i j x y hv]
    rcases hapart i j with hnone | hnone <;> rw [hnone]
    · exact (Option.or_none ..).trans (by rw [Option.or_none])
    · rfl

/-- A row of characters that begins in the cell in row `b` and column `a`. -/
theorem chars_inks (h : sc.Framed) {a b : Nat} (hb : b < 52) {x y : Int}
    (hx : x = sc.editor.x + a * 8) (hy : y = 10 + b * 16) (cells : List (UInt8 × UInt32)) :
    Inks font sc (chars x y cells) fun i j => if i = b ∧ a ≤ j then cells[j - a]? else none where
  fits := chars_fits (by omega)
  layer i j px py hv := by
    obtain ⟨hi, -, hleft, hright, htop, hbottom⟩ := h.bounds hv
    simp only [fontW, fontH, h.top]
    split
    · next hin =>
      obtain ⟨rfl, hj⟩ := hin
      have hk : ((j - a : Nat) : Int) = j - a := by omega
      rw [chars_layers (k := j - a) (by omega) (by omega), hx, hy, hk]
      have hpx : (px : Int) - (sc.editor.x + a * 8 + 8 * ((j : Int) - a)) =
          px - (sc.editor.x + j * 8) := by omega
      rw [hpx]
    · next hout => exact chars_beside (by omega)

end Inks

/-! ## Fetched rows -/

/-- The characters of a row with the colours that a scan of the text gives them. -/
def lettersAt (lang : SyntaxLanguage) (t : List (List UInt8)) (r : Nat) : List (UInt8 × UInt32) :=
  (Text.row t r).zip (colorsAt lang t r)

section Rows

variable {T : Prop} {ed : Editor} {lang : SyntaxLanguage} {t : List (List UInt8)} {p : Pos}
  {c : HighlightCache} {r : Nat}

theorem lettersAt_length (lang : SyntaxLanguage) (t : List (List UInt8)) (r : Nat) :
    (lettersAt lang t r).length = (Text.row t r).length := by
  rw [lettersAt, List.length_zip, colorsAt, Syntax.lineColors_length, Nat.min_self]

/-- A row with characters has an array after `highlight_cache_get_line`. -/
theorem getLine_isSome (h : ed.At T t p) (ample : c.heap.Ample) (hpos : 0 < (Text.row t r).length)
    {colors : Option (List UInt32)} {c' : HighlightCache}
    (hline : c.getLine ed r = some (colors, c')) : colors.isSome := by
  obtain ⟨c₁, hgrow, hlen, hentry, hsame⟩ := c.growRows_eq ample (r + 1)
  have hrow : r < c₁.lineColors.length := by omega
  simp only [getLine, hgrow, Bool.not_true, Bool.false_eq_true, if_false, row_eq hrow,
    Option.bind_eq_bind, Option.bind_some] at hline
  split at hline
  · next hsome =>
    obtain ⟨rfl, -⟩ := Prod.mk.inj (Option.some.inj hline)
    exact hsome
  · obtain ⟨c₂, hline₂, -, -, harray, -⟩ :=
      highlightRow_eq h hsame.ample r (c₁.blockCommentOpenAt r)
    obtain ⟨hrow₂, hsome⟩ := harray hpos
    rw [hline₂, decide_eq_true hpos] at hline
    simp only [Option.bind_some, Bool.not_true, Bool.false_eq_true, if_false, row_eq hrow₂,
      Option.pure_def, Option.some.injEq, Prod.mk.injEq] at hline
    rw [← hline.1]
    exact hsome

/-- The colours fetched for a row with characters. -/
theorem fetch_eq (h : ed.At T t p) (hcoherent : Coherent lang t c)
    (hpos : 0 < (Text.row t r).length) (first last : Int) :
    ∃ colors cap c', Desk.fetch ed c r first last = some ([⟨r, colors, cap, first, last⟩], c') ∧
      Coherent lang t c' ∧ colorsAt lang t r <+: colors := by
  obtain ⟨fs, c', hfetch, hcoherent', hagrees⟩ := hcoherent.fetch h r first last
  obtain ⟨colors, c₁, hline⟩ : ∃ colors c₁, c.getLine ed r = some (colors, c₁) := by
    obtain ⟨c₁, hline, -⟩ := getLine_eq h hcoherent.ample r
    exact ⟨_, c₁, hline⟩
  obtain ⟨block, rfl⟩ := Option.isSome_iff_exists.1 (getLine_isSome h hcoherent.ample hpos hline)
  simp only [Desk.fetch, hline, Option.bind_eq_bind, Option.bind_some] at hfetch
  obtain ⟨e, he, hfs⟩ := Option.bind_eq_some_iff.1 hfetch
  obtain ⟨rfl, rfl⟩ := Prod.mk.inj (Option.some.inj hfs)
  refine ⟨block, e.cap, c₁, ?_, hcoherent', hagrees _ List.mem_cons_self⟩
  simp only [Desk.fetch, hline, Option.bind_eq_bind, Option.bind_some, he]
  rfl

/-- The characters of a fetched row. -/
theorem drawLoop_eq {line : Buf} {f : Fetch} {cells : List (UInt8 × UInt32)}
    (hread : ∀ k (hk : k < cells.length), line.read k = some cells[k].1 ∧
      Block.read f.colors k = some cells[k].2) (y : Int) {n k : Nat} {x : Int}
    (hn : k + n ≤ cells.length) :
    f.drawLoop line y n x k = some (chars x y ((cells.drop k).take n)) := by
  induction n generalizing k x with
  | zero => rfl
  | succ n ih =>
    have hlt : k < cells.length := by omega
    obtain ⟨hc, hcolor⟩ := hread k hlt
    have hrest := ih (k := k + 1) (x := x + 8) (by omega)
    rw [List.drop_eq_getElem_cons hlt, List.take_succ_cons, chars, Fetch.drawLoop, hc, hcolor]
    rw [Int.natCast_add_one] at hrest
    simp only [Option.bind_eq_bind, Option.bind_some, fontW, hrest]
    rfl

theorem fetch_draw_eq (h : ed.At T t p) {f : Fetch} (hrow : f.row = r)
    (hcolors : colorsAt lang t r <+: f.colors) {k n : Nat} (hfirst : f.first = k)
    (hn : (f.last - f.first).toNat = n) (hlen : k + n ≤ (Text.row t r).length) (x y : Int) :
    f.draw ed x y = some (chars x y (((lettersAt lang t r).drop k).take n)) := by
  have hcount := h.rowCount_eq
  have hlength := lettersAt_length lang t r
  obtain ⟨line, hline, hread⟩ : ∃ line, ed.getLine r = some line ∧
      ∀ k (hk : k < (Text.row t r).length), line.read k = some (Text.row t r)[k] := by
    by_cases hr : r < t.length
    · obtain ⟨ln, hln, z, rest, hbuf, -, -⟩ := h.holds.line_row hr
      refine ⟨ln.buf, ?_, fun k hk => ?_⟩
      · rw [Editor.getLine, if_neg (by omega), hln]
        rfl
      · rw [hbuf, Buf.read, Block.read, if_pos (by omega), Int.toNat_natCast,
          List.getElem?_append_left hk, List.getElem?_eq_getElem hk]
    · refine ⟨.block [0], by rw [Editor.getLine, if_pos (by omega)], fun k hk => ?_⟩
      rw [Text.row_beyond (Nat.not_lt.1 hr)] at hk
      exact absurd hk (Nat.not_lt_zero k)
  rw [hfirst] at hn
  simp only [Fetch.draw, hrow, hline, hfirst, hn, Option.bind_eq_bind, Option.bind_some]
  refine drawLoop_eq (fun k hk => ?_) y (by omega)
  have hk' : k < (Text.row t r).length := hlength ▸ hk
  obtain ⟨rest, hrest⟩ := hcolors
  have hk'' : k < (colorsAt lang t r).length := by
    rw [colorsAt, Syntax.lineColors_length]
    exact hk'
  simp only [lettersAt, List.getElem_zip]
  refine ⟨hread k hk', ?_⟩
  rw [← hrest, Block.read, if_pos (by omega), Int.toNat_natCast,
    List.getElem?_append_left hk'', List.getElem?_eq_getElem hk'']

end Rows

/-! ## The text in view -/

section Text

variable {sc : Scene} {T T' : Prop} {ed ed' : Editor} {lang : SyntaxLanguage}
  {t : List (List UInt8)} {p p' : Pos} {c : HighlightCache}

variable (font) in
/-- `draw_text_lines`: the rows from `r` on, of which the first one in view is `R`. -/
theorem drawTextLines_inks (hf : sc.Framed) (h : ed.At T t p) (h' : ed'.At T' t p') {R K : Nat}
    (hcoherent : Coherent lang t c) {n r : Nat} (hr : R ≤ r) (hn : r + n ≤ R + 52) :
    ∃ fs c' ks, Desk.drawTextLines ed K n r c = some (fs, c') ∧ Coherent lang t c' ∧
      Fetch.drawAll ed' (fun _ => sc.editor.x) (fun f => editorY + (f.row - R) * fontH) fs =
        some ks ∧
      Inks font sc ks fun i j =>
        if r ≤ R + i ∧ R + i < r + n then (lettersAt lang t (R + i))[K + j]? else none := by
  induction n generalizing r c with
  | zero =>
    refine ⟨[], c, [], rfl, hcoherent, rfl, inks_nil.congr hf fun i j _ => ?_⟩
    rw [if_neg (by omega)]
  | succ n ih =>
    have hlen := lettersAt_length lang t r
    simp only [Desk.drawTextLines, Editor.getLineLen_row h.holds.shows, Option.bind_eq_bind,
      Option.bind_some]
    split
    · next hle =>
      obtain ⟨fs, c', ks, hlines, hcoherent', hdraw, hinks⟩ := ih hcoherent (r := r + 1) (by omega)
        (by omega)
      rw [Int.natCast_add_one] at hlines
      refine ⟨fs, c', ks, hlines, hcoherent', hdraw, hinks.congr hf fun i j _ => ?_⟩
      by_cases hi : R + i = r
      · rw [if_pos (by omega), if_neg (by omega), hi, List.getElem?_eq_none (by omega)]
      · by_cases hin : r ≤ R + i ∧ R + i < r + (n + 1)
        · rw [if_pos hin, if_pos (by omega)]
        · rw [if_neg hin, if_neg (by omega)]
    · next hlt =>
      obtain ⟨colors, cap, c₁, hfetch, hcoherent₁, hcolors⟩ :=
        fetch_eq h hcoherent (by omega : 0 < (Text.row t r).length) K (Text.row t r).length
      obtain ⟨fs, c', ks, hlines, hcoherent', hdraw, hinks⟩ := ih hcoherent₁ (r := r + 1) (by omega)
        (by omega)
      rw [Int.natCast_add_one] at hlines
      have hrow := fetch_draw_eq h' (f := ⟨r, colors, cap, K, (Text.row t r).length⟩) rfl hcolors
        (k := K) (n := (Text.row t r).length - K) rfl (by dsimp only; omega) (by omega)
        sc.editor.x (editorY + ((r : Int) - R) * fontH)
      rw [List.take_of_length_le (by rw [List.length_drop]; omega)] at hrow
      have hinks₁ : Inks font sc _ _ := chars_inks hf (a := 0) (b := r - R) (by omega)
        (x := sc.editor.x) (y := editorY + ((r : Int) - R) * fontH) (by omega)
        (by simp only [editorY, fontH]; omega) ((lettersAt lang t r).drop K)
      refine ⟨_, c', _, by rw [hfetch]; simp only [Option.bind_some, hlines]; rfl, hcoherent', by
        simp only [List.singleton_append, Fetch.drawAll, hrow, hdraw, Option.bind_eq_bind,
          Option.bind_some]
        rfl, (hinks₁.append hinks fun i j => ?_).congr hf fun i j _ => ?_⟩
      · by_cases hi : i = r - R
        · exact .inr (if_neg (by omega))
        · exact .inl (if_neg fun hin => hi hin.1)
      · by_cases hi : i = r - R
        · have hRi : R + i = r := by omega
          rw [if_pos (by omega), if_neg (by omega), if_pos ⟨hi, Nat.zero_le j⟩, Option.none_or,
            List.getElem?_drop, Nat.sub_zero, hRi]
        · rw [if_neg (show ¬ (i = r - R ∧ 0 ≤ j) from fun hin => hi hin.1), Option.or_none]
          by_cases hin : r ≤ R + i ∧ R + i < r + (n + 1)
          · rw [if_pos hin, if_pos (by omega)]
          · rw [if_neg hin, if_neg (by omega)]

end Text

end LCode
