import LCode.Editor.Verify.Cursor

/-!
# Words, selections and the clipboard

The word loops stay inside the row. With its anchor a position of the text, a
selection is deleted as the range between anchor and cursor; the copy loops
write exactly the bytes they have measured. A paste puts in the clipboard up to
its terminator.
-/

namespace LCode

/-! ## Words -/

theorem Line.Holds.read {T : Prop} {ln : Line} {x : List UInt8} (h : ln.Holds T x) {k : Nat}
    (hc : k < x.length) : ln.buf.read k = some x[k] := by
  obtain ⟨z, rest, hbuf, -⟩ := h
  rw [hbuf]
  exact Buf.read_eq (a := x.take k) (z := x.drop (k + 1) ++ z :: rest)
    (by rw [← List.cons_append, List.getElem_cons_drop, ← List.append_assoc,
      List.take_append_drop]) (by rw [List.length_take]; omega)

theorem skipLeft_eq {T : Prop} {ln : Line} {x : List UInt8} (h : ln.Holds T x)
    (pred : UInt8 → Bool) (fuel : Nat) {col : Nat} (hc : col ≤ x.length) :
    ∃ k, k ≤ col ∧ skipLeft ln.buf pred fuel col = some (k : Int) := by
  induction fuel generalizing col with
  | zero => exact ⟨col, Nat.le_refl _, rfl⟩
  | succ fuel ih =>
    cases col with
    | zero => exact ⟨0, Nat.le_refl _, by simp [skipLeft]⟩
    | succ col =>
      have hpred : ((col + 1 : Nat) : Int) - 1 = col := by omega
      simp only [skipLeft, hpred, h.read (k := col) (by omega), Option.bind_eq_bind,
        Option.bind_some]
      rw [if_pos (by omega)]
      split
      · obtain ⟨k, hk, hskip⟩ := ih (show col ≤ x.length by omega)
        exact ⟨k, by omega, hskip⟩
      · exact ⟨col + 1, Nat.le_refl _, rfl⟩

theorem skipRight_eq {T : Prop} {ln : Line} {x : List UInt8} (h : ln.Holds T x)
    (pred : UInt8 → Bool) (fuel : Nat) {col : Nat} (hc : col ≤ x.length) :
    ∃ k, col ≤ k ∧ k ≤ x.length ∧
      skipRight ln.buf pred ln.len fuel col = some (k : Int) := by
  have hlen := h.len_eq
  induction fuel generalizing col with
  | zero => exact ⟨col, Nat.le_refl _, hc, rfl⟩
  | succ fuel ih =>
    by_cases hlt : col < x.length
    · simp only [skipRight, h.read hlt, Option.bind_eq_bind, Option.bind_some]
      rw [if_pos (by omega)]
      split
      · obtain ⟨k, hk, hk', hskip⟩ := ih (show col + 1 ≤ x.length by omega)
        exact ⟨k, by omega, hk', hskip⟩
      · exact ⟨col, Nat.le_refl _, hc, rfl⟩
    · refine ⟨col, Nat.le_refl _, hc, ?_⟩
      simp only [skipRight]
      rw [if_neg (by omega)]

theorem wordLeft_eq {T : Prop} {ln : Line} {x : List UInt8} (h : ln.Holds T x) {col : Nat}
    (hc : col ≤ x.length) : ∃ k, k ≤ col ∧ wordLeft ln.buf col = some (k : Int) := by
  obtain ⟨k, hk, hskip⟩ := skipLeft_eq h (· == space) col hc
  obtain ⟨m, hm, hskip'⟩ := skipLeft_eq h (· != space) k (Nat.le_trans hk hc)
  refine ⟨m, Nat.le_trans hm hk, ?_⟩
  simp only [wordLeft, Int.toNat_natCast, hskip, Option.bind_eq_bind, Option.bind_some, hskip']

theorem wordRight_eq {T : Prop} {ln : Line} {x : List UInt8} (h : ln.Holds T x) {col : Nat}
    (hc : col ≤ x.length) :
    ∃ k, col ≤ k ∧ k ≤ x.length ∧ wordRight ln.buf ln.len col = some (k : Int) := by
  obtain ⟨k, hk, hk', hskip⟩ := skipRight_eq h (· != space) (ln.len - col).toNat hc
  obtain ⟨m, hm, hm', hskip'⟩ := skipRight_eq h (· == space) (ln.len - k).toNat hk'
  refine ⟨m, Nat.le_trans hk hm, hm', ?_⟩
  simp only [wordRight, hskip, Option.bind_eq_bind, Option.bind_some, hskip']

/-- A fresh empty line has no word. -/
theorem Line.Shows.wordLeft_eq {T : Prop} {ln : Line} {x : List UInt8} (h : ln.Shows T x)
    {col : Nat} (hc : col ≤ x.length) : ∃ k, k ≤ col ∧ wordLeft ln.buf col = some (k : Int) := by
  rcases h with hx | ⟨rfl, rfl⟩
  · exact LCode.wordLeft_eq hx hc
  · obtain rfl := Nat.le_zero.1 hc
    exact ⟨0, Nat.le_refl 0, rfl⟩

theorem Line.Shows.wordRight_eq {T : Prop} {ln : Line} {x : List UInt8} (h : ln.Shows T x)
    {col : Nat} (hc : col ≤ x.length) :
    ∃ k, col ≤ k ∧ k ≤ x.length ∧ wordRight ln.buf ln.len col = some (k : Int) := by
  rcases h with hx | ⟨rfl, rfl⟩
  · exact LCode.wordRight_eq hx hc
  · obtain rfl := Nat.le_zero.1 hc
    exact ⟨0, Nat.le_refl 0, Nat.le_refl 0, rfl⟩

namespace Editor

section Local

variable {T : Prop} {ed : Editor} {t : List (List UInt8)} {p s : Pos}

theorem Pointed.moveWordLeft (h : ed.Pointed T t p) :
    ∃ k, k ≤ p.col ∧ ed.moveWordLeft = some (ed.goto ed.doc ⟨p.row, k⟩) := by
  obtain ⟨ln, hln, hx⟩ := h.shows.line_row h.valid.1
  obtain ⟨k, hk, hword⟩ := hx.wordLeft_eq h.valid.2
  refine ⟨k, hk, ?_⟩
  simp [Editor.moveWordLeft, Editor.goto, h.row, h.col, hln, hword]

theorem Pointed.moveWordRight (h : ed.Pointed T t p) :
    ∃ k, p.col ≤ k ∧ k ≤ (Text.row t p.row).length ∧
      ed.moveWordRight = some (ed.goto ed.doc ⟨p.row, k⟩) := by
  obtain ⟨ln, hln, hx⟩ := h.shows.line_row h.valid.1
  obtain ⟨k, hk, hk', hword⟩ := hx.wordRight_eq h.valid.2
  refine ⟨k, hk, hk', ?_⟩
  simp [Editor.moveWordRight, Editor.goto, h.row, h.col, hln, hword]

/-- `editor_delete_word`, away from the start of the row. -/
theorem At.deleteWord (h : ed.At T t p) (h0 : 0 < p.col) :
    ∃ k doc, k ≤ p.col ∧ ed.deleteWord = some (.ok, ed.goto doc ⟨p.row, k⟩) ∧
      (ed.goto doc ⟨p.row, k⟩).At T (Text.deleteRange t ⟨p.row, k⟩ p) ⟨p.row, k⟩ := by
  obtain ⟨ln, hln, hx⟩ := h.holds.line_row h.valid.1
  obtain ⟨k, hk, hword⟩ := wordLeft_eq hx h.valid.2
  have hstart : Text.Valid t ⟨p.row, k⟩ := ⟨h.valid.1, Nat.le_trans hk h.valid.2⟩
  have hvalid := hstart.deleteRange h.valid (Or.inr ⟨rfl, hk⟩)
  obtain ⟨a, u, m, v, z, rfl, hr, hc, hc'⟩ := hstart.split_span h.valid rfl hk
  simp only at hr hc hc'
  obtain ⟨doc, hdel, hdoc, hheap⟩ := h.holds.deleteSpan (r := p.row) (k := k) (s := p.col)
    (by omega) (by omega) (by omega)
  have ample' := hheap ▸ h.ample
  have htext := Text.deleteRange_span (z := z) (v := v) (p := ⟨p.row, k⟩) (q := p)
    hr hc rfl hc'
  refine ⟨k, doc, hk, ?_, .goto ed (by rwa [htext]) ample' hvalid⟩
  have hcol : ¬ (p.col : Int) = 0 := by omega
  simp only [Editor.deleteWord, h.row, h.col, hcol, if_false, hln, hword, hdel,
    Option.bind_eq_bind, Option.bind_some, Option.pure_def, Editor.goto]

/-! ## Selections -/

/-- The selection runs from the anchor `s` to the cursor. -/
structure Selected (ed : Editor) (t : List (List UInt8)) (s : Pos) : Prop where
  active : ed.selActive = true
  row : ed.selAnchorRow = s.row
  col : ed.selAnchorCol = s.col
  valid : Text.Valid t s

/-- A state of the editor as its keys leave it. -/
structure Sound (T : Prop) (ed : Editor) (t : List (List UInt8)) (p : Pos) : Prop where
  at' : ed.At T t p
  selected : ed.selActive = true → ∃ s, ed.Selected t s
  clip : ∀ clip, ed.clipboard = some clip → ∃ x rest, clip = x ++ 0 :: rest ∧ 0 ∉ x

/-- The two ends of the selection, in document order. -/
theorem Selected.ends (hs : ed.Selected t s) (hrow : ed.cursorRow = p.row)
    (hcol : ed.cursorCol = p.col) :
    ∃ b e, ed.selGetRange = (↑b.row, ↑b.col, ↑e.row, ↑e.col) ∧ Text.before b e ∧
      ((b = s ∧ e = p) ∨ (b = p ∧ e = s)) := by
  unfold selGetRange
  rw [hrow, hcol, hs.row, hs.col]
  split
  · next hlt => exact ⟨s, p, rfl, by unfold Text.before; omega, Or.inl ⟨rfl, rfl⟩⟩
  · next hlt => exact ⟨p, s, rfl, by unfold Text.before; omega, Or.inr ⟨rfl, rfl⟩⟩

theorem Selected.range (hs : ed.Selected t s) (h : ed.At T t p) :
    ∃ b e, ed.selGetRange = (↑b.row, ↑b.col, ↑e.row, ↑e.col) ∧ Text.before b e ∧
      Text.Valid t b ∧ Text.Valid t e ∧ ((b = s ∧ e = p) ∨ (b = p ∧ e = s)) := by
  obtain ⟨b, e, hrange, hbe, hends⟩ := hs.ends h.row h.col
  refine ⟨b, e, hrange, hbe, ?_, ?_, hends⟩
  · rcases hends with ⟨rfl, -⟩ | ⟨rfl, -⟩
    · exact hs.valid
    · exact h.valid
  · rcases hends with ⟨-, rfl⟩ | ⟨-, rfl⟩
    · exact h.valid
    · exact hs.valid

theorem deleteRange_eq {d : Doc} {b e : Pos} (holds : d.Holds T t) (ample : d.heap.Ample)
    (hb : Text.Valid t b) (he : Text.Valid t e) (hbe : Text.before b e) :
    ∃ doc, deleteRange d b.row b.col e.row e.col = some (.ok, doc) ∧
      doc.Holds T (Text.deleteRange t b e) ∧ doc.heap.Ample := by
  unfold deleteRange
  rcases hbe with hlt | ⟨hrow, hcol⟩
  · obtain ⟨a, u, m, mid, x, v, z, rfl, hr, hc, hr', hc'⟩ := hb.split_rows he hlt
    rw [if_neg (by omega), Text.deleteRange_rows hr hc hr' hc']
    exact holds.deleteRows ample (by omega) (by omega) (by omega) (by omega)
  · obtain ⟨a, u, m, v, z, rfl, hr, hc, hc'⟩ := hb.split_span he hrow.symm hcol
    rw [if_pos (by omega), Text.deleteRange_span hr hc hrow.symm hc']
    obtain ⟨doc, hdel, hdoc, hheap⟩ := holds.deleteSpan (r := b.row) (k := b.col) (s := e.col)
      (by omega) (by omega) (by omega)
    exact ⟨doc, by simp [hdel], hdoc, hheap ▸ ample⟩

/-- The editor with its selection dropped. -/
def unselected (ed : Editor) : Editor := { ed with selActive := false, selDirty := true }

/-- `editor_delete_selection`. -/
theorem At.deleteSelection (h : ed.At T t p) (hs : ed.Selected t s) :
    ∃ b e doc, ed.selGetRange = (↑b.row, ↑b.col, ↑e.row, ↑e.col) ∧ Text.before b e ∧
      Text.Valid t e ∧ ed.deleteSelection = some (.ok, ed.unselected.goto doc b) ∧
      (ed.unselected.goto doc b).At T (Text.deleteRange t b e) b := by
  obtain ⟨b, e, hrange, hbe, hb, he, -⟩ := hs.range h
  obtain ⟨doc, hdel, hdoc, ample'⟩ := deleteRange_eq h.holds h.ample hb he hbe
  refine ⟨b, e, doc, hrange, hbe, he, ?_, .goto _ hdoc ample' (hb.deleteRange he hbe)⟩
  simp [Editor.deleteSelection, hs.active, hrange, hdel, Editor.goto, unselected]

/-! ## The clipboard -/

section Copy

variable {b e : Pos} (h : ed.At T t p) (hb : Text.Valid t b) (he : Text.Valid t e)
  (hbe : Text.before b e)

include h hb he hbe

/-- What both copy loops read of a row of the selection. -/
theorem At.selCols {r : Nat} (hre : r ≤ e.row) :
    ∃ (colStart : Nat) (ln : Line), selCols ed.doc b.row b.col e.row e.col r =
        some (↑colStart, (colStart + (Text.rowRange t b e r).length : Int)) ∧
      ed.doc.line r = some ln ∧
      ln.buf.slice colStart (Text.rowRange t b e r).length = some (Text.rowRange t b e r) := by
  obtain ⟨u, v, hrow, hu, hlen⟩ := hb.split_rowRange he hbe r
  obtain ⟨ln, hln, hx⟩ := h.holds.line_row (Nat.lt_of_le_of_lt hre he.1)
  refine ⟨u.length, ln, ?_, hln, ?_⟩
  · have hstart : (if (r : Int) = b.row then (b.col : Int) else 0) = u.length := by
      rw [hu]
      split <;> split <;> omega
    have hstop : (if (r : Int) = e.row then some (e.col : Int) else (ed.doc.line r).map Line.len) =
        some (u.length + (Text.rowRange t b e r).length : Int) := by
      rw [hln, Option.map_some, hx.len_eq]
      split
      · next hr => rw [if_pos (by omega)] at hlen; congr 1; omega
      · next hr => rw [if_neg (by omega)] at hlen; congr 1; omega
    simp only [Editor.selCols, Option.bind_eq_bind, ite_bind]
    rw [hstop, hstart]
    rfl
  · obtain ⟨z, rest, hbuf, -⟩ := hx
    rw [hbuf, hrow]
    exact Buf.slice_eq (a := u) (z := v ++ z :: rest) (by simp) rfl rfl

/-- The first copy loop measures what is to be copied. -/
theorem At.measureLoop {n : Nat} (hn : n ≤ e.row - b.row + 1) (size : Int) :
    measureLoop ed.doc b.row b.col e.row e.col n size =
      some (size + (Text.copyRows newline t b e n).length) := by
  induction n generalizing size with
  | zero => simp [Editor.measureLoop, Text.copyRows]
  | succ n ih =>
    have hle : b.row ≤ e.row := by unfold Text.before at hbe; omega
    obtain ⟨cs, ln, hcols, -, -⟩ := h.selCols hb he hbe (r := e.row - n) (by omega)
    have hr : (e.row : Int) - n = ((e.row - n : Nat) : Int) := by omega
    simp only [Editor.measureLoop, hr, hcols, Option.bind_eq_bind, Option.bind_some]
    rw [ih (by omega)]
    congr 1
    simp only [Text.copyRows, List.length_append]
    split
    · rw [if_pos (by omega), List.length_singleton]
      omega
    · rw [if_neg (by omega), List.length_nil]
      omega

/-- The second copy loop writes it. -/
theorem At.fillLoop {n : Nat} (hn : n ≤ e.row - b.row + 1) {w f : List UInt8} {i : Int}
    (hidx : i = w.length) (hfree : (Text.copyRows newline t b e n).length ≤ f.length) :
    ∃ f' : List UInt8, f'.length + (Text.copyRows newline t b e n).length = f.length ∧
      fillLoop ed.doc b.row b.col e.row e.col n (w ++ f) i =
        some (w ++ Text.copyRows newline t b e n ++ f',
          i + (Text.copyRows newline t b e n).length) := by
  induction n generalizing w f i with
  | zero => exact ⟨f, by simp [Text.copyRows], by simp [Editor.fillLoop, Text.copyRows]⟩
  | succ n ih =>
    have hle : b.row ≤ e.row := by unfold Text.before at hbe; omega
    obtain ⟨cs, ln, hcols, hln, hslice⟩ :=
      h.selCols hb he hbe (r := e.row - n) (by omega)
    have hr : (e.row : Int) - n = ((e.row - n : Nat) : Int) := by omega
    generalize hseg : Text.rowRange t b e (e.row - n) = seg at hcols hslice
    simp only [Text.copyRows, hseg, List.length_append] at hfree ⊢
    have hlen : (cs + seg.length : Int) - cs = seg.length := by omega
    have hstore := Block.store_eq (b := w ++ f) (a := w) (m := f.take seg.length)
      (z := f.drop seg.length) (y := seg) (i := i) (by simp) hidx
      (by rw [List.length_take]; omega)
    by_cases hpos : 0 < n
    · have hlt : ((e.row - n : Nat) : Int) < e.row := by omega
      rw [if_pos hpos, List.length_singleton] at hfree ⊢
      obtain ⟨y, rest, hrest⟩ := List.exists_cons_of_length_pos (l := f.drop seg.length)
        (by rw [List.length_drop]; omega)
      have hnl := Block.store_cell (b := w ++ seg ++ f.drop seg.length) (a := w ++ seg) (x := y)
        (y := newline) (z := rest) (i := i + seg.length) (by rw [hrest]) (by simp [hidx])
      have hfree' := congrArg List.length hrest
      rw [List.length_drop, List.length_cons] at hfree'
      obtain ⟨f', hlen', hfill⟩ := ih (by omega) (w := w ++ seg ++ [newline]) (f := rest)
        (i := i + seg.length + 1) (by simp [hidx]; omega) (by omega)
      refine ⟨f', by omega, ?_⟩
      simp only [List.append_assoc, List.singleton_append] at hfill hnl hstore ⊢
      simp only [Editor.fillLoop, hr, hcols, hlen, hln, hslice, hstore, hnl, hlt, if_true, hfill,
        Option.bind_eq_bind, Option.bind_some, Option.some.injEq, Prod.mk.injEq,
        List.cons_append, true_and]
      omega
    · obtain rfl : n = 0 := by omega
      have hlt : ¬ ((e.row - 0 : Nat) : Int) < e.row := by omega
      refine ⟨f.drop seg.length, by simp [Text.copyRows] at hfree ⊢; omega, ?_⟩
      simp only [Editor.fillLoop, hr, hcols, hlen, hln, hslice, hstore, hlt, if_false,
        Option.bind_eq_bind, Option.bind_some]
      simp [Text.copyRows]

end Copy

/-- `editor_copy_selection` without a selection. -/
theorem copySelection_inactive (hs : ed.selActive = false) : ed.copySelection = some ed := by
  simp [Editor.copySelection, hs]

/-- `editor_copy_selection`. -/
theorem At.copySelection (h : ed.At T t p) (hs : ed.Selected t s) :
    ∃ b e heap, ed.selGetRange = (↑b.row, ↑b.col, ↑e.row, ↑e.col) ∧ heap.Ample ∧
      ed.copySelection = some { ed with
        doc := { ed.doc with heap }
        clipboard := some (Text.copy newline t b e ++ [0]) } := by
  obtain ⟨b, e, hrange, hbe, hb, he, -⟩ := hs.range h
  have hle : b.row ≤ e.row := by unfold Text.before at hbe; omega
  have hrows : (e.row - b.row + 1 : Int).toNat = e.row - b.row + 1 := by omega
  have hmeasure := h.measureLoop hb he hbe (Nat.le_refl _) 0
  rw [Int.zero_add] at hmeasure
  obtain ⟨block, hblock, hlen⟩ :=
    h.ample.malloc ((Text.copyRows newline t b e (e.row - b.row + 1)).length + 1)
  obtain ⟨free, hfree, hfill⟩ := h.fillLoop hb he hbe (Nat.le_refl _) (w := []) (f := block)
    (i := 0) rfl (by omega)
  obtain ⟨y, rfl⟩ := List.length_eq_one_iff.1 (show free.length = 1 by omega)
  simp only [List.nil_append, Int.zero_add] at hfill
  have hend := Block.store_cell (b := Text.copyRows newline t b e (e.row - b.row + 1) ++ [y])
    (x := y) (y := 0) (z := []) rfl rfl
  refine ⟨b, e, ed.doc.heap.next, hrange, h.ample.next, ?_⟩
  simp only [Editor.copySelection, hs.active, Bool.not_true, Bool.false_eq_true, if_false, hrange,
    hrows, hmeasure, hblock, hfill, hend, Option.bind_eq_bind, Option.bind_some, Option.pure_def]
  rfl

/-- `editor_paste` of the text `s` in the clipboard. -/
theorem At.paste (h : ed.At T t p) {x rest : List UInt8}
    (hclip : ed.clipboard = some (x ++ 0 :: rest)) (hx : 0 ∉ x) :
    ∃ doc, ed.paste = some (.ok, ed.goto doc (Text.afterPaste newline p x)) ∧
      (ed.goto doc (Text.afterPaste newline p x)).At T (Text.paste newline t p x)
        (Text.afterPaste newline p x) := by
  have hvalid := h.valid.paste newline x
  have ⟨holds, ample, hrow, hcol, valid⟩ := h
  obtain ⟨a, u, v, z, rfl, hr, hc⟩ := valid.split
  obtain ⟨doc, hpaste, hdoc, ample'⟩ := holds.paste ample hr hc hx (g := rest)
  refine ⟨doc, ?_, .goto ed (by rwa [Text.paste_append hr hc]) ample' hvalid⟩
  simp [Editor.paste, hclip, hrow, hcol, hpaste, Editor.goto]

end Local

end Editor

end LCode
