import LCode.Editor.Verify.Line

/-!
# The edits of the line array

What each statement block of `editor.c` does to a document that holds a text:
with memory for its allocations it succeeds, touches no byte outside a live
buffer, and leaves a document that holds the edited text. Texts are written as
appends around the place of the edit, the form in which `Text.insert` and the
other edits of texts compute.
-/

namespace LCode

/-! ## One row -/

namespace Line

variable {S T : Prop} {ln : Line} {u v : List UInt8} {k n : Int}

/-- What stands from `k` on. -/
theorem Holds.tail (h : ln.Holds T (u ++ v)) (hc : k = u.length) (hn : n = v.length) :
    ln.buf.slice k n = some v := by
  obtain ⟨t, rest, hbuf, -⟩ := h
  rw [hbuf]
  exact Buf.slice_eq rfl hc hn

/-- What stands from `k` on, with the byte behind the text. -/
theorem Holds.tail_end (h : ln.Holds T (u ++ v)) (hc : k = u.length) (hn : n = v.length + 1) :
    ∃ t, ln.buf.slice k n = some (v ++ [t]) ∧ (T → t = 0) := by
  obtain ⟨t, rest, hbuf, -, -, ht⟩ := h
  refine ⟨t, ?_, ht⟩
  rw [hbuf]
  exact Buf.slice_eq (z := rest) (by simp) hc (by simp [hn])

/-- The text from `k` on overwritten, with the byte behind it. -/
theorem Holds.write {y : List UInt8} {t : UInt8} (h : ln.Holds T (u ++ v)) (hc : k = u.length)
    (hroom : k + y.length < ln.cap) (hn : n = k + y.length) :
    ∃ buf, ln.buf.store k (y ++ [t]) = some buf ∧
      ({ ln with buf, len := n } : Line).Ends (u ++ y) t := by
  obtain ⟨e, rest, hbuf, -, hcap, -⟩ := h
  have hfit : (y ++ [t]).length ≤ (v ++ e :: rest).length := by
    simp only [List.length_append, List.length_cons, List.length_nil] at hcap ⊢
    omega
  have hstore := Buf.store_eq (b := u ++ v ++ e :: rest) (a := u)
    (m := (v ++ e :: rest).take (y ++ [t]).length) (z := (v ++ e :: rest).drop (y ++ [t]).length)
    (y := y ++ [t]) (i := k) (by simp) hc (by rw [List.length_take]; omega)
  refine ⟨_, by rw [hbuf]; exact hstore, (v ++ e :: rest).drop (y ++ [t]).length, ?_, ?_, ?_⟩
  · simp
  · simp only [hn, hc, List.length_append]
    omega
  · simp only [hcap, List.length_append, List.length_cons, List.length_drop, List.length_nil]
      at hfit ⊢
    omega

/-- The line cut at `k`. -/
theorem Holds.cut (h : ln.Holds T (u ++ v)) (hc : k = u.length) :
    ∃ buf, ln.buf.store k [0] = some buf ∧
      ({ ln with buf, len := k } : Line).Holds S u := by
  have hroom : k < ln.cap := by
    obtain ⟨t, rest, -, -, hcap, -⟩ := h
    simp only [hcap, hc, List.length_append, List.length_cons]
    omega
  obtain ⟨buf, hstore, hx⟩ := h.write (y := []) (t := 0) (n := k) hc (by simpa using hroom)
    (by simp)
  exact ⟨buf, hstore, by simpa using hx.holds fun _ => rfl⟩

/-- The text from `k` on overwritten, and then the terminator. -/
theorem Holds.writeSeg {y : List UInt8} (h : ln.Holds T (u ++ v)) (hc : k = u.length)
    (hroom : k + y.length < ln.cap) (hn : n = k + y.length) :
    ∃ buf buf', ln.buf.store k y = some buf ∧ buf.store n [0] = some buf' ∧
      ({ ln with buf := buf', len := n } : Line).Holds S (u ++ y) := by
  obtain ⟨e, rest, hbuf, -, hcap, -⟩ := h
  have hfit : y.length < (v ++ e :: rest).length := by
    simp only [List.length_append, List.length_cons] at hcap ⊢
    omega
  obtain ⟨w, m, hw, hm⟩ : ∃ w m, (v ++ e :: rest).drop y.length = w :: m ∧
      (w :: m).length = (v ++ e :: rest).length - y.length := by
    obtain ⟨w, m, hwm⟩ := List.exists_cons_of_length_pos
      (l := (v ++ e :: rest).drop y.length) (by rw [List.length_drop]; omega)
    exact ⟨w, m, hwm, by rw [← hwm, List.length_drop]⟩
  have hstore := Buf.store_eq (b := u ++ v ++ e :: rest) (a := u)
    (m := (v ++ e :: rest).take y.length) (z := w :: m)
    (y := y) (i := k) (by rw [← hw]; simp) hc (by rw [List.length_take]; omega)
  refine ⟨_, _, by rw [hbuf]; exact hstore,
    Buf.store_cell (a := u ++ y) (x := w) (z := m) rfl (by simp [hn, hc]), 0, m, rfl, ?_, ?_,
    fun _ => rfl⟩
  · simp only [hn, hc, List.length_append]
    omega
  · simp only [hcap, List.length_append, List.length_cons] at hm ⊢
    omega

/-- A character put in at `k`. -/
theorem Holds.insert (h : ln.Holds T (u ++ v)) (hc : k = u.length)
    (hroom : (u ++ v).length + 1 < ln.cap) (c : UInt8) :
    ∃ buf buf', ln.buf.move (k + 1) k (ln.len - k + 1) = some buf ∧
      buf.store k [c] = some buf' ∧
      ({ ln with buf := buf', len := ln.len + 1 } : Line).Holds T (u ++ c :: v) := by
  obtain ⟨t, rest, hbuf, hlen, hcap, ht, hrest⟩ := h.room (n := 1) (by omega)
  obtain ⟨y, rest, rfl⟩ := List.exists_cons_of_length_pos hrest
  obtain ⟨w, hw, hmove⟩ := Block.move_up (b := u ++ v ++ t :: y :: rest) (a := u)
    (m := v ++ [t]) (x := [y]) (z := rest) (i := k + 1) (j := k)
    (n := ln.len - k + 1) (by simp) hc rfl
    (by simp only [hlen, List.length_append, List.length_cons, List.length_nil]; omega)
  obtain ⟨w, rfl⟩ := List.length_eq_one_iff.1 hw
  refine ⟨_, _, by rw [hbuf]; exact Buf.move_block hmove,
    Buf.store_cell (a := u) (x := w) (z := v ++ t :: rest) (by simp) hc, t, rest, by simp, ?_, ?_,
    ht⟩
  · simp only [hlen, List.length_append, List.length_cons]
    omega
  · simp only [hcap, List.length_append, List.length_cons]
    omega

/-- The bytes `m` from `k` to `stop` closed over. -/
theorem Holds.span {m : List UInt8} {s : Int} (h : ln.Holds T (u ++ m ++ v))
    (hc : k = u.length) (hstop : s = k + m.length) (hn : n = ln.len - s + 1) :
    ∃ buf, ln.buf.move k s n = some buf ∧
      ({ ln with buf, len := ln.len - (s - k) } : Line).Holds T (u ++ v) := by
  obtain ⟨t, rest, hbuf, hlen, hcap, ht⟩ := h
  obtain ⟨w, hw, hmove⟩ := Block.move_down (b := u ++ m ++ v ++ t :: rest) (a := u) (d := m)
    (m := v ++ [t]) (z := rest) (i := k) (j := s) (n := n) (by simp) hc hstop
    (by simp only [hn, hlen, List.length_append, List.length_cons, List.length_nil]; omega)
  refine ⟨_, by rw [hbuf]; exact Buf.move_block hmove, t, w ++ rest, by simp, ?_, ?_, ht⟩
  · simp only [hlen, List.length_append]
    omega
  · simp only [hcap, List.length_append, List.length_cons]
    omega

end Line

/-! ## Edits inside a r -/

namespace Doc

section Edits

variable {T : Prop} {d : Doc} {a z : List (List UInt8)} {r k : Int}

/-- The in-line insertion. -/
theorem Holds.insertInLine {u v : List UInt8} (h : d.Holds T (a ++ (u ++ v) :: z))
    (ample : d.heap.Ample) (hr : r = a.length) (hc : k = u.length) (c : UInt8) :
    ∃ d', d.insertInLine r k c = some (.ok, d') ∧
      d'.Holds T (a ++ (u ++ c :: v) :: z) ∧ d'.heap.Ample := by
  obtain ⟨la, ln, lz, dead, heap, rfl, hne, ha, hx, hz⟩ := h.around
  have hrow : r = la.length := by rw [hr, ha.length_eq]
  rw [slots_heap] at ample
  obtain ⟨ln', heap', he, ample', hx', hcap⟩ := hx.ensureCap ample (ln.len + 2)
  have hlen := hx.len_eq
  obtain ⟨buf, buf', hmove, hstore, hx''⟩ := hx'.insert hc (by omega) c
  refine ⟨_, ?_, Rows.of_around hne ha hx'' hz, ample'⟩
  simp only [Doc.insertInLine, slots_line rfl hrow, slots_lineEnsureCap rfl hrow he, hmove,
    hstore, slots_setLine rfl hrow, Option.bind_eq_bind, Option.bind_some, Bool.not_true,
    Bool.false_eq_true, if_false, Option.pure_def]

/-- The bytes of a r from one column to another closed over. -/
theorem Holds.deleteSpan {u m v : List UInt8} {s : Int}
    (h : d.Holds T (a ++ (u ++ m ++ v) :: z)) (hr : r = a.length) (hc : k = u.length)
    (hstop : s = k + m.length) :
    ∃ d', d.deleteSpan r k s = some d' ∧ d'.Holds T (a ++ (u ++ v) :: z) ∧
      d'.heap = d.heap := by
  obtain ⟨la, ln, lz, dead, heap, rfl, hne, ha, hx, hz⟩ := h.around
  have hrow : r = la.length := by rw [hr, ha.length_eq]
  obtain ⟨buf, hmove, hx'⟩ := hx.span hc hstop rfl
  refine ⟨_, ?_, Rows.of_around hne ha hx' hz, rfl⟩
  simp only [Doc.deleteSpan, slots_line rfl hrow, hmove, slots_setLine rfl hrow,
    Option.bind_eq_bind, Option.bind_some]

/-- The in-line deletion is the deletion of a span of one byte. -/
theorem deleteInLine_eq (d : Doc) (r k : Int) :
    d.deleteInLine r k = d.deleteSpan r k (k + 1) := by
  have hn (len : Int) : len - k = len - (k + 1) + 1 := by omega
  have hl (len : Int) : len - 1 = len - (k + 1 - k) := by omega
  simp only [Doc.deleteInLine, Doc.deleteSpan, ← hn, ← hl]

theorem Holds.deleteInLine {u v : List UInt8} {c : UInt8}
    (h : d.Holds T (a ++ (u ++ c :: v) :: z)) (ample : d.heap.Ample) (hr : r = a.length)
    (hc : k = u.length) :
    ∃ d', d.deleteInLine r k = some d' ∧ d'.Holds T (a ++ (u ++ v) :: z) ∧
      d'.heap.Ample := by
  rw [deleteInLine_eq]
  obtain ⟨d', hdel, hdoc, hheap⟩ := Holds.deleteSpan (s := k + 1) (m := [c])
    (by simpa using h) hr hc (by simp)
  exact ⟨d', hdel, hdoc, hheap ▸ ample⟩

/-! ## Edits that change the number of rows -/

/-- With two slots behind the rows, those below the r move down by one. -/
theorem slots_openSlot {la lz dead : List Line} {n : Int} (heap : Heap) (ln : Line)
    (hn : n = la.length + lz.length + 1) (hroom : 2 ≤ dead.length) (hrow : r = la.length) :
    ∃ w dead', dead' ≠ [] ∧ (slots (la ++ ln :: (lz ++ dead)) n heap).moveLines (r + 2) (r + 1)
      (n - r - 1) = some (slots (la ++ ln :: w :: (lz ++ dead')) n heap) := by
  obtain ⟨x, dead', rfl⟩ := List.exists_cons_of_length_pos (show 0 < dead.length by omega)
  have hne : dead' ≠ [] := by
    rintro rfl
    simp only [List.length_cons, List.length_nil] at hroom
    omega
  obtain ⟨w, hw, hmove⟩ := slots_moveUp (l := la ++ ln :: (lz ++ x :: dead')) (a := la ++ [ln])
    (m := lz) (x := [x]) (z := dead') (n := n) (η := heap) (i := r + 2) (j := r + 1)
    (k := n - r - 1) (by simp) (by simp [hrow]) (by simp; omega) (by omega)
  obtain ⟨w, rfl⟩ := List.length_eq_one_iff.1 hw
  exact ⟨w, dead', hne, by simpa using hmove⟩

/-- Both newline cases make a free slot below the r. -/
theorem openSlot {la : List Line} {heap : Heap} (ln : Line) (lz dead : List Line)
    (ample : heap.Ample) (hrow : r = la.length) :
    ∃ dead₁ w dead' heap',
      (slots (la ++ ln :: (lz ++ dead)) (la.length + lz.length + 1) heap).linesEnsureCap
          (la.length + lz.length + 1 + 1) =
        some (true, slots (la ++ ln :: (lz ++ dead₁)) (la.length + lz.length + 1) heap') ∧
      (slots (la ++ ln :: (lz ++ dead₁)) (la.length + lz.length + 1) heap').moveLines
          (r + 2) (r + 1) (la.length + lz.length + 1 - r - 1) =
        some (slots (la ++ ln :: w :: (lz ++ dead')) (la.length + lz.length + 1) heap') ∧
      dead' ≠ [] ∧ heap'.Ample := by
  obtain ⟨dead₁, heap', he, ample', hroom⟩ := slots_linesEnsureCap (l := la ++ ln :: lz)
    (e := dead) (n := la.length + lz.length + 1) (by simp [Int.add_assoc]) ample
    (la.length + lz.length + 1 + 1)
  have hlen : 2 ≤ dead₁.length := by
    simp only [List.length_append, List.length_cons] at hroom
    omega
  obtain ⟨w, dead', hne, hmove⟩ := slots_openSlot (n := la.length + lz.length + 1)
    heap' ln rfl hlen hrow
  exact ⟨dead₁, w, dead', heap', by simpa using he, hmove, hne, ample'⟩

/-- The newline case of the insertions. -/
theorem Holds.splitLine {u v : List UInt8} (h : d.Holds T (a ++ (u ++ v) :: z))
    (ample : d.heap.Ample) (hr : r = a.length) (hc : k = u.length) :
    ∃ d', d.splitLine r k = some (.ok, d') ∧ d'.Holds T (a ++ u :: v :: z) ∧
      d'.heap.Ample := by
  obtain ⟨la, ln, lz, dead, heap, rfl, -, ha, hx, hz⟩ := h.around
  have hrow : r = la.length := by rw [hr, ha.length_eq]
  have hrow' : r + 1 = (la ++ [ln]).length := by simp [hrow]
  rw [slots_heap] at ample
  obtain ⟨dead₁, w, dead', heap', he, hmove, hne, ample'⟩ :=
    openSlot ln lz dead ample hrow
  have htail : ln.len - k = v.length := by
    rw [hx.len_eq, List.length_append]
    omega
  obtain ⟨nl, heap'', hzero, ample'', hnl, hcap⟩ :=
    Line.ensureCap_zero ample' (n := v.length) (by omega)
  have hslice := hx.tail (n := v.length) hc rfl
  obtain ⟨buf, buf', hstore, hend, hnl'⟩ := Line.Holds.writeSeg (S := T) (u := []) (v := [])
    (k := 0) (n := v.length) hnl rfl (by simpa using hcap) (by simp)
  obtain ⟨buf'', hcut, hx'⟩ := hx.cut (S := T) hc
  refine ⟨slots ((la ++ { ln with buf := buf'', len := k } ::
      { nl with buf := buf', len := v.length } :: lz) ++ dead')
      (la.length + lz.length + 1 + 1) heap'', ?_,
    Rows.mk_slots (by simp [Int.add_assoc]) hne
      (forall₂_append.2 ⟨la, _, rfl, ha, .cons hx' (.cons (by simpa using hnl') hz)⟩), ample''⟩
  have hset := slots_setLine (l := la ++ ln :: w :: (lz ++ dead')) (x := w) (z := lz ++ dead')
    (n := la.length + lz.length + 1) (η := heap') (by simp) hrow' Line.zero
  have hcap' := slots_lineEnsureCap (l := la ++ [ln] ++ Line.zero :: (lz ++ dead'))
    (n := la.length + lz.length + 1) rfl hrow' hzero
  have hwrite := slots_setLine (l := la ++ [ln] ++ nl :: (lz ++ dead')) (x := nl)
    (n := la.length + lz.length + 1) (η := heap'') rfl hrow'
    { nl with buf := buf', len := v.length }
  have hhead := slots_setLine (a := la) (x := ln)
    (l := la ++ [ln] ++ { nl with buf := buf', len := v.length } :: (lz ++ dead'))
    (n := la.length + lz.length + 1) (η := heap'') (List.append_assoc la [ln] _) hrow
    { ln with buf := buf'', len := k }
  simp only [Doc.splitLine, slots_rowCount, he, hmove, Option.bind_eq_bind, Option.bind_some,
    Bool.not_true, Bool.false_eq_true, if_false, Option.pure_def]
  rw [slots_line (x := ln) rfl hrow, Option.bind_some, htail, hset, Option.bind_some, hcap',
    Option.bind_some]
  simp only [Bool.not_true, Bool.false_eq_true, if_false]
  rw [slots_line (x := nl) rfl hrow', Option.bind_some,
    slots_line (List.append_assoc la [ln] _) hrow, Option.bind_some, hslice, Option.bind_some]
  rw [hstore, Option.bind_some, hend, Option.bind_some, hwrite, Option.bind_some,
    slots_line (List.append_assoc la [ln] _) hrow, Option.bind_some, hcut, Option.bind_some,
    hhead, Option.bind_some]
  simp [slots]

/-- The multi-row deletion: from `startCol` of one row to `endCol` of a row below. What
holds of the heap after the one call of `line_ensure_cap` holds of it at the end. -/
theorem Holds.deleteRows_room {u m x v : List UInt8} {y : List (List UInt8)}
    {endRow endCol : Int} {P : Heap → Prop}
    (h : d.Holds T (a ++ (u ++ m) :: (y ++ (x ++ v) :: z))) (hr : r = a.length)
    (hc : k = u.length) (hr' : endRow = r + y.length + 1) (hc' : endCol = x.length)
    (hcap : ∀ ln, d.line r = some ln → ln.Holds T (u ++ m) → ∃ ln' heap',
      ln.ensureCap (k + v.length + 1) d.heap = some (true, ln', heap') ∧ P heap' ∧
        ln'.Holds T (u ++ m) ∧ k + v.length + 1 < ln'.cap) :
    ∃ d', d.deleteRows r k endRow endCol = some (.ok, d') ∧
      d'.Holds T (a ++ (u ++ v) :: z) ∧ P d'.heap := by
  obtain ⟨la, ln, lz', dead, heap, rfl, hne, ha, hx, hz'⟩ := h.around
  obtain ⟨lm, lb, rfl, hm, hb⟩ := forall₂_append.1 hz'
  obtain ⟨last, lz, hlast, hz, rfl⟩ := List.forall₂_cons_right_iff.1 hb
  have hrow : r = la.length := by rw [hr, ha.length_eq]
  have hend : endRow = (la ++ ln :: lm).length := by
    simp only [List.length_append, List.length_cons]
    rw [hr', hrow, hm.length_eq]
    omega
  obtain ⟨ln', heap', he, hheap, hx', hcap⟩ := hcap ln (slots_line rfl hrow) hx
  rw [slots_heap] at he
  have htail : last.len - endCol = v.length := by
    rw [hlast.len_eq, hc', List.length_append]
    omega
  obtain ⟨t, hslice, ht⟩ := hlast.tail_end (n := v.length + 1) hc' rfl
  obtain ⟨buf, hstore, hx''⟩ := hx'.write (n := k + v.length) hc (by omega) rfl
  replace hx'' := hx''.holds ht
  generalize hfirst : ({ ln' with buf, len := k + v.length } : Line) = first at hx''
  generalize hn : (la.length + (lm ++ last :: lz).length + 1 : Int) = n
  -- the freed rows: those between the two ends, and the last one
  have hremoved : (endRow - r).toNat = (lm ++ [last]).length := by
    simp only [List.length_append, List.length_cons, List.length_nil] at hend ⊢
    omega
  have hshows := (forall₂_append.2 ⟨lm, [last], rfl, hm, .cons hlast .nil⟩).imp
    fun _ _ => Line.Holds.shows
  obtain ⟨freed, hfreed, hfree⟩ := slots_freeLines (a := la ++ [first]) (m := lm ++ [last])
    (z := lz ++ dead) (l := la ++ first :: (lm ++ last :: lz ++ dead)) (n := n) (η := heap')
    (r := r + 1) (by simp) (by simp [hrow]) hremoved
    (forall₂_ne_dangling (fun _ _ hx => hx.ne_dangling) hshows)
  obtain ⟨gap, hgap, hmove⟩ := slots_moveDown (l := la ++ [first] ++ freed ++ (lz ++ dead))
    (a := la ++ [first]) (g := freed) (m := lz) (z := dead) (n := n) (η := heap')
    (i := r + 1) (j := endRow + 1) (k := n - endRow - 1) (by simp) (by simp [hrow])
    (by simp [hfreed, hend, hrow]; omega) (by simp [hend, ← hn]; omega)
  have hzero := slots_zeroLines (l := la ++ [first] ++ lz ++ gap ++ dead)
    (a := la ++ [first] ++ lz) (m := gap) (z := dead) (n := n) (η := heap')
    (r := n - (endRow - r)) (k := (endRow - r).toNat) rfl
    (by simp [hend, hrow, ← hn]; omega) (by rw [hgap, hfreed, hremoved])
  refine ⟨slots ((la ++ first :: lz) ++
    (List.replicate (endRow - r).toNat Line.zero ++ dead)) (n - (endRow - r)) heap', ?_,
    Rows.mk_slots (by simp [hend, hrow, ← hn]; omega) (by simp [hne])
      (forall₂_append.2 ⟨la, _, rfl, ha, .cons hx'' hz⟩), hheap⟩
  have hlast_line := slots_line (l := la ++ ln :: (lm ++ last :: lz ++ dead))
    (a := la ++ ln :: lm) (x := last) (z := lz ++ dead) (n := n) (η := heap) (by simp) hend
  have hlast_line' := slots_line (l := la ++ ln' :: (lm ++ last :: lz ++ dead))
    (a := la ++ ln' :: lm) (x := last) (z := lz ++ dead) (n := n) (η := heap') (by simp)
    (by simpa using hend)
  simp only [Doc.deleteRows, hlast_line, htail, slots_lineEnsureCap rfl hrow he,
    slots_line (x := ln') rfl hrow, hlast_line', hslice, hstore, hfirst, slots_setLine rfl hrow,
    Option.bind_eq_bind, Option.bind_some, Bool.not_true, Bool.false_eq_true, if_false,
    hfree, slots_rowCount, hmove, hzero, Option.pure_def]
  simp [slots]

theorem Holds.deleteRows {u m x v : List UInt8} {y : List (List UInt8)}
    {endRow endCol : Int} (h : d.Holds T (a ++ (u ++ m) :: (y ++ (x ++ v) :: z)))
    (ample : d.heap.Ample) (hr : r = a.length) (hc : k = u.length)
    (hr' : endRow = r + y.length + 1) (hc' : endCol = x.length) :
    ∃ d', d.deleteRows r k endRow endCol = some (.ok, d') ∧
      d'.Holds T (a ++ (u ++ v) :: z) ∧ d'.heap.Ample :=
  h.deleteRows_room hr hc hr' hc' fun _ _ hx => hx.ensureCap ample (k + v.length + 1)

/-- The merging case of the deletions is the deletion from the end of the r
above to the start of the r. -/
theorem joinLine_eq (d : Doc) (r : Int) :
    d.joinLine r = (d.line (r - 1)).bind fun prev => d.deleteRows (r - 1) prev.len r 0 := by
  have hone : r - (r - 1) = 1 := by omega
  have hrow : r - 1 + 1 = r := by omega
  simp only [Doc.joinLine, Doc.deleteRows, hone, hrow, Int.sub_zero, Option.bind_eq_bind]
  rfl

theorem Holds.joinLine {x y : List UInt8} (h : d.Holds T (a ++ x :: y :: z))
    (ample : d.heap.Ample) (hr : r = a.length + 1) :
    ∃ d', d.joinLine r = some (.ok, d') ∧ d'.Holds T (a ++ (x ++ y) :: z) ∧
      d'.heap.Ample := by
  obtain ⟨prev, hprev, hx⟩ := Rows.line_eq (r := r - 1) h (by omega)
  rw [joinLine_eq, hprev, Option.bind_some]
  exact Holds.deleteRows (u := x) (m := []) (x := []) (v := y) (y := []) (by simpa using h) ample
    (by omega) hx.len_eq (by simp) rfl

/-! ## Pasting -/

/-- The newline round of the paste loop. -/
theorem Holds.openLine {x : List UInt8} (h : d.Holds T (a ++ x :: z)) (ample : d.heap.Ample)
    (hr : r = a.length) :
    ∃ d', d.openLine r = some (.ok, d') ∧ d'.Holds T (a ++ x :: [] :: z) ∧ d'.heap.Ample := by
  obtain ⟨la, ln, lz, dead, heap, rfl, -, ha, hx, hz⟩ := h.around
  have hrow : r = la.length := by rw [hr, ha.length_eq]
  have hrow' : r + 1 = (la ++ [ln]).length := by simp [hrow]
  rw [slots_heap] at ample
  obtain ⟨dead₁, w, dead', heap', he, hmove, hne, ample'⟩ :=
    openSlot ln lz dead ample hrow
  obtain ⟨nl, heap'', hzero, ample'', hnl, -⟩ := Line.ensureCap_zero ample' (n := 0) (by omega)
  refine ⟨slots ((la ++ ln :: nl :: lz) ++ dead') (la.length + lz.length + 1 + 1) heap'', ?_,
    Rows.mk_slots (by simp [Int.add_assoc]) hne
      (forall₂_append.2 ⟨la, _, rfl, ha, .cons hx (.cons (hnl.mono fun _ => trivial) hz)⟩), ample''⟩
  have hset := slots_setLine (l := la ++ ln :: w :: (lz ++ dead')) (x := w) (z := lz ++ dead')
    (n := la.length + lz.length + 1) (η := heap') (by simp) hrow' Line.zero
  have hcap := slots_lineEnsureCap (l := la ++ [ln] ++ Line.zero :: (lz ++ dead'))
    (n := la.length + lz.length + 1) rfl hrow' hzero
  simp only [Doc.openLine, slots_rowCount, he, hmove, hset, hcap, Option.bind_eq_bind,
    Option.bind_some, Bool.not_true, Bool.false_eq_true, if_false, Option.pure_def]
  simp [slots]

/-- The segment round of the paste loop: the r ends at `k`. -/
theorem Holds.appendSegment {u : List UInt8} (h : d.Holds T (a ++ u :: z))
    (ample : d.heap.Ample) (hr : r = a.length) (hc : k = u.length) (seg : List UInt8) :
    ∃ d', d.appendSegment r k seg = some (.ok, d') ∧ d'.Holds T (a ++ (u ++ seg) :: z) ∧
      d'.heap.Ample := by
  obtain ⟨la, ln, lz, dead, heap, rfl, hne, ha, hx, hz⟩ := h.around
  have hrow : r = la.length := by rw [hr, ha.length_eq]
  rw [slots_heap] at ample
  obtain ⟨ln', heap', he, ample', hx', hcap⟩ := hx.ensureCap ample (k + seg.length + 1)
  obtain ⟨buf, buf', hstore, hend, hx''⟩ := Line.Holds.writeSeg (S := T) (u := u) (v := [])
    (y := seg) (n := k + seg.length) (by simpa using hx') hc (by omega) rfl
  refine ⟨_, ?_, Rows.of_around hne ha hx'' hz, ample'⟩
  simp only [Doc.appendSegment, slots_lineEnsureCap rfl hrow he, slots_line rfl hrow, hstore,
    hend, slots_setLine rfl hrow, Option.bind_eq_bind, Option.bind_some, Bool.not_true,
    Bool.false_eq_true, if_false, Option.pure_def]

/-- What the segment round takes from a terminated string. -/
theorem takeWhile_segment {s g : List UInt8} (hs : 0 ∉ s) :
    ∃ seg s', s = seg ++ s' ∧ newline ∉ seg ∧
      (s ++ 0 :: g).takeWhile (fun c => c ≠ 0 && c ≠ newline) = seg ∧
      (s.head? ≠ some newline → s ≠ [] → seg ≠ []) := by
  induction s with
  | nil => exact ⟨[], [], rfl, by simp, by simp, by simp⟩
  | cons c s ih =>
    have hc : c ≠ 0 := fun hc => hs (by simp [hc])
    by_cases hn : c = newline
    · exact ⟨[], c :: s, rfl, by simp, by simp [hn], by simp [hn]⟩
    · obtain ⟨seg, s', hsplit, hseg, htake, -⟩ := ih fun hm => hs (List.mem_cons_of_mem _ hm)
      refine ⟨c :: seg, s', by simp [hsplit], ?_, ?_, by simp⟩
      · simpa [Ne.symm hn] using hseg
      · simpa [List.takeWhile_cons, hc, hn] using htake

/-- The paste loop over a terminated string, from the end of a r that holds `u`. -/
theorem Holds.pasteLoop {u s g : List UInt8} {f : Nat} {p : Pos}
    (h : d.Holds T (a ++ u :: z)) (ample : d.heap.Ample) (hr : p.row = a.length)
    (hc : p.col = u.length) (hs : 0 ∉ s) (hfuel : s.length < f) :
    ∃ d', d.pasteLoop p.row p.col f (s ++ 0 :: g) = some (EditorResult.ok, d',
        ((Text.afterPaste newline p s).row : Int), ((Text.afterPaste newline p s).col : Int)) ∧
      d'.Holds T (a ++ Text.pasteRows newline u s [] ++ z) ∧ d'.heap.Ample := by
  induction f generalizing d a u s p with
  | zero => omega
  | succ f ih =>
    cases s with
    | nil => exact ⟨d, by simp [Doc.pasteLoop, Text.afterPaste],
        by simpa [Text.pasteRows] using h, ample⟩
    | cons c s =>
      have hc0 : c ≠ 0 := fun h0 => hs (by simp [h0])
      have hs' : 0 ∉ s := fun hm => hs (List.mem_cons_of_mem _ hm)
      by_cases hn : c = newline
      · obtain ⟨d₁, hopen, h₁, ample₁⟩ := h.openLine ample (r := p.row) (by simp [hr])
        obtain ⟨d₂, hloop, h₂, ample₂⟩ := ih (d := d₁) (a := a ++ [u]) (u := []) (s := s)
          (p := ⟨p.row + 1, 0⟩) (by simpa using h₁) ample₁ (by simp [hr]) rfl hs'
          (by simpa using hfuel)
        refine ⟨d₂, ?_, by simpa [Text.pasteRows, hn] using h₂, ample₂⟩
        have hafter : Text.afterPaste newline p (c :: s) =
            Text.afterPaste newline ⟨p.row + 1, 0⟩ s := by
          simp [Text.afterPaste, hn, Text.afterInsert_nl]
        rw [hafter, ← hloop, hn]
        simp [Doc.pasteLoop, hopen, newline]
      · obtain ⟨seg, s', hsplit, hseg, htake, hne⟩ := takeWhile_segment (g := g) hs
        have hpos : 0 < seg.length := List.length_pos_iff.2 (hne (by simpa using hn) (by simp))
        obtain ⟨d₁, happ, h₁, ample₁⟩ := h.appendSegment ample (r := p.row) (k := p.col)
          (by simp [hr]) (by simp [hc]) seg
        obtain ⟨d₂, hloop, h₂, ample₂⟩ := ih (d := d₁) (a := a) (u := u ++ seg) (s := s')
          (p := ⟨p.row, p.col + seg.length⟩) h₁ ample₁ hr (by simp [hc])
          (fun hm => hs (by simp [hsplit, hm]))
          (by have := congrArg List.length hsplit
              simp only [List.length_cons, List.length_append] at this hfuel
              omega)
        refine ⟨d₂, ?_, ?_, ample₂⟩
        · rw [hsplit, Text.afterPaste_append newline hseg, ← hloop, ← hsplit]
          have hdrop : (c :: s ++ 0 :: g).drop seg.length = s' ++ 0 :: g := by
            rw [hsplit, List.append_assoc, List.drop_left]
          simp only [List.cons_append] at htake hdrop
          simp only [Doc.pasteLoop, List.cons_append, List.head?_cons, Option.bind_eq_bind,
            Option.bind_some, hc0, hn, if_false, htake, happ, hdrop, ne_eq, not_true_eq_false]
          rfl
        · rw [hsplit, Text.pasteRows_append newline hseg]
          exact h₂

/-- `editor_paste` at a position of the text. -/
theorem Holds.paste {u v s g : List UInt8} {p : Pos} (h : d.Holds T (a ++ (u ++ v) :: z))
    (ample : d.heap.Ample) (hr : p.row = a.length) (hc : p.col = u.length) (hs : 0 ∉ s) :
    ∃ d', d.paste p.row p.col (s ++ 0 :: g) = some (EditorResult.ok, d',
        ((Text.afterPaste newline p s).row : Int), ((Text.afterPaste newline p s).col : Int)) ∧
      d'.Holds T (a ++ Text.pasteRows newline u s v ++ z) ∧ d'.heap.Ample := by
  obtain ⟨b, w, hrows, hafter⟩ := Text.pasteRows_end newline (s := s) hr hc
  obtain ⟨la, ln, lz, dead, heap, rfl, hne, ha, hx, hz⟩ := h.around
  have hrow : (p.row : Int) = la.length := by rw [hr, ha.length_eq]
  have hcol : (p.col : Int) = u.length := by rw [hc]
  rw [slots_heap] at ample
  have htail : ln.len - p.col = v.length := by
    rw [hx.len_eq, List.length_append]
    omega
  obtain ⟨block, hblock, hlen⟩ := ample.malloc (v.length + 1)
  obtain ⟨t, hslice, ht⟩ := hx.tail_end (n := v.length + 1) hcol rfl
  have hsave : Block.store block 0 (v ++ [t]) = some (v ++ [t]) := by
    rw [Block.store_prefix (by simp [hlen]), List.drop_eq_nil_of_le (by simp [hlen])]
    simp
  obtain ⟨buf, hcut, hx'⟩ := hx.cut (S := T) hcol
  have hopened : (slots (la ++ { ln with buf, len := (p.col : Int) } :: (lz ++ dead))
      (la.length + lz.length + 1) heap.next).Holds T (a ++ u :: z) := Rows.of_around hne ha hx' hz
  obtain ⟨d₁, hloop, h₁, ample₁⟩ := hopened.pasteLoop (g := g)
    (f := (s ++ 0 :: g).length + 1) ample.next hr hc hs
    (by simp only [List.length_append, List.length_cons]; omega)
  rw [hrows, List.append_nil, ← List.append_assoc, List.append_assoc (a ++ b)] at h₁
  rw [hafter] at hloop ⊢
  -- the saved tail goes behind what was pasted
  obtain ⟨la₁, dest, lz₁, dead₁, heap₁, rfl, hne₁, ha₁, hw, hz₁⟩ := Rows.around h₁
  rw [slots_heap] at ample₁
  have hdest : ((a.length + b.length : Nat) : Int) = la₁.length := by
    rw [ha₁.length_eq, List.length_append]
  obtain ⟨dest', heap₂, he, ample₂, hw', hcap⟩ :=
    hw.ensureCap ample₁ (w.length + v.length + 1 : Int)
  obtain ⟨buf', hstore, hw''⟩ := Line.Holds.write (u := w) (v := []) (y := v) (t := t)
    (n := w.length + v.length) (by simpa using hw') rfl (by omega) rfl
  have htext := Rows.of_around hne₁ ha₁ (hw''.holds ht) hz₁ (η := heap₂)
  refine ⟨_, ?_, by simpa [hrows] using htext, ample₂⟩
  have hread : Block.slice (v ++ [t]) 0 (v.length + 1) = some (v ++ [t]) :=
    Block.slice_prefix (z := []) (by simp) (by simp)
  simp only [Doc.paste, slots_line rfl hrow, htail, slots_heap, hblock, hslice, hsave, hcut,
    slots_with_heap, slots_setLine rfl hrow, hloop, ← hdest, slots_lineEnsureCap rfl hdest he,
    slots_line rfl hdest, hread, hstore, slots_setLine rfl hdest, Option.bind_eq_bind,
    Option.bind_some, Option.pure_def]
  rfl

end Edits

end Doc

end LCode
