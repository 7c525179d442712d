import LCode.Lib.Pad
import LCode.Editor.Verify.Flat

/-!
# The editor as a pad

What the line array, the cursor, the selection and the clipboard stand for is a `Pad`:
a string with a caret, the other end of the selection, and what was copied last. The
functions of the editor do to them what the pad does to the string; the word loops stop
where the words of the line end.
-/

namespace LCode

/-! ## Word boundaries -/

section Words

variable {T : Prop} {ln : Line} {x : List UInt8} {col : Nat}

/-- The first loop of a word key to the left stops behind the first character that
fails. -/
theorem skipLeft_run (h : ln.Holds T x) (pred : UInt8 → Bool) {fuel : Nat} (hf : col ≤ fuel)
    (hc : col ≤ x.length) : skipLeft ln.buf pred fuel col =
      some ((col - ((x.take col).reverse.takeWhile pred).length : Nat) : Int) := by
  induction col generalizing fuel with
  | zero => cases fuel <;> simp [skipLeft]
  | succ col ih =>
    obtain ⟨fuel, rfl⟩ : ∃ n, fuel = n + 1 := ⟨fuel - 1, by omega⟩
    have hlt : col < x.length := hc
    have hback : ((col + 1 : Nat) : Int) - 1 = col := by omega
    have hlast : (x.take (col + 1)).reverse = x[col] :: (x.take col).reverse := by
      rw [List.take_add_one, List.getElem?_eq_getElem hlt, Option.toList_some,
        List.reverse_append]
      rfl
    have hpos : (0 : Int) < ((col + 1 : Nat) : Int) := by omega
    simp only [skipLeft, hpos, if_true, hback, h.read hlt, Option.bind_eq_bind, Option.bind_some]
    rw [hlast, List.takeWhile_cons]
    split
    · next hp =>
      rw [ih (by omega) (by omega), List.length_cons, Nat.add_sub_add_right]
    · rfl

/-- The loops to the right stop before the first character that fails. -/
theorem skipRight_run (h : ln.Holds T x) (pred : UInt8 → Bool) {fuel : Nat}
    (hf : x.length - col ≤ fuel) (hc : col ≤ x.length) : skipRight ln.buf pred ln.len fuel col =
      some ((col + ((x.drop col).takeWhile pred).length : Nat) : Int) := by
  have hlen := h.len_eq
  induction fuel generalizing col with
  | zero =>
    have hend : x.drop col = [] := List.drop_eq_nil_of_le (by omega)
    rw [hend]
    rfl
  | succ fuel ih =>
    by_cases hlt : col < x.length
    · have hin : (col : Int) < ln.len := by omega
      simp only [skipRight, hin, if_true, h.read hlt, Option.bind_eq_bind, Option.bind_some]
      rw [← List.getElem_cons_drop hlt, List.takeWhile_cons]
      split
      · next hp =>
        have hnext := @ih (col + 1) (by omega) (by omega)
        rw [Int.natCast_add, Int.natCast_one] at hnext
        rw [hnext, List.length_cons]
        congr 2
        omega
      · rfl
    · have hend : x.drop col = [] := List.drop_eq_nil_of_le (by omega)
      have hout : ¬ (col : Int) < ln.len := by omega
      simp only [skipRight, hout, if_false, hend]
      rfl

theorem takeWhile_drop_dropWhile {β : Type} (p : β → Bool) (l : List β) :
    l.drop (l.takeWhile p).length = l.dropWhile p := by
  have hcut := congrArg (List.drop (l.takeWhile p).length)
    (List.takeWhile_append_dropWhile (p := p) (l := l))
  rw [List.drop_left] at hcut
  exact hcut.symm

/-- Where `editor_move_word_left` and `editor_delete_word` stop. -/
theorem wordLeft_run (h : ln.Holds T x) (hc : col ≤ x.length) : wordLeft ln.buf col =
    some ((col - Caret.blanksAndWord space (x.take col).reverse : Nat) : Int) := by
  have hfirst := skipLeft_run h (· == space) (Nat.le_refl col) hc
  have heq : ((x.take col).reverse.takeWhile (· == space)).length ≤ col := by
    have hle := (List.takeWhile_sublist (l := (x.take col).reverse) (· == space)).length_le
    rw [List.length_reverse, List.length_take] at hle
    omega
  generalize hk : col - ((x.take col).reverse.takeWhile (· == space)).length = k at hfirst
  have hsecond := skipLeft_run h (· != space) (Nat.le_refl k) (by omega)
  have hrest : (x.take k).reverse = (x.take col).reverse.dropWhile (· == space) := by
    have hdrop := takeWhile_drop_dropWhile (· == space) (x.take col).reverse
    rw [← hdrop, List.drop_reverse, List.take_take, List.length_take]
    congr 2
    omega
  simp only [wordLeft, Int.toNat_natCast, hfirst, hsecond, Option.bind_eq_bind, Option.bind_some,
    hrest]
  congr 2
  simp only [Caret.blanksAndWord]
  have hsp : (fun c : UInt8 => decide (c = space)) = (· == space) := by
    funext c
    rw [Bool.beq_eq_decide_eq]
  have hns : (fun c : UInt8 => decide (c ≠ space)) = (· != space) := by
    funext c
    rw [bne, Bool.beq_eq_decide_eq, decide_not]
  rw [hsp, hns]
  omega

/-- Where `editor_move_word_right` stops. -/
theorem wordRight_run (h : ln.Holds T x) (hc : col ≤ x.length) : wordRight ln.buf ln.len col =
    some ((col + Caret.wordAndBlanks space (x.drop col) : Nat) : Int) := by
  have hlen := h.len_eq
  have hfirst := skipRight_run h (· != space) (show _ ≤ (ln.len - col).toNat by omega) hc
  have hle : col + ((x.drop col).takeWhile (· != space)).length ≤ x.length := by
    have hle := (List.takeWhile_sublist (l := x.drop col) (· != space)).length_le
    rw [List.length_drop] at hle
    omega
  generalize hk : col + ((x.drop col).takeWhile (· != space)).length = k at hfirst hle
  have hsecond := skipRight_run h (· == space) (show _ ≤ (ln.len - k).toNat by omega) hle
  have hrest : x.drop k = (x.drop col).dropWhile (· != space) := by
    rw [← takeWhile_drop_dropWhile, List.drop_drop, hk]
  simp only [wordRight, hfirst, hsecond, Option.bind_eq_bind, Option.bind_some, hrest]
  congr 2
  simp only [Caret.wordAndBlanks]
  have hsp : (fun c : UInt8 => decide (c = space)) = (· == space) := by
    funext c
    rw [Bool.beq_eq_decide_eq]
  have hns : (fun c : UInt8 => decide (c ≠ space)) = (· != space) := by
    funext c
    rw [bne, Bool.beq_eq_decide_eq, decide_not]
  rw [hsp, hns]
  omega

end Words

/-! ## The editor -/

namespace Editor

/-- The editor stands for `s`: its text is `t` and its cursor is at `p`. -/
structure IsPad (ed : Editor) (s : Pad UInt8) (t : List (List UInt8)) (p : Pos) : Prop where
  at' : ed.At True t p
  plain : Text.Plain newline t
  nul : Text.All (· ≠ 0) t
  caret : s.toCaret = Text.caret newline t p
  anchor : (ed.selActive = false ∧ s.anchor = none) ∨
    ∃ q, ed.Selected t q ∧ s.anchor = some (Text.offset t q)
  clip : (ed.clipboard = none ∧ s.clip = none) ∨
    ∃ x rest, ed.clipboard = some (x ++ 0 :: rest) ∧ 0 ∉ x ∧ s.clip = some x

section IsPad

variable {ed : Editor} {s : Pad UInt8} {t : List (List UInt8)} {p q : Pos}

theorem IsPad.text (h : ed.IsPad s t p) : s.text = Text.flat newline t :=
  congrArg Caret.text h.caret

theorem IsPad.off (h : ed.IsPad s t p) : s.off = Text.offset t p := congrArg Caret.off h.caret

theorem IsPad.inactive (h : ed.IsPad s t p) (hs : ed.selActive = false) : s.anchor = none := by
  rcases h.anchor with ⟨-, hnone⟩ | ⟨q, hsel, -⟩
  · exact hnone
  · exact absurd hsel.active (by simp [hs])

theorem IsPad.active (h : ed.IsPad s t p) (hs : ed.selActive = true) :
    ∃ q, ed.Selected t q ∧ s.anchor = some (Text.offset t q) := by
  rcases h.anchor with ⟨hnone, -⟩ | hsel
  · exact absurd hs (by simp [hnone])
  · exact hsel

/-- The ends of the selection are the ends of the stretch. -/
theorem IsPad.range_eq (h : ed.IsPad s t p) {b e : Pos} (hb : Text.Valid t b)
    (he : Text.Valid t e) (hbe : Text.before b e)
    (hends : (b = q ∧ e = p) ∨ (b = p ∧ e = q)) :
    s.range (Text.offset t q) = (Text.offset t b, Text.offset t e) := by
  have hle := (Text.offset_le_iff newline hb he).2 hbe
  rw [Pad.range, h.off]
  rcases hends with ⟨rfl, rfl⟩ | ⟨rfl, rfl⟩
  · rw [Nat.min_eq_left hle, Nat.max_eq_right hle]
  · rw [Nat.min_eq_right hle, Nat.max_eq_left hle]

/-- `editor_delete_selection`, with or without a selection. -/
theorem IsPad.deleteSelection (h : ed.IsPad s t p) :
    ∃ ed' t' p', ed.deleteSelection = some (.ok, ed') ∧ ed'.IsPad s.clear t' p' ∧
      ed'.selActive = false ∧ ed'.remoteCursorRow = ed.remoteCursorRow := by
  cases hactive : ed.selActive with
  | false =>
    refine ⟨ed, t, p, by simp [Editor.deleteSelection, hactive], ?_, hactive, rfl⟩
    rw [Pad.clear_none (h.inactive hactive)]
    exact h
  | true =>
    obtain ⟨q, hsel, hanchor⟩ := h.active hactive
    obtain ⟨b, e, hrange, hbe, hb, he, hends⟩ := hsel.range h.at'
    obtain ⟨b', e', doc, hrange', -, -, hdel, hat⟩ := h.at'.deleteSelection hsel
    obtain ⟨rfl, rfl⟩ := range_inj (hrange.symm.trans hrange')
    have hclip : (ed.unselected.goto doc b).clipboard = ed.clipboard := by simp [unselected]
    refine ⟨_, _, b, hdel, ⟨hat, h.plain.deleteRange b e, h.nul.deleteRange b e, ?_, ?_, ?_⟩, ?_,
      ?_⟩
    · rw [Text.caret_deleteRange hb he hbe, Pad.clear_some hanchor, h.text,
        h.range_eq hb he hbe hends]
    · exact Or.inl ⟨by simp [unselected], Pad.clear_anchor⟩
    · rw [hclip, Pad.clear_clip]
      exact h.clip
    · simp [unselected]
    · simp [unselected]

theorem IsPad.goto_put (h : ed.IsPad s t p) (hs : ed.selActive = false) {doc : Doc}
    {x : List UInt8} (hx : 0 ∉ x)
    (hat : (ed.goto doc (Text.afterPaste newline p x)).At True (Text.paste newline t p x)
      (Text.afterPaste newline p x)) :
    (ed.goto doc (Text.afterPaste newline p x)).IsPad (s.put x) (Text.paste newline t p x)
      (Text.afterPaste newline p x) := by
  refine ⟨hat, h.plain.paste p x, ?_, ?_, ?_, ?_⟩
  · exact h.nul.paste newline p fun c hc h0 => hx (h0 ▸ hc)
  · rw [Text.caret_paste h.at'.valid, Pad.put, h.text, h.off]
  · exact Or.inl ⟨by simpa using hs, h.inactive hs⟩
  · rw [goto_clipboard]
    exact h.clip

/-- `editor_insert_char`. -/
theorem IsPad.insertChar (h : ed.IsPad s t p) (hs : ed.selActive = false) {c : UInt8}
    (hc : c ≠ 0) :
    ∃ ed' t' p', ed.insertChar c = some (.ok, ed') ∧ ed'.IsPad (s.put [c]) t' p' ∧
      ed'.selActive = false ∧ ed'.remoteCursorRow = ed.remoteCursorRow := by
  obtain ⟨doc, hins, hat⟩ := h.at'.insertChar c
  have hafter : Text.afterInsert newline p c = Text.afterPaste newline p [c] := rfl
  rw [hafter] at hins hat
  rw [Text.insert_eq_paste] at hat
  refine ⟨_, _, _, hins, h.goto_put hs ?_ hat, ?_, ?_⟩
  · rw [List.mem_singleton]
    exact fun h0 => hc h0.symm
  · simpa using hs
  · simp

/-- `editor_paste`. -/
theorem IsPad.paste (h : ed.IsPad s t p) (hs : ed.selActive = false) {x : List UInt8}
    (hx : s.clip = some x) :
    ∃ ed' t' p', ed.paste = some (.ok, ed') ∧ ed'.IsPad (s.put x) t' p' ∧
      ed'.selActive = false ∧ ed'.remoteCursorRow = ed.remoteCursorRow := by
  rcases h.clip with ⟨-, hnone⟩ | ⟨y, rest, hclip, hy, hsome⟩
  · rw [hnone] at hx
    cases hx
  · obtain rfl := Option.some.inj (hsome.symm.trans hx)
    obtain ⟨doc, hpaste, hat⟩ := h.at'.paste hclip hy
    refine ⟨_, _, _, hpaste, h.goto_put hs hy hat, ?_, ?_⟩
    · simpa using hs
    · simp

theorem IsPad.clipboard_none (h : ed.IsPad s t p) (hx : s.clip = none) : ed.clipboard = none := by
  rcases h.clip with ⟨hnone, -⟩ | ⟨y, rest, -, -, hsome⟩
  · exact hnone
  · rw [hsome] at hx
    cases hx

/-- `editor_copy_selection`, with or without a selection. -/
theorem IsPad.copySelection (h : ed.IsPad s t p) :
    ∃ ed', ed.copySelection = some ed' ∧ ed'.IsPad s.copy t p ∧
      ed'.selActive = ed.selActive ∧ ed'.remoteCursorRow = ed.remoteCursorRow := by
  cases hactive : ed.selActive with
  | false =>
    refine ⟨ed, copySelection_inactive hactive, ?_, hactive, rfl⟩
    have hcopy : s.copy = s := by simp [Pad.copy, h.inactive hactive]
    rw [hcopy]
    exact h
  | true =>
    obtain ⟨q, hsel, hanchor⟩ := h.active hactive
    obtain ⟨b, e, hrange, hbe, hb, he, hends⟩ := hsel.range h.at'
    obtain ⟨b', e', heap, hrange', ample, hcopy⟩ := h.at'.copySelection hsel
    obtain ⟨rfl, rfl⟩ := range_inj (hrange.symm.trans hrange')
    have hpad : s.copy = { s with clip := some (Text.copy newline t b e) } := by
      have hselected : s.selected (Text.offset t q) = Text.copy newline t b e := by
        rw [Pad.selected, h.range_eq hb he hbe hends, h.text, Text.copy_eq hb he hbe]
      simp [Pad.copy, hanchor, hselected]
    refine ⟨_, hcopy, ⟨?_, h.plain, h.nul, ?_, ?_, ?_⟩, hactive, rfl⟩
    · exact ⟨h.at'.holds.withHeap heap, ample, h.at'.row, h.at'.col, h.at'.valid⟩
    · rw [hpad]
      exact h.caret
    · rw [hpad]
      exact Or.inr ⟨q, ⟨hsel.active, hsel.row, hsel.col, hsel.valid⟩, hanchor⟩
    · refine Or.inr ⟨_, [], rfl, ?_, by rw [hpad]⟩
      exact fun h0 => h.nul.copy (by decide) b e 0 h0 rfl

theorem IsPad.goto_erase (h : ed.IsPad s t p) (hs : ed.selActive = false) {doc : Doc}
    {t' : List (List UInt8)} {p' : Pos} {o : Nat} (hat : (ed.goto doc p').At True t' p')
    (hplain : Text.Plain newline t') (hnul : Text.All (· ≠ 0) t')
    (hcaret : Text.caret newline t' p' = (s.eraseTo o).toCaret) :
    (ed.goto doc p').IsPad (s.eraseTo o) t' p' :=
  ⟨hat, hplain, hnul, hcaret.symm, Or.inl ⟨by simpa using hs, h.inactive hs⟩,
    by rw [goto_clipboard]; exact h.clip⟩

/-- `editor_delete_char`. -/
theorem IsPad.deleteChar (h : ed.IsPad s t p) (hs : ed.selActive = false) :
    ∃ ed' t' p', ed.deleteChar = some (.ok, ed') ∧ ed'.IsPad (s.eraseTo (s.off - 1)) t' p' ∧
      ed'.selActive = false ∧ ed'.remoteCursorRow = ed.remoteCursorRow := by
  obtain ⟨doc, hdel, hat⟩ := h.at'.deleteChar
  refine ⟨_, _, _, hdel, h.goto_erase hs hat (h.plain.backspace p) (h.nul.backspace p) ?_, ?_, ?_⟩
  · rw [Text.caret_backspace newline h.at'.valid, ← h.caret, Caret.step, Pad.eraseTo]
    split
    · next h0 => rw [List.eraseIdx_eq_take_drop_succ, show s.off - 1 + 1 = s.off by omega]
    · next h0 =>
      have hzero : s.off = 0 := by omega
      ext1
      · simp [hzero]
      · simp [hzero]
  · simpa using hs
  · simp

/-- `editor_delete_word`, away from the start of a row. -/
theorem IsPad.deleteWord (h : ed.IsPad s t p) (hs : ed.selActive = false) (h0 : 0 < p.col) :
    ∃ ed' t' p', ed.deleteWord = some (.ok, ed') ∧
      ed'.IsPad (s.eraseTo (s.toCaret.wordLeft newline space)) t' p' ∧
      ed'.selActive = false ∧ ed'.remoteCursorRow = ed.remoteCursorRow := by
  obtain ⟨k, doc, hk, hdel, hat⟩ := h.at'.deleteWord h0
  obtain ⟨ln, hln, hx⟩ := h.at'.holds.line_row h.at'.valid.1
  -- the column in which both loops stop
  obtain rfl : k = p.col - Caret.blanksAndWord space
      ((Text.row t p.row).take p.col).reverse := by
    have hword := wordLeft_run hx h.at'.valid.2
    have hcol : ¬ (p.col : Int) = 0 := by omega
    simp only [Editor.deleteWord, h.at'.row, h.at'.col, hcol, if_false, hln, hword,
      Option.bind_eq_bind, Option.bind_some] at hdel
    obtain ⟨doc', -, heq⟩ := Option.bind_eq_some_iff.1 hdel
    have hcur := congrArg (fun r : EditorResult × Editor => r.2.cursorCol) (Option.some.inj heq)
    change (ed.goto doc' ⟨p.row, p.col -
      Caret.blanksAndWord space ((Text.row t p.row).take p.col).reverse⟩).cursorCol =
      (ed.goto doc ⟨p.row, k⟩).cursorCol at hcur
    rw [goto_cursorCol, goto_cursorCol] at hcur
    exact (Int.natCast_inj.1 hcur).symm
  have hstart : Text.Valid t ⟨p.row, p.col - Caret.blanksAndWord space
      ((Text.row t p.row).take p.col).reverse⟩ :=
    ⟨h.at'.valid.1, Nat.le_trans hk h.at'.valid.2⟩
  refine ⟨_, _, _, hdel, h.goto_erase hs hat (h.plain.deleteRange _ _) (h.nul.deleteRange _ _) ?_,
    ?_, ?_⟩
  · rw [Text.caret_deleteRange hstart h.at'.valid (Or.inr ⟨rfl, hk⟩), Pad.eraseTo, h.caret,
      h.plain.wordLeft space h.at'.valid]
    rfl
  · simpa using hs
  · simp

theorem IsPad.moved (h : ed.IsPad s t p) {ed' : Editor} {p' : Pos} {o : Nat}
    (hat : ed'.At True t p') (ho : Text.offset t p' = o) (hm : ed.Moved ed') :
    ed'.IsPad { s with off := o } t p' := by
  refine ⟨hat, h.plain, h.nul, ?_, ?_, ?_⟩
  · rw [← ho]
    exact Caret.ext h.text rfl
  · rcases h.anchor with ⟨hs, hnone⟩ | ⟨q, hsel, hsome⟩
    · exact Or.inl ⟨hm.selActive.trans hs, hnone⟩
    · exact Or.inr ⟨q, ⟨hm.selActive.trans hsel.active, hm.selAnchorRow.trans hsel.row,
        hm.selAnchorCol.trans hsel.col, hsel.valid⟩, hsome⟩
  · rw [hm.clipboard]
    exact h.clip

end IsPad

end Editor

end LCode
