import LCode.Lib.Flat

/-!
# Another caret

An edit at one caret moves the others: one behind the edit goes with the characters
around it, and its row changes by the line ends that come and go. Here are the position
and the offset another caret has after a text is put in, a range is deleted, or the one
is replaced by the other.
-/

namespace LCode.Text

variable {α : Type*}

/-! ## Rows above and below an edit -/

variable {t a m z w : List (List α)} {p q : Pos}

theorem offset_splice_above {i d : Nat} (h : p.row ≤ i) (hi : i ≤ t.length) :
    offset (splice t i d w) p = offset t p := by
  have hlen : (t.take i).length = i := by
    rw [List.length_take]
    omega
  have htake : (splice t i d w).take p.row = t.take p.row := by
    rw [splice, List.append_assoc, List.take_append_of_le_length (by omega), List.take_take,
      Nat.min_eq_left h]
  rw [offset, offset, htake]

/-- The string before a caret behind the stretch grows and shrinks with the stretch. -/
theorem offset_splice_behind (nl : α) {i d : Nat} (h : i + d ≤ p.row) (hp : p.row ≤ t.length) :
    offset (splice t i d w) ⟨moveRow i d w.length p.row, p.col⟩ +
        (above nl ((t.drop i).take d)).length =
      offset t p + (above nl w).length := by
  obtain ⟨k, hk⟩ : ∃ k, p.row = i + d + k := ⟨p.row - (i + d), by omega⟩
  have hi : (t.take i).length = i := by
    rw [List.length_take]
    omega
  have hold : t.take p.row = t.take i ++ ((t.drop i).take d ++ (t.drop (i + d)).take k) := by
    rw [hk, Nat.add_assoc, List.take_add, List.take_add, List.drop_drop]
  have hnew : (splice t i d w).take (moveRow i d w.length p.row) =
      t.take i ++ (w ++ (t.drop (i + d)).take k) := by
    rw [moveRow_ge (by omega), show p.row - d + w.length = (t.take i).length + (w.length + k) by
      omega, splice, List.append_assoc, List.take_length_add_append, List.take_length_add_append]
  simp only [offset, hold, hnew, List.map_append, List.sum_append, above_length]
  omega

theorem before_left (t : List (List α)) (p : Pos) : before (left t p) p := by
  unfold left before
  split
  · exact Or.inr ⟨rfl, Nat.sub_le _ _⟩
  · split
    · exact Or.inl (by simp only; omega)
    · exact Or.inr ⟨rfl, Nat.le_refl _⟩

/-- Backspace deletes the range from the position before. -/
theorem backspace_eq_deleteRange (h : Valid t p) :
    backspace t p = deleteRange t (left t p) p := by
  by_cases hcol : 0 < p.col
  · rw [backspace, left, if_pos hcol, if_pos hcol, deleteRange, Nat.sub_self]
  · by_cases hrow : 0 < p.row
    · have hp : p.row - (p.row - 1) + 1 = 2 := by omega
      rw [backspace, left, if_neg hcol, if_neg hcol, if_pos hrow, if_pos hrow, deleteRange]
      simp only [hp, Nat.eq_zero_of_not_pos hcol, List.take_length, List.drop_zero]
    · rw [backspace, left, if_neg hcol, if_neg hcol, if_neg hrow, if_neg hrow,
        deleteRange_self h]

/-! ## Texts put in, ranges deleted -/

/-- Where the caret `p` is after `s` has been put in at `q`, in another row. -/
def besidePaste [DecidableEq α] (nl : α) (q : Pos) (s : List α) (p : Pos) : Pos :=
  ⟨if q.row < p.row then p.row + s.count nl else p.row, p.col⟩

/-- Where the caret `p`, outside the range, is after the text from `b` to `e` has gone. -/
def besideRange (b e p : Pos) : Pos :=
  if before p b then p
  else ⟨p.row - (e.row - b.row), if p.row = e.row then b.col + (p.col - e.col) else p.col⟩

theorem drop_take_one {r : Nat} (h : r < t.length) : (t.drop r).take 1 = [row t r] := by
  rw [List.drop_eq_getElem_cons h, row_eq_getElem h]
  rfl

theorem above_pasteRows_length [DecidableEq α] (nl : α) (u s v : List α) :
    (above nl (pasteRows nl u s v)).length = u.length + s.length + v.length + 1 := by
  induction s generalizing u with
  | nil => simp [pasteRows, Nat.add_assoc]
  | cons c s ih =>
    simp only [pasteRows]
    split
    · simp only [above_cons, List.length_append, List.length_cons, ih, List.length_nil]
      omega
    · rw [ih]
      simp only [List.length_append, List.length_cons, List.length_nil]
      omega

/-- What is put in takes the caret of another row along with the characters around it. -/
theorem offset_besidePaste [DecidableEq α] (nl : α) (hp : Valid t p) (hq : Valid t q)
    (hne : p.row ≠ q.row) (s : List α) :
    Valid (paste nl t q s) (besidePaste nl q s p) ∧
      offset (paste nl t q s) (besidePaste nl q s p) =
        Stretch.follow ⟨offset t q, offset t q, s⟩ (offset t p) := by
  have hcol := hq.2
  obtain ⟨w, hw, hlen, hrows⟩ : ∃ w, paste nl t q s = splice t q.row 1 w ∧
      w.length = s.count nl + 1 ∧ (above nl w).length = (row t q.row).length + s.length + 1 := by
    refine ⟨_, rfl, pasteRows_length .., ?_⟩
    rw [above_pasteRows_length, List.length_take, List.length_drop]
    omega
  have hbeside : besidePaste nl q s p = ⟨moveRow q.row 1 w.length p.row, p.col⟩ := by
    rcases Nat.lt_or_gt_of_ne hne with hlt | hgt
    · rw [besidePaste, moveRow_lt hlt, if_neg (by omega)]
    · rw [besidePaste, moveRow_ge (Nat.le_of_lt hgt), hlen, if_pos hgt,
        show p.row - 1 + (s.count nl + 1) = p.row + s.count nl by omega]
  rw [hw, hbeside]
  refine ⟨hp.splice (show q.row + 1 ≤ t.length from hq.1) (by omega), ?_⟩
  rcases Nat.lt_or_gt_of_ne hne with hlt | hgt
  · rw [moveRow_lt hlt, Stretch.follow_of_le (Nat.le_of_lt (offset_lt nl hp hq hlt))]
    exact offset_splice_above (Nat.le_of_lt hlt) (Nat.le_of_lt hq.1)
  · have hmoved := offset_splice_behind nl (w := w) (i := q.row) (d := 1) hgt (Nat.le_of_lt hp.1)
    rw [drop_take_one hq.1, hrows, above_length] at hmoved
    simp only [List.map_cons, List.map_nil, List.sum_cons, List.sum_nil] at hmoved
    rw [Stretch.follow_of_lt (offset_lt nl hq hp hgt)]
    simp only
    omega

/-- The rows of a range, from the start of its first to the end of its last. -/
theorem above_range_length (nl : α) {b e : Pos} (hb : Valid t b) (he : Valid t e)
    (hbe : before b e) :
    (above nl ((t.drop b.row).take (e.row - b.row + 1))).length + offset t b =
      offset t e + ((row t b.row).take b.col ++ (row t e.row).drop e.col).length + 1 := by
  have hle : b.row ≤ e.row := by unfold before at hbe; omega
  have hsplit : t.take (e.row + 1) =
      t.take b.row ++ (t.drop b.row).take (e.row - b.row + 1) := by
    rw [← List.take_add]
    congr 1
    omega
  have hlast : t.take (e.row + 1) = t.take e.row ++ [row t e.row] := by
    rw [List.take_add, drop_take_one he.1]
  have hsum := congrArg (fun x => (x.map fun y => y.length + 1).sum) (hsplit.symm.trans hlast)
  simp only [List.map_append, List.sum_append, List.map_cons, List.map_nil, List.sum_cons,
    List.sum_nil] at hsum
  have hbcol := hb.2
  have hecol := he.2
  rw [above_length, offset, offset, List.length_append, List.length_take, List.length_drop]
  omega

section Range

variable {b e : Pos}

/-- The row that is left of a range. -/
theorem row_deleteRange (he : Valid t e) (hbe : before b e) :
    row (deleteRange t b e) b.row = (row t b.row).take b.col ++ (row t e.row).drop e.col := by
  have hrows : b.row ≤ e.row := by unfold before at hbe; omega
  have hlen := he.1
  rw [deleteRange, row_splice_new (by omega) (Nat.le_refl _) (by simp), Nat.sub_self]
  exact row_append (a := []) rfl

theorem deleteRange_length (he : Valid t e) (hbe : before b e) :
    (deleteRange t b e).length + (e.row - b.row) = t.length := by
  have hrows : b.row ≤ e.row := by unfold before at hbe; omega
  have hlen := he.1
  have hcount := splice_length (t := t) (w := [(row t b.row).take b.col ++ (row t e.row).drop e.col])
    (i := b.row) (d := e.row - b.row + 1) (by omega)
  rw [List.length_singleton] at hcount
  rw [deleteRange]
  omega

theorem offset_deleteRange_above (hb : Valid t b) (hq : q.row ≤ b.row) :
    offset (deleteRange t b e) q = offset t q :=
  offset_splice_above hq (Nat.le_of_lt hb.1)

/-- A caret before the range stays. -/
theorem offset_before_range (hb : Valid t b) (he : Valid t e) (hbe : before b e) (hp : Valid t p)
    (hbefore : before p b) :
    Valid (deleteRange t b e) p ∧ offset (deleteRange t b e) p = offset t p := by
  have hlen := deleteRange_length he hbe
  have hrows : b.row ≤ e.row := by unfold before at hbe; omega
  have hpb : p.row ≤ b.row := by unfold before at hbefore; omega
  have hlast := he.1
  refine ⟨⟨by omega, ?_⟩, offset_deleteRange_above hb hpb⟩
  rcases Nat.lt_or_eq_of_le hpb with hlt | heq
  · have hsame := row_splice (t := t) (w := [(row t b.row).take b.col ++ (row t e.row).drop e.col])
      (i := b.row) (d := e.row - b.row + 1) (k := p.row) (by omega) (Or.inl hlt)
    rw [moveRow_lt hlt] at hsame
    rw [deleteRange, hsame]
    exact hp.2
  · have hbcol := hb.2
    rw [heq, row_deleteRange he hbe, List.length_append, List.length_take]
    unfold before at hbefore
    omega

/-- A caret of the last row, behind the range, comes into the row that is left. -/
theorem offset_behind_range (hb : Valid t b) (he : Valid t e) (hbe : before b e) (hp : Valid t p)
    (hrow : p.row = e.row) (hcol : e.col ≤ p.col) :
    Valid (deleteRange t b e) ⟨b.row, b.col + (p.col - e.col)⟩ ∧
      offset (deleteRange t b e) ⟨b.row, b.col + (p.col - e.col)⟩ + offset t e =
        offset t b + offset t p := by
  have hlen := deleteRange_length he hbe
  have hrows : b.row ≤ e.row := by unfold before at hbe; omega
  have hlast := he.1
  have hecol := he.2
  have hbcol := hb.2
  have hpcol := hrow ▸ hp.2
  constructor
  · refine ⟨show b.row < _ by omega, ?_⟩
    rw [row_deleteRange he hbe, List.length_append, List.length_take, List.length_drop]
    show b.col + (p.col - e.col) ≤ _
    omega
  · rw [offset_deleteRange_above hb (q := ⟨b.row, b.col + (p.col - e.col)⟩) (Nat.le_refl _), offset,
      offset, offset, offset, hrow]
    simp only
    omega

/-- A caret below the range moves up with its row. -/
theorem offset_below_range (nl : α) (hb : Valid t b) (he : Valid t e) (hbe : before b e)
    (hp : Valid t p) (hbelow : e.row < p.row) :
    Valid (deleteRange t b e) ⟨p.row - (e.row - b.row), p.col⟩ ∧
      offset (deleteRange t b e) ⟨p.row - (e.row - b.row), p.col⟩ + offset t e =
        offset t b + offset t p := by
  have hrows : b.row ≤ e.row := by unfold before at hbe; omega
  have hlast := hp.1
  have hmove : moveRow b.row (e.row - b.row + 1)
      [(row t b.row).take b.col ++ (row t e.row).drop e.col].length p.row =
        p.row - (e.row - b.row) := by
    rw [moveRow_ge (by omega), List.length_singleton]
    omega
  have hvalid := hp.splice (w := [(row t b.row).take b.col ++ (row t e.row).drop e.col])
    (i := b.row) (d := e.row - b.row + 1) (by omega) (by omega)
  have hmoved := offset_splice_behind nl (w := [(row t b.row).take b.col ++ (row t e.row).drop e.col])
    (i := b.row) (d := e.row - b.row + 1) (p := p) (by omega) (Nat.le_of_lt hp.1)
  have hrange := above_range_length nl hb he hbe
  rw [hmove] at hvalid hmoved
  simp only [above_cons, above_nil, List.length_append, List.length_cons, List.length_nil]
    at hmoved hrange
  exact ⟨hvalid, by rw [deleteRange]; omega⟩

/-- A range that goes takes the caret outside it along with the characters around it. -/
theorem offset_besideRange (nl : α) (hb : Valid t b) (he : Valid t e) (hbe : before b e)
    (hp : Valid t p) (hout : before p b ∨ before e p) :
    Valid (deleteRange t b e) (besideRange b e p) ∧
      offset (deleteRange t b e) (besideRange b e p) =
        (Stretch.mk (offset t b) (offset t e) ([] : List α)).follow (offset t p) := by
  have hle := (offset_le_iff nl hb he).2 hbe
  by_cases hbefore : before p b
  · rw [besideRange, if_pos hbefore, Stretch.follow_of_le ((offset_le_iff nl hp hb).2 hbefore)]
    exact offset_before_range hb he hbe hp hbefore
  · have hafter := hout.resolve_left hbefore
    have hlt : offset t b < offset t p :=
      Nat.lt_of_not_le fun h => hbefore ((offset_le_iff nl hp hb).1 h)
    rw [besideRange, if_neg hbefore, Stretch.follow_of_lt hlt]
    simp only [List.length_nil, Nat.add_zero]
    by_cases hrow : p.row = e.row
    · have hcol : e.col ≤ p.col := by unfold before at hafter; omega
      have hrows : b.row ≤ e.row := by unfold before at hbe; omega
      obtain ⟨hvalid, hoff⟩ := offset_behind_range hb he hbe hp hrow hcol
      rw [if_pos hrow, show p.row - (e.row - b.row) = b.row by omega]
      exact ⟨hvalid, by omega⟩
    · have hbelow : e.row < p.row := by unfold before at hafter; omega
      obtain ⟨hvalid, hoff⟩ := offset_below_range nl hb he hbe hp hbelow
      rw [if_neg hrow]
      exact ⟨hvalid, by omega⟩

end Range

/-! ## Typing and Backspace -/

/-- Where the caret `p` is after `c` has been typed at `q`, in another row. -/
def besideInsert [DecidableEq α] (nl : α) (q : Pos) (c : α) (p : Pos) : Pos :=
  ⟨if c = nl ∧ q.row < p.row then p.row + 1 else p.row, p.col⟩

/-- Where the caret `p` is after Backspace at `q`, in another row. -/
def besideBackspace (q p : Pos) : Pos :=
  ⟨if q.col = 0 ∧ 0 < q.row ∧ q.row < p.row then p.row - 1 else p.row, p.col⟩

/-- An insertion takes the caret of another row along with the characters around it. -/
theorem offset_besideInsert [DecidableEq α] (nl : α) (hp : Valid t p) (hq : Valid t q)
    (hne : p.row ≠ q.row) (c : α) :
    Valid (insert nl t q c) (besideInsert nl q c p) ∧
      offset (insert nl t q c) (besideInsert nl q c p) =
        (caret nl t q).follow (.insert c) (offset t p) := by
  have hbeside : besideInsert nl q c p = besidePaste nl q [c] p := by
    rw [besideInsert, besidePaste]
    by_cases hc : c = nl
    · simp [hc]
    · simp [hc]
  have hfollow : (caret nl t q).follow (.insert c) (offset t p) =
      (Stretch.mk (offset t q) (offset t q) [c]).follow (offset t p) := by
    have hswap : offset t q < offset t p ↔ ¬ offset t p ≤ offset t q := Nat.not_le.symm
    simp only [Caret.follow, Stretch.follow, caret, List.length_singleton, hswap, ite_not,
      Nat.sub_self, Nat.sub_zero]
  have hpaste : insert nl t q c = paste nl t q [c] := by
    rw [paste_cons nl hq, paste_nil nl (hq.insert nl c)]
  rw [hbeside, hfollow, hpaste]
  exact offset_besidePaste nl hp hq hne [c]

/-- A caret of another row is before the position that Backspace deletes from, or behind
the one it is at. -/
theorem before_left_of_row (nl : α) (hp : Valid t p) (hq : Valid t q) (hlt : p.row < q.row) :
    before p (left t q) := by
  refine (offset_le_iff nl hp hq.left).1 ?_
  have hoff := offset_left nl hq
  have := offset_lt nl hp hq hlt
  omega

theorem besideRange_left (nl : α) (hp : Valid t p) (hq : Valid t q) (hne : p.row ≠ q.row) :
    besideRange (left t q) q p = besideBackspace q p := by
  have hrow : (left t q).row = if q.col = 0 ∧ 0 < q.row then q.row - 1 else q.row := by
    unfold left
    split
    · rw [if_neg (by omega)]
    · split
      · rw [if_pos (by omega)]
      · rw [if_neg (by omega)]
  rw [besideBackspace, besideRange]
  rcases Nat.lt_or_gt_of_ne hne with hlt | hgt
  · rw [if_pos (before_left_of_row nl hp hq hlt), if_neg (by omega)]
  · have hle : (left t q).row ≤ q.row := by
      rw [hrow]
      split <;> omega
    have hbehind : ¬ before p (left t q) := by unfold before; omega
    rw [if_neg hbehind, if_neg (show ¬ p.row = q.row from hne), hrow]
    by_cases hjoin : q.col = 0 ∧ 0 < q.row
    · rw [if_pos hjoin, if_pos ⟨hjoin.1, hjoin.2, hgt⟩, show q.row - (q.row - 1) = 1 by omega]
    · rw [if_neg hjoin, if_neg (fun h => hjoin ⟨h.1, h.2.1⟩), Nat.sub_self, Nat.sub_zero]

/-- A deletion does so too; where the rows of both carets join, the row joined to is
that of `p`. -/
theorem offset_besideBackspace (nl : α) (hp : Valid t p) (hq : Valid t q) (hne : p.row ≠ q.row)
    (h0 : 0 < offset t q) :
    Valid (backspace t q) (besideBackspace q p) ∧
      offset (backspace t q) (besideBackspace q p) =
        (caret nl t q).follow .delete (offset t p) := by
  have hoff := offset_left nl hq
  have hout : before p (left t q) ∨ before q p :=
    (Nat.lt_or_gt_of_ne hne).imp (before_left_of_row nl hp hq) Or.inl
  have hfollow : (caret nl t q).follow .delete (offset t p) =
      (Stretch.mk (offset t (left t q)) (offset t q) ([] : List α)).follow (offset t p) := by
    rcases Nat.lt_or_gt_of_ne hne with hlt | hgt
    · have hbefore := (offset_le_iff nl hp hq.left).2 (before_left_of_row nl hp hq hlt)
      rw [Stretch.follow_of_le hbefore, Caret.follow_delete_of_le
        (Nat.le_of_lt (offset_lt nl hp hq hlt))]
    · have hbehind := offset_lt nl hq hp hgt
      rw [Caret.follow_delete_of_lt h0 hbehind, Stretch.follow_of_lt (by simp only; omega)]
      simp only [List.length_nil]
      omega
  rw [← besideRange_left nl hp hq hne, hfollow, backspace_eq_deleteRange hq]
  exact offset_besideRange nl hq.left hq (before_left t q) hp hout

/-! ## A range replaced -/

/-- Putting `s` in is putting it into the string. -/
theorem flat_paste [DecidableEq α] (nl : α) (hq : Valid t q) (s : List α) :
    flat nl (paste nl t q s) = (Stretch.mk (offset t q) (offset t q) s).apply (flat nl t) := by
  induction s generalizing t q with
  | nil => simp [paste_nil nl hq, Stretch.apply]
  | cons c s ih =>
    have hstep := caret_insert nl hq c
    have hle := offset_le nl hq
    simp only [caret, Caret.step, Caret.mk.injEq] at hstep
    obtain ⟨u, v, hflat, hu⟩ : ∃ u v, flat nl t = u ++ v ∧ u.length = offset t q :=
      ⟨_, _, (List.take_append_drop (offset t q) _).symm, by
        rw [List.length_take, Nat.min_eq_left hle]⟩
    rw [paste_cons nl hq, ih (hq.insert nl c), hstep.1, hstep.2, hflat, ← hu]
    have htake : u.take (u.length + 1) = u := List.take_of_length_le (Nat.le_succ _)
    have hdrop : u.drop (u.length + 1) = [] := List.drop_eq_nil_of_le (Nat.le_succ _)
    simp [Stretch.apply, List.take_append, List.drop_append, htake, hdrop]

/-- The text from `b` to `e` gives way to `x`. -/
def replaceRange [DecidableEq α] (nl : α) (t : List (List α)) (b e : Pos) (x : List α) :
    List (List α) :=
  paste nl (deleteRange t b e) b x

theorem flat_replaceRange [DecidableEq α] (nl : α) {b e : Pos} (hb : Valid t b) (he : Valid t e)
    (hbe : before b e) (x : List α) :
    flat nl (replaceRange nl t b e x) =
      (Stretch.mk (offset t b) (offset t e) x).apply (flat nl t) := by
  obtain ⟨f, m, g, hflat, hstart, hend, -, hcut⟩ := flat_range nl hb he hbe
  have htext : flat nl (deleteRange t b e) = f ++ g := congrArg Caret.text hcut
  have hoff : offset (deleteRange t b e) b = f.length := congrArg Caret.off hcut
  have hdrop : (f ++ m ++ g).drop (f.length + m.length) = g := by
    rw [← List.length_append, List.drop_left]
  rw [replaceRange, flat_paste nl (hb.deleteRange he hbe), htext, hoff, hflat, hstart, hend]
  simp only [Stretch.apply, List.take_left, List.drop_left, hdrop]
  rw [List.append_assoc f m g, List.take_left]

/-- Where the caret `p`, outside the range, is after that. -/
def besideReplace [DecidableEq α] (nl : α) (b e : Pos) (x : List α) (p : Pos) : Pos :=
  besidePaste nl b x (besideRange b e p)

theorem besideRange_self (b p : Pos) : besideRange b b p = p := by
  unfold besideRange
  split
  · rfl
  · next hnot =>
    unfold before at hnot
    ext
    · simp
    · simp only
      split <;> omega

theorem besidePaste_nil [DecidableEq α] (nl : α) (b p : Pos) : besidePaste nl b [] p = p := by
  simp [besidePaste]

/-- A range that is only deleted, or a text put in on another row. -/
theorem offset_besideReplace [DecidableEq α] (nl : α) {b e : Pos} {x : List α} (hb : Valid t b)
    (he : Valid t e) (hbe : before b e) (hp : Valid t p) (hout : before p b ∨ before e p)
    (hx : x = [] ∨ (b = e ∧ p.row ≠ b.row)) :
    Valid (replaceRange nl t b e x) (besideReplace nl b e x p) ∧
      offset (replaceRange nl t b e x) (besideReplace nl b e x p) =
        (Stretch.mk (offset t b) (offset t e) x).follow (offset t p) := by
  rcases hx with rfl | ⟨rfl, hrow⟩
  · rw [besideReplace, besidePaste_nil, replaceRange, paste_nil nl (hb.deleteRange he hbe)]
    exact offset_besideRange nl hb he hbe hp hout
  · rw [besideReplace, besideRange_self, replaceRange, deleteRange_self hb]
    exact offset_besidePaste nl hp hb hrow x

/-- The caret keeps its row and column if it is before the range, or no line end goes or
comes. -/
theorem besideReplace_eq_iff [DecidableEq α] (nl : α) {b e : Pos} {x : List α}
    (hbe : before b e) (hout : before p b ∨ before e p)
    (hx : (x = [] ∧ (b.row = e.row → p.row ≠ b.row)) ∨ (b = e ∧ p.row ≠ b.row)) :
    besideReplace nl b e x p = p ↔ before p b ∨ (b.row = e.row ∧ nl ∉ x) := by
  rcases hx with ⟨rfl, hrow⟩ | ⟨rfl, hrow⟩
  · rw [besideReplace, besidePaste_nil, besideRange]
    by_cases hbefore : before p b
    · simp [hbefore]
    · have hafter := hout.resolve_left hbefore
      rw [if_neg hbefore]
      unfold before at hafter hbe
      simp only [hbefore, false_or, List.not_mem_nil, not_false_eq_true, and_true]
      constructor
      · intro h
        have := congrArg Pos.row h
        simp only at this
        omega
      · intro h
        have := hrow h
        ext
        · simp only
          omega
        · simp only
          rw [if_neg (by omega)]
  · rw [besideReplace, besideRange_self, besidePaste]
    have hpos : before p b ↔ p.row < b.row := by
      unfold before
      omega
    rw [hpos, ← List.count_eq_zero]
    constructor
    · intro h
      have := congrArg Pos.row h
      simp only at this
      split at this <;> omega
    · intro h
      ext
      · simp only
        split <;> omega
      · rfl

end LCode.Text
