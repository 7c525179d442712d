import LCode.Lib.Text
import Mathlib.Algebra.GroupWithZero.Nat

/-!
# Texts as strings

The rows of a text joined by a separator are one string, and a position is an offset
into it. An edit of the rows is then an edit of the string at the offset: this module
has the equations, and the string with a caret they amount to.
-/

namespace LCode

variable {α : Type*}

/-! ## A string with a caret -/

/-- A string, and the number of characters before the caret. -/
@[ext]
structure Caret (α : Type*) where
  text : List α
  off : Nat
  deriving DecidableEq, Repr

namespace Caret

inductive Op (α : Type*) where
  | insert (c : α)
  | delete
  | left
  | right
  deriving DecidableEq, Repr

def step (s : Caret α) : Op α → Caret α
  | .insert c => ⟨s.text.take s.off ++ c :: s.text.drop s.off, s.off + 1⟩
  | .delete => if 0 < s.off then ⟨s.text.eraseIdx (s.off - 1), s.off - 1⟩ else s
  | .left => { s with off := s.off - 1 }
  | .right => { s with off := min (s.off + 1) s.text.length }

/-- The characters on the two sides of the caret. -/
def before (s : Caret α) : Option α := if s.off = 0 then none else s.text[s.off - 1]?

def after (s : Caret α) : Option α := s.text[s.off]?

/-- Where another caret goes when the operation is run at this one. -/
def follow (s : Caret α) : Op α → Nat → Nat
  | .insert _, o => if s.off < o then o + 1 else o
  | .delete, o => if 0 < s.off ∧ s.off < o then o - 1 else o
  | .left, o => o
  | .right, o => o

theorem step_insert {u v : List α} {s : Caret α} (htext : s.text = u ++ v)
    (hoff : s.off = u.length) (c : α) : s.step (.insert c) = ⟨u ++ c :: v, u.length + 1⟩ := by
  simp [step, htext, hoff]

theorem step_delete {u v : List α} {c : α} {s : Caret α} (htext : s.text = u ++ c :: v)
    (hoff : s.off = u.length + 1) : s.step .delete = ⟨u ++ v, u.length⟩ := by
  simp [step, htext, hoff, List.eraseIdx_append_of_length_le]

theorem follow_insert_of_lt {s : Caret α} {o : Nat} (h : s.off < o) (c : α) :
    s.follow (.insert c) o = o + 1 := if_pos h

theorem follow_insert_of_le {s : Caret α} {o : Nat} (h : o ≤ s.off) (c : α) :
    s.follow (.insert c) o = o := if_neg (by omega)

theorem follow_delete_of_lt {s : Caret α} {o : Nat} (h0 : 0 < s.off) (h : s.off < o) :
    s.follow .delete o = o - 1 := if_pos ⟨h0, h⟩

theorem follow_delete_of_le {s : Caret α} {o : Nat} (h : o ≤ s.off) :
    s.follow .delete o = o := if_neg (by omega)

theorem getElem?_insert {x : List α} {k : Nat} (h : k ≤ x.length) (c : α) (i : Nat) :
    (x.take k ++ c :: x.drop k)[i]? = if i < k then x[i]? else if i = k then some c else x[i - 1]? := by
  have hlen : (x.take k).length = k := by
    rw [List.length_take]
    omega
  split
  · next hlt => rw [List.getElem?_append_left (by omega), List.getElem?_take_of_lt hlt]
  · next hge =>
    rw [List.getElem?_append_right (by omega), hlen]
    split
    · next heq => simp [heq]
    · next hne =>
      obtain ⟨j, rfl⟩ : ∃ j, i = k + 1 + j := ⟨i - k - 1, by omega⟩
      rw [show k + 1 + j - k = j + 1 by omega, List.getElem?_cons_succ, List.getElem?_drop]
      congr 1
      omega

/-- An insertion leaves another caret between the characters it was between. -/
theorem beside_insert {s : Caret α} (h : s.off ≤ s.text.length) {o : Nat} (hne : o ≠ s.off)
    (c : α) :
    before ⟨(s.step (.insert c)).text, s.follow (.insert c) o⟩ = before ⟨s.text, o⟩ ∧
      after ⟨(s.step (.insert c)).text, s.follow (.insert c) o⟩ = after ⟨s.text, o⟩ := by
  have hcell := getElem?_insert h c
  by_cases hlt : s.off < o
  · rw [follow_insert_of_lt hlt]
    simp only [before, after, step, hcell, if_neg (show ¬ o + 1 = 0 by omega),
      if_neg (show ¬ o = 0 by omega), Nat.add_sub_cancel]
    rw [if_neg (by omega), if_neg (by omega), if_neg (by omega), if_neg (by omega)]
    exact ⟨rfl, rfl⟩
  · rw [follow_insert_of_le (Nat.not_lt.1 hlt)]
    simp only [before, after, step, hcell]
    rw [if_pos (show o < s.off by omega)]
    refine ⟨?_, rfl⟩
    split
    · rfl
    · rw [if_pos (by omega)]

/-- A deletion does so too, unless it takes the character behind the caret. -/
theorem beside_delete {s : Caret α} (h0 : 0 < s.off) {o : Nat} (hne : o ≠ s.off) :
    before ⟨(s.step .delete).text, s.follow .delete o⟩ = before ⟨s.text, o⟩ ∧
      (o + 1 ≠ s.off →
        after ⟨(s.step .delete).text, s.follow .delete o⟩ = after ⟨s.text, o⟩) := by
  by_cases hlt : s.off < o
  · rw [follow_delete_of_lt h0 hlt]
    simp only [before, after, step, if_pos h0, List.getElem?_eraseIdx,
      if_neg (show ¬ o - 1 = 0 by omega), if_neg (show ¬ o = 0 by omega)]
    rw [if_neg (by omega), if_neg (by omega), show o - 1 - 1 + 1 = o - 1 by omega,
      show o - 1 + 1 = o by omega]
    exact ⟨rfl, fun _ => rfl⟩
  · rw [follow_delete_of_le (Nat.not_lt.1 hlt)]
    simp only [before, after, step, if_pos h0, List.getElem?_eraseIdx]
    refine ⟨?_, fun hne' => ?_⟩
    · split
      · rfl
      · rw [if_pos (by omega)]
    · rw [if_pos (by omega)]

end Caret

/-! ## A stretch replaced -/

/-- A stretch of a string, and what is put in its place. -/
structure Stretch (α : Type*) where
  start : Nat
  stop : Nat
  new : List α

namespace Stretch

def apply (s : Stretch α) (x : List α) : List α := x.take s.start ++ s.new ++ x.drop s.stop

/-- Where a caret that is not inside the stretch goes. -/
def follow (s : Stretch α) (o : Nat) : Nat :=
  if o ≤ s.start then o else o - (s.stop - s.start) + s.new.length

theorem follow_of_le {s : Stretch α} {o : Nat} (h : o ≤ s.start) : s.follow o = o := if_pos h

theorem follow_of_lt {s : Stretch α} {o : Nat} (h : s.start < o) :
    s.follow o = o - (s.stop - s.start) + s.new.length := if_neg (by omega)

end Stretch

/-! ## Rows as a string -/

namespace Text

variable (nl : α)

/-- The rows joined by `nl`. -/
def flat (t : List (List α)) : List α := [nl].intercalate t

/-- The rows, each with `nl` behind it. -/
def above (a : List (List α)) : List α := a.flatMap (· ++ [nl])

/-- The rows, each with `nl` before it. -/
def below (z : List (List α)) : List α := z.flatMap (nl :: ·)

/-- The number of characters of the string before `p`. -/
def offset (t : List (List α)) (p : Pos) : Nat :=
  ((t.take p.row).map fun x => x.length + 1).sum + p.col

/-- The string of the text with its caret at `p`. -/
def caret (t : List (List α)) (p : Pos) : Caret α := ⟨flat nl t, offset t p⟩

variable {nl}

@[simp] theorem above_nil : above nl [] = [] := rfl

@[simp] theorem below_nil : below nl [] = [] := rfl

@[simp] theorem above_append (a b : List (List α)) : above nl (a ++ b) = above nl a ++ above nl b :=
  List.flatMap_append

@[simp] theorem below_append (a b : List (List α)) : below nl (a ++ b) = below nl a ++ below nl b :=
  List.flatMap_append

@[simp] theorem above_cons (x : List α) (a : List (List α)) :
    above nl (x :: a) = x ++ nl :: above nl a := by
  simp [above]

@[simp] theorem below_cons (x : List α) (z : List (List α)) :
    below nl (x :: z) = nl :: x ++ below nl z := rfl

/-- What is before and what is behind a row differ in where the separators stand. -/
theorem below_eq (nl : α) (a : List (List α)) : below nl a ++ [nl] = nl :: above nl a := by
  induction a with
  | nil => rfl
  | cons x a ih => simp [ih]

theorem above_length (a : List (List α)) :
    (above nl a).length = (a.map fun x => x.length + 1).sum := by
  simp [above, List.length_flatMap]

theorem flat_cons (x : List α) (z : List (List α)) : flat nl (x :: z) = x ++ below nl z := by
  induction z generalizing x with
  | nil => simp [flat]
  | cons y z ih =>
    have hcut : flat nl (x :: y :: z) = x ++ [nl] ++ flat nl (y :: z) := List.intercalate_cons_cons
    rw [hcut, ih]
    simp

theorem flat_append (a z : List (List α)) (x : List α) :
    flat nl (a ++ x :: z) = above nl a ++ x ++ below nl z := by
  cases a with
  | nil => simp [flat_cons]
  | cons y a =>
    have hseps := congrArg (· ++ (x ++ below nl z)) (below_eq nl a)
    simp only [List.append_assoc, List.nil_append, List.cons_append] at hseps
    simp only [List.cons_append, flat_cons, below_append, below_cons, above_cons,
      List.append_assoc]
    rw [hseps]

theorem offset_append (nl : α) {a z : List (List α)} {x : List α} {p : Pos}
    (hr : p.row = a.length) : offset (a ++ x :: z) p = (above nl a).length + p.col := by
  rw [offset, hr, List.take_left' rfl, above_length]

/-- The string is cut at the offset as the row is at the column. -/
theorem caret_append (nl : α) {a z : List (List α)} {u v : List α} {p : Pos} (hr : p.row = a.length)
    (hc : p.col = u.length) :
    caret nl (a ++ (u ++ v) :: z) p =
      ⟨(above nl a ++ u) ++ (v ++ below nl z), (above nl a ++ u).length⟩ := by
  rw [caret, flat_append, offset_append nl hr, hc, List.length_append]
  simp only [List.append_assoc]

/-- The caret at the start of a row. -/
theorem caret_start (nl : α) {a z : List (List α)} {x : List α} {p : Pos} (hr : p.row = a.length)
    (hc : p.col = 0) :
    caret nl (a ++ x :: z) p = ⟨above nl a ++ (x ++ below nl z), (above nl a).length⟩ := by
  have h := caret_append nl (u := []) (v := x) (z := z) hr hc
  simpa using h

theorem offset_le {t : List (List α)} {p : Pos} (nl : α) (h : Valid t p) :
    offset t p ≤ (flat nl t).length := by
  obtain ⟨a, u, v, z, rfl, hr, hc⟩ := h.split
  have hcut := caret_append nl (v := v) (z := z) hr hc
  simp only [caret, Caret.mk.injEq] at hcut
  rw [hcut.1, hcut.2]
  simp only [List.length_append]
  omega

section Edits

variable {t : List (List α)} {p : Pos}

theorem caret_insert [DecidableEq α] (nl : α) (h : Valid t p) (c : α) :
    caret nl (insert nl t p c) (afterInsert nl p c) = (caret nl t p).step (.insert c) := by
  obtain ⟨a, u, v, z, rfl, hr, hc⟩ := h.split
  have hcut := caret_append nl (v := v) (z := z) hr hc
  rw [Caret.step_insert (congrArg Caret.text hcut) (congrArg Caret.off hcut)]
  by_cases hn : c = nl
  · subst hn
    have hsplit : a ++ u :: v :: z = (a ++ [u]) ++ v :: z := by simp
    rw [insert_nl hr hc, afterInsert_nl, hsplit, caret_start c (by simp [hr]) rfl]
    simp [Nat.add_assoc]
  · have hrow : u ++ c :: v = (u ++ [c]) ++ v := by simp
    have hnew := caret_append nl (u := u ++ [c]) (v := v) (z := z) (p := ⟨p.row, p.col + 1⟩) hr
      (by simp [hc])
    rw [insert_char hr hc hn, afterInsert_char _ _ hn, hrow, hnew]
    simp [Nat.add_assoc]

theorem caret_backspace (nl : α) (h : Valid t p) :
    caret nl (backspace t p) (afterBackspace t p) = (caret nl t p).step .delete := by
  by_cases h0 : 0 < p.col
  · obtain ⟨a, u, c, v, z, rfl, hr, hc⟩ := h.split_pred h0
    have hrow : u ++ c :: v = (u ++ [c]) ++ v := by simp
    have hcut := caret_append nl (u := u ++ [c]) (v := v) (z := z) hr (by simp [hc])
    rw [← hrow] at hcut
    have htext : (caret nl (a ++ (u ++ c :: v) :: z) p).text =
        (above nl a ++ u) ++ c :: (v ++ below nl z) := by
      rw [hcut]
      simp
    have hoff : (caret nl (a ++ (u ++ c :: v) :: z) p).off = (above nl a ++ u).length + 1 := by
      rw [hcut]
      simp [Nat.add_assoc]
    have hnew := caret_append nl (u := u) (v := v) (z := z) (p := ⟨p.row, p.col - 1⟩) hr
      (by simp [hc])
    rw [Caret.step_delete htext hoff, backspace_char hr hc, afterBackspace, if_pos h0, hnew]
  · by_cases h1 : 0 < p.row
    · obtain ⟨a, x, y, z, rfl, hr⟩ := h.split_row h1
      have hrows : a ++ x :: y :: z = (a ++ [x]) ++ y :: z := by simp
      have hprev : row (a ++ x :: y :: z) (p.row - 1) = x := row_append (by omega)
      have hcut : caret nl (a ++ x :: y :: z) p =
          ⟨above nl (a ++ [x]) ++ (y ++ below nl z), (above nl (a ++ [x])).length⟩ := by
        rw [hrows]
        exact caret_start nl (by simp [hr]) (by omega)
      have htext : (caret nl (a ++ x :: y :: z) p).text =
          (above nl a ++ x) ++ nl :: (y ++ below nl z) := by
        rw [hcut]
        simp
      have hoff : (caret nl (a ++ x :: y :: z) p).off = (above nl a ++ x).length + 1 := by
        rw [hcut]
        simp [Nat.add_assoc]
      rw [Caret.step_delete htext hoff, backspace_join hr (by omega), afterBackspace, if_neg h0,
        if_pos h1, hprev, caret_append nl (by simp [hr]) rfl]
    · have hzero : (caret nl t p).off = 0 := by
        simp only [caret, offset]
        rw [Nat.eq_zero_of_not_pos h0, Nat.eq_zero_of_not_pos h1]
        rfl
      rw [Caret.step, if_neg (by omega), backspace, afterBackspace, if_neg h0, if_neg h0,
        if_neg h1, if_neg h1]

theorem offset_left (nl : α) (h : Valid t p) : offset t (left t p) = offset t p - 1 := by
  unfold left
  split
  · simp only [offset]
    omega
  · next h0 =>
    split
    · next h1 =>
      obtain ⟨a, x, y, z, rfl, hr⟩ := h.split_row h1
      have hrows : a ++ x :: y :: z = (a ++ [x]) ++ y :: z := by simp
      have hprev : row (a ++ x :: y :: z) (p.row - 1) = x := row_append (by omega)
      rw [hprev, offset_append nl (show p.row - 1 = a.length by omega), hrows,
        offset_append nl (by simp [hr])]
      simp
      omega
    · next h1 =>
      simp only [offset, Nat.eq_zero_of_not_pos h0, Nat.eq_zero_of_not_pos h1]
      rfl

theorem caret_left (nl : α) (h : Valid t p) : caret nl t (left t p) = (caret nl t p).step .left := by
  simp only [caret, Caret.step, offset_left nl h]

theorem caret_right (nl : α) (h : Valid t p) : caret nl t (right t p) = (caret nl t p).step .right := by
  have hoff : offset t (right t p) = min (offset t p + 1) (flat nl t).length := by
    have hle := offset_le nl h.right
    obtain ⟨a, u, v, z, rfl, hr, hc⟩ := h.split
    have hrow : row (a ++ (u ++ v) :: z) p.row = u ++ v := row_append hr
    unfold right at hle ⊢
    rw [hrow] at hle ⊢
    split
    · next hlt =>
      rw [if_pos hlt] at hle
      have hnext : offset (a ++ (u ++ v) :: z) ⟨p.row, p.col + 1⟩ =
          offset (a ++ (u ++ v) :: z) p + 1 := rfl
      omega
    · next hlt =>
      rw [if_neg hlt] at hle
      obtain rfl : v = [] := by
        refine List.eq_nil_of_length_eq_zero ?_
        rw [List.length_append] at hlt
        omega
      rw [List.append_nil] at hle ⊢
      split
      · next hmore =>
        rw [if_pos hmore] at hle
        cases z with
        | nil => simp [hr] at hmore
        | cons y z =>
          have hrows : a ++ u :: y :: z = (a ++ [u]) ++ y :: z := by simp
          have hnext : offset (a ++ u :: y :: z) ⟨p.row + 1, 0⟩ =
              offset (a ++ u :: y :: z) p + 1 := by
            rw [offset_append nl hr, hrows, offset_append nl (by simp [hr])]
            simp [hc, Nat.add_assoc]
          omega
      · next hmore =>
        obtain rfl : z = [] := by
          refine List.eq_nil_of_length_eq_zero ?_
          simp only [List.length_append, List.length_cons, hr] at hmore
          omega
        have hend : (flat nl (a ++ [u])).length = offset (a ++ [u]) p := by
          rw [flat_append, offset_append nl hr, hc]
          simp
        omega
  simp only [caret, Caret.step, hoff]

end Edits

/-! ## Ranges -/

section Ranges

variable {t a z : List (List α)} {u v : List α} {p q : Pos}

/-- What is copied of a range inside one row. -/
theorem copy_span {m : List α} (hr : p.row = a.length) (hc : p.col = u.length)
    (hr' : q.row = p.row) (hc' : q.col = p.col + m.length) :
    copy nl (a ++ (u ++ m ++ v) :: z) p q = m := by
  have hrow : row (a ++ (u ++ m ++ v) :: z) q.row = u ++ m ++ v := row_append (hr'.trans hr)
  have htake : (u ++ m ++ v).take q.col = u ++ m := by
    rw [hc', hc, ← List.length_append, List.take_left]
  rw [copy, hr', Nat.sub_self, copyRows, copyRows, Nat.sub_zero, rowRange, hrow, if_pos rfl,
    if_pos hr', htake, hc, List.drop_left]
  simp

/-- The last rows of a range, which has begun above. -/
theorem copyRows_last (nl : α) {x : List α} {mid : List (List α)} (hp : p.row < a.length)
    (hr : q.row = a.length + mid.length) (hc : q.col = x.length) :
    copyRows nl (a ++ (mid ++ (x ++ v) :: z)) p q (mid.length + 1) = above nl mid ++ x := by
  induction mid generalizing a with
  | nil =>
    have hrow : row (a ++ (x ++ v) :: z) q.row = x ++ v := row_append hr
    have hne : q.row ≠ p.row := by omega
    simp only [List.length_nil, List.nil_append, copyRows, Nat.sub_zero, rowRange, if_true, hne,
      if_false, hrow, hc]
    simp
  | cons y mid ih =>
    have hlen : q.row - (mid.length + 1) = a.length := by
      rw [List.length_cons] at hr
      omega
    have hrow : row (a ++ (y :: mid ++ (x ++ v) :: z)) a.length = y := row_append rfl
    have hne : a.length ≠ q.row := by
      rw [List.length_cons] at hr
      omega
    have hne' : a.length ≠ p.row := by omega
    have hrest := ih (a := a ++ [y]) (by simp; omega) (by simp [hr]; omega)
    rw [List.append_assoc, List.singleton_append, ← List.cons_append] at hrest
    rw [List.length_cons, copyRows, hlen, rowRange, hrow, if_neg hne, if_neg hne', hrest]
    simp

/-- What is copied of a range over several rows. -/
theorem copy_rows {m x : List α} {mid : List (List α)} (hr : p.row = a.length)
    (hc : p.col = u.length) (hr' : q.row = p.row + mid.length + 1) (hc' : q.col = x.length) :
    copy nl (a ++ (u ++ m) :: (mid ++ (x ++ v) :: z)) p q = m ++ nl :: (above nl mid ++ x) := by
  have hlen : q.row - p.row + 1 = mid.length + 1 + 1 := by omega
  have hfirst : q.row - (mid.length + 1) = p.row := by omega
  have hne : p.row ≠ q.row := by omega
  have hlast := copyRows_last nl (v := v) (z := z) (a := a ++ [u ++ m])
    (p := p) (show p.row < (a ++ [u ++ m]).length by simp [hr])
    (show q.row = (a ++ [u ++ m]).length + mid.length by simp; omega) hc'
  rw [List.append_assoc, List.singleton_append] at hlast
  rw [copy, hlen, copyRows, hfirst, rowRange, row_append hr, if_neg hne, if_pos rfl, hlast,
    List.take_length, hc, List.drop_left]
  rfl

/-- A range of the text is a stretch of the string: what is copied of it, and what is
left when it is deleted. -/
theorem flat_range (nl : α) (hp : Valid t p) (hq : Valid t q) (hpq : before p q) :
    ∃ f m g, flat nl t = f ++ m ++ g ∧ offset t p = f.length ∧
      offset t q = f.length + m.length ∧ copy nl t p q = m ∧
      caret nl (deleteRange t p q) p = ⟨f ++ g, f.length⟩ := by
  rcases hpq with hlt | ⟨hrow, hcol⟩
  · obtain ⟨a, u, m, mid, x, v, z, rfl, hr, hc, hr', hc'⟩ := hp.split_rows hq hlt
    have hrows : a ++ (u ++ m) :: (mid ++ (x ++ v) :: z) =
        (a ++ (u ++ m) :: mid) ++ (x ++ v) :: z := by simp
    refine ⟨above nl a ++ u, m ++ nl :: (above nl mid ++ x), v ++ below nl z, ?_, ?_, ?_,
      copy_rows hr hc hr' hc', ?_⟩
    · rw [hrows, flat_append]
      simp
    · rw [offset_append nl hr, hc, List.length_append]
    · rw [hrows, offset_append nl (by simp [hr, hr', Nat.add_assoc]), hc']
      simp only [above_append, above_cons, List.length_append, List.length_cons]
      omega
    · rw [deleteRange_rows hr hc hr' hc', caret_append nl hr hc]
  · obtain ⟨a, u, m, v, z, rfl, hr, hc, hc'⟩ := hp.split_span hq hrow.symm hcol
    refine ⟨above nl a ++ u, m, v ++ below nl z, ?_, ?_, ?_, copy_span hr hc hrow.symm hc', ?_⟩
    · rw [flat_append]
      simp
    · rw [offset_append nl hr, hc, List.length_append]
    · rw [offset_append nl (hrow.symm.trans hr), hc', hc, List.length_append, Nat.add_assoc]
    · rw [deleteRange_span hr hc hrow.symm hc', caret_append nl hr hc]

/-- Document order is the order of the offsets. -/
theorem offset_lt (nl : α) (hp : Valid t p) (hq : Valid t q) (hlt : p.row < q.row) :
    offset t p < offset t q := by
  obtain ⟨a, u, m, mid, x, v, z, rfl, hr, hc, hr', hc'⟩ := hp.split_rows hq hlt
  have hrows : a ++ (u ++ m) :: (mid ++ (x ++ v) :: z) =
      (a ++ (u ++ m) :: mid) ++ (x ++ v) :: z := by simp
  rw [offset_append nl hr, hrows, offset_append nl (by simp [hr, hr', Nat.add_assoc]), hc]
  simp only [above_append, above_cons, List.length_append, List.length_cons]
  omega

theorem offset_le_iff (nl : α) (hp : Valid t p) (hq : Valid t q) :
    offset t p ≤ offset t q ↔ before p q := by
  rcases Nat.lt_trichotomy p.row q.row with hlt | heq | hgt
  · exact ⟨fun _ => Or.inl hlt, fun _ => Nat.le_of_lt (offset_lt nl hp hq hlt)⟩
  · simp [offset, heq, before]
  · have := offset_lt nl hq hp hgt
    unfold before
    omega

theorem offset_inj (nl : α) (hp : Valid t p) (hq : Valid t q) (h : offset t p = offset t q) :
    p = q := by
  have hpq := (offset_le_iff nl hp hq).1 (Nat.le_of_eq h)
  have hqp := (offset_le_iff nl hq hp).1 (Nat.le_of_eq h.symm)
  unfold before at hpq hqp
  exact Pos.ext (by omega) (by omega)

end Ranges

end Text

end LCode
