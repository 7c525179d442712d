import LCode.Lib.Block

/-!
# Texts with carets

A text is its list of rows, over any type of characters. Every edit replaces a
stretch of rows by others (`splice`), so what an edit does to the rows above
and below it is a fact about `splice`.
-/

namespace LCode

variable {α : Type*}

/-! ## Replacing a stretch of a list -/

/-- The list with the `d` elements from index `i` on replaced by `new`. -/
def splice (t : List α) (i d : Nat) (new : List α) : List α :=
  t.take i ++ new ++ t.drop (i + d)

theorem splice_append {a m z w : List α} {i d : Nat} (hi : i = a.length) (hd : d = m.length) :
    splice (a ++ m ++ z) i d w = a ++ w ++ z := by
  subst hi hd
  simp [splice]

theorem splice_cons {a z w : List α} {x : α} {i : Nat} (hi : i = a.length) :
    splice (a ++ x :: z) i 1 w = a ++ w ++ z := by
  have := splice_append (m := [x]) (z := z) (w := w) hi rfl
  simpa using this

theorem splice_length {t w : List α} {i d : Nat} (h : i + d ≤ t.length) :
    (splice t i d w).length + d = t.length + w.length := by
  simp only [splice, List.length_append, List.length_take, List.length_drop]
  omega

/-- What stands in place of the stretch is replaced in turn. -/
theorem splice_splice {t w : List α} {x : α} {i d : Nat} (hi : i ≤ t.length) :
    splice (splice t i d [x]) i 1 w = splice t i d w := by
  have hx : splice t i d [x] = t.take i ++ x :: t.drop (i + d) := by
    rw [splice, List.append_assoc, List.singleton_append]
  rw [hx, splice_cons (by rw [List.length_take, Nat.min_eq_left hi])]
  rfl

/-- Rows above the stretch stay. -/
theorem splice_getElem?_lt {t w : List α} {i d k : Nat} (h : k < i) (hi : i ≤ t.length) :
    (splice t i d w)[k]? = t[k]? := by
  rw [splice, List.append_assoc, List.getElem?_append_left (by simp; omega),
    List.getElem?_take_of_lt h]

/-- Rows below the stretch move with its length. -/
theorem splice_getElem?_ge {t w : List α} {i d k : Nat} (h : i + d ≤ k) (hi : i + d ≤ t.length) :
    (splice t i d w)[k - d + w.length]? = t[k]? := by
  rw [splice, List.getElem?_append_right (by simp; omega), List.getElem?_drop]
  congr 1
  simp
  omega

/-! ## Rows and positions -/

/-- A position between two characters of a row. -/
@[ext]
structure Pos where
  row : Nat
  col : Nat
  deriving DecidableEq, Repr

namespace Text

/-- The row `r`; empty outside the text. -/
def row (t : List (List α)) (r : Nat) : List α := t.getD r []

theorem row_append {a z : List (List α)} {x : List α} {r : Nat} (hr : r = a.length) :
    row (a ++ x :: z) r = x := by
  subst hr
  simp [row, List.getD]

theorem row_eq_of_getElem? {s t : List (List α)} {r k : Nat} (h : s[r]? = t[k]?) :
    row s r = row t k := by
  simp [row, List.getD, h]

theorem row_eq_getElem {t : List (List α)} {r : Nat} (h : r < t.length) : row t r = t[r] := by
  simp [row, List.getD, h]

theorem row_beyond {t : List (List α)} {r : Nat} (h : t.length ≤ r) : row t r = [] := by
  rw [row, List.getD_eq_getElem?_getD, List.getElem?_eq_none h, Option.getD_none]

/-- A new row of a replaced stretch. -/
theorem row_splice_new {t w : List (List α)} {i d k : Nat} (hi : i ≤ t.length) (hk : i ≤ k)
    (hlt : k < i + w.length) : row (splice t i d w) k = row w (k - i) := by
  have hlen : (t.take i).length = i := by simp [hi]
  refine row_eq_of_getElem? ?_
  rw [splice, List.append_assoc, List.getElem?_append_right (by omega), hlen,
    List.getElem?_append_left (by omega)]

/-- Where the row `k` outside a replaced stretch has gone. -/
def moveRow (i d n k : Nat) : Nat := if k < i then k else k - d + n

theorem moveRow_lt {i d n k : Nat} (h : k < i) : moveRow i d n k = k := if_pos h

theorem moveRow_ge {i d n k : Nat} (h : i ≤ k) : moveRow i d n k = k - d + n :=
  if_neg (Nat.not_lt.2 h)

theorem row_splice {t w : List (List α)} {i d k : Nat} (hi : i + d ≤ t.length)
    (hk : k < i ∨ i + d ≤ k) : row (splice t i d w) (moveRow i d w.length k) = row t k := by
  refine row_eq_of_getElem? ?_
  unfold moveRow
  split
  · next hlt => exact splice_getElem?_lt hlt (by omega)
  · exact splice_getElem?_ge (by omega) hi

/-- The position lies in the text. -/
def Valid (t : List (List α)) (p : Pos) : Prop :=
  p.row < t.length ∧ p.col ≤ (row t p.row).length

instance (t : List (List α)) (p : Pos) : Decidable (Valid t p) :=
  inferInstanceAs (Decidable (_ ∧ _))

/-- A text cut at a position of it. -/
theorem Valid.split {t : List (List α)} {p : Pos} (h : Valid t p) :
    ∃ a u v z, t = a ++ (u ++ v) :: z ∧ p.row = a.length ∧ p.col = u.length := by
  obtain ⟨a, z, ht, hr⟩ := exists_eq_append_cons h.1
  have hlt : p.row < t.length := h.1
  have hrow : row t p.row = t[p.row] := by simp [row, List.getD, hlt]
  obtain ⟨u, v, hx, hc⟩ := exists_eq_append (x := t[p.row]) (i := p.col) (hrow ▸ h.2)
  exact ⟨a, u, v, z, by rw [← hx]; exact ht, hr, hc⟩

theorem valid_append {a z : List (List α)} {u v : List α} {p : Pos} (hr : p.row = a.length)
    (hc : p.col = u.length) : Valid (a ++ (u ++ v) :: z) p := by
  refine ⟨by simp only [List.length_append, List.length_cons]; omega, ?_⟩
  rw [row_append hr, hc]
  simp

/-- A position outside a replaced stretch goes with its row. -/
theorem Valid.splice {t w : List (List α)} {p : Pos} {i d : Nat} (h : Valid t p)
    (hi : i + d ≤ t.length) (hp : p.row < i ∨ i + d ≤ p.row) :
    Valid (splice t i d w) ⟨moveRow i d w.length p.row, p.col⟩ := by
  refine ⟨?_, by rw [row_splice hi hp]; exact h.2⟩
  have hlen := splice_length (w := w) hi
  have hlt := h.1
  simp only [moveRow]
  split <;> omega

/-! ## Moves -/

/-- One position back, over the end of a row. -/
def left (t : List (List α)) (p : Pos) : Pos :=
  if 0 < p.col then ⟨p.row, p.col - 1⟩
  else if 0 < p.row then ⟨p.row - 1, (row t (p.row - 1)).length⟩
  else p

/-- One position forward, over the end of a row. -/
def right (t : List (List α)) (p : Pos) : Pos :=
  if p.col < (row t p.row).length then ⟨p.row, p.col + 1⟩
  else if p.row + 1 < t.length then ⟨p.row + 1, 0⟩
  else p

/-- Row `r` in the same column, or at its end. -/
def enter (t : List (List α)) (p : Pos) (r : Nat) : Pos :=
  ⟨r, if (row t r).length < p.col then (row t r).length else p.col⟩

theorem Valid.left {t : List (List α)} {p : Pos} (h : Valid t p) : Valid t (left t p) := by
  obtain ⟨hr, hc⟩ := h
  unfold Text.left
  split
  · exact ⟨hr, Nat.le_trans (Nat.sub_le _ _) hc⟩
  · split
    · exact ⟨Nat.lt_of_le_of_lt (Nat.sub_le _ _) hr, Nat.le_refl _⟩
    · exact ⟨hr, hc⟩

theorem Valid.right {t : List (List α)} {p : Pos} (h : Valid t p) : Valid t (right t p) := by
  unfold Text.right
  split
  · next hlt => exact ⟨h.1, hlt⟩
  · split
    · next hlt => exact ⟨hlt, Nat.zero_le _⟩
    · exact h

theorem valid_enter {t : List (List α)} {r : Nat} (p : Pos) (hr : r < t.length) :
    Valid t (enter t p r) := by
  refine ⟨hr, ?_⟩
  simp only [enter]
  split <;> omega

/-! ## Deletions -/

/-- Backspace at `p`: the character before it goes, or its row joins the one
above. -/
def backspace (t : List (List α)) (p : Pos) : List (List α) :=
  if 0 < p.col then
    splice t p.row 1 [(row t p.row).take (p.col - 1) ++ (row t p.row).drop p.col]
  else if 0 < p.row then splice t (p.row - 1) 2 [row t (p.row - 1) ++ row t p.row]
  else t

/-- The caret after Backspace at `p`. -/
def afterBackspace (t : List (List α)) (p : Pos) : Pos :=
  if 0 < p.col then ⟨p.row, p.col - 1⟩
  else if 0 < p.row then ⟨p.row - 1, (row t (p.row - 1)).length⟩
  else p

/-- The caret stays only at the start of the text. -/
theorem afterBackspace_eq_iff {t : List (List α)} {p : Pos} :
    afterBackspace t p = p ↔ p = ⟨0, 0⟩ := by
  obtain ⟨row, col⟩ := p
  simp only [afterBackspace]
  split
  · simp only [Pos.mk.injEq]
    omega
  · split
    · simp only [Pos.mk.injEq]
      omega
    · simp only [Pos.mk.injEq, true_iff]
      omega

/-- The text between `p` and `q` goes. -/
def deleteRange (t : List (List α)) (p q : Pos) : List (List α) :=
  splice t p.row (q.row - p.row + 1) [(row t p.row).take p.col ++ (row t q.row).drop q.col]

theorem backspace_char {a z : List (List α)} {u v : List α} {c : α} {p : Pos}
    (hr : p.row = a.length) (hc : p.col = u.length + 1) :
    backspace (a ++ (u ++ c :: v) :: z) p = a ++ (u ++ v) :: z := by
  have hdrop : (u ++ c :: v).drop (u.length + 1) = v := by
    rw [List.drop_append]
    simp
  simp [backspace, row_append hr, splice_cons hr, hc, hdrop]

theorem backspace_join {a z : List (List α)} {x y : List α} {p : Pos}
    (hr : p.row = a.length + 1) (hc : p.col = 0) :
    backspace (a ++ x :: y :: z) p = a ++ (x ++ y) :: z := by
  have hprev : row (a ++ x :: y :: z) (p.row - 1) = x := row_append (by omega)
  have hcurr : row (a ++ x :: y :: z) p.row = y := by
    have := row_append (a := a ++ [x]) (x := y) (z := z) (r := p.row) (by simp [hr])
    simpa using this
  have hsplice := splice_append (a := a) (m := [x, y]) (z := z) (w := [x ++ y])
    (i := p.row - 1) (d := 2) (by omega) rfl
  simp only [backspace, hc, Nat.lt_irrefl, if_false, hprev, hcurr]
  rw [if_pos (by omega)]
  simpa using hsplice

/-- A position with a character before it. -/
theorem Valid.split_pred {t : List (List α)} {p : Pos} (h : Valid t p) (h0 : 0 < p.col) :
    ∃ a u c v z, t = a ++ (u ++ c :: v) :: z ∧ p.row = a.length ∧ p.col = u.length + 1 := by
  obtain ⟨a, u, v, z, rfl, hr, hc⟩ := h.split
  have hu : u ≠ [] := by
    intro hu
    rw [hu] at hc
    simp only [List.length_nil] at hc
    omega
  refine ⟨a, u.dropLast, u.getLast hu, v, z, ?_, hr, ?_⟩
  · rw [List.append_cons u.dropLast, List.dropLast_append_getLast hu]
  · rw [List.length_dropLast, hc]
    have := List.length_pos_iff.2 hu
    omega

/-- A position at the start of a row below the first. -/
theorem Valid.split_row {t : List (List α)} {p : Pos} (h : Valid t p) (h0 : 0 < p.row) :
    ∃ a x y z, t = a ++ x :: y :: z ∧ p.row = a.length + 1 := by
  obtain ⟨a, u, v, z, rfl, hr, hc⟩ := h.split
  have ha : a ≠ [] := by
    intro ha
    rw [ha] at hr
    simp only [List.length_nil] at hr
    omega
  refine ⟨a.dropLast, a.getLast ha, u ++ v, z, ?_, ?_⟩
  · rw [List.append_cons a.dropLast, List.dropLast_append_getLast ha]
  · rw [List.length_dropLast, hr]
    have := List.length_pos_iff.2 ha
    omega

/-- The caret stays in the text under Backspace. -/
theorem Valid.backspace {t : List (List α)} {p : Pos} (h : Valid t p) :
    Valid (backspace t p) (afterBackspace t p) := by
  by_cases h0 : 0 < p.col
  · obtain ⟨a, u, c, v, z, rfl, hr, hc⟩ := h.split_pred h0
    rw [backspace_char hr hc]
    simp only [afterBackspace, h0, if_true]
    exact valid_append hr (by simp [hc])
  · by_cases h1 : 0 < p.row
    · obtain ⟨a, x, y, z, rfl, hr⟩ := h.split_row h1
      have hp : row (a ++ x :: y :: z) (p.row - 1) = x := row_append (by omega)
      rw [backspace_join hr (by omega)]
      simp only [afterBackspace, h0, h1, if_true, if_false, hp]
      exact valid_append (by simp [hr]) rfl
    · simpa [Text.backspace, afterBackspace, h0, h1] using h

/-! ## Ranges -/

/-- Document order. -/
def before (p q : Pos) : Prop := p.row < q.row ∨ (p.row = q.row ∧ p.col ≤ q.col)

section Ranges

variable {a z : List (List α)} {u v : List α} {p q : Pos} (hr : p.row = a.length)
  (hc : p.col = u.length)

include hr hc

/-- A range inside one row. -/
theorem deleteRange_span {m : List α} (hr' : q.row = p.row) (hc' : q.col = p.col + m.length) :
    deleteRange (a ++ (u ++ m ++ v) :: z) p q = a ++ (u ++ v) :: z := by
  have hq : row (a ++ (u ++ m ++ v) :: z) q.row = u ++ m ++ v := row_append (hr'.trans hr)
  have htake : (u ++ m ++ v).take p.col = u := by simp [hc]
  have hdrop : (u ++ m ++ v).drop q.col = v := by
    rw [hc', hc, ← List.length_append, List.drop_left]
  rw [deleteRange, row_append hr, hq, htake, hdrop, hr', Nat.sub_self, Nat.zero_add,
    splice_cons hr]
  simp

/-- A range over several rows. -/
theorem deleteRange_rows {m x : List α} {mid : List (List α)}
    (hr' : q.row = p.row + mid.length + 1) (hc' : q.col = x.length) :
    deleteRange (a ++ (u ++ m) :: (mid ++ (x ++ v) :: z)) p q = a ++ (u ++ v) :: z := by
  have hq : row (a ++ (u ++ m) :: (mid ++ (x ++ v) :: z)) q.row = x ++ v := by
    have := row_append (a := a ++ (u ++ m) :: mid) (x := x ++ v) (z := z) (r := q.row)
      (by simp [hr', hr, Nat.add_assoc])
    simpa using this
  have hsplice := splice_append (a := a) (m := (u ++ m) :: (mid ++ [x ++ v])) (z := z)
    (w := [u ++ v]) (i := p.row) (d := q.row - p.row + 1) hr (by simp [hr']; omega)
  rw [deleteRange, row_append hr, hq, hc, hc', List.take_left, List.drop_left]
  simpa using hsplice

end Ranges

theorem deleteRange_self {t : List (List α)} {p : Pos} (hp : Valid t p) :
    deleteRange t p p = t := by
  obtain ⟨a, u, v, z, rfl, hr, hc⟩ := hp.split
  have hspan := deleteRange_span (m := []) (v := v) (z := z) (p := p) (q := p) hr hc rfl rfl
  simpa using hspan

/-- Two positions of one row. -/
theorem Valid.split_span {t : List (List α)} {p q : Pos} (hp : Valid t p) (hq : Valid t q)
    (hrow : q.row = p.row) (hcol : p.col ≤ q.col) :
    ∃ a u m v z, t = a ++ (u ++ m ++ v) :: z ∧ p.row = a.length ∧ p.col = u.length ∧
      q.col = p.col + m.length := by
  obtain ⟨a, u, v, z, rfl, hr, hc⟩ := hp.split
  have hle : q.col ≤ (u ++ v).length := by
    have := hq.2
    rwa [row_append (hrow.trans hr)] at this
  obtain ⟨m, v, rfl, hm⟩ := exists_eq_append (x := v) (i := q.col - p.col)
    (by rw [List.length_append] at hle; omega)
  exact ⟨a, u, m, v, z, by simp, hr, hc, by omega⟩

/-- Two positions of different rows. -/
theorem Valid.split_rows {t : List (List α)} {p q : Pos} (hp : Valid t p) (hq : Valid t q)
    (hrow : p.row < q.row) :
    ∃ a u m mid x v z, t = a ++ (u ++ m) :: (mid ++ (x ++ v) :: z) ∧ p.row = a.length ∧
      p.col = u.length ∧ q.row = p.row + mid.length + 1 ∧ q.col = x.length := by
  obtain ⟨a, u, m, z, rfl, hr, hc⟩ := hp.split
  obtain ⟨b, x, v, z', heq, hr', hc'⟩ := hq.split
  rw [List.append_eq_append_iff] at heq
  rcases heq with ⟨mid, hb, hz⟩ | ⟨mid, ha, -⟩
  · cases mid with
    | nil =>
      rw [hb, List.append_nil] at hr'
      omega
    | cons y mid =>
      simp only [List.cons_append, List.cons.injEq] at hz
      obtain ⟨-, rfl⟩ := hz
      exact ⟨a, u, m, mid, x, v, z', rfl, hr, hc, by rw [hr', hb]; simp; omega, hc'⟩
  · have := congrArg List.length ha
    rw [List.length_append] at this
    omega

/-- The characters of row `r` between `p` and `q`. -/
def rowRange (t : List (List α)) (p q : Pos) (r : Nat) : List α :=
  ((row t r).take (if r = q.row then q.col else (row t r).length)).drop
    (if r = p.row then p.col else 0)

/-- The last `n` rows of the text between `p` and `q`, joined by `nl`. -/
def copyRows (nl : α) (t : List (List α)) (p q : Pos) : Nat → List α
  | 0 => []
  | n + 1 => rowRange t p q (q.row - n) ++
      ((if 0 < n then [nl] else []) ++ copyRows nl t p q n)

/-- The text between `p` and `q`. -/
def copy (nl : α) (t : List (List α)) (p q : Pos) : List α :=
  copyRows nl t p q (q.row - p.row + 1)

instance (p q : Pos) : Decidable (before p q) := inferInstanceAs (Decidable (_ ∨ _))

/-- The text between two positions, in either order. -/
def between (nl : α) (t : List (List α)) (p q : Pos) : List α :=
  if before p q then copy nl t p q else copy nl t q p

theorem between_before {nl : α} {t : List (List α)} {p q : Pos} (h : before p q) :
    between nl t p q = copy nl t p q := if_pos h

theorem between_comm (nl : α) (t : List (List α)) (p q : Pos) :
    between nl t p q = between nl t q p := by
  unfold between
  split
  · next hpq =>
    split
    · next hqp =>
      have hrow : p.row = q.row := by unfold before at hpq hqp; omega
      have hcol : p.col = q.col := by unfold before at hpq hqp; omega
      obtain rfl : p = q := by
        cases p
        cases q
        simp only at hrow hcol
        rw [hrow, hcol]
      rfl
    · rfl
  · next hpq => rw [if_pos (by unfold before at hpq ⊢; omega)]

/-- What lies between two positions depends on their rows and those between. -/
theorem copy_congr {t t' : List (List α)} {p q : Pos} (nl : α)
    (h : ∀ r, p.row ≤ r → r ≤ q.row → row t' r = row t r) (hpq : p.row ≤ q.row) :
    copy nl t' p q = copy nl t p q := by
  have hrows (n : Nat) (hn : n ≤ q.row - p.row + 1) :
      copyRows nl t' p q n = copyRows nl t p q n := by
    induction n with
    | zero => rfl
    | succ n ih =>
      simp only [copyRows, rowRange]
      rw [ih (by omega), h (q.row - n) (by omega) (by omega)]
  exact hrows _ (Nat.le_refl _)

theorem between_congr {t t' : List (List α)} {p q : Pos} (nl : α)
    (h : ∀ r, min p.row q.row ≤ r → r ≤ max p.row q.row → row t' r = row t r) :
    between nl t' p q = between nl t p q := by
  unfold between
  split
  · next hpq =>
    have hle : p.row ≤ q.row := by unfold before at hpq; omega
    exact copy_congr nl (fun r hp hq => h r (by omega) (by omega)) hle
  · next hpq =>
    have hle : q.row ≤ p.row := by unfold before at hpq; omega
    exact copy_congr nl (fun r hp hq => h r (by omega) (by omega)) hle

/-- Between two positions there are as many line ends as rows. -/
theorem count_copy [DecidableEq α] {nl : α} {t : List (List α)} {p q : Pos}
    (h : ∀ x ∈ t, nl ∉ x) : (copy nl t p q).count nl = q.row - p.row := by
  have hrow (r : Nat) : (rowRange t p q r).count nl = 0 := by
    refine List.count_eq_zero.2 fun hmem => ?_
    have hmem := List.mem_of_mem_take (List.mem_of_mem_drop hmem)
    unfold row List.getD at hmem
    cases ht : t[r]? with
    | none => simp [ht] at hmem
    | some x =>
      rw [ht] at hmem
      exact h x (List.mem_of_getElem? ht) hmem
  have hrows (n : Nat) : (copyRows nl t p q (n + 1)).count nl = n := by
    induction n with
    | zero => simp [copyRows, hrow]
    | succ n ih =>
      rw [copyRows, List.count_append, List.count_append, hrow, ih]
      simp
      omega
  exact hrows _

theorem count_between [DecidableEq α] {nl : α} {t : List (List α)} {p q : Pos}
    (h : ∀ x ∈ t, nl ∉ x) :
    (between nl t p q).count nl = (q.row - p.row) + (p.row - q.row) := by
  unfold between
  split
  · next hpq =>
    rw [count_copy h]
    unfold before at hpq
    omega
  · next hpq =>
    rw [count_copy h]
    unfold before at hpq
    omega

/-- The rows between two positions, cut at both. -/
theorem Valid.split_rowRange {t : List (List α)} {p q : Pos} (hp : Valid t p) (hq : Valid t q)
    (hpq : before p q) (r : Nat) :
    ∃ u v, row t r = u ++ rowRange t p q r ++ v ∧
      u.length = (if r = p.row then p.col else 0) ∧
      u.length + (rowRange t p q r).length =
        if r = q.row then q.col else (row t r).length := by
  have hstop : (if r = q.row then q.col else (row t r).length) ≤ (row t r).length := by
    split
    · next h => rw [h]; exact hq.2
    · exact Nat.le_refl _
  have hstart : (if r = p.row then p.col else 0) ≤
      if r = q.row then q.col else (row t r).length := by
    split
    · next h =>
      split
      · next h' =>
        rcases hpq with hlt | ⟨-, hle⟩
        · omega
        · exact hle
      · rw [h]; exact hp.2
    · exact Nat.zero_le _
  refine ⟨(row t r).take (if r = p.row then p.col else 0),
    (row t r).drop (if r = q.row then q.col else (row t r).length), ?_, ?_, ?_⟩
  · rw [rowRange]
    generalize (if r = q.row then q.col else (row t r).length) = stop at hstart
    generalize (if r = p.row then p.col else 0) = start at hstart
    have hcut : (row t r).take start = ((row t r).take stop).take start := by
      rw [List.take_take, Nat.min_eq_left hstart]
    rw [hcut, List.take_append_drop, List.take_append_drop]
  · rw [List.length_take]
    omega
  · rw [rowRange, List.length_take, List.length_drop, List.length_take]
    omega

/-- The start of a deleted range stays in the text. -/
theorem Valid.deleteRange {t : List (List α)} {p q : Pos} (hp : Valid t p) (hq : Valid t q)
    (hpq : before p q) : Valid (deleteRange t p q) p := by
  rcases hpq with hlt | ⟨hrow, hcol⟩
  · obtain ⟨a, u, m, mid, x, v, z, rfl, hr, hc, hr', hc'⟩ := hp.split_rows hq hlt
    rw [deleteRange_rows hr hc hr' hc']
    exact valid_append hr hc
  · obtain ⟨a, u, m, v, z, rfl, hr, hc, hc'⟩ := hp.split_span hq hrow.symm hcol
    rw [deleteRange_span hr hc hrow.symm hc']
    exact valid_append hr hc

/-! ## Typing -/

section Typing

variable [DecidableEq α] (nl : α)

/-- A character typed at `p`; `nl` splits the row. -/
def insert (t : List (List α)) (p : Pos) (c : α) : List (List α) :=
  if c = nl then splice t p.row 1 [(row t p.row).take p.col, (row t p.row).drop p.col]
  else splice t p.row 1 [(row t p.row).take p.col ++ c :: (row t p.row).drop p.col]

/-- The caret after typing `c` at `p`. -/
def afterInsert (p : Pos) (c : α) : Pos :=
  if c = nl then ⟨p.row + 1, 0⟩ else ⟨p.row, p.col + 1⟩

/-- The rows that typing `s` makes of a row `u ++ v`, from between the two. -/
def pasteRows (u : List α) : List α → List α → List (List α)
  | [], v => [u ++ v]
  | c :: s, v => if c = nl then u :: pasteRows [] s v else pasteRows (u ++ [c]) s v

/-- The text `s` put in at `p`. -/
def paste (t : List (List α)) (p : Pos) (s : List α) : List (List α) :=
  splice t p.row 1 (pasteRows nl ((row t p.row).take p.col) s ((row t p.row).drop p.col))

/-- The caret after putting `s` in at `p`. -/
def afterPaste (p : Pos) (s : List α) : Pos := s.foldl (afterInsert nl) p

section Forms

variable {nl} {a z : List (List α)} {u v : List α} {p : Pos}
  (hr : p.row = a.length) (hc : p.col = u.length)

include hr hc

theorem insert_nl : insert nl (a ++ (u ++ v) :: z) p nl = a ++ u :: v :: z := by
  simp [insert, row_append hr, splice_cons hr, hc]

theorem insert_char {c : α} (h : c ≠ nl) :
    insert nl (a ++ (u ++ v) :: z) p c = a ++ (u ++ c :: v) :: z := by
  simp [insert, h, row_append hr, splice_cons hr, hc]

theorem paste_append {s : List α} :
    paste nl (a ++ (u ++ v) :: z) p s = a ++ pasteRows nl u s v ++ z := by
  simp [paste, row_append hr, splice_cons hr, hc]

end Forms

theorem afterInsert_nl (p : Pos) : afterInsert nl p nl = ⟨p.row + 1, 0⟩ := by simp [afterInsert]

theorem afterInsert_char {c : α} (p : Pos) (h : c ≠ nl) :
    afterInsert nl p c = ⟨p.row, p.col + 1⟩ := by simp [afterInsert, h]

/-- The caret stays in the text when a character is typed. -/
theorem Valid.insert {t : List (List α)} {p : Pos} (h : Valid t p) (c : α) :
    Valid (insert nl t p c) (afterInsert nl p c) := by
  obtain ⟨a, u, v, z, rfl, hr, hc⟩ := h.split
  by_cases hn : c = nl
  · subst hn
    rw [insert_nl hr hc, afterInsert_nl]
    have := valid_append (a := a ++ [u]) (u := []) (v := v) (z := z) (p := ⟨p.row + 1, 0⟩)
      (by simp [hr]) rfl
    simpa using this
  · rw [insert_char hr hc hn, afterInsert_char _ _ hn]
    have := valid_append (a := a) (u := u ++ [c]) (v := v) (z := z) (p := ⟨p.row, p.col + 1⟩)
      hr (by simp [hc])
    simpa using this

theorem pasteRows_length (u s v : List α) : (pasteRows nl u s v).length = s.count nl + 1 := by
  induction s generalizing u with
  | nil => rfl
  | cons c s ih =>
    simp only [pasteRows]
    split
    · next hc => rw [hc, List.length_cons, ih, List.count_cons_self]
    · next hc => rw [ih, List.count_cons_of_ne hc]

/-- A stretch without newlines is put into the row as it is. -/
theorem pasteRows_append {seg : List α} (h : nl ∉ seg) (u s v : List α) :
    pasteRows nl u (seg ++ s) v = pasteRows nl (u ++ seg) s v := by
  induction seg generalizing u with
  | nil => simp
  | cons c seg ih =>
    have hc : c ≠ nl := fun hc => h (by simp [hc])
    simp only [List.cons_append, pasteRows, hc, if_false]
    rw [ih (fun hm => h (List.mem_cons_of_mem _ hm))]
    simp

theorem afterPaste_append {seg : List α} (h : nl ∉ seg) (p : Pos) (s : List α) :
    afterPaste nl p (seg ++ s) = afterPaste nl ⟨p.row, p.col + seg.length⟩ s := by
  induction seg generalizing p with
  | nil => simp
  | cons c seg ih =>
    have hc : c ≠ nl := fun hc => h (by simp [hc])
    have := ih (fun hm => h (List.mem_cons_of_mem _ hm)) (afterInsert nl p c)
    simp only [afterPaste, List.cons_append, List.foldl_cons, List.length_cons] at this ⊢
    rw [this, afterInsert_char _ _ hc]
    simp only [Nat.add_assoc, Nat.add_comm 1]

/-- Pasting ends in the last of the new rows, between what was pasted and what
stood behind `p`. -/
theorem pasteRows_end {a : List (List α)} {u s : List α} {p : Pos} (hr : p.row = a.length)
    (hc : p.col = u.length) :
    ∃ b w, (∀ v, pasteRows nl u s v = b ++ [w ++ v]) ∧
      afterPaste nl p s = ⟨a.length + b.length, w.length⟩ := by
  induction s generalizing a u p with
  | nil =>
    exact ⟨[], u, fun v => rfl, by ext <;> simp [afterPaste, hr, hc]⟩
  | cons c s ih =>
    by_cases hn : c = nl
    · obtain ⟨b, w, hrows, hafter⟩ := ih (a := a ++ [u]) (u := []) (p := ⟨p.row + 1, 0⟩)
        (by simp [hr]) rfl
      refine ⟨u :: b, w, fun v => by simp [pasteRows, hn, hrows], ?_⟩
      simp only [afterPaste] at hafter
      simp only [afterPaste, List.foldl_cons, hn, afterInsert_nl, hafter, List.length_append,
        List.length_cons, List.length_nil, Pos.mk.injEq, and_true]
      omega
    · obtain ⟨b, w, hrows, hafter⟩ := ih (a := a) (u := u ++ [c]) (p := ⟨p.row, p.col + 1⟩) hr
        (by simp [hc])
      refine ⟨b, w, fun v => by simp [pasteRows, hn, hrows], ?_⟩
      simpa only [afterPaste, List.foldl_cons, afterInsert_char _ p hn] using hafter

/-- The caret stays in the text when `s` is pasted. -/
theorem Valid.paste {t : List (List α)} {p : Pos} (h : Valid t p) (s : List α) :
    Valid (paste nl t p s) (afterPaste nl p s) := by
  obtain ⟨a, u, v, z, rfl, hr, hc⟩ := h.split
  obtain ⟨b, w, hrows, hafter⟩ := pasteRows_end nl (s := s) hr hc
  rw [paste_append hr hc, hrows, hafter]
  have := valid_append (a := a ++ b) (u := w) (v := v) (z := z)
    (p := ⟨a.length + b.length, w.length⟩) (by simp) rfl
  simpa using this

theorem paste_nil {t : List (List α)} {p : Pos} (h : Valid t p) : paste nl t p [] = t := by
  obtain ⟨a, u, v, z, rfl, hr, hc⟩ := h.split
  rw [paste_append hr hc, pasteRows, List.append_assoc]
  rfl

/-- To paste is to type the characters one by one. -/
theorem paste_cons {t : List (List α)} {p : Pos} (h : Valid t p) (c : α) (s : List α) :
    paste nl t p (c :: s) = paste nl (insert nl t p c) (afterInsert nl p c) s := by
  obtain ⟨a, u, v, z, rfl, hr, hc⟩ := h.split
  rw [paste_append hr hc, pasteRows]
  by_cases hn : c = nl
  · subst hn
    have hrows : a ++ u :: v :: z = (a ++ [u]) ++ ([] ++ v) :: z := by simp
    have hnext : paste c ((a ++ [u]) ++ ([] ++ v) :: z) ⟨p.row + 1, 0⟩ s =
        (a ++ [u]) ++ pasteRows c [] s v ++ z := paste_append (by simp [hr]) rfl
    rw [insert_nl hr hc, afterInsert_nl, hrows, hnext, if_pos rfl]
    simp
  · have hnext : paste nl (a ++ ((u ++ [c]) ++ v) :: z) ⟨p.row, p.col + 1⟩ s =
        a ++ pasteRows nl (u ++ [c]) s v ++ z :=
      paste_append (p := ⟨p.row, p.col + 1⟩) hr (by simp [hc])
    rw [List.append_assoc, List.singleton_append] at hnext
    rw [insert_char hr hc hn, afterInsert_char _ _ hn, hnext, if_neg hn]

end Typing

/-! ## Characters -/

/-- Every character of the text satisfies `P`. -/
def All (P : α → Prop) (t : List (List α)) : Prop := ∀ x ∈ t, ∀ c ∈ x, P c

instance (P : α → Prop) [DecidablePred P] (t : List (List α)) : Decidable (All P t) :=
  inferInstanceAs (Decidable (∀ x ∈ t, ∀ c ∈ x, P c))

section All

variable {P : α → Prop} {t : List (List α)}

theorem All.row (h : All P t) (r : Nat) : ∀ c ∈ row t r, P c := by
  by_cases hr : r < t.length
  · intro c hc
    refine h _ (List.getElem_mem hr) c ?_
    simpa [Text.row, List.getD, hr] using hc
  · simp [Text.row, List.getD, List.getElem?_eq_none (Nat.le_of_not_lt hr)]

theorem All.splice {new : List (List α)} {i d : Nat} (h : All P t) (hnew : All P new) :
    All P (splice t i d new) := by
  intro x hx
  rcases List.mem_append.1 hx with hx | hx
  · rcases List.mem_append.1 hx with hx | hx
    · exact h x (List.mem_of_mem_take hx)
    · exact hnew x hx
  · exact h x (List.mem_of_mem_drop hx)

theorem All.splice_one {y : List α} {i d : Nat} (h : All P t) (hy : ∀ c ∈ y, P c) :
    All P (LCode.splice t i d [y]) :=
  h.splice fun x hx => by rwa [List.mem_singleton.1 hx]

theorem All.backspace (h : All P t) (p : Pos) : All P (backspace t p) := by
  unfold Text.backspace
  split
  · refine h.splice_one fun c hc => h.row p.row c ?_
    rcases List.mem_append.1 hc with hc | hc
    · exact List.mem_of_mem_take hc
    · exact List.mem_of_mem_drop hc
  · split
    · refine h.splice_one fun c hc => ?_
      rcases List.mem_append.1 hc with hc | hc
      · exact h.row _ c hc
      · exact h.row _ c hc
    · exact h

theorem All.copy (h : All P t) {nl : α} (hnl : P nl) (p q : Pos) : ∀ c ∈ copy nl t p q, P c := by
  have hrows (n : Nat) : ∀ c ∈ copyRows nl t p q n, P c := by
    induction n with
    | zero => exact fun c hc => nomatch hc
    | succ n ih =>
      intro c hc
      rcases List.mem_append.1 hc with hc | hc
      · exact h.row _ c (List.mem_of_mem_take (List.mem_of_mem_drop hc))
      · rcases List.mem_append.1 hc with hc | hc
        · split at hc
          · rwa [List.mem_singleton.1 hc]
          · cases hc
        · exact ih c hc
  exact hrows _

theorem All.deleteRange (h : All P t) (p q : Pos) : All P (deleteRange t p q) := by
  refine h.splice_one fun c hc => ?_
  rcases List.mem_append.1 hc with hc | hc
  · exact h.row _ c (List.mem_of_mem_take hc)
  · exact h.row _ c (List.mem_of_mem_drop hc)

variable [DecidableEq α] (nl : α)

theorem all_pasteRows {u s v : List α} (hu : ∀ c ∈ u, P c) (hs : ∀ c ∈ s, P c)
    (hv : ∀ c ∈ v, P c) : All P (pasteRows nl u s v) := by
  induction s generalizing u with
  | nil =>
    intro x hx c hc
    rw [List.mem_singleton.1 hx] at hc
    rcases List.mem_append.1 hc with hc | hc
    · exact hu c hc
    · exact hv c hc
  | cons c s ih =>
    have hs' := fun d hd => hs d (List.mem_cons_of_mem c hd)
    simp only [pasteRows]
    split
    · intro x hx
      rcases List.mem_cons.1 hx with rfl | hx
      · exact hu
      · exact ih (by simp) hs' x hx
    · refine ih (fun d hd => ?_) hs'
      rcases List.mem_append.1 hd with hd | hd
      · exact hu d hd
      · rw [List.mem_singleton.1 hd]
        exact hs c (by simp)

theorem All.paste (h : All P t) (p : Pos) {s : List α} (hs : ∀ c ∈ s, P c) :
    All P (paste nl t p s) :=
  h.splice (all_pasteRows nl (fun c hc => h.row _ c (List.mem_of_mem_take hc)) hs
    fun c hc => h.row _ c (List.mem_of_mem_drop hc))

/-- Typing a character is pasting it. -/
theorem insert_eq_paste (t : List (List α)) (p : Pos) (c : α) :
    insert nl t p c = paste nl t p [c] := by
  unfold insert paste
  split
  · simp [pasteRows, *]
  · simp [pasteRows, *]

theorem All.insert (h : All P t) (p : Pos) {c : α} (hc : P c) : All P (insert nl t p c) := by
  rw [insert_eq_paste]
  exact h.paste nl p (by simpa using hc)

end All

/-! ## Rows merged -/

section Merges

variable {t : List (List α)}

/-- `t'` is `t` with the `d` rows from `i` on made one row, of characters of
theirs. -/
structure Merges (t t' : List (List α)) (i d : Nat) : Prop where
  merged : ∃ x, t' = LCode.splice t i d [x]
  inside : i + d ≤ t.length
  all : ∀ P : α → Prop, All P t → All P t'

theorem merges_self {p : Pos} (h : Valid t p) : Merges t t p.row 1 := by
  obtain ⟨a, u, v, z, rfl, hr, -⟩ := h.split
  exact ⟨⟨u ++ v, by rw [splice_cons hr, List.append_assoc]; rfl⟩, by simp [hr], fun _ h => h⟩

theorem merges_deleteRange {p q : Pos} (hq : Valid t q) (hpq : before p q) :
    Merges t (Text.deleteRange t p q) p.row (q.row - p.row + 1) := by
  refine ⟨⟨_, rfl⟩, ?_, fun _ h => h.deleteRange p q⟩
  have := hq.1
  rcases hpq with hlt | ⟨hrow, -⟩ <;> omega

theorem merges_backspace {p : Pos} (h : Valid t p) (hc : p.col = 0) (hr : 0 < p.row) :
    Merges t (Text.backspace t p) (p.row - 1) 2 := by
  refine ⟨?_, ?_, fun _ h => h.backspace p⟩
  · rw [Text.backspace, if_neg (by omega), if_pos hr]
    exact ⟨_, rfl⟩
  · have := h.1
    omega

/-- What is pasted into the merged row takes the place of the rows. -/
theorem Merges.paste [DecidableEq α] (nl : α) {t' : List (List α)} {p : Pos} {d : Nat} (h : Merges t t' p.row d)
    (s : List α) :
    ∃ new, Text.paste nl t' p s = LCode.splice t p.row d new ∧ new.length = s.count nl + 1 := by
  obtain ⟨⟨x, rfl⟩, hin, -⟩ := h
  exact ⟨_, splice_splice (by omega), pasteRows_length nl _ _ _⟩

end Merges

end Text

end LCode
