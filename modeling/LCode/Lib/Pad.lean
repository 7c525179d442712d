import LCode.Lib.Flat

/-!
# A text editor over a string

What a plain text editor is for: a string with a caret, the other end of what is
selected, and what was copied last. Its keys act on the string alone; lines are the
stretches between two separators, words the stretches between two blanks of a line.
-/

namespace LCode

variable {α : Type*}

/-! ## Motions of a caret -/

namespace Caret

section Lines

variable [DecidableEq α] (nl blank : α)

/-- The characters of the line before the caret, the nearest first. -/
def lineLeft (s : Caret α) : List α := (s.text.take s.off).reverse.takeWhile (· ≠ nl)

/-- The characters of the line behind the caret. -/
def lineRight (s : Caret α) : List α := (s.text.drop s.off).takeWhile (· ≠ nl)

/-- The blanks at the start of `x` and the word behind them. -/
def blanksAndWord (x : List α) : Nat :=
  (x.takeWhile (· = blank)).length + ((x.dropWhile (· = blank)).takeWhile (· ≠ blank)).length

/-- The word at the start of `x` and the blanks behind it. -/
def wordAndBlanks (x : List α) : Nat :=
  (x.takeWhile (· ≠ blank)).length + ((x.dropWhile (· ≠ blank)).takeWhile (· = blank)).length

def home (s : Caret α) : Nat := s.off - (s.lineLeft nl).length

def lineEnd (s : Caret α) : Nat := s.off + (s.lineRight nl).length

/-- The same column of the line above, or its end. -/
def up (s : Caret α) : Nat :=
  let start := s.home nl
  if start = 0 then s.off
  else
    let line := lineLeft nl ⟨s.text, start - 1⟩
    start - 1 - line.length + min (s.lineLeft nl).length line.length

/-- The same column of the line below, or its end. -/
def down (s : Caret α) : Nat :=
  let stop := s.lineEnd nl
  if stop = s.text.length then s.off
  else stop + 1 + min (s.lineLeft nl).length (lineRight nl ⟨s.text, stop + 1⟩).length

def wordLeft (s : Caret α) : Nat := s.off - blanksAndWord blank (s.lineLeft nl)

def wordRight (s : Caret α) : Nat := s.off + wordAndBlanks blank (s.lineRight nl)

end Lines

end Caret

/-! ## The editor -/

/-- A string with a caret, the other end of the selection, and what was copied last. -/
@[ext]
structure Pad (α : Type*) extends Caret α where
  anchor : Option Nat
  clip : Option (List α)
  deriving DecidableEq, Repr

namespace Pad

inductive Motion where
  | left
  | right
  | up
  | down
  | home
  | lineEnd
  | wordLeft
  | wordRight
  deriving DecidableEq, Repr

inductive Key (α : Type*) where
  | type (c : α)
  | erase
  | eraseWord
  | move (m : Motion) (select : Bool)
  | copy
  | cut
  | paste
  deriving DecidableEq, Repr

/-- The offsets of the selection. -/
def range (s : Pad α) (a : Nat) : Nat × Nat := (min a s.off, max a s.off)

/-- What is selected. -/
def selected (s : Pad α) (a : Nat) : List α := (s.text.take (s.range a).2).drop (s.range a).1

/-- The selection goes. -/
def clear (s : Pad α) : Pad α :=
  match s.anchor with
  | none => s
  | some a =>
    { s with
      text := s.text.take (s.range a).1 ++ s.text.drop (s.range a).2
      off := (s.range a).1
      anchor := none }

/-- The characters `x` are put in at the caret. -/
def put (s : Pad α) (x : List α) : Pad α :=
  { s with text := s.text.take s.off ++ x ++ s.text.drop s.off, off := s.off + x.length }

/-- What lies between the offset `o` and the caret goes. -/
def eraseTo (s : Pad α) (o : Nat) : Pad α :=
  { s with text := s.text.take o ++ s.text.drop s.off, off := o }

def copy (s : Pad α) : Pad α :=
  match s.anchor with
  | none => s
  | some a => { s with clip := some (s.selected a) }

section Step

variable [DecidableEq α] (nl blank : α)

/-- Where a motion leads. -/
def target (s : Pad α) : Motion → Nat
  | .left => s.off - 1
  | .right => min (s.off + 1) s.text.length
  | .up => s.toCaret.up nl
  | .down => s.toCaret.down nl
  | .home => s.toCaret.home nl
  | .lineEnd => s.toCaret.lineEnd nl
  | .wordLeft => s.toCaret.wordLeft nl blank
  | .wordRight => s.toCaret.wordRight nl blank

/-- One key. A key that edits takes the place of the selection, if there is one. -/
def step (s : Pad α) : Key α → Pad α
  | .type c => s.clear.put [c]
  | .erase => if s.anchor.isSome then s.clear else s.eraseTo (s.off - 1)
  | .eraseWord =>
    if s.anchor.isSome then s.clear
    -- at the start of a line the line end goes
    else if s.toCaret.home nl = s.off then s.eraseTo (s.off - 1)
    else s.eraseTo (s.toCaret.wordLeft nl blank)
  | .move m select =>
    { s with
      off := s.target nl blank m
      anchor := if select then some (s.anchor.getD s.off) else none }
  | .copy => s.copy
  | .cut => s.copy.clear
  | .paste => s.clear.put (s.clip.getD [])

end Step

/-! ## Laws -/

section Laws

variable {s : Pad α}

/-- Caret and anchor lie in the string. -/
structure Valid (s : Pad α) : Prop where
  off : s.off ≤ s.text.length
  anchor : ∀ a ∈ s.anchor, a ≤ s.text.length

theorem clear_none (h : s.anchor = none) : s.clear = s := by
  simp [clear, h]

theorem clear_some {a : Nat} (h : s.anchor = some a) :
    s.clear = ⟨⟨s.text.take (s.range a).1 ++ s.text.drop (s.range a).2, (s.range a).1⟩, none,
      s.clip⟩ := by
  simp [clear, h]

theorem clear_anchor : s.clear.anchor = none := by
  cases h : s.anchor with
  | none => rw [clear_none h, h]
  | some a => rw [clear_some h]

theorem clear_clip : s.clear.clip = s.clip := by
  cases h : s.anchor with
  | none => rw [clear_none h]
  | some a => rw [clear_some h]

/-- A stretch that has been taken out is put back. -/
theorem take_append_stretch_append_drop (x : List α) {i j : Nat} (h : i ≤ j) :
    x.take i ++ (x.take j).drop i ++ x.drop j = x := by
  have htake : x.take i ++ (x.take j).drop i = x.take j := by
    have hi : x.take i = (x.take j).take i := by
      rw [List.take_take, Nat.min_eq_left h]
    rw [hi, List.take_append_drop]
  rw [htake, List.take_append_drop]

variable [DecidableEq α] (nl blank : α)

/-- What is cut and pasted at once is where it was, with the caret behind it. -/
theorem paste_cut {a : Nat} (hs : s.Valid) (h : s.anchor = some a) :
    (s.step nl blank .cut).step nl blank .paste =
      ⟨⟨s.text, (s.range a).2⟩, none, some (s.selected a)⟩ := by
  have hle : (s.range a).1 ≤ (s.range a).2 := by
    simp only [range]
    omega
  have hlen : (s.range a).2 ≤ s.text.length := by
    have ha := hs.anchor a h
    have hoff := hs.off
    simp only [range]
    omega
  have hcut : s.step nl blank .cut =
      ⟨⟨s.text.take (s.range a).1 ++ s.text.drop (s.range a).2, (s.range a).1⟩, none,
        some (s.selected a)⟩ := by
    have hcopy : s.copy.anchor = some a := by simp [copy, h]
    rw [step, clear_some hcopy]
    simp [copy, h, range]
  have htake : (s.text.take (s.range a).1).length = (s.range a).1 := by
    rw [List.length_take]
    omega
  have hsel : (s.selected a).length = (s.range a).2 - (s.range a).1 := by
    rw [selected, List.length_drop, List.length_take]
    omega
  rw [hcut, step, clear_none rfl]
  simp only [put, Option.getD_some]
  rw [List.take_left' htake, List.drop_left' htake, hsel,
    show (s.range a).1 + ((s.range a).2 - (s.range a).1) = (s.range a).2 by omega, selected,
    take_append_stretch_append_drop _ hle]

theorem step_type (h : s.anchor = none) (c : α) :
    s.step nl blank (.type c) = s.put [c] := by
  rw [step, clear_none h]

theorem step_erase (h : s.anchor = none) :
    s.step nl blank .erase = s.eraseTo (s.off - 1) := by
  simp [step, h]

/-- A character that has been typed is erased. -/
theorem erase_type (hs : s.Valid) (h : s.anchor = none) (c : α) :
    (s.step nl blank (.type c)).step nl blank .erase = s := by
  have htake : (s.text.take s.off).length = s.off := by
    rw [List.length_take]
    have := hs.off
    omega
  have hdrop : (s.text.take s.off ++ [c] ++ s.text.drop s.off).drop (s.off + 1) =
      s.text.drop s.off := List.drop_left' (by simp [htake])
  rw [step_type nl blank h, step_erase nl blank (show (s.put [c]).anchor = none from h)]
  simp only [put, eraseTo, List.length_singleton, Nat.add_sub_cancel, hdrop]
  rw [List.append_assoc, List.take_left' htake, List.take_append_drop]

theorem valid_type (hs : s.Valid) (h : s.anchor = none) (c : α) :
    (s.step nl blank (.type c)).Valid := by
  rw [step_type nl blank h]
  have hoff := hs.off
  refine ⟨?_, fun a ha => ?_⟩
  · simp only [put, List.length_append, List.length_take, List.length_drop, List.length_singleton]
    omega
  · have hnone : (s.put [c]).anchor = none := h
    rw [hnone] at ha
    cases ha

/-- Whatever is typed, as many erasures take it back. -/
theorem erase_typed (hs : s.Valid) (h : s.anchor = none) (x : List α) :
    (List.replicate x.length Key.erase).foldl (step nl blank)
      ((x.map Key.type).foldl (step nl blank) s) = s := by
  induction x generalizing s with
  | nil => rfl
  | cons c x ih =>
    have hnext : (s.step nl blank (.type c)).anchor = none := by
      rw [step_type nl blank h]
      exact h
    -- the last erasure takes back the first character
    have htyped : ((c :: x).map Key.type).foldl (step nl blank) s =
        (x.map Key.type).foldl (step nl blank) (s.step nl blank (.type c)) := rfl
    rw [htyped, List.length_cons, List.replicate_succ', List.foldl_append,
      ih (valid_type nl blank hs h c) hnext]
    exact erase_type nl blank hs h c

end Laws

end Pad

/-! ## Lines are rows -/

namespace Text

section Rows

variable {nl : α} {a z : List (List α)} {u v : List α} {p : Pos} {t : List (List α)}

theorem above_reverse (a : List (List α)) :
    (above nl a).reverse = [] ∨ ∃ h, (above nl a).reverse = nl :: h := by
  rcases List.eq_nil_or_concat a with rfl | ⟨b, y, rfl⟩
  · exact Or.inl rfl
  · refine Or.inr ⟨y.reverse ++ (above nl b).reverse, ?_⟩
    simp

theorem below_head (z : List (List α)) : below nl z = [] ∨ ∃ h, below nl z = nl :: h := by
  cases z with
  | nil => exact Or.inl rfl
  | cons y z => exact Or.inr ⟨_, below_cons y z⟩

/-- No row has the separator in it. -/
def Plain (nl : α) (t : List (List α)) : Prop := All (· ≠ nl) t

theorem Plain.not_mem (h : Plain nl t) {x : List α} (hx : x ∈ t) : nl ∉ x :=
  fun hmem => h x hx nl hmem rfl

theorem offset_row (p : Pos) (c : Nat) : offset t ⟨p.row, c⟩ + p.col = offset t p + c := by
  simp only [offset]
  omega

/-- The start of a row is behind the separator at the end of the row above. -/
theorem offset_next {r : Nat} (hr : r < t.length) :
    offset t ⟨r + 1, 0⟩ = offset t ⟨r, (row t r).length⟩ + 1 := by
  have hrow : row t r = t[r] := row_eq_getElem hr
  rw [hrow]
  simp only [offset]
  rw [List.take_add_one, List.getElem?_eq_getElem hr, Option.toList_some, List.map_append,
    List.sum_append]
  simp
  omega

/-- The string ends at the end of the last row. -/
theorem flat_length_eq (hp : Valid t p) (hlast : p.row + 1 = t.length) :
    (flat nl t).length = offset t ⟨p.row, (row t p.row).length⟩ := by
  obtain ⟨a, u, v, z, rfl, hr, hc⟩ := hp.split
  obtain rfl : z = [] := by
    refine List.eq_nil_of_length_eq_zero ?_
    simp only [List.length_append, List.length_cons] at hlast
    omega
  have hoff := offset_append nl (z := []) (x := u ++ v)
    (show (⟨p.row, (u ++ v).length⟩ : Pos).row = a.length from hr)
  rw [row_append hr, hoff, flat_append]
  simp

/-- A deleted range is the stretch between two offsets. -/
theorem caret_deleteRange {q : Pos} (hp : Valid t p) (hq : Valid t q) (hpq : before p q) :
    caret nl (deleteRange t p q) p =
      ⟨(flat nl t).take (offset t p) ++ (flat nl t).drop (offset t q), offset t p⟩ := by
  obtain ⟨f, m, g, hflat, hstart, hend, -, hcut⟩ := flat_range nl hp hq hpq
  rw [hcut, hflat, hstart, hend, ← List.length_append, List.drop_left, List.append_assoc,
    List.take_left]

theorem copy_eq {q : Pos} (hp : Valid t p) (hq : Valid t q) (hpq : before p q) :
    copy nl t p q = ((flat nl t).take (offset t q)).drop (offset t p) := by
  obtain ⟨f, m, g, hflat, hstart, hend, hcopy, -⟩ := flat_range nl hp hq hpq
  rw [hcopy, hflat, hstart, hend, ← List.length_append, List.take_left, List.drop_left]

variable [DecidableEq α]

/-- The part of a list up to the first `nl`. -/
theorem takeWhile_row {x g : List α} (hx : nl ∉ x) (hg : g = [] ∨ ∃ h, g = nl :: h) :
    (x ++ g).takeWhile (· ≠ nl) = x := by
  have hall : ∀ c ∈ x, decide (c ≠ nl) = true := by
    intro c hc
    exact decide_eq_true fun heq => hx (heq ▸ hc)
  rw [List.takeWhile_append_of_pos hall]
  rcases hg with rfl | ⟨h, rfl⟩
  · simp
  · simp

/-- The line around the caret is its row. -/
theorem caret_line (hu : nl ∉ u) (hv : nl ∉ v) (hr : p.row = a.length) (hc : p.col = u.length) :
    (caret nl (a ++ (u ++ v) :: z) p).lineLeft nl = u.reverse ∧
      (caret nl (a ++ (u ++ v) :: z) p).lineRight nl = v := by
  rw [caret_append nl hr hc]
  refine ⟨?_, ?_⟩
  · rw [Caret.lineLeft]
    simp only [List.take_left, List.reverse_append]
    exact takeWhile_row (by simpa using hu) (above_reverse a)
  · rw [Caret.lineRight]
    simp only [List.drop_left]
    exact takeWhile_row hv (below_head z)

theorem Plain.line (h : Plain nl t) (hp : Valid t p) :
    (caret nl t p).lineLeft nl = ((row t p.row).take p.col).reverse ∧
      (caret nl t p).lineRight nl = (row t p.row).drop p.col := by
  obtain ⟨a, u, v, z, rfl, hr, hc⟩ := hp.split
  have hx : nl ∉ u ++ v := h.not_mem (by simp)
  rw [List.mem_append] at hx
  rw [row_append hr, hc, List.take_left, List.drop_left]
  exact caret_line (fun hu => hx (Or.inl hu)) (fun hv => hx (Or.inr hv)) hr hc

theorem Plain.home (h : Plain nl t) (hp : Valid t p) :
    (caret nl t p).home nl = offset t ⟨p.row, 0⟩ := by
  have hcol := hp.2
  have hoff := offset_row (t := t) p 0
  rw [Caret.home, (h.line hp).1, List.length_reverse, List.length_take, Nat.min_eq_left hcol]
  have hcar : (caret nl t p).off = offset t p := rfl
  omega

theorem Plain.lineEnd (h : Plain nl t) (hp : Valid t p) :
    (caret nl t p).lineEnd nl = offset t ⟨p.row, (row t p.row).length⟩ := by
  have hcol := hp.2
  have hoff := offset_row (t := t) p (row t p.row).length
  rw [Caret.lineEnd, (h.line hp).2, List.length_drop]
  have hcar : (caret nl t p).off = offset t p := rfl
  omega

theorem Plain.up (h : Plain nl t) (hp : Valid t p) :
    (caret nl t p).up nl = offset t (if 0 < p.row then enter t p (p.row - 1) else p) := by
  have hcol := hp.2
  have hleft : ((caret nl t p).lineLeft nl).length = p.col := by
    rw [(h.line hp).1, List.length_reverse, List.length_take, Nat.min_eq_left hcol]
  simp only [Caret.up, h.home hp]
  by_cases h0 : 0 < p.row
  · obtain ⟨r, hr⟩ : ∃ r, p.row = r + 1 := ⟨p.row - 1, by omega⟩
    have hrow : r < t.length := by
      have := hp.1
      omega
    have hnext := offset_next hrow
    have hprev : Valid t ⟨r, (row t r).length⟩ := ⟨hrow, Nat.le_refl _⟩
    have hline : (Caret.lineLeft nl ⟨(caret nl t p).text, offset t ⟨p.row, 0⟩ - 1⟩).length =
        (row t r).length := by
      have heq : (⟨(caret nl t p).text, offset t ⟨p.row, 0⟩ - 1⟩ : Caret α) =
          caret nl t ⟨r, (row t r).length⟩ := by
        rw [hr, hnext, Nat.add_sub_cancel]
        rfl
      rw [heq, (h.line hprev).1]
      simp
    have hstart := offset_row (t := t) ⟨r, (row t r).length⟩ 0
    have htarget := offset_row (t := t) ⟨r, (row t r).length⟩ (min p.col (row t r).length)
    rw [if_neg (by rw [hr]; omega), if_pos h0, hline, hleft]
    have henter : enter t p (p.row - 1) = ⟨r, min p.col (row t r).length⟩ := by
      rw [hr, Nat.add_sub_cancel, enter]
      congr 1
      split <;> omega
    rw [henter]
    simp only [hr] at hstart htarget ⊢
    omega
  · have hzero : offset t ⟨p.row, 0⟩ = 0 := by
      simp [offset, Nat.eq_zero_of_not_pos h0]
    rw [if_pos hzero, if_neg h0]
    rfl

theorem Plain.down (h : Plain nl t) (hp : Valid t p) :
    (caret nl t p).down nl =
      offset t (if p.row + 1 < t.length then enter t p (p.row + 1) else p) := by
  have hcol := hp.2
  have hleft : ((caret nl t p).lineLeft nl).length = p.col := by
    rw [(h.line hp).1, List.length_reverse, List.length_take, Nat.min_eq_left hcol]
  have hnext := offset_next hp.1
  simp only [Caret.down, h.lineEnd hp]
  by_cases h1 : p.row + 1 < t.length
  · have hbelow : Valid t ⟨p.row + 1, 0⟩ := ⟨h1, Nat.zero_le _⟩
    have hlt : offset t ⟨p.row, (row t p.row).length⟩ < (flat nl t).length := by
      have := offset_le nl hbelow
      omega
    have hline : (Caret.lineRight nl ⟨(caret nl t p).text,
        offset t ⟨p.row, (row t p.row).length⟩ + 1⟩).length = (row t (p.row + 1)).length := by
      have heq : (⟨(caret nl t p).text, offset t ⟨p.row, (row t p.row).length⟩ + 1⟩ : Caret α) =
          caret nl t ⟨p.row + 1, 0⟩ := by
        rw [← hnext]
        rfl
      rw [heq, (h.line hbelow).2]
      rfl
    have henter : enter t p (p.row + 1) = ⟨p.row + 1, min p.col (row t (p.row + 1)).length⟩ := by
      rw [enter]
      congr 1
      split <;> omega
    have htarget := offset_row (t := t) ⟨p.row + 1, 0⟩ (min p.col (row t (p.row + 1)).length)
    have htext : (caret nl t p).text = flat nl t := rfl
    rw [if_neg (by rw [htext]; omega), if_pos h1, hline, hleft, henter]
    simp only at htarget
    omega
  · have hend : (caret nl t p).text.length = offset t ⟨p.row, (row t p.row).length⟩ := by
      refine flat_length_eq hp ?_
      have := hp.1
      omega
    rw [if_pos hend.symm, if_neg h1]
    rfl

variable (blank : α)

theorem Plain.wordLeft (h : Plain nl t) (hp : Valid t p) :
    (caret nl t p).wordLeft nl blank = offset t ⟨p.row,
      p.col - Caret.blanksAndWord blank ((row t p.row).take p.col).reverse⟩ := by
  have hle : Caret.blanksAndWord blank ((row t p.row).take p.col).reverse ≤ p.col := by
    have hlen : ((row t p.row).take p.col).reverse.length = p.col := by
      rw [List.length_reverse, List.length_take, Nat.min_eq_left hp.2]
    rw [Caret.blanksAndWord]
    generalize ((row t p.row).take p.col).reverse = x at hlen
    have hcut := congrArg List.length (List.takeWhile_append_dropWhile (p := (· = blank)) (l := x))
    have hword := (List.takeWhile_sublist (l := x.dropWhile (· = blank)) (· ≠ blank)).length_le
    rw [List.length_append] at hcut
    omega
  have hoff := offset_row (t := t) p
    (p.col - Caret.blanksAndWord blank ((row t p.row).take p.col).reverse)
  rw [Caret.wordLeft, (h.line hp).1]
  have hcar : (caret nl t p).off = offset t p := rfl
  omega

theorem Plain.wordRight (h : Plain nl t) (hp : Valid t p) :
    (caret nl t p).wordRight nl blank = offset t ⟨p.row,
      p.col + Caret.wordAndBlanks blank ((row t p.row).drop p.col)⟩ := by
  have hoff := offset_row (t := t) p
    (p.col + Caret.wordAndBlanks blank ((row t p.row).drop p.col))
  rw [Caret.wordRight, (h.line hp).2]
  have hcar : (caret nl t p).off = offset t p := rfl
  omega

/-- The first row and what is behind it are read back. -/
theorem row_below_inj {x y : List α} {z w : List (List α)} (hx : nl ∉ x) (hy : nl ∉ y)
    (h : x ++ below nl z = y ++ below nl w) : x = y ∧ below nl z = below nl w := by
  have hfirst := congrArg (List.takeWhile (· ≠ nl)) h
  rw [takeWhile_row hx (below_head z), takeWhile_row hy (below_head w)] at hfirst
  subst hfirst
  exact ⟨rfl, List.append_cancel_left h⟩

theorem Plain.below_inj {z w : List (List α)} (hz : Plain nl z) (hw : Plain nl w)
    (h : below nl z = below nl w) : z = w := by
  induction z generalizing w with
  | nil =>
    cases w with
    | nil => rfl
    | cons y w => cases h
  | cons x z ih =>
    cases w with
    | nil => cases h
    | cons y w =>
      simp only [below_cons, List.cons_append, List.cons.injEq, true_and] at h
      obtain ⟨rfl, hrest⟩ := row_below_inj (hz.not_mem (List.mem_cons_self ..))
        (hw.not_mem (List.mem_cons_self ..)) h
      rw [ih (fun v hv => hz v (List.mem_cons_of_mem _ hv))
        (fun v hv => hw v (List.mem_cons_of_mem _ hv)) hrest]

/-- Plain rows are read back from the string. -/
theorem Plain.flat_inj {t' : List (List α)} (h : Plain nl t) (h' : Plain nl t') (hne : t ≠ [])
    (hne' : t' ≠ []) (heq : flat nl t = flat nl t') : t = t' := by
  obtain ⟨x, z, rfl⟩ := List.exists_cons_of_ne_nil hne
  obtain ⟨y, w, rfl⟩ := List.exists_cons_of_ne_nil hne'
  rw [flat_cons, flat_cons] at heq
  obtain ⟨rfl, hrest⟩ := row_below_inj (h.not_mem (List.mem_cons_self ..))
    (h'.not_mem (List.mem_cons_self ..)) heq
  have hrows := Plain.below_inj (fun v hv => h v (List.mem_cons_of_mem _ hv))
    (fun v hv => h' v (List.mem_cons_of_mem _ hv)) hrest
  rw [hrows]

/-! ## Edits of the rows -/

theorem plain_pasteRows {u s v : List α} (hu : nl ∉ u) (hv : nl ∉ v) :
    Plain nl (pasteRows nl u s v) := by
  induction s generalizing u with
  | nil =>
    intro x hx c hc heq
    rw [pasteRows, List.mem_singleton] at hx
    rw [hx, heq, List.mem_append] at hc
    exact hc.elim hu hv
  | cons d s ih =>
    rw [pasteRows]
    split
    · intro x hx c hc heq
      rcases List.mem_cons.1 hx with rfl | hx
      · exact hu (heq ▸ hc)
      · exact ih (u := []) (by simp) x hx c hc heq
    · next hd =>
      refine ih ?_
      rw [List.mem_append, List.mem_singleton]
      exact fun hmem => hmem.elim hu fun heq => hd heq.symm

theorem Plain.paste (h : Plain nl t) (p : Pos) (s : List α) : Plain nl (paste nl t p s) := by
  have hrow : nl ∉ row t p.row := fun hmem => h.row p.row nl hmem rfl
  refine All.splice h (plain_pasteRows ?_ ?_)
  · exact fun hmem => hrow (List.mem_of_mem_take hmem)
  · exact fun hmem => hrow (List.mem_of_mem_drop hmem)

theorem Plain.insert (h : Plain nl t) (p : Pos) (c : α) : Plain nl (insert nl t p c) := by
  rw [insert_eq_paste]
  exact h.paste p [c]

/-- A paste puts the characters in at the caret. -/
theorem caret_paste (hp : Valid t p) (x : List α) :
    caret nl (paste nl t p x) (afterPaste nl p x) =
      ⟨(flat nl t).take (offset t p) ++ x ++ (flat nl t).drop (offset t p),
        offset t p + x.length⟩ := by
  induction x generalizing t p with
  | nil =>
    rw [paste_nil nl hp]
    simp [caret, afterPaste]
  | cons c x ih =>
    have hstep := caret_insert nl hp c
    have htext : flat nl (Text.insert nl t p c) =
        (flat nl t).take (offset t p) ++ c :: (flat nl t).drop (offset t p) :=
      congrArg Caret.text hstep
    have hoff : offset (Text.insert nl t p c) (afterInsert nl p c) = offset t p + 1 :=
      congrArg Caret.off hstep
    have hlen : ((flat nl t).take (offset t p)).length = offset t p := by
      rw [List.length_take]
      have := offset_le nl hp
      omega
    have hcut : (flat nl t).take (offset t p) ++ c :: (flat nl t).drop (offset t p) =
        ((flat nl t).take (offset t p) ++ [c]) ++ (flat nl t).drop (offset t p) := by simp
    have hafter : afterPaste nl p (c :: x) = afterPaste nl (afterInsert nl p c) x := rfl
    rw [paste_cons nl hp, hafter, ih (hp.insert nl c), htext, hoff, hcut,
      List.take_left' (by simp [hlen]), List.drop_left' (by simp [hlen])]
    simp only [List.append_assoc, List.singleton_append, List.length_cons, Caret.mk.injEq,
      true_and]
    omega

end Rows

end Text

end LCode
