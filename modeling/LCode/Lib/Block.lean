import Mathlib.Data.List.Basic

/-!
# Blocks of memory

A block is the list of its cells. `slice`, `store` and `read` are the accesses
a program makes to it: an access outside the block has no result, and one of no
cells touches nothing. Indices and lengths are integers, as in the programs
modelled with them, so a negative length is an access outside the block.

The lemmas state each access at a block written as an append, with the index
equal to the length of what stands before it.
-/

namespace LCode

/-- Two branches that go on in the same way. -/
theorem ite_bind {α β : Type*} {c : Prop} [Decidable c] (x y : Option α) (f : α → Option β) :
    (if c then x.bind f else y.bind f) = (if c then x else y).bind f := by
  split <;> rfl

variable {α : Type*}

/-- A list with an index in range, split at it. -/
theorem exists_eq_append_cons {t : List α} {i : Nat} (h : i < t.length) :
    ∃ a z, t = a ++ t[i] :: z ∧ i = a.length :=
  ⟨t.take i, t.drop (i + 1), by simp, by simp; omega⟩

/-- A list and a place in it, split there. -/
theorem exists_eq_append {x : List α} {i : Nat} (h : i ≤ x.length) :
    ∃ u v, x = u ++ v ∧ i = u.length :=
  ⟨x.take i, x.drop i, by simp, by simp; omega⟩

namespace Block

/-- The `n` cells from index `i` on. -/
def slice (b : List α) (i n : Int) : Option (List α) :=
  if n = 0 then some []
  else if 0 ≤ i ∧ 0 < n ∧ i + n ≤ b.length then some ((b.drop i.toNat).take n.toNat)
  else none

/-- The block with the cells from index `i` on overwritten by `xs`. -/
def store (b : List α) (i : Int) (xs : List α) : Option (List α) :=
  if xs.length = 0 then some b
  else if 0 ≤ i ∧ i + xs.length ≤ b.length then
    some (b.take i.toNat ++ xs ++ b.drop (i.toNat + xs.length))
  else none

/-- The cell at index `i`. -/
def read (b : List α) (i : Int) : Option α :=
  if 0 ≤ i then b[i.toNat]? else none

/-- `memmove` inside one block: the `n` cells at `src` are copied to `dst`. -/
def move (b : List α) (dst src n : Int) : Option (List α) := do
  store b dst (← slice b src n)

theorem slice_eq {b a m z : List α} {i n : Int} (hb : b = a ++ m ++ z)
    (hi : i = a.length) (hn : n = m.length) : slice b i n = some m := by
  subst hb hi hn
  unfold slice
  cases m with
  | nil => simp
  | cons x m =>
    have bounds : 0 ≤ (a.length : Int) ∧ (0 : Int) < (x :: m).length ∧
        (a.length : Int) + (x :: m).length ≤ (a ++ (x :: m) ++ z).length := by
      simp only [List.length_append, List.length_cons]
      omega
    rw [if_neg (by simp only [List.length_cons]; omega), if_pos bounds]
    simp

theorem store_eq {b a m z y : List α} {i : Int} (hb : b = a ++ m ++ z)
    (hi : i = a.length) (hlen : y.length = m.length) :
    store b i y = some (a ++ y ++ z) := by
  subst hb hi
  unfold store
  split
  · next h0 =>
    have hxs : y = [] := List.eq_nil_of_length_eq_zero h0
    have hm : m = [] := List.eq_nil_of_length_eq_zero (hlen.symm.trans h0)
    simp [hxs, hm]
  · rw [if_pos (by simp only [List.length_append]; omega)]
    simp [hlen]

theorem read_eq {b a z : List α} {x : α} {i : Int} (hb : b = a ++ x :: z)
    (hi : i = a.length) : read b i = some x := by
  subst hb hi
  simp [read]

/-- The beginning of a block read. -/
theorem slice_prefix {b x z : List α} {n : Int} (hb : b = x ++ z) (hn : n = x.length) :
    slice b 0 n = some x :=
  slice_eq (a := []) hb rfl hn

/-- The beginning of a block overwritten. -/
theorem store_prefix {b xs : List α} (h : xs.length ≤ b.length) :
    store b 0 xs = some (xs ++ b.drop xs.length) :=
  store_eq (a := []) (m := b.take xs.length) (by simp) rfl (by simp only [List.length_take]; omega)

/-- One cell overwritten. -/
theorem store_cell {b a z : List α} {x y : α} {i : Int} (hb : b = a ++ x :: z)
    (hi : i = a.length) : store b i [y] = some (a ++ y :: z) := by
  have := store_eq (m := [x]) (y := [y]) (z := z) (by simpa using hb) hi rfl
  simpa using this

/-- A stretch `m` moved up over the cells `x` after it: the cells it leaves
keep some values, to be overwritten by the caller. -/
theorem move_up {b a m x z : List α} {i j n : Int} (hb : b = a ++ m ++ x ++ z)
    (hsrc : j = a.length) (hdst : i = j + x.length) (hn : n = m.length) :
    ∃ y : List α, y.length = x.length ∧ move b i j n = some (a ++ y ++ m ++ z) := by
  have hread : slice b j n = some m :=
    slice_eq (a := a) (z := x ++ z) (by rw [hb]; simp only [List.append_assoc]) hsrc hn
  refine ⟨(m ++ x).take x.length, by simp, ?_⟩
  simp only [move, hread, Option.bind_eq_bind, Option.bind_some]
  rw [store_eq (a := a ++ (m ++ x).take x.length) (m := (m ++ x).drop x.length) (z := z)
    (by rw [hb, List.append_assoc a (List.take _ _), List.take_append_drop, List.append_assoc a m])
    (by simp [hdst, hsrc]) (by simp)]

/-- A move of no cells. -/
theorem move_zero (b : List α) (dst src : Int) : move b dst src 0 = some b := by
  simp [move, slice, store]

/-- A stretch `m` moved down over the cells `d` before it: the cells it leaves
at its end keep some values. -/
theorem move_down {b a d m z : List α} {i j n : Int} (hb : b = a ++ d ++ m ++ z)
    (hdst : i = a.length) (hsrc : j = i + d.length) (hn : n = m.length) :
    ∃ w : List α, w.length = d.length ∧ move b i j n = some (a ++ m ++ w ++ z) := by
  have hread : slice b j n = some m :=
    slice_eq (a := a ++ d) hb (by simp [hsrc, hdst]) hn
  refine ⟨(d ++ m).drop m.length, by simp, ?_⟩
  simp only [move, hread, Option.bind_eq_bind, Option.bind_some]
  rw [store_eq (a := a) (m := (d ++ m).take m.length) (z := (d ++ m).drop m.length ++ z)
    (by rw [hb, List.append_assoc, List.append_assoc, List.append_assoc a,
      ← List.append_assoc (List.take _ _), List.take_append_drop, List.append_assoc d])
    hdst (by simp)]
  simp

theorem read_natCast (b : List α) (i : Nat) : read b i = b[i]? := by
  simp [read]

theorem store_set {b : List α} {i : Nat} (h : i < b.length) (y : α) :
    store b i [y] = some (b.set i y) := by
  obtain ⟨a, z, hb, hi⟩ := exists_eq_append_cons h
  rw [store_cell hb (congrArg Nat.cast hi)]
  generalize b[i] = x at hb
  subst hb hi
  simp

/-- A cell that could be overwritten was one of the block. -/
theorem store_some {b b' : List α} {i : Int} {y : α} (h : store b i [y] = some b') :
    0 ≤ i ∧ i.toNat < b.length ∧ b' = b.set i.toNat y := by
  unfold store at h
  rw [if_neg (by simp)] at h
  split at h
  · next hin =>
    obtain ⟨h0, hlt⟩ := hin
    rw [List.length_singleton] at hlt
    have hnat : i.toNat < b.length := by omega
    have hset := store_set hnat y
    rw [store, if_neg (by simp), if_pos ⟨by omega, by simp; omega⟩, Int.toNat_natCast] at hset
    exact ⟨h0, hnat, (Option.some.inj h).symm.trans (Option.some.inj hset)⟩
  · exact nomatch h

/-- The cells after a `memmove`. -/
theorem move_getElem? {b : List α} {dst src n : Nat} (hn : 0 < n) (hdst : dst + n ≤ b.length)
    (hsrc : src + n ≤ b.length) :
    ∃ b', move b dst src n = some b' ∧ b'.length = b.length ∧
      ∀ k, b'[k]? = if dst ≤ k ∧ k < dst + n then b[src + (k - dst)]? else b[k]? := by
  have hslice : slice b src n = some ((b.drop src).take n) := by
    rw [slice, if_neg (by omega), if_pos (by omega), Int.toNat_natCast, Int.toNat_natCast]
  have hlen : ((b.drop src).take n).length = n := by
    rw [List.length_take, List.length_drop]
    omega
  have hstore : store b dst ((b.drop src).take n) =
      some (b.take dst ++ (b.drop src).take n ++ b.drop (dst + n)) := by
    rw [store, hlen, if_neg (by omega), if_pos (by omega), Int.toNat_natCast]
  refine ⟨_, by rw [move, hslice]; exact hstore, ?_, fun k => ?_⟩
  · simp only [List.length_append, List.length_take, List.length_drop]
    omega
  · rw [List.append_assoc, List.getElem?_append, List.length_take, Nat.min_eq_left (by omega),
      List.getElem?_append, hlen]
    split
    · rw [if_neg (by omega), List.getElem?_take_of_lt (by omega)]
    · split
      · rw [if_pos (by omega), List.getElem?_take_of_lt (by omega), List.getElem?_drop]
      · rw [if_neg (by omega), List.getElem?_drop]
        congr 1
        omega

theorem slice_subset {b xs : List α} {i n : Int} (h : slice b i n = some xs) : xs ⊆ b := by
  unfold slice at h
  split at h
  · rw [← Option.some.inj h]
    exact List.nil_subset b
  · split at h
    · rw [← Option.some.inj h]
      exact fun x hx => List.mem_of_mem_drop (List.mem_of_mem_take hx)
    · cases h

theorem store_subset {b b' xs : List α} {i : Int} (h : store b i xs = some b') : b' ⊆ xs ++ b := by
  unfold store at h
  split at h
  · rw [← Option.some.inj h]
    exact List.subset_append_right xs b
  · split at h
    · rw [← Option.some.inj h]
      intro x hx
      rw [List.append_assoc, List.mem_append, List.mem_append] at hx
      rcases hx with hx | hx | hx
      · exact List.mem_append_right xs (List.mem_of_mem_take hx)
      · exact List.mem_append_left b hx
      · exact List.mem_append_right xs (List.mem_of_mem_drop hx)
    · cases h

/-- A `memmove` brings no new cells. -/
theorem move_subset {b b' : List α} {dst src n : Int} (h : move b dst src n = some b') :
    b' ⊆ b := by
  obtain ⟨xs, hslice, hstore⟩ := Option.bind_eq_some_iff.1 h
  intro x hx
  rcases List.mem_append.1 (store_subset hstore hx) with hx | hx
  · exact slice_subset hslice hx
  · exact hx

theorem slice_length {b xs : List α} {i n : Int} (h : slice b i n = some xs) :
    (xs.length : Int) = n := by
  unfold slice at h
  split at h
  · next hn => simp only [Option.some.injEq] at h; simp [← h, hn]
  · split at h
    · next hb =>
      simp only [Option.some.injEq] at h
      rw [← h, List.length_take, List.length_drop]
      omega
    · cases h

theorem store_length {b b' xs : List α} {i : Int} (h : store b i xs = some b') :
    b'.length = b.length := by
  unfold store at h
  split at h
  · simp only [Option.some.injEq] at h; rw [h]
  · split at h
    · next hb =>
      simp only [Option.some.injEq] at h
      rw [← h]
      simp only [List.length_append, List.length_take, List.length_drop]
      omega
    · cases h

end Block

end LCode
