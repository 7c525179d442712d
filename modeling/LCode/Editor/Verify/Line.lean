import LCode.Editor.Basic
import LCode.Lib.Text
import Mathlib.Data.List.Forall2

/-!
# What a line array holds

`Line.Holds T ln x` says that the buffer of `ln` is live, is as large as `cap`
says, and begins with the text `x` followed by at least one byte; under `T`
that byte is the terminator. `Doc.Holds T d t` says the same of every row. The
parameter lets one lemma serve the editor alone, whose rows are all terminated,
and two peers, whose received rows need not be.
-/

namespace LCode

theorem growCap_gt {needed : Int} :
    ∀ {fuel : Nat} {cap : Int}, 0 < cap → needed < cap + fuel → needed < growCap needed fuel cap
  | 0, cap, _, h => by simpa [growCap] using h
  | fuel + 1, cap, hcap, h => by
    simp only [growCap]
    split
    · exact growCap_gt (by omega) (by omega)
    · omega

theorem growCap_pos {needed : Int} :
    ∀ {fuel : Nat} {cap : Int}, 0 < cap → 0 < growCap needed fuel cap
  | 0, cap, h => by simpa [growCap] using h
  | fuel + 1, cap, h => by
    simp only [growCap]
    split
    · exact growCap_pos (by omega)
    · exact h

/-- The capacity both functions allocate is enough. -/
theorem growCap_enough {n c i : Int} (hcap : 0 ≤ c) (hinit : 0 < i) :
    n < growCap n (n.toNat + 1) (if c ≠ 0 then c * 2 else i) ∧
      0 < growCap n (n.toNat + 1) (if c ≠ 0 then c * 2 else i) := by
  have hpos : 0 < if c ≠ 0 then c * 2 else i := by split <;> omega
  exact ⟨growCap_gt hpos (by omega), growCap_pos hpos⟩

theorem Heap.Ample.next {h : Heap} (ample : h.Ample) : h.next.Ample := fun k => ample (k + 1)

theorem Heap.malloc_of_some {h : Heap} {junk : Nat → UInt8} (hj : h.outcome 0 = some junk)
    (n : Int) : ∃ b, h.malloc n = some b ∧ b.length = n.toNat :=
  ⟨_, by rw [Heap.malloc, hj]; rfl, by simp⟩

theorem Heap.Ample.malloc {h : Heap} (ample : h.Ample) (n : Int) :
    ∃ b, h.malloc n = some b ∧ b.length = n.toNat := by
  obtain ⟨junk, hj⟩ := Option.isSome_iff_exists.1 (ample 0)
  exact Heap.malloc_of_some hj n

/-! ## Buffers -/

theorem Buf.slice_eq {bytes a m z : List UInt8} {i n : Int} (hb : bytes = a ++ m ++ z)
    (hi : i = a.length) (hn : n = m.length) : (Buf.block bytes).slice i n = some m := by
  unfold Buf.slice
  split
  · next h0 =>
    have : m = [] := List.eq_nil_of_length_eq_zero (by omega)
    rw [this]
  · exact Block.slice_eq hb hi hn

theorem Buf.store_eq {b a m z y : List UInt8} {i : Int} (hb : b = a ++ m ++ z)
    (hi : i = a.length) (hlen : y.length = m.length) :
    (Buf.block b).store i y = some (.block (a ++ y ++ z)) := by
  unfold Buf.store
  split
  · next h0 =>
    have hx : y = [] := List.eq_nil_of_length_eq_zero h0
    have hm : m = [] := List.eq_nil_of_length_eq_zero (hlen.symm.trans h0)
    simp [hb, hx, hm]
  · simp [Block.store_eq hb hi hlen]

theorem Buf.slice_prefix {bytes x z : List UInt8} {n : Int} (hb : bytes = x ++ z)
    (hn : n = x.length) : (Buf.block bytes).slice 0 n = some x :=
  Buf.slice_eq (a := []) hb rfl hn

theorem Buf.store_prefix {bytes xs : List UInt8} (h : xs.length ≤ bytes.length) :
    (Buf.block bytes).store 0 xs = some (.block (xs ++ bytes.drop xs.length)) :=
  Buf.store_eq (a := []) (m := bytes.take xs.length) (by simp) rfl
    (by simp only [List.length_take]; omega)

theorem Buf.store_cell {bytes a z : List UInt8} {x y : UInt8} {i : Int}
    (hb : bytes = a ++ x :: z) (hi : i = a.length) :
    (Buf.block bytes).store i [y] = some (.block (a ++ y :: z)) := by
  simp [Buf.store, Block.store_cell hb hi]

theorem Buf.read_eq {bytes a z : List UInt8} {x : UInt8} {i : Int} (hb : bytes = a ++ x :: z)
    (hi : i = a.length) : (Buf.block bytes).read i = some x :=
  Block.read_eq hb hi

/-- A read has the length asked for. -/
theorem Buf.slice_length {buf : Buf} {i n : Int} {xs : List UInt8} (h : buf.slice i n = some xs) :
    (xs.length : Int) = n := by
  unfold Buf.slice at h
  split at h
  · next hn =>
    rw [← Option.some.inj h, hn]
    rfl
  · split at h
    · exact Block.slice_length h
    · cases h

theorem Buf.move_block {bytes bytes' : List UInt8} {dst src n : Int}
    (h : Block.move bytes dst src n = some bytes') :
    (Buf.block bytes).move dst src n = some (.block bytes') := by
  simp only [Block.move, Option.bind_eq_bind, Option.bind_eq_some_iff] at h
  obtain ⟨xs, hs, hst⟩ := h
  have hslice : (Buf.block bytes).slice src n = some xs := by
    unfold Buf.slice
    split
    · next h0 =>
      unfold Block.slice at hs
      rw [if_pos h0] at hs
      exact hs
    · exact hs
  simp only [Buf.move, hslice, Option.bind_eq_bind, Option.bind_some]
  unfold Buf.store
  split
  · next h0 =>
    unfold Block.store at hst
    rw [if_pos h0] at hst
    simpa using hst
  · simp [hst]

/-! ## Lines -/

/-- The line holds the text `x`; under `T` it is terminated. -/
def Line.Holds (T : Prop) (ln : Line) (x : List UInt8) : Prop :=
  ∃ z rest, ln.buf = .block (x ++ z :: rest) ∧ ln.len = x.length ∧
    ln.cap = (x ++ z :: rest).length ∧ (T → z = 0)

/-- The line holds the text `x` and then the byte `t`. -/
def Line.Ends (ln : Line) (x : List UInt8) (t : UInt8) : Prop :=
  ∃ rest, ln.buf = .block (x ++ t :: rest) ∧ ln.len = x.length ∧ ln.cap = (x ++ t :: rest).length

namespace Line

theorem Ends.holds {T : Prop} {ln : Line} {x : List UInt8} {t : UInt8} (h : ln.Ends x t)
    (ht : T → t = 0) : ln.Holds T x := by
  obtain ⟨rest, hb, hl, hc⟩ := h
  exact ⟨t, rest, hb, hl, hc, ht⟩

theorem Holds.mono {S T : Prop} (hST : S → T) {ln : Line} {x : List UInt8} (h : ln.Holds T x) :
    ln.Holds S x := by
  obtain ⟨z, rest, hb, hl, hc, ht⟩ := h
  exact ⟨z, rest, hb, hl, hc, fun s => ht (hST s)⟩

theorem Holds.len_eq {T : Prop} {ln : Line} {x : List UInt8} (h : ln.Holds T x) :
    ln.len = x.length := by
  obtain ⟨_, _, _, hl, _, _⟩ := h
  exact hl

/-- A line with room is left alone. -/
theorem ensureCap_fits {ln : Line} {heap : Heap} {needed : Int} (h : needed < ln.cap) :
    ln.ensureCap needed heap = some (true, ln, heap) :=
  if_pos h

/-- `line_ensure_cap` with a block for a line without room. -/
theorem Holds.grow {T : Prop} {ln : Line} {x : List UInt8} (h : ln.Holds T x) {heap : Heap}
    {junk : Nat → UInt8} (hjunk : heap.outcome 0 = some junk) {needed : Int}
    (hge : ln.cap ≤ needed) :
    ∃ ln', ln.ensureCap needed heap = some (true, ln', heap.next) ∧ ln'.Holds T x ∧
      needed < ln'.cap := by
  obtain ⟨z, rest, hbuf, hlen, hcap, hz⟩ := h
  have hroom := growCap_enough (n := needed) (c := ln.cap) (i := lineBufInitCap)
    (by omega) (by decide)
  unfold Line.ensureCap
  rw [if_neg (Int.not_lt.2 hge)]
  generalize growCap needed (needed.toNat + 1)
    (if ln.cap ≠ 0 then ln.cap * 2 else lineBufInitCap) = newCap at hroom
  obtain ⟨junk, hjunk, hjlen⟩ := Heap.malloc_of_some hjunk newCap
  have hslice : ln.buf.slice 0 (ln.len + 1) = some (x ++ [z]) := by
    rw [hbuf]
    exact Buf.slice_prefix (z := rest) (by simp) (by simp [hlen])
  have hfit : (x ++ [z]).length ≤ junk.length := by
    rw [hcap] at hge
    simp only [List.length_append, List.length_cons, List.length_nil] at hge ⊢
    omega
  have hstore : (Buf.block junk).store 0 (x ++ [z]) =
      some (.block (x ++ z :: junk.drop (x ++ [z]).length)) := by
    rw [Buf.store_prefix hfit]
    simp
  have hfree : ln.free = some { ln with buf := .dangling } := by simp [Line.free, hbuf]
  refine ⟨{ ln with buf := .block (x ++ z :: junk.drop (x ++ [z]).length), cap := newCap },
    ?_, ⟨z, _, rfl, hlen, ?_, hz⟩, hroom.1⟩
  · simp [hjunk, hbuf ▸ hslice, hstore, hbuf, hfree]
  · simp only [List.length_append, List.length_cons, List.length_nil, List.length_drop] at hfit ⊢
    omega

/-- `line_ensure_cap` keeps the text and makes room. -/
theorem Holds.ensureCap {T : Prop} {ln : Line} {x : List UInt8} (h : ln.Holds T x) {heap : Heap}
    (ample : heap.Ample) (needed : Int) :
    ∃ ln' heap', ln.ensureCap needed heap = some (true, ln', heap') ∧ heap'.Ample ∧
      ln'.Holds T x ∧ needed < ln'.cap := by
  by_cases hlt : needed < ln.cap
  · exact ⟨ln, heap, ensureCap_fits hlt, ample, h, hlt⟩
  · obtain ⟨junk, hjunk⟩ := Option.isSome_iff_exists.1 (ample 0)
    obtain ⟨ln', he, hx, hcap⟩ := h.grow hjunk (Int.not_lt.1 hlt)
    exact ⟨ln', heap.next, he, ample.next, hx, hcap⟩

/-- `line_ensure_cap` with a block for a fresh line gives it an empty text. -/
theorem zero_grow {heap : Heap} {junk : Nat → UInt8} (hjunk : heap.outcome 0 = some junk)
    {n : Int} (h0 : 0 ≤ n) :
    ∃ ln', Line.zero.ensureCap n heap = some (true, ln', heap.next) ∧ ln'.Holds True [] ∧
      n < ln'.cap ∧ ln'.cap = growCap n (n.toNat + 1) lineBufInitCap := by
  have hroom := growCap_enough (n := n) (c := Line.zero.cap) (i := lineBufInitCap)
    (by decide) (by decide)
  unfold Line.ensureCap
  rw [if_neg (show ¬ n < Line.zero.cap from Int.not_lt.2 h0)]
  rw [if_neg (show ¬ Line.zero.cap ≠ 0 from fun h => h rfl)] at hroom ⊢
  generalize growCap n (n.toNat + 1) lineBufInitCap = newCap at hroom
  obtain ⟨junk, hjunk, hjlen⟩ := Heap.malloc_of_some hjunk newCap
  cases junk with
  | nil => simp only [List.length_nil] at hjlen; omega
  | cons y junk =>
    have hstore : (Buf.block (y :: junk)).store 0 [0] = some (.block (0 :: junk)) :=
      Buf.store_cell (a := []) rfl rfl
    refine ⟨⟨.block (0 :: junk), 0, newCap⟩, ?_, ⟨0, junk, rfl, rfl, ?_, fun _ => rfl⟩,
      hroom.1, rfl⟩
    · simp [Line.zero, hjunk, hstore, Line.free]
    · simp only [List.length_cons, List.nil_append] at hjlen ⊢
      omega

/-- `line_ensure_cap` on a fresh line gives it an empty text. -/
theorem ensureCap_zero {heap : Heap} (ample : heap.Ample) {n : Int} (h0 : 0 ≤ n) :
    ∃ ln' heap', Line.zero.ensureCap n heap = some (true, ln', heap') ∧ heap'.Ample ∧
      ln'.Holds True [] ∧ n < ln'.cap := by
  obtain ⟨junk, hjunk⟩ := Option.isSome_iff_exists.1 (ample 0)
  obtain ⟨ln', he, hx, hcap, -⟩ := zero_grow hjunk h0
  exact ⟨ln', heap.next, he, ample.next, hx, hcap⟩

/-- A line with room: how much of its buffer lies behind the text. -/
theorem Holds.room {T : Prop} {ln : Line} {x : List UInt8} (h : ln.Holds T x) {n : Nat}
    (hn : (x.length : Int) + n < ln.cap) :
    ∃ z rest, ln.buf = .block (x ++ z :: rest) ∧ ln.len = x.length ∧
      ln.cap = (x ++ z :: rest).length ∧ (T → z = 0) ∧ n ≤ rest.length := by
  obtain ⟨z, rest, hbuf, hlen, hcap, hz⟩ := h
  refine ⟨z, rest, hbuf, hlen, hcap, hz, ?_⟩
  simp only [List.length_append, List.length_cons] at hcap
  omega

end Line

/-- The line holds `x`, or is a fresh line and `x` is empty. -/
def Line.Shows (T : Prop) (ln : Line) (x : List UInt8) : Prop :=
  ln.Holds T x ∨ (ln = Line.zero ∧ x = [])

theorem Line.Holds.shows {T : Prop} {ln : Line} {x : List UInt8} (h : ln.Holds T x) :
    ln.Shows T x := Or.inl h

theorem Line.zero_shows {T : Prop} : Line.zero.Shows T [] := Or.inr ⟨rfl, rfl⟩

/-- What a row stores: its text, or nothing while it is a fresh empty line. -/
def Line.Stores (T : Prop) (ln : Line) : Option (List UInt8) → Prop
  | none => ln = Line.zero
  | some x => ln.Holds T x

theorem Line.Stores.shows {T : Prop} {ln : Line} {y : Option (List UInt8)} (h : ln.Stores T y) :
    ln.Shows T (y.getD []) := by
  cases y with
  | none => exact Or.inr ⟨h, rfl⟩
  | some x => exact Or.inl h

theorem Line.Shows.len_eq {T : Prop} {ln : Line} {x : List UInt8} (h : ln.Shows T x) :
    ln.len = x.length := by
  rcases h with h | ⟨rfl, rfl⟩
  · exact h.len_eq
  · rfl

theorem Line.Shows.lineText_eq {T : Prop} {ln : Line} {x : List UInt8} (h : ln.Shows T x) :
    Doc.lineText ln = some x := by
  rcases h with ⟨z, rest, hb, hlen, -, -⟩ | ⟨rfl, rfl⟩
  · rw [Doc.lineText, hb]
    exact Buf.slice_prefix rfl hlen
  · rfl

theorem Line.Shows.ne_dangling {T : Prop} {ln : Line} {x : List UInt8} (h : ln.Shows T x) :
    ln.buf ≠ .dangling := by
  rcases h with ⟨z, rest, hb, -⟩ | ⟨rfl, -⟩
  · simp [hb]
  · simp [Line.zero]

/-- Whatever the line shows, `line_ensure_cap` gives it a live buffer with room. -/
theorem Line.Shows.ensureCap {T : Prop} {ln : Line} {x : List UInt8} (h : ln.Shows T x)
    {heap : Heap} (ample : heap.Ample) {n : Int} (h0 : 0 ≤ n) :
    ∃ ln' heap', ln.ensureCap n heap = some (true, ln', heap') ∧ heap'.Ample ∧
      ln'.Holds T x ∧ n < ln'.cap := by
  rcases h with h | ⟨rfl, rfl⟩
  · exact h.ensureCap ample n
  · obtain ⟨ln', heap', he, ha, hh, hc⟩ := Line.ensureCap_zero ample h0
    exact ⟨ln', heap', he, ha, hh.mono fun _ => trivial, hc⟩

/-- The slot of a line after `free`. -/
def Line.freed (ln : Line) : Line :=
  match ln.buf with
  | .null => ln
  | _ => { ln with buf := .dangling }

theorem Line.free_eq {ln : Line} (h : ln.buf ≠ .dangling) : ln.free = some ln.freed := by
  cases hb : ln.buf with
  | null => simp [free, freed, hb]
  | dangling => exact absurd hb h
  | block bytes => simp [free, freed, hb]

/-! ## Documents -/

namespace Doc

/-- The document with the line array `ls`, of which `n` rows are in use. -/
def slots (ls : List Line) (n : Int) (heap : Heap) : Doc := ⟨some ls, ls.length, n, heap⟩

@[simp] theorem slots_rowCount (ls : List Line) (n : Int) (heap : Heap) :
    (slots ls n heap).rowCount = n := rfl

@[simp] theorem slots_heap (ls : List Line) (n : Int) (heap : Heap) :
    (slots ls n heap).heap = heap := rfl

theorem slots_with_heap (ls : List Line) (n : Int) (heap heap' : Heap) :
    ({ slots ls n heap with heap := heap' } : Doc) = slots ls n heap' := rfl

section Slots

variable {l a z : List Line} {x : Line} {n r : Int} {η : Heap}

theorem slots_line (hl : l = a ++ x :: z) (hr : r = a.length) :
    (slots l n η).line r = some x := by
  simp [Doc.line, slots, Block.read_eq hl hr]

theorem slots_setLine (hl : l = a ++ x :: z) (hr : r = a.length) (y : Line) :
    (slots l n η).setLine r y = some (slots (a ++ y :: z) n η) := by
  simp only [Doc.setLine, slots, Option.bind_eq_bind, Option.bind_some, Block.store_cell hl hr,
    Option.pure_def]
  simp [hl]

theorem slots_lineEnsureCap {y : Line} {needed : Int} {ok : Bool} {heap' : Heap}
    (hl : l = a ++ x :: z) (hr : r = a.length)
    (h : x.ensureCap needed η = some (ok, y, heap')) :
    (slots l n η).lineEnsureCap r needed = some (ok, slots (a ++ y :: z) n heap') := by
  simp only [Doc.lineEnsureCap, slots_line hl hr, slots_heap, Option.bind_eq_bind,
    Option.bind_some, h, slots_setLine hl hr, Option.pure_def]
  rfl

/-- Rows `m` moved up over the slots `x` after them. -/
theorem slots_moveUp {m x : List Line} {i j k : Int} (hl : l = a ++ m ++ x ++ z)
    (hsrc : j = a.length) (hdst : i = j + x.length) (hk : k = m.length) :
    ∃ y : List Line, y.length = x.length ∧
      (slots l n η).moveLines i j k = some (slots (a ++ y ++ m ++ z) n η) := by
  obtain ⟨y, hy, hmove⟩ := Block.move_up hl hsrc hdst hk
  refine ⟨y, hy, ?_⟩
  simp only [Doc.moveLines, slots, Option.bind_eq_bind, Option.bind_some, hmove, Option.pure_def]
  simp [hl, hy]
  omega

theorem slots_moveZero (i j : Int) :
    (slots l n η).moveLines i j 0 = some (slots l n η) := by
  simp [Doc.moveLines, slots, Block.move_zero]

/-- Rows `m` moved down over the slots `g` before them. -/
theorem slots_moveDown {g m : List Line} {i j k : Int} (hl : l = a ++ g ++ m ++ z)
    (hdst : i = a.length) (hsrc : j = i + g.length) (hk : k = m.length) :
    ∃ w : List Line, w.length = g.length ∧
      (slots l n η).moveLines i j k = some (slots (a ++ m ++ w ++ z) n η) := by
  obtain ⟨w, hw, hmove⟩ := Block.move_down hl hdst hsrc hk
  refine ⟨w, hw, ?_⟩
  simp only [Doc.moveLines, slots, Option.bind_eq_bind, Option.bind_some, hmove, Option.pure_def]
  simp [hl, hw]
  omega

theorem slots_zeroLines {m : List Line} {k : Nat} (hl : l = a ++ m ++ z) (hr : r = a.length)
    (hk : k = m.length) :
    (slots l n η).zeroLines r k =
      some (slots (a ++ List.replicate k Line.zero ++ z) n η) := by
  have hstore := Block.store_eq (b := l) (y := List.replicate k Line.zero) hl hr
    (by simp [hk])
  simp only [Doc.zeroLines, slots, Option.bind_eq_bind, Option.bind_some, hstore, Option.pure_def]
  simp [hl, hk]

/-- Freeing live or fresh lines. -/
theorem slots_freeLines_eq {m : List Line} {k : Nat} (hl : l = a ++ m ++ z) (hr : r = a.length)
    (hk : k = m.length) (hm : ∀ ln ∈ m, ln.buf ≠ .dangling) :
    (slots l n η).freeLines r k = some (slots (a ++ m.map Line.freed ++ z) n η) := by
  subst hl
  induction m generalizing a r k with
  | nil =>
    simp only [hk, List.length_nil]
    rfl
  | cons ln m ih =>
    have hrec := ih (a := a ++ [ln.freed]) (r := r + 1) (k := m.length)
      (by simp [hr]) rfl fun l hl => hm l (by simp [hl])
    simp only [List.length_cons] at hk
    subst hk
    have hl : a ++ ln :: m ++ z = a ++ ln :: (m ++ z) := by simp
    simp only [freeLines, slots_line hl hr, Line.free_eq (hm ln (by simp)), slots_setLine hl hr,
      Option.bind_eq_bind, Option.bind_some]
    simpa using hrec

/-- Freeing leaves slots behind whose contents no longer matter. -/
theorem slots_freeLines {m : List Line} {k : Nat} (hl : l = a ++ m ++ z) (hr : r = a.length)
    (hk : k = m.length) (hm : ∀ ln ∈ m, ln.buf ≠ .dangling) :
    ∃ m', m'.length = m.length ∧ (slots l n η).freeLines r k =
      some (slots (a ++ m' ++ z) n η) :=
  ⟨m.map Line.freed, List.length_map _, slots_freeLines_eq hl hr hk hm⟩

end Slots

/-- `lines_ensure_cap` with a block, for an array without room. -/
theorem slots_linesGrow {l e : List Line} {n : Int} {η : Heap} {junk : Nat → UInt8}
    (hn : n = l.length) (hjunk : η.outcome 0 = some junk) (needed : Int)
    (hge : ((l ++ e).length : Int) ≤ needed) :
    ∃ dead', (slots (l ++ e) n η).linesEnsureCap needed =
        some (true, slots (l ++ dead') n η.next) ∧ needed < (l ++ dead').length := by
  subst hn
  have hroom := growCap_enough (n := needed)
    (c := (slots (l ++ e) l.length η).rowCap) (i := linesInitCap)
    (by simp only [slots]; omega) (by decide)
  have hfull : ¬ needed < (slots (l ++ e) l.length η).rowCap := Int.not_lt.2 hge
  unfold Doc.linesEnsureCap
  rw [if_neg hfull]
  generalize growCap needed (needed.toNat + 1)
    (if (slots (l ++ e) l.length η).rowCap ≠ 0 then
      (slots (l ++ e) l.length η).rowCap * 2 else linesInitCap) = newCap at hroom ⊢
  have hslice : Block.slice (l ++ e) 0 l.length = some l := Block.slice_prefix rfl rfl
  have hfit : l.length ≤ newCap.toNat := by
    simp only [List.length_append] at hge
    omega
  have hstore : Block.store (List.replicate newCap.toNat Line.uninit) 0 l =
      some (l ++ List.replicate (newCap.toNat - l.length) Line.uninit) := by
    rw [Block.store_prefix (by simpa using hfit), List.drop_replicate]
  have hlen : newCap = (l ++ List.replicate (newCap.toNat - l.length) Line.uninit).length := by
    simp only [List.length_append, List.length_replicate]
    omega
  refine ⟨List.replicate (newCap.toNat - l.length) Line.uninit, ?_, ?_⟩
  · simp only [slots, hjunk, Option.bind_eq_bind, hslice, Option.bind_some, hstore]
    rw [← hlen]
  · rw [← hlen]
    exact hroom.1

/-- The array has room for `needed` rows, or the next allocation gives it a block. -/
def Grows (d : Doc) (needed : Int) : Prop := needed < d.rowCap ∨ (d.heap.outcome 0).isSome

instance (d : Doc) (needed : Int) : Decidable (d.Grows needed) :=
  inferInstanceAs (Decidable (_ ∨ _))

theorem slots_grows_iff {ls : List Line} {n needed : Int} {η : Heap} :
    (slots ls n η).Grows needed ↔ needed < ls.length ∨ (η.outcome 0).isSome := Iff.rfl

theorem grows_of_ample {d : Doc} (ample : d.heap.Ample) (needed : Int) : d.Grows needed :=
  Or.inr (ample 0)

/-- `lines_ensure_cap`, where it can, keeps the rows in use and makes room behind them. -/
theorem slots_linesEnsureCap_grows {l e : List Line} {n : Int} {η : Heap} (hn : n = l.length)
    {needed : Int} (hgrows : (slots (l ++ e) n η).Grows needed) :
    ∃ dead' heap', (slots (l ++ e) n η).linesEnsureCap needed =
        some (true, slots (l ++ dead') n heap') ∧
      (η.Ample → heap'.Ample) ∧ needed < (l ++ dead').length := by
  by_cases hlt : needed < (l ++ e).length
  · exact ⟨e, η, if_pos hlt, id, hlt⟩
  · obtain ⟨junk, hjunk⟩ := Option.isSome_iff_exists.1 (hgrows.resolve_left hlt)
    obtain ⟨dead', hgrow, hroom⟩ := slots_linesGrow hn hjunk needed (Int.not_lt.1 hlt)
    exact ⟨dead', η.next, hgrow, Heap.Ample.next, hroom⟩

/-- `lines_ensure_cap` keeps the rows in use and makes room behind them. -/
theorem slots_linesEnsureCap {l e : List Line} {n : Int} {η : Heap} (hn : n = l.length)
    (ample : η.Ample) (needed : Int) :
    ∃ dead' heap', (slots (l ++ e) n η).linesEnsureCap needed =
        some (true, slots (l ++ dead') n heap') ∧
      heap'.Ample ∧ needed < (l ++ dead').length := by
  obtain ⟨dead', heap', hgrow, ample', hroom⟩ :=
    slots_linesEnsureCap_grows hn (grows_of_ample (d := slots (l ++ e) n η) ample needed)
  exact ⟨dead', heap', hgrow, ample' ample, hroom⟩

/-- The first `row_count` slots are related to the elements of `t`, and there is
a slot more. -/
def Rows {β : Type} (R : Line → β → Prop) (d : Doc) (t : List β) : Prop :=
  ∃ ls dead heap, d = slots (ls ++ dead) ls.length heap ∧ dead ≠ [] ∧ List.Forall₂ R ls t

/-- Every row has a live buffer with its text. -/
abbrev Holds (T : Prop) (d : Doc) (t : List (List UInt8)) : Prop := d.Rows (Line.Holds T) t

/-- Every row has a live buffer with its text, or is a fresh empty line. -/
abbrev Shows (T : Prop) (d : Doc) (t : List (List UInt8)) : Prop := d.Rows (Line.Shows T) t

theorem forall₂_append {α β : Type} {R : α → β → Prop} {ls : List α} {a b : List β} :
    List.Forall₂ R ls (a ++ b) ↔
      ∃ la lb, ls = la ++ lb ∧ List.Forall₂ R la a ∧ List.Forall₂ R lb b := by
  constructor
  · intro h
    exact ⟨ls.take a.length, ls.drop a.length, by simp, List.forall₂_take_append _ _ _ h,
      List.forall₂_drop_append _ _ _ h⟩
  · rintro ⟨la, lb, rfl, ha, hb⟩
    exact List.rel_append ha hb

/-- What every related element has, the elements of the list have. -/
theorem forall₂_left {α β : Type} {R : α → β → Prop} {P : α → Prop} (hP : ∀ x y, R x y → P x)
    {ls : List α} {t : List β} (h : List.Forall₂ R ls t) : ∀ x ∈ ls, P x := by
  induction h with
  | nil => simp
  | cons hx _ ih =>
    intro ln hln
    rcases List.mem_cons.1 hln with rfl | hln
    · exact hP _ _ hx
    · exact ih ln hln

/-- Rows without a dangling buffer can be freed. -/
theorem forall₂_ne_dangling {β : Type} {R : Line → β → Prop}
    (hlive : ∀ ln y, R ln y → ln.buf ≠ .dangling) {ls : List Line} {t : List β}
    (h : List.Forall₂ R ls t) : ∀ ln ∈ ls, ln.buf ≠ .dangling :=
  forall₂_left hlive h

section Rows

variable {β : Type} {R S : Line → β → Prop} {d : Doc} {t : List β}

theorem Rows.imp (hRS : ∀ ln x, R ln x → S ln x) (h : d.Rows R t) : d.Rows S t := by
  obtain ⟨ls, dead, heap, hd, hne, hf⟩ := h
  exact ⟨ls, dead, heap, hd, hne, hf.imp hRS⟩

theorem rows_map {γ : Type} {f : γ → β} {s : List γ} :
    d.Rows R (s.map f) ↔ d.Rows (fun ln y => R ln (f y)) s := by
  constructor
  · rintro ⟨ls, dead, heap, hd, hne, hf⟩
    exact ⟨ls, dead, heap, hd, hne, List.forall₂_map_right_iff.1 hf⟩
  · rintro ⟨ls, dead, heap, hd, hne, hf⟩
    exact ⟨ls, dead, heap, hd, hne, List.forall₂_map_right_iff.2 hf⟩

theorem Rows.rowCount_eq (h : d.Rows R t) : d.rowCount = t.length := by
  obtain ⟨ls, _, _, rfl, _, hf⟩ := h
  rw [slots_rowCount, hf.length_eq]

theorem Rows.withHeap (h : d.Rows R t) (heap : Heap) : ({ d with heap } : Doc).Rows R t := by
  obtain ⟨ls, dead, _, rfl, hne, hf⟩ := h
  exact ⟨ls, dead, heap, rfl, hne, hf⟩

theorem Rows.mk_slots {l e : List Line} {n : Int} {η : Heap} (hn : n = l.length)
    (hne : e ≠ []) (h : List.Forall₂ R l t) : (slots (l ++ e) n η).Rows R t :=
  ⟨l, e, η, by rw [hn], hne, h⟩

/-- The slots around one row of the document. -/
theorem Rows.around {a z : List β} {x : β} (h : d.Rows R (a ++ x :: z)) :
    ∃ la ln lz dead heap,
      d = slots (la ++ ln :: (lz ++ dead)) (la.length + lz.length + 1) heap ∧ dead ≠ [] ∧ List.Forall₂ R la a ∧ R ln x ∧ List.Forall₂ R lz z := by
  obtain ⟨ls, dead, heap, hd, hne, hf⟩ := h
  obtain ⟨la, lb, rfl, ha, hb⟩ := forall₂_append.1 hf
  obtain ⟨ln, lz, hx, hz, rfl⟩ := List.forall₂_cons_right_iff.1 hb
  refine ⟨la, ln, lz, dead, heap, ?_, hne, ha, hx, hz⟩
  rw [hd]
  simp [Int.add_assoc]

/-- One row of the document overwritten in its slot. -/
theorem Rows.of_around {a z : List β} {x : β} {la lz dead : List Line}
    {ln : Line} {η : Heap} (hne : dead ≠ []) (ha : List.Forall₂ R la a) (hx : R ln x) (hz : List.Forall₂ R lz z) :
    (slots (la ++ ln :: (lz ++ dead)) (la.length + lz.length + 1) η).Rows R (a ++ x :: z) :=
  ⟨la ++ ln :: lz, dead, η, by simp [Int.add_assoc], hne,
    forall₂_append.2 ⟨la, ln :: lz, rfl, ha, .cons hx hz⟩⟩

theorem Rows.line_eq {a z : List β} {x : β} {r : Int}
    (h : d.Rows R (a ++ x :: z)) (hr : r = a.length) : ∃ ln, d.line r = some ln ∧ R ln x := by
  obtain ⟨la, ln, lz, dead, heap, rfl, -, ha, hx, -⟩ := h.around
  exact ⟨ln, slots_line rfl (by rw [hr, ha.length_eq]), hx⟩

end Rows

/-- The line of a row of the text. -/
theorem Rows.line_row {R : Line → List UInt8 → Prop} {d : Doc} {t : List (List UInt8)}
    (h : d.Rows R t) {r : Nat} (hr : r < t.length) :
    ∃ ln, d.line r = some ln ∧ R ln (Text.row t r) := by
  obtain ⟨a, z, ht, ha⟩ := exists_eq_append_cons hr
  have hrow : Text.row t r = t[r] := by simp [Text.row, List.getD, hr]
  rw [hrow]
  exact Doc.Rows.line_eq (r := r) (ht ▸ h) (by omega)

/-- The rows of a document are what its lines show. -/
theorem Rows.text_eq {T : Prop} {d : Doc} {t : List (List UInt8)} (h : d.Shows T t) :
    d.text = some t := by
  obtain ⟨ls, dead, heap, rfl, -, hf⟩ := h
  have hslice : Block.slice (ls ++ dead) 0 ls.length = some ls := Block.slice_prefix rfl rfl
  simp only [Doc.text, slots, Option.bind_eq_bind, Option.bind_some, hslice]
  clear hslice
  induction hf with
  | nil => rfl
  | @cons ln x ls t hx _ ih =>
    simp [List.mapM_cons, hx.lineText_eq, ih]

theorem Rows.shows {T : Prop} {d : Doc} {t : List (List UInt8)} (h : d.Holds T t) : d.Shows T t :=
  h.imp fun _ _ => Or.inl

/-! ## The document of a text -/

/-- The document with the rows `t`, each in a buffer of its size. -/
def ofText (t : List (List UInt8)) (heap : Heap) : Doc :=
  slots (t.map (fun x => ⟨.block (x ++ [0]), x.length, x.length + 1⟩) ++ [Line.uninit]) t.length heap

theorem ofText_holds (T : Prop) (t : List (List UInt8)) (heap : Heap) :
    (ofText t heap).Holds T t := by
  refine ⟨_, [Line.uninit], heap, by rw [List.length_map]; rfl, by simp, ?_⟩
  induction t with
  | nil => exact .nil
  | cons x t ih => exact .cons ⟨0, [], rfl, rfl, by simp, fun _ => rfl⟩ ih

end Doc

/-- A heap that always gives blocks of zeros. -/
def Heap.zeros : Heap := ⟨fun _ => some fun _ => 0⟩

theorem Heap.zeros_ample : Heap.zeros.Ample := fun _ => rfl

end LCode
