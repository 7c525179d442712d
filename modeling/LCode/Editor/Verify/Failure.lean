import LCode.Editor.Verify.Transfer

/-!
# Failing allocations

What the functions of `editor.c` leave behind when a `malloc` fails. `Doc.Same`
compares two documents row by row: the bytes of each buffer up to its terminator,
or that it is NULL or freed, and its length. Most functions allocate before they
change anything; the newline rounds do not, and what they leave is stated slot by
slot. `Heap.granting n` is the heap whose first `n` allocations succeed.
-/

namespace LCode

/-! ## Heaps that run out -/

namespace Heap

/-- The first `n` allocations succeed, with blocks of zeros, and no other. -/
def granting (n : Nat) : Heap := ⟨fun k => if k < n then some fun _ => 0 else none⟩

theorem granting_zero : (granting 0).outcome 0 = none := rfl

theorem granting_succ (n : Nat) : (granting (n + 1)).outcome 0 = some fun _ => 0 := by
  simp [granting]

@[simp] theorem granting_zero_next : (granting 0).next = granting 0 := rfl

@[simp] theorem granting_next (n : Nat) : (granting (n + 1)).next = granting n := by
  simp [granting, next]

end Heap

/-! ## What rows show -/

/-- The buffer of a row up to the terminator, and its length. -/
def Line.view (ln : Line) : Buf × Int :=
  (match ln.buf with
    | .block bytes => .block (bytes.take (ln.len.toNat + 1))
    | buf => buf, ln.len)

theorem Line.Holds.view_eq {ln : Line} {x : List UInt8} (h : ln.Holds True x) :
    ln.view = (.block (x ++ [0]), (x.length : Int)) := by
  obtain ⟨z, rest, hbuf, hlen, -, hz⟩ := h
  obtain rfl := hz trivial
  have htake : (x ++ 0 :: rest).take (x.length + 1) = x ++ [0] := by
    simp [List.take_append, List.take_of_length_le]
  simp only [view, hbuf, hlen, Int.toNat_natCast, htake]

/-- Rows of different texts differ. -/
theorem Line.Holds.view_ne {ln ln' : Line} {x x' : List UInt8} (h : ln.Holds True x)
    (h' : ln'.Holds True x') (hne : x' ≠ x) : ln'.view ≠ ln.view := by
  rw [h.view_eq, h'.view_eq]
  intro heq
  simp only [Prod.mk.injEq, Buf.block.injEq] at heq
  exact hne (List.append_cancel_right heq.1)

theorem Line.Holds.view_congr {ln ln' : Line} {x : List UInt8} (h : ln.Holds True x)
    (h' : ln'.Holds True x) : ln'.view = ln.view := by
  rw [h.view_eq, h'.view_eq]

theorem Line.Holds.view_ne_zero {T : Prop} {ln : Line} {x : List UInt8} (h : ln.Holds T x) :
    ln.view ≠ Line.zero.view := by
  obtain ⟨z, rest, hbuf, -⟩ := h
  intro heq
  have := congrArg Prod.fst heq
  simp only [view, hbuf, Line.zero] at this
  cases this

namespace Doc

/-- The rows in use. -/
def views (d : Doc) : Option (List (Buf × Int)) := do
  return (← Block.slice (← d.lines) 0 d.rowCount).map Line.view

/-- Row for row the same document. -/
structure Same (d d' : Doc) : Prop where
  rowCount : d'.rowCount = d.rowCount
  views : d'.views = d.views

theorem Same.withHeap {d d' : Doc} (h : d.Same d') (heap : Heap) :
    ({ d with heap } : Doc).Same d' :=
  ⟨h.rowCount, h.views⟩

section Slots

variable {l e : List Line} {n : Int} {η : Heap}

theorem views_slots (hn : n = l.length) :
    (slots (l ++ e) n η).views = some (l.map Line.view) := by
  have hslice : Block.slice (l ++ e) 0 n = some l := Block.slice_prefix rfl hn
  simp [Doc.views, slots, hslice]

/-- The views of rows in use, compared slot by slot. -/
theorem same_slots_iff {l' e' : List Line} {η' : Heap} (hn : n = l.length) (hn' : n = l'.length) :
    (slots (l ++ e) n η).Same (slots (l' ++ e') n η') ↔ l'.map Line.view = l.map Line.view := by
  constructor
  · intro h
    have := h.views
    rw [views_slots hn, views_slots hn'] at this
    exact Option.some.inj this
  · exact fun h => ⟨rfl, by rw [views_slots hn, views_slots hn', h]⟩

/-- A row that another one has taken the place of. -/
theorem same_row_iff {la lz dead dead' : List Line} {ln ln' : Line} {η' : Heap}
    (hn : n = la.length + lz.length + 1) :
    (slots (la ++ ln :: (lz ++ dead)) n η).Same (slots (la ++ ln' :: (lz ++ dead')) n η') ↔
      ln'.view = ln.view := by
  have hsplit (x : Line) (y : List Line) : la ++ x :: (lz ++ y) = (la ++ x :: lz) ++ y := by simp
  rw [hsplit, hsplit, same_slots_iff (by simp [hn]; omega) (by simp [hn]; omega)]
  simp

/-- A list shifted by one place is the same only if all its elements are. -/
theorem shifted_eq_iff {α : Type} {b gone : α} {l keep : List α}
    (h : b :: l = keep ++ [gone]) : keep = l ↔ ∀ x ∈ l, x = b := by
  induction l generalizing b keep with
  | nil =>
    have hlen := congrArg List.length h
    simp only [List.length_cons, List.length_nil, List.length_append] at hlen
    obtain rfl := List.eq_nil_of_length_eq_zero (show keep.length = 0 by omega)
    simp
  | cons x l ih =>
    have hlen := congrArg List.length h
    simp only [List.length_cons, List.length_nil, List.length_append] at hlen
    obtain ⟨y, keep, rfl⟩ := List.exists_cons_of_length_pos (show 0 < keep.length by omega)
    obtain ⟨rfl, htail⟩ := List.cons.inj h
    rw [List.cons.injEq, ih htail, List.forall_mem_cons]
    constructor
    · rintro ⟨rfl, hall⟩
      exact ⟨rfl, hall⟩
    · rintro ⟨rfl, hall⟩
      exact ⟨rfl, hall⟩

/-- A NULL row opened below a row, and the rows below it pushed out. -/
theorem same_opened_iff {la lz dead dead' : List Line} {ln ln' : Line} {η' : Heap}
    (hn : n = la.length + lz.length + 1) :
    (slots (la ++ ln :: (lz ++ dead)) n η).Same
        (slots (la ++ ln' :: Line.zero :: (lz ++ dead')) n η') ↔
      ln'.view = ln.view ∧ ∀ x ∈ lz, x.view = Line.zero.view := by
  have hsplit (x : Line) (y : List Line) : la ++ x :: (lz ++ y) = (la ++ x :: lz) ++ y := by simp
  obtain ⟨keep, gone, hkeep, hlen⟩ : ∃ keep gone, Line.zero :: lz = keep ++ [gone] ∧
      keep.length = lz.length := by
    refine ⟨_, _, (List.dropLast_append_getLast (List.cons_ne_nil Line.zero lz)).symm, by simp⟩
  have hopened : la ++ ln' :: Line.zero :: (lz ++ dead') =
      (la ++ ln' :: keep) ++ (gone :: dead') := by
    have : Line.zero :: (lz ++ dead') = (Line.zero :: lz) ++ dead' := rfl
    rw [this, hkeep]
    simp
  rw [hsplit, hopened, same_slots_iff (by simp [hn]; omega) (by simp [hn, hlen]; omega)]
  simp only [List.map_append, List.map_cons, List.append_cancel_left_eq, List.cons.injEq]
  refine and_congr_right fun _ => ?_
  have hshift := congrArg (List.map Line.view) hkeep
  rw [List.map_cons, List.map_append] at hshift
  rw [shifted_eq_iff hshift]
  exact List.forall_mem_map

end Slots

/-! ## Allocations before any change -/

/-- A refused allocation leaves the line. -/
theorem ensureCap_false {ln ln' : Line} {needed : Int} {heap heap' : Heap}
    (h : ln.ensureCap needed heap = some (false, ln', heap')) : ln' = ln := by
  unfold Line.ensureCap at h
  by_cases hfits : needed < ln.cap
  · simp [hfits] at h
  · rw [if_neg hfits] at h
    cases hmalloc : heap.malloc (growCap needed (needed.toNat + 1)
      (if ln.cap ≠ 0 then ln.cap * 2 else lineBufInitCap)) with
    | none =>
      simp only [hmalloc, Option.some.injEq, Prod.mk.injEq, true_and] at h
      exact h.1.symm
    | some newBuf =>
      -- the branch with a block never reports a failure
      simp only [hmalloc, Option.bind_eq_bind] at h
      split at h <;> simp [Option.bind_eq_some_iff] at h

/-- What is read can be stored again. -/
theorem store_read {d : Doc} {row : Int} {ln : Line} (h : d.line row = some ln) :
    d.setLine row ln = some d := by
  obtain ⟨ls, hls, hread⟩ := Option.bind_eq_some_iff.1 h
  unfold Block.read at hread
  split at hread
  · next h0 =>
    obtain ⟨hlt, rfl⟩ := List.getElem?_eq_some_iff.1 hread
    obtain ⟨a, z, hsplit, ha⟩ := exists_eq_append_cons hlt
    have hstore := Block.store_cell (y := ls[row.toNat]) hsplit (by omega : row = a.length)
    simp only [Doc.setLine, hls, Option.bind_eq_bind, Option.bind_some, hstore, Option.pure_def]
    rw [← hsplit, ← hls]
  · simp at hread

/-- A refused `line_ensure_cap` leaves the document. -/
theorem lineEnsureCap_false {d d' : Doc} {row needed : Int}
    (h : d.lineEnsureCap row needed = some (false, d')) : ∃ heap, d' = { d with heap } := by
  obtain ⟨ln, hline, h⟩ := Option.bind_eq_some_iff.1 h
  obtain ⟨⟨ok, ln', heap⟩, hcap, h⟩ := Option.bind_eq_some_iff.1 h
  obtain ⟨d₁, hset, h⟩ := Option.bind_eq_some_iff.1 h
  simp only [Option.pure_def, Option.some.injEq, Prod.mk.injEq] at h
  obtain ⟨rfl, rfl⟩ := h
  obtain rfl := ensureCap_false hcap
  rw [store_read hline, Option.some.injEq] at hset
  exact ⟨heap, by rw [hset]⟩

/-- A refused `lines_ensure_cap` leaves the document; the array was too small. -/
theorem linesEnsureCap_false {d d' : Doc} {needed : Int}
    (h : d.linesEnsureCap needed = some (false, d')) :
    d.rowCap ≤ needed ∧ ∃ heap, d' = { d with heap } := by
  unfold Doc.linesEnsureCap at h
  by_cases hfits : needed < d.rowCap
  · simp [hfits] at h
  · rw [if_neg hfits] at h
    refine ⟨Int.not_lt.1 hfits, d.heap.next, ?_⟩
    cases hη : d.heap.outcome 0 with
    | none =>
      simp only [hη, Option.some.injEq, Prod.mk.injEq, true_and] at h
      exact h.symm
    | some junk =>
      simp only [hη, Option.bind_eq_bind] at h
      split at h <;> simp [Option.bind_eq_some_iff] at h

/-- A function that calls `line_ensure_cap` before it changes anything, and cannot
fail after that, leaves the document when it fails. -/
theorem err_of_lineEnsureCap {d d' : Doc} {row needed : Int}
    {f : Bool × Doc → Option (EditorResult × Doc)}
    (h : (d.lineEnsureCap row needed).bind f = some (.errAllocFailed, d'))
    (hfails : ∀ d₁, f (false, d₁) = some (.errAllocFailed, d₁))
    (hgoes : ∀ d₁ d₂, f (true, d₁) ≠ some (.errAllocFailed, d₂)) : ∃ heap, d' = { d with heap } := by
  obtain ⟨⟨ok, d₁⟩, hcap, h⟩ := Option.bind_eq_some_iff.1 h
  cases ok with
  | false =>
    simp only [hfails, Option.some.injEq, Prod.mk.injEq, true_and] at h
    subst h
    exact lineEnsureCap_false hcap
  | true => exact absurd h (hgoes d₁ d')

section Err

variable {d d' : Doc} {row col startRow startCol endRow endCol len : Int}

theorem insertInLine_err {c : UInt8} (h : d.insertInLine row col c = some (.errAllocFailed, d')) :
    ∃ heap, d' = { d with heap } := by
  obtain ⟨ln, -, h⟩ := Option.bind_eq_some_iff.1 h
  refine err_of_lineEnsureCap h (fun _ => rfl) fun d₁ d₂ => ?_
  simp [Option.bind_eq_some_iff]

theorem deleteRows_err (h : d.deleteRows startRow startCol endRow endCol =
    some (.errAllocFailed, d')) : ∃ heap, d' = { d with heap } := by
  obtain ⟨ln, -, h⟩ := Option.bind_eq_some_iff.1 h
  refine err_of_lineEnsureCap h (fun _ => rfl) fun d₁ d₂ => ?_
  simp [Option.bind_eq_some_iff]

theorem joinLine_err (h : d.joinLine row = some (.errAllocFailed, d')) :
    ∃ heap, d' = { d with heap } := by
  rw [joinLine_eq] at h
  obtain ⟨ln, -, h⟩ := Option.bind_eq_some_iff.1 h
  exact deleteRows_err h

theorem updateLine_err {text : List UInt8}
    (h : d.updateLine row text len = some (.errAllocFailed, d')) : ∃ heap, d' = { d with heap } := by
  refine err_of_lineEnsureCap h (fun _ => rfl) fun d₁ d₂ => ?_
  simp [Option.bind_eq_some_iff]

/-- A failing block has freed its rows and found the array too small. -/
theorem replaceBlock_err {i deleted inserted : Int}
    (h : d.replaceBlock i deleted inserted = some (.errAllocFailed, d')) :
    ∃ d₁ heap, d.freeLines i (d.actualDeleted i deleted).toNat = some d₁ ∧
      0 < inserted - d.actualDeleted i deleted ∧
      d₁.rowCap ≤ d₁.rowCount + (inserted - d.actualDeleted i deleted) ∧
      d' = { d₁ with heap } := by
  obtain ⟨d₁, hfree, h⟩ := Option.bind_eq_some_iff.1 h
  by_cases hgrow : 0 < inserted - d.actualDeleted i deleted
  · rw [if_pos hgrow] at h
    obtain ⟨⟨ok, d₂⟩, hcap, h⟩ := Option.bind_eq_some_iff.1 h
    cases ok with
    | false =>
      obtain ⟨-, rfl⟩ := Prod.mk.inj (Option.some.inj h)
      obtain ⟨hfull, heap, rfl⟩ := linesEnsureCap_false hcap
      exact ⟨d₁, heap, hfree, hgrow, hfull, rfl⟩
    | true =>
      simp only [Bool.not_true, Bool.false_eq_true, if_false] at h
      split at h <;> simp [Option.bind_eq_some_iff] at h
  · rw [if_neg hgrow] at h
    simp only [Option.bind_eq_bind, Option.bind_some, Bool.not_true, Bool.false_eq_true,
      if_false] at h
    split at h <;> simp [Option.bind_eq_some_iff] at h

end Err

/-! ## Rows opened before their buffer is allocated -/

section Open

variable {la lz dead : List Line} {ln : Line} {n r k : Int} {η : Heap}

/-- `lines_ensure_cap` either fails and leaves the array, or makes room. -/
theorem slots_linesEnsureCap_cases (l e : List Line) (hn : n = l.length) (η : Heap)
    (needed : Int) :
    (∃ η', (slots (l ++ e) n η).linesEnsureCap needed = some (false, slots (l ++ e) n η')) ∨
      ∃ dead' η', (slots (l ++ e) n η).linesEnsureCap needed =
          some (true, slots (l ++ dead') n η') ∧
        needed < (l ++ dead').length ∧ (η' = η ∨ η' = η.next) := by
  by_cases hlt : needed < (l ++ e).length
  · exact Or.inr ⟨e, η, if_pos hlt, hlt, Or.inl rfl⟩
  · cases hη : η.outcome 0 with
    | none =>
      have hfull : ¬ needed < (slots (l ++ e) n η).rowCap := hlt
      refine Or.inl ⟨η.next, ?_⟩
      unfold Doc.linesEnsureCap
      rw [if_neg hfull]
      simp only [slots, hη]
    | some junk =>
      obtain ⟨dead', hgrow, hroom⟩ := slots_linesGrow hn hη needed (Int.not_lt.1 hlt)
      exact Or.inr ⟨dead', η.next, hgrow, hroom, Or.inr rfl⟩

/-- Room for one more row, asked for around a row: two slots behind the rows. -/
theorem slots_rowRoom_cases (dead : List Line) (ln : Line)
    (hn : n = la.length + lz.length + 1) (η : Heap) :
    (∃ η', (slots (la ++ ln :: (lz ++ dead)) n η).linesEnsureCap (n + 1) =
        some (false, slots (la ++ ln :: (lz ++ dead)) n η')) ∨
      ∃ dead₁ η₁, (slots (la ++ ln :: (lz ++ dead)) n η).linesEnsureCap (n + 1) =
          some (true, slots (la ++ ln :: (lz ++ dead₁)) n η₁) ∧
        2 ≤ dead₁.length ∧ (η₁ = η ∨ η₁ = η.next) := by
  have hsplit (y : List Line) : la ++ ln :: (lz ++ y) = (la ++ ln :: lz) ++ y := by simp
  have hlen : n = (la ++ ln :: lz).length := by simp [hn]; omega
  simp only [hsplit]
  rcases slots_linesEnsureCap_cases (la ++ ln :: lz) dead hlen η (n + 1) with
    hfull | ⟨dead₁, η₁, hgrow, hroom, hη₁⟩
  · exact Or.inl hfull
  · refine Or.inr ⟨dead₁, η₁, hgrow, ?_, hη₁⟩
    rw [List.length_append] at hroom
    omega

/-- Enough allocations for that room, whatever the row holds, with `m` left. -/
theorem slots_rowRoom_granting (la lz dead : List Line) (hn : n = la.length + lz.length + 1)
    (m : Nat) :
    ∃ j, ∀ ln, ∃ dead₁, (slots (la ++ ln :: (lz ++ dead)) n (.granting j)).linesEnsureCap (n + 1) =
      some (true, slots (la ++ ln :: (lz ++ dead₁)) n (.granting m)) ∧ 2 ≤ dead₁.length := by
  have hsplit (ln : Line) (y : List Line) : la ++ ln :: (lz ++ y) = (la ++ ln :: lz) ++ y := by
    simp
  have hlen (ln : Line) : n = (la ++ ln :: lz).length := by simp [hn]; omega
  simp only [hsplit]
  by_cases htwo : 2 ≤ dead.length
  · refine ⟨m, fun ln => ⟨dead, if_pos ?_, htwo⟩⟩
    have := hlen ln
    simp only [slots, List.length_append] at this ⊢
    omega
  · refine ⟨m + 1, fun ln => ?_⟩
    obtain ⟨dead₁, hgrow, hroom⟩ := slots_linesGrow (e := dead) (hlen ln) (Heap.granting_succ m)
      (n + 1) (by have := hlen ln; rw [List.length_append]; omega)
    rw [Heap.granting_next] at hgrow
    refine ⟨dead₁, hgrow, ?_⟩
    have := hlen ln
    rw [List.length_append] at hroom
    omega

theorem zero_refused (h0 : 0 ≤ k) (hη : η.outcome 0 = none) :
    Line.zero.ensureCap k η = some (false, Line.zero, η.next) := by
  have hfull : ¬ k < Line.zero.cap := Int.not_lt.2 h0
  unfold Line.ensureCap
  rw [if_neg hfull]
  simp only [Heap.malloc, hη, Option.map_none]

/-- What the newline cases do once the array has room: a fresh row below the row,
and the call for its buffer. -/
theorem slots_opened (ln : Line) (η : Heap) (hn : n = la.length + lz.length + 1) (hr : r = la.length)
    (hroom : 2 ≤ dead.length) :
    ∃ dead', dead' ≠ [] ∧ ((slots (la ++ ln :: (lz ++ dead)) n η).moveLines (r + 2) (r + 1)
        (n - r - 1)).bind (·.setLine (r + 1) Line.zero) =
      some (slots (la ++ ln :: Line.zero :: (lz ++ dead')) n η) := by
  obtain ⟨w, dead', hne, hmove⟩ := slots_openSlot η ln hn hroom hr
  refine ⟨dead', hne, ?_⟩
  rw [hmove, Option.bind_some]
  have hset := slots_setLine (l := la ++ ln :: w :: (lz ++ dead')) (a := la ++ [ln]) (x := w)
    (z := lz ++ dead') (n := n) (η := η) (r := r + 1) (by simp) (by simp [hr]) Line.zero
  simpa using hset

/-- The newline round of the paste loop, with room in the array. -/
theorem slots_openLine {dead₁ : List Line} {η₁ η₂ : Heap} {ok : Bool} {nl : Line}
    (hn : n = la.length + lz.length + 1) (hr : r = la.length)
    (hgrow : (slots (la ++ ln :: (lz ++ dead)) n η).linesEnsureCap (n + 1) =
      some (true, slots (la ++ ln :: (lz ++ dead₁)) n η₁)) (hroom : 2 ≤ dead₁.length)
    (hcap : Line.zero.ensureCap 0 η₁ = some (ok, nl, η₂)) :
    ∃ dead', dead' ≠ [] ∧ (slots (la ++ ln :: (lz ++ dead)) n η).openLine r =
      some (if ok then (.ok, slots (la ++ ln :: nl :: (lz ++ dead')) (n + 1) η₂)
        else (.errAllocFailed, slots (la ++ ln :: nl :: (lz ++ dead')) n η₂)) := by
  obtain ⟨dead', hne, hopen⟩ := slots_opened ln η₁ hn hr hroom
  obtain ⟨d₁, hmove, hset⟩ := Option.bind_eq_some_iff.1 hopen
  have hcap' := slots_lineEnsureCap (l := la ++ ln :: Line.zero :: (lz ++ dead'))
    (a := la ++ [ln]) (z := lz ++ dead') (n := n) (r := r + 1) (by simp) (by simp [hr]) hcap
  refine ⟨dead', hne, ?_⟩
  simp only [Doc.openLine, slots_rowCount, hgrow, hmove, hset, hcap', Option.bind_eq_bind,
    Option.bind_some, Bool.not_true, Bool.false_eq_true, if_false, Option.pure_def]
  cases ok <;> simp [slots]

/-- The three ways the newline round ends: the array cannot grow, the fresh row gets
no buffer, or it is opened. -/
theorem slots_openLine_cases (dead : List Line) (ln : Line) (η : Heap)
    (hn : n = la.length + lz.length + 1) (hr : r = la.length) :
    (∃ η', (slots (la ++ ln :: (lz ++ dead)) n η).openLine r =
      some (.errAllocFailed, slots (la ++ ln :: (lz ++ dead)) n η')) ∨
    (∃ dead' η', (slots (la ++ ln :: (lz ++ dead)) n η).openLine r =
      some (.errAllocFailed, slots (la ++ ln :: Line.zero :: (lz ++ dead')) n η')) ∨
    ∃ nl dead' η', (slots (la ++ ln :: (lz ++ dead)) n η).openLine r =
        some (.ok, slots (la ++ ln :: nl :: (lz ++ dead')) (n + 1) η') ∧
      nl.Holds True [] ∧ nl.cap = lineBufInitCap := by
  rcases slots_rowRoom_cases dead ln hn η with ⟨η', hfull⟩ | ⟨dead₁, η₁, hgrow, htwo, -⟩
  · refine Or.inl ⟨η', ?_⟩
    simp only [Doc.openLine, slots_rowCount, hfull, Option.bind_eq_bind, Option.bind_some,
      Bool.not_false, if_true, Option.pure_def]
  · cases hη : η₁.outcome 0 with
    | none =>
      obtain ⟨dead', -, hopen⟩ := slots_openLine hn hr hgrow htwo (zero_refused (by omega) hη)
      exact Or.inr (Or.inl ⟨dead', η₁.next, hopen⟩)
    | some junk =>
      obtain ⟨nl, hcap, hnl, -, hsize⟩ := Line.zero_grow hη (n := 0) (by omega)
      obtain ⟨dead', -, hopen⟩ := slots_openLine hn hr hgrow htwo hcap
      exact Or.inr (Or.inr ⟨nl, dead', η₁.next, hopen, hnl, hsize⟩)

/-- Without memory no row is opened. -/
theorem slots_openLine_exhausted (dead : List Line) (ln : Line)
    (hn : n = la.length + lz.length + 1) (hr : r = la.length) :
    ∃ d', (slots (la ++ ln :: (lz ++ dead)) n (.granting 0)).openLine r =
      some (.errAllocFailed, d') ∧ d'.rowCount = n := by
  rcases slots_rowRoom_cases dead ln hn (.granting 0) with
    ⟨η', hfull⟩ | ⟨dead₁, η₁, hgrow, htwo, hη₁⟩
  · refine ⟨_, ?_, slots_rowCount (la ++ ln :: (lz ++ dead)) n η'⟩
    simp only [Doc.openLine, slots_rowCount, hfull, Option.bind_eq_bind, Option.bind_some,
      Bool.not_false, if_true, Option.pure_def]
  · obtain rfl : η₁ = .granting 0 := by simpa using hη₁
    obtain ⟨dead', -, hopen⟩ := slots_openLine hn hr hgrow htwo
      (zero_refused (by omega) Heap.granting_zero)
    exact ⟨_, hopen, rfl⟩

/-- Some heap has the array grow and refuses the buffer. -/
theorem slots_openLine_fails (la lz dead : List Line) (hn : n = la.length + lz.length + 1)
    (hr : r = la.length) :
    ∃ j, ∀ ln, ∃ dead' η', (slots (la ++ ln :: (lz ++ dead)) n (.granting j)).openLine r =
      some (.errAllocFailed, slots (la ++ ln :: Line.zero :: (lz ++ dead')) n η') := by
  obtain ⟨j, hj⟩ := slots_rowRoom_granting la lz dead hn 0
  refine ⟨j, fun ln => ?_⟩
  obtain ⟨dead₁, hgrow, htwo⟩ := hj ln
  obtain ⟨dead', -, hopen⟩ := slots_openLine hn hr hgrow htwo
    (zero_refused (by omega) Heap.granting_zero)
  exact ⟨dead', _, hopen⟩

/-- Some heap has the row opened and no allocation left. -/
theorem slots_openLine_opens (la lz dead : List Line) (hn : n = la.length + lz.length + 1)
    (hr : r = la.length) :
    ∃ j, ∀ ln, ∃ nl dead', (slots (la ++ ln :: (lz ++ dead)) n (.granting j)).openLine r =
        some (.ok, slots (la ++ ln :: nl :: (lz ++ dead')) (n + 1) (.granting 0)) ∧
      nl.Holds True [] ∧ nl.cap = lineBufInitCap := by
  obtain ⟨j, hj⟩ := slots_rowRoom_granting la lz dead hn 1
  refine ⟨j, fun ln => ?_⟩
  obtain ⟨dead₁, hgrow, htwo⟩ := hj ln
  obtain ⟨nl, hcap, hnl, -, hsize⟩ := Line.zero_grow (Heap.granting_succ 0) (n := 0) (by omega)
  rw [Heap.granting_next] at hcap
  obtain ⟨dead', -, hopen⟩ := slots_openLine hn hr hgrow htwo hcap
  exact ⟨nl, dead', hopen, hnl, hsize⟩

/-- What a failing newline insertion leaves. -/
theorem slots_splitLine_err (hn : n = la.length + lz.length + 1) (hr : r = la.length) {d' : Doc}
    (h : (slots (la ++ ln :: (lz ++ dead)) n η).splitLine r k = some (.errAllocFailed, d')) :
    (∃ η', d' = slots (la ++ ln :: (lz ++ dead)) n η') ∨
      ∃ dead' η', d' = slots (la ++ ln :: Line.zero :: (lz ++ dead')) n η' := by
  rcases slots_rowRoom_cases dead ln hn η with ⟨η', hfull⟩ | ⟨dead₁, η₁, hgrow, htwo, -⟩
  · simp only [Doc.splitLine, slots_rowCount, hfull, Option.bind_eq_bind, Option.bind_some,
      Bool.not_false, if_true, Option.pure_def, Option.some.injEq, Prod.mk.injEq, true_and] at h
    exact Or.inl ⟨η', h.symm⟩
  · obtain ⟨w, dead', -, hmove⟩ := slots_openSlot η₁ ln hn htwo hr
    have hset := slots_setLine (l := la ++ ln :: w :: (lz ++ dead')) (a := la ++ [ln]) (x := w)
      (z := lz ++ dead') (n := n) (η := η₁) (r := r + 1) (by simp) (by simp [hr]) Line.zero
    simp only [Doc.splitLine, slots_rowCount, hgrow, hmove, slots_line rfl hr, hset,
      Option.bind_eq_bind, Option.bind_some, Bool.not_true, Bool.false_eq_true, if_false,
      Option.pure_def] at h
    obtain ⟨η₂, rfl⟩ := err_of_lineEnsureCap h (fun _ => rfl) fun d₁ d₂ => by
      simp [Option.bind_eq_some_iff]
    exact Or.inr ⟨dead', η₂, by simp [slots]⟩

/-- Some heap has the array grow and refuses the buffer of the new row. -/
theorem slots_splitLine_fails (dead : List Line) (ln : Line) (hn : n = la.length + lz.length + 1)
    (hr : r = la.length) (hk : k ≤ ln.len) :
    ∃ j dead' η', (slots (la ++ ln :: (lz ++ dead)) n (.granting j)).splitLine r k =
      some (.errAllocFailed, slots (la ++ ln :: Line.zero :: (lz ++ dead')) n η') := by
  obtain ⟨j, hj⟩ := slots_rowRoom_granting la lz dead hn 0
  obtain ⟨dead₁, hgrow, htwo⟩ := hj ln
  obtain ⟨w, dead', -, hmove⟩ := slots_openSlot (.granting 0) ln hn htwo hr
  have hset := slots_setLine (l := la ++ ln :: w :: (lz ++ dead')) (a := la ++ [ln]) (x := w)
    (z := lz ++ dead') (n := n) (η := .granting 0) (r := r + 1) (by simp) (by simp [hr]) Line.zero
  have hcap := slots_lineEnsureCap (l := la ++ [ln] ++ Line.zero :: (lz ++ dead'))
    (a := la ++ [ln]) (z := lz ++ dead') (n := n) (r := r + 1) rfl (by simp [hr])
    (zero_refused (k := ln.len - k) (by omega) Heap.granting_zero)
  refine ⟨j, dead', (Heap.granting 0).next, ?_⟩
  simp only [Doc.splitLine, slots_rowCount, hgrow, hmove, slots_line rfl hr, hset, hcap,
    Option.bind_eq_bind, Option.bind_some, Bool.not_true, Bool.false_eq_true, if_false,
    Bool.not_false, if_true, Option.pure_def]
  simp

end Open

/-! ## The paste loop -/

section Paste

variable {la w : List Line} {ln : Line} {n r k : Int} {η : Heap} {u v seg : List UInt8}

/-- What `line_ensure_cap` does, by the room of the line and the next allocation. -/
theorem ensureCap_cases {T : Prop} (hx : ln.Holds T u) (η : Heap) (needed : Int) :
    (needed < ln.cap ∧ ln.ensureCap needed η = some (true, ln, η)) ∨
    (ln.cap ≤ needed ∧ η.outcome 0 = none ∧ ln.ensureCap needed η = some (false, ln, η.next)) ∨
    (ln.cap ≤ needed ∧ (η.outcome 0).isSome ∧ ∃ ln', ln'.Holds T u ∧ needed < ln'.cap ∧
      ln.ensureCap needed η = some (true, ln', η.next)) := by
  by_cases hlt : needed < ln.cap
  · exact Or.inl ⟨hlt, Line.ensureCap_fits hlt⟩
  · have hge := Int.not_lt.1 hlt
    cases hη : η.outcome 0 with
    | none =>
      refine Or.inr (Or.inl ⟨hge, rfl, ?_⟩)
      unfold Line.ensureCap
      rw [if_neg hlt]
      simp only [Heap.malloc, hη, Option.map_none]
    | some junk =>
      obtain ⟨ln', hcap, hx', hroom⟩ := hx.grow hη hge
      exact Or.inr (Or.inr ⟨hge, rfl, ln', hx', hroom, hcap⟩)

/-- The segment round, once the row has room. -/
theorem slots_appendSegment {ln' : Line} {η' : Heap} (hr : r = la.length) (hk : k = u.length)
    (hcap : ln.ensureCap (k + seg.length + 1) η = some (true, ln', η')) (hx : ln'.Holds True u)
    (hroom : k + seg.length + 1 < ln'.cap) :
    ∃ buf, (slots (la ++ ln :: w) n η).appendSegment r k seg = some (.ok,
        slots (la ++ { ln' with buf, len := k + seg.length } :: w) n η') ∧
      ({ ln' with buf, len := k + seg.length } : Line).Holds True (u ++ seg) := by
  obtain ⟨buf, buf', hstore, hend, hx'⟩ := Line.Holds.writeSeg (S := True) (u := u) (v := [])
    (y := seg) (n := k + seg.length) (by simpa using hx) hk (by omega) rfl
  refine ⟨buf', ?_, hx'⟩
  simp only [Doc.appendSegment, slots_lineEnsureCap rfl hr hcap, slots_line rfl hr, hstore, hend,
    slots_setLine rfl hr, Option.bind_eq_bind, Option.bind_some, Bool.not_true,
    Bool.false_eq_true, if_false, Option.pure_def]

section Loop

variable {d : Doc} {row col : Int} {f : Nat} {p g : List UInt8}

theorem pasteLoop_end (f : Nat) : d.pasteLoop row col (f + 1) (0 :: g) = some (.ok, d, row, col) := by
  simp [Doc.pasteLoop]

theorem pasteLoop_newline (f : Nat) : d.pasteLoop row col (f + 1) (newline :: p) =
    (d.openLine row).bind fun res =>
      if res.1 ≠ .ok then some (res.1, res.2, row, col)
      else res.2.pasteLoop (row + 1) 0 f p := by
  simp [Doc.pasteLoop, newline]

/-- A segment up to the terminator or the next newline. -/
theorem pasteLoop_segment (d : Doc) (row col : Int) (f : Nat) {e : UInt8} (he : e = 0 ∨ e = newline) (hne : seg ≠ [])
    (h0 : 0 ∉ seg) (hnl : newline ∉ seg) :
    d.pasteLoop row col (f + 1) (seg ++ e :: p) = (d.appendSegment row col seg).bind fun res =>
      if res.1 ≠ .ok then some (res.1, res.2, row, col)
      else res.2.pasteLoop row (col + seg.length) f (e :: p) := by
  have htake : (seg ++ e :: p).takeWhile (fun c => c ≠ 0 && c ≠ newline) = seg := by
    have hall : ∀ c ∈ seg, (c ≠ 0 && c ≠ newline) = true := by
      intro c hc
      have hc0 : c ≠ 0 := fun h => h0 (h ▸ hc)
      have hcn : c ≠ newline := fun h => hnl (h ▸ hc)
      simp [hc0, hcn]
    rw [List.takeWhile_append_of_pos hall, List.takeWhile_cons_of_neg, List.append_nil]
    rcases he with rfl | rfl <;> simp
  obtain ⟨c, seg', rfl⟩ := List.exists_cons_of_ne_nil hne
  have hc0 : c ≠ 0 := fun h => h0 (by simp [h])
  have hcn : c ≠ newline := fun h => hnl (by simp [h])
  have hdrop : (c :: seg' ++ e :: p).drop (c :: seg').length = e :: p := List.drop_left
  simp only [List.cons_append] at htake hdrop
  simp only [Doc.pasteLoop, List.cons_append, List.head?_cons, Option.bind_eq_bind,
    Option.bind_some, hc0, hcn, if_false, htake, hdrop]
  rfl

end Loop

/-- The loop over a segment, from a row that ends where it is written: refused, within
the row's buffer, or in a larger one. -/
theorem slots_pasteLoop_segment {e : UInt8} {p : List UInt8} (hr : r = la.length)
    (hk : k = u.length) (hx : ln.Holds True u) (he : e = 0 ∨ e = newline) (h0 : 0 ∉ seg)
    (hnl : newline ∉ seg) {f : Nat} (hf : seg.length < f) (η : Heap) :
    (seg ≠ [] ∧ ln.cap ≤ k + seg.length + 1 ∧ η.outcome 0 = none ∧
      (slots (la ++ ln :: w) n η).pasteLoop r k f (seg ++ e :: p) =
        some (.errAllocFailed, slots (la ++ ln :: w) n η.next, r, k)) ∨
    ((seg = [] ∨ k + seg.length + 1 < ln.cap) ∧ ∃ ln' f', f ≤ f' + 1 + seg.length ∧
      ln'.Holds True (u ++ seg) ∧ ln'.cap = ln.cap ∧
      (slots (la ++ ln :: w) n η).pasteLoop r k f (seg ++ e :: p) =
        (slots (la ++ ln' :: w) n η).pasteLoop r (k + seg.length) (f' + 1) (e :: p)) ∨
    (seg ≠ [] ∧ ln.cap ≤ k + seg.length + 1 ∧ (η.outcome 0).isSome ∧ ∃ ln' f',
      f ≤ f' + 1 + seg.length ∧ ln'.Holds True (u ++ seg) ∧ k + seg.length + 1 < ln'.cap ∧
      (slots (la ++ ln :: w) n η).pasteLoop r k f (seg ++ e :: p) =
        (slots (la ++ ln' :: w) n η.next).pasteLoop r (k + seg.length) (f' + 1) (e :: p)) := by
  obtain ⟨f, rfl⟩ : ∃ f', f = f' + 1 := ⟨f - 1, by omega⟩
  by_cases hseg : seg = []
  · subst hseg
    exact Or.inr (Or.inl ⟨Or.inl rfl, ln, f, Nat.le_refl _, by simpa using hx, rfl, by simp⟩)
  have hpos := List.length_pos_iff.2 hseg
  obtain ⟨f, rfl⟩ : ∃ f', f = f' + 1 := ⟨f - 1, by omega⟩
  have hround (d : Doc) := pasteLoop_segment d r k (p := p) (f + 1) he hseg h0 hnl
  rcases ensureCap_cases hx η (k + seg.length + 1) with ⟨hfits, hcap⟩ | ⟨hge, hη, hcap⟩ |
    ⟨hge, hη, ln₁, hx₁, hroom, hcap⟩
  · obtain ⟨buf, happend, hx'⟩ := slots_appendSegment (w := w) (n := n) hr hk hcap hx hfits
    refine Or.inr (Or.inl ⟨Or.inr hfits, _, f, by omega, hx', rfl, ?_⟩)
    rw [hround, happend, Option.bind_some, if_neg (fun h => h rfl)]
  · refine Or.inl ⟨hseg, hge, hη, ?_⟩
    have hrefused : (slots (la ++ ln :: w) n η).appendSegment r k seg =
        some (.errAllocFailed, slots (la ++ ln :: w) n η.next) := by
      simp only [Doc.appendSegment, slots_lineEnsureCap rfl hr hcap, Option.bind_eq_bind,
        Option.bind_some, Bool.not_false, if_true, Option.pure_def]
    rw [hround, hrefused, Option.bind_some, if_pos (by simp)]
  · obtain ⟨buf, happend, hx'⟩ := slots_appendSegment (w := w) (n := n) hr hk hcap hx₁ hroom
    refine Or.inr (Or.inr ⟨hseg, hge, hη, _, f, by omega, hx', hroom, ?_⟩)
    rw [hround, happend, Option.bind_some, if_neg (fun h => h rfl)]

/-- A segment, with no memory left. -/
theorem slots_pasteLoop_segment_exhausted {e : UInt8} {p : List UInt8} (hr : r = la.length)
    (hk : k = u.length) (hx : ln.Holds True u) (he : e = 0 ∨ e = newline) (h0 : 0 ∉ seg)
    (hnl : newline ∉ seg) {f : Nat} (hf : seg.length < f) :
    (seg ≠ [] ∧ (slots (la ++ ln :: w) n (.granting 0)).pasteLoop r k f (seg ++ e :: p) =
      some (.errAllocFailed, slots (la ++ ln :: w) n (.granting 0), r, k)) ∨
    ((seg = [] ∨ k + seg.length + 1 < ln.cap) ∧ ∃ ln' f', ln'.Holds True (u ++ seg) ∧
      ln'.cap = ln.cap ∧ (slots (la ++ ln :: w) n (.granting 0)).pasteLoop r k f (seg ++ e :: p) =
        (slots (la ++ ln' :: w) n (.granting 0)).pasteLoop r (k + seg.length) (f' + 1)
          (e :: p)) := by
  rcases slots_pasteLoop_segment (w := w) (n := n) (p := p) hr hk hx he h0 hnl hf (.granting 0) with
    ⟨hne, -, -, hloop⟩ | ⟨hfits, ln', f', -, hx', hcap, hloop⟩ | ⟨-, -, hη, -⟩
  · exact Or.inl ⟨hne, by rw [hloop, Heap.granting_zero_next]⟩
  · exact Or.inr ⟨hfits, ln', f', hx', hcap, hloop⟩
  · exact absurd hη (by simp [Heap.granting_zero])

/-! ## The end of a paste -/

/-- `editor_paste` after its loop: the saved tail goes behind the pasted text. -/
def pasteEnd (tail : List UInt8) (tailLen row col : Int) :
    EditorResult × Doc × Int × Int → Option (EditorResult × Doc × Int × Int)
  | (res, d, destRow, destCol) =>
    if res ≠ .ok then some (res, d, row, col)
    else do
      let (ok, d) ← d.lineEnsureCap destRow (destCol + tailLen + 1)
      if !ok then return (.errAllocFailed, d, row, col)
      let dest ← d.line destRow
      let buf ← dest.buf.store destCol (← Block.slice tail 0 (tailLen + 1))
      let d ← d.setLine destRow { dest with buf, len := destCol + tailLen }
      return (.ok, d, destRow, destCol)

/-- `editor_paste` once the tail is saved: the row is cut, the loop runs. -/
theorem slots_paste {junk : Nat → UInt8} (hr : r = la.length) (hk : k = u.length)
    (hx : ln.Holds True (u ++ v)) (hη : η.outcome 0 = some junk) (clip : List UInt8) :
    ∃ cut : Line, cut.Holds True u ∧ cut.cap = ln.cap ∧
      (slots (la ++ ln :: w) n η).paste r k clip =
        ((slots (la ++ cut :: w) n η.next).pasteLoop r k (clip.length + 1) clip).bind
          (pasteEnd (v ++ [0]) v.length r k) := by
  have htail : ln.len - k = v.length := by
    rw [hx.len_eq, List.length_append]
    omega
  obtain ⟨block, hblock, hlen⟩ := Heap.malloc_of_some hη (v.length + 1)
  obtain ⟨t, hslice, ht⟩ := hx.tail_end (n := v.length + 1) hk rfl
  obtain rfl := ht trivial
  have hsave : Block.store block 0 (v ++ [0]) = some (v ++ [0]) := by
    rw [Block.store_prefix (by simp [hlen]), List.drop_eq_nil_of_le (by simp [hlen])]
    simp
  obtain ⟨buf, hcut, hx'⟩ := hx.cut (S := True) hk
  refine ⟨{ ln with buf, len := k }, hx', rfl, ?_⟩
  simp only [Doc.paste, slots_line rfl hr, htail, slots_heap, hblock, hslice, hsave, hcut,
    slots_with_heap, slots_setLine rfl hr, Option.bind_eq_bind, Option.bind_some]
  congr 1

/-- The tail at the end of the paste: refused, or written. -/
theorem slots_pasteEnd {x : List UInt8} (w : List Line) (tail : List UInt8)
    (tailLen row col : Int) (hr : r = la.length) (hx : ln.Holds True x) (η : Heap) :
    (ln.cap ≤ k + tailLen + 1 ∧ η.outcome 0 = none ∧
      pasteEnd tail tailLen row col (.ok, slots (la ++ ln :: w) n η, r, k) =
        some (.errAllocFailed, slots (la ++ ln :: w) n η.next, row, col)) ∨
    ((k + tailLen + 1 < ln.cap ∨ (η.outcome 0).isSome) ∧ ∀ d row' col',
      pasteEnd tail tailLen row col (.ok, slots (la ++ ln :: w) n η, r, k) ≠
        some (.errAllocFailed, d, row', col')) := by
  rcases ensureCap_cases hx η (k + tailLen + 1) with ⟨hfits, hcap⟩ | ⟨hge, hη, hcap⟩ |
    ⟨hge, hη, ln₁, -, -, hcap⟩
  · refine Or.inr ⟨Or.inl hfits, fun d row' col' => ?_⟩
    simp [pasteEnd, slots_lineEnsureCap rfl hr hcap, Option.bind_eq_some_iff]
  · refine Or.inl ⟨hge, hη, ?_⟩
    simp [pasteEnd, slots_lineEnsureCap rfl hr hcap]
  · refine Or.inr ⟨Or.inr hη, fun d row' col' => ?_⟩
    simp [pasteEnd, slots_lineEnsureCap rfl hr hcap, Option.bind_eq_some_iff]

/-- The tail, with no memory left. -/
theorem slots_pasteEnd_exhausted {x : List UInt8} (w : List Line) (tail : List UInt8)
    (tailLen row col : Int) (hr : r = la.length) (hx : ln.Holds True x) :
    pasteEnd tail tailLen row col (.ok, slots (la ++ ln :: w) n (.granting 0), r, k) =
        some (.errAllocFailed, slots (la ++ ln :: w) n (.granting 0), row, col) ∨
      k + tailLen + 1 < ln.cap := by
  rcases slots_pasteEnd (n := n) (k := k) w tail tailLen row col hr hx (.granting 0) with
    ⟨-, -, hend⟩ | ⟨hroom | hη, -⟩
  · exact Or.inl (by rw [hend, Heap.granting_zero_next])
  · exact Or.inr hroom
  · exact absurd hη (by simp [Heap.granting_zero])

end Paste

end Doc

end LCode
