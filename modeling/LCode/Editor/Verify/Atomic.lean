import LCode.Editor.Verify.Cursor
import LCode.Editor.Verify.Failure

/-!
# Edits that run out of memory

Which edits leave the document, the cursors and the selection as they were when
`malloc` fails, for every choice of the calls that fail. In-line insertions, joins and
deletions always do. A newline pushes the rows below out before it asks for a buffer,
and a paste has cut its row before it asks for anything but the saved tail.
-/

namespace LCode

namespace Doc

/-! ## Pastes -/

section Paste

variable {la lz w dead : List Line} {ln : Line} {n r k : Int} {η : Heap}
  {u v seg x g : List UInt8}

/-- A paste of `x` leaves its row, with `u` before the cursor and `v` behind it, alone
when memory runs out: nothing is behind the cursor, or the row's buffer of `cap` bytes
has room for all, or what is put in is what was cut. Over several rows only the last
of these is left, at the end of the document, with a second row that fits into a
fresh buffer. -/
def PasteSafe (u v x : List UInt8) (cap : Int) (last : Prop) : Prop :=
  if newline ∈ x then
    ∃ s, x = v ++ newline :: s ∧ newline ∉ v ∧ newline ∉ s ∧ last ∧
      (v = [] ∨ (u.length + v.length + 1 : Int) < cap) ∧ s.length + v.length < 31
  else v = [] ∨ (u.length + x.length + v.length + 1 : Int) < cap ∨
    (x = v ∧ (u.length + v.length + 1 : Int) < cap)

theorem slots_paste_refused (hr : r = la.length) (hη : η.outcome 0 = none) (clip : List UInt8) :
    (slots (la ++ ln :: w) n η).paste r k clip =
      some (.errAllocFailed, slots (la ++ ln :: w) n η.next, r, k) := by
  simp only [Doc.paste, slots_line rfl hr, Heap.malloc, slots_heap, hη, Option.map_none,
    Option.bind_eq_bind, Option.bind_some, Option.pure_def, slots_with_heap]

@[simp] theorem pasteEnd_err (tail : List UInt8) (tailLen row col row' col' : Int) (d : Doc) :
    pasteEnd tail tailLen row col (.errAllocFailed, d, row', col') =
      some (.errAllocFailed, d, row, col) :=
  rfl

/-- In a row opened last, with no memory left: another row, or a text that outgrows
the fresh buffer, makes the paste fail. -/
theorem slots_pasteLoop_exhausted {f : Nat} (lz dead : List Line) (tail : List UInt8)
    (row col : Int)
    (hn : n = la.length + lz.length + 1) (hr : r = la.length) (hx : ln.Holds True [])
    (hcap : ln.cap = lineBufInitCap) {s : List UInt8} (h0 : 0 ∉ s) (hf : s.length < f)
    (hs : newline ∈ s ∨ 31 ≤ s.length + v.length) :
    ∃ d', ((slots (la ++ ln :: (lz ++ dead)) n (.granting 0)).pasteLoop r 0 f (s ++ 0 :: g)).bind
        (pasteEnd tail v.length row col) = some (.errAllocFailed, d', row, col) ∧
      d'.rowCount = n := by
  have hsize : ln.cap = 32 := hcap
  by_cases hnl : newline ∈ s
  · obtain ⟨seg, s', rfl, hseg⟩ := List.eq_append_cons_of_mem hnl
    rw [List.append_assoc, List.cons_append]
    rw [List.length_append, List.length_cons] at hf
    have hseg0 : 0 ∉ seg := fun h => h0 (List.mem_append_left _ h)
    rcases slots_pasteLoop_segment_exhausted (w := lz ++ dead) (n := n) (p := s' ++ 0 :: g) hr
        (Int.natCast_zero).symm hx (Or.inr rfl) hseg0 hseg (show seg.length < f by omega) with
      ⟨-, hloop⟩ | ⟨-, ln', f', -, -, hloop⟩
    · exact ⟨_, by rw [hloop]; rfl, rfl⟩
    · obtain ⟨d', hopen, hcount⟩ := slots_openLine_exhausted dead ln' hn hr
      refine ⟨d', ?_, hcount⟩
      rw [hloop, pasteLoop_newline, hopen]
      rfl
  · have hlong : 31 ≤ s.length + v.length := hs.resolve_left hnl
    rcases slots_pasteLoop_segment_exhausted (w := lz ++ dead) (n := n) (p := g) hr
        (Int.natCast_zero).symm hx (Or.inl rfl) h0 hnl hf with
      ⟨-, hloop⟩ | ⟨-, ln', f', hx', hcap', hloop⟩
    · exact ⟨_, by rw [hloop]; rfl, rfl⟩
    · rcases slots_pasteEnd_exhausted (lz ++ dead) tail v.length row col (n := n)
        (k := (0 + s.length : Int)) hr hx' with hend | hfits
      · refine ⟨_, ?_, slots_rowCount (la ++ ln' :: (lz ++ dead)) n (.granting 0)⟩
        rw [hloop, pasteLoop_end, Option.bind_some, hend]
      · omega

/-- A paste inside one row. -/
theorem slots_paste_line_iff (hn : n = la.length + lz.length + 1) (hr : r = la.length)
    (hk : k = u.length) (hx : ln.Holds True (u ++ v)) (h0 : 0 ∉ x) (hnl : newline ∉ x) :
    (∀ η d' row col, (slots (la ++ ln :: (lz ++ dead)) n η).paste r k (x ++ 0 :: g) =
        some (.errAllocFailed, d', row, col) → (slots (la ++ ln :: (lz ++ dead)) n η).Same d') ↔
      v = [] ∨ (u.length + x.length + v.length + 1 : Int) < ln.cap ∨
        (x = v ∧ (u.length + v.length + 1 : Int) < ln.cap) := by
  have hfuel : x.length < (x ++ 0 :: g).length + 1 := by
    simp only [List.length_append, List.length_cons]
    omega
  have hsame {η η' : Heap} {y : List UInt8} {ln' : Line} (hy : ln'.Holds True y) :
      (slots (la ++ ln :: (lz ++ dead)) n η).Same (slots (la ++ ln' :: (lz ++ dead)) n η') ↔
        y = u ++ v := by
    rw [same_row_iff hn]
    exact ⟨fun h => by_contra fun hne => hx.view_ne hy hne h,
      fun h => hx.view_congr (h ▸ hy)⟩
  constructor
  · intro hatomic
    obtain ⟨cut, hcut, hcap, hpaste⟩ := slots_paste (w := lz ++ dead) (n := n) hr hk hx
      (Heap.granting_succ 0) (x ++ 0 :: g)
    replace hatomic := hatomic (.granting 1)
    rw [hpaste, Heap.granting_next] at hatomic
    rcases slots_pasteLoop_segment_exhausted (w := lz ++ dead) (n := n) (p := g) hr hk hcut
        (Or.inl rfl) h0 hnl hfuel with ⟨-, hloop⟩ | ⟨hfits, ln', f', hx', hcap', hloop⟩
    · refine Or.inl ?_
      have := (hsame hcut).1 (hatomic _ _ _ (by rw [hloop]; rfl))
      simpa using this
    · rw [hloop, pasteLoop_end, Option.bind_some] at hatomic
      rcases slots_pasteEnd_exhausted (lz ++ dead) (v ++ [0]) v.length r k (n := n)
        (k := (k + x.length : Int)) hr hx' with hend | hroom
      · have hxv : x = v := List.append_cancel_left ((hsame hx').1 (hatomic _ _ _ hend))
        rcases hfits with hnil | hfits
        · exact Or.inl (hxv ▸ hnil)
        · exact Or.inr (Or.inr ⟨hxv, by rw [← hxv]; omega⟩)
      · exact Or.inr (Or.inl (by omega))
  · intro hsafe η d' row col h
    cases hη : η.outcome 0 with
    | none =>
      rw [slots_paste_refused hr hη] at h
      obtain ⟨rfl, -⟩ := Prod.mk.inj (Prod.mk.inj (Option.some.inj h)).2
      exact (hsame hx).2 rfl
    | some junk =>
      obtain ⟨cut, hcut, hcap, hpaste⟩ := slots_paste (w := lz ++ dead) (n := n) hr hk hx hη
        (x ++ 0 :: g)
      rw [hpaste] at h
      rcases slots_pasteLoop_segment (w := lz ++ dead) (n := n) (p := g) hr hk hcut (Or.inl rfl) h0
          hnl hfuel η.next with
        ⟨-, hfull, -, hloop⟩ | ⟨hfits, ln', f', -, hx', hcap', hloop⟩ |
        ⟨-, hfull, -, ln', f', -, hx', hroom, hloop⟩
      · rw [hloop, Option.bind_some, pasteEnd_err] at h
        obtain ⟨rfl, -⟩ := Prod.mk.inj (Prod.mk.inj (Option.some.inj h)).2
        rw [hsame hcut]
        rcases hsafe with rfl | hlt | ⟨rfl, hlt⟩
        · simp
        · omega
        · omega
      · rw [hloop, pasteLoop_end, Option.bind_some] at h
        rcases slots_pasteEnd (lz ++ dead) (v ++ [0]) v.length r k (n := n)
          (k := (k + x.length : Int)) hr hx' η.next with
          ⟨hfull, -, hend⟩ | ⟨-, hgoes⟩
        · rw [hend] at h
          obtain ⟨rfl, -⟩ := Prod.mk.inj (Prod.mk.inj (Option.some.inj h)).2
          rw [hsame hx']
          rcases hsafe with rfl | hlt | ⟨rfl, -⟩
          · -- the row would have had room for the text alone
            rcases hfits with rfl | hfits
            · rfl
            · simp only [List.length_nil] at hfull
              omega
          · omega
          · rfl
        · exact absurd h (hgoes _ _ _)
      · rw [hloop, pasteLoop_end, Option.bind_some] at h
        rcases slots_pasteEnd (lz ++ dead) (v ++ [0]) v.length r k (n := n)
          (k := (k + x.length : Int)) hr hx' η.next.next with
          ⟨hfull', -, -⟩ | ⟨-, hgoes⟩
        · rcases hsafe with rfl | hlt | ⟨rfl, hlt⟩
          · simp only [List.length_nil] at hfull'
            omega
          · omega
          · omega
        · exact absurd h (hgoes _ _ _)

/-- Some heap brings a paste to the end of its first segment, with `m` allocations
left. -/
theorem slots_paste_reaches {e : UInt8} {p : List UInt8} (hr : r = la.length) (hk : k = u.length)
    (hx : ln.Holds True (u ++ v)) (he : e = 0 ∨ e = newline) (h0 : 0 ∉ seg) (hnl : newline ∉ seg)
    (m : Nat) :
    ∃ i ln' f', p.length < f' ∧ ln'.Holds True (u ++ seg) ∧
      (slots (la ++ ln :: w) n (.granting i)).paste r k (seg ++ e :: p) =
        ((slots (la ++ ln' :: w) n (.granting m)).pasteLoop r (k + seg.length) (f' + 1)
          (e :: p)).bind (pasteEnd (v ++ [0]) v.length r k) := by
  have hlen : (seg ++ e :: p).length = seg.length + (p.length + 1) := by simp
  have hfuel : seg.length < (seg ++ e :: p).length + 1 := by omega
  by_cases hfits : seg = [] ∨ k + seg.length + 1 < ln.cap
  · obtain ⟨cut, hcut, hcap, hpaste⟩ := slots_paste (w := w) (n := n) hr hk hx
      (Heap.granting_succ m) (seg ++ e :: p)
    rw [Heap.granting_next] at hpaste
    rcases slots_pasteLoop_segment (w := w) (n := n) (p := p) hr hk hcut he h0 hnl hfuel
        (.granting m) with
      ⟨hne, hfull, -, -⟩ | ⟨-, ln', f', hf, hx', -, hloop⟩ | ⟨hne, hfull, -, -⟩
    · have := hfits.resolve_left hne
      omega
    · exact ⟨m + 1, ln', f', by omega, hx', by rw [hpaste, hloop]⟩
    · have := hfits.resolve_left hne
      omega
  · obtain ⟨cut, hcut, hcap, hpaste⟩ := slots_paste (w := w) (n := n) hr hk hx
      (Heap.granting_succ (m + 1)) (seg ++ e :: p)
    rw [Heap.granting_next] at hpaste
    rcases slots_pasteLoop_segment (w := w) (n := n) (p := p) hr hk hcut he h0 hnl hfuel
        (.granting (m + 1)) with
      ⟨-, -, hη, -⟩ | ⟨hfits', -⟩ | ⟨-, -, -, ln', f', hf, hx', -, hloop⟩
    · exact absurd hη (by simp [Heap.granting_succ])
    · exact absurd (hcap ▸ hfits') hfits
    · rw [Heap.granting_next] at hloop
      exact ⟨m + 2, ln', f', by omega, hx', by rw [hpaste, hloop]⟩

/-- A paste of several rows. -/
theorem slots_paste_rows_iff (hn : n = la.length + lz.length + 1) (hr : r = la.length)
    (hk : k = u.length) (hx : ln.Holds True (u ++ v)) (hlz : ∀ x ∈ lz, x.view ≠ Line.zero.view)
    {s : List UInt8} (h0 : 0 ∉ seg) (h0' : 0 ∉ s) (hnl : newline ∉ seg) :
    (∀ η d' row col, (slots (la ++ ln :: (lz ++ dead)) n η).paste r k
          (seg ++ newline :: (s ++ 0 :: g)) = some (.errAllocFailed, d', row, col) →
        (slots (la ++ ln :: (lz ++ dead)) n η).Same d') ↔
      seg = v ∧ newline ∉ s ∧ lz = [] ∧ (v = [] ∨ (u.length + v.length + 1 : Int) < ln.cap) ∧
        s.length + v.length < 31 := by
  have hfuel : seg.length < (seg ++ newline :: (s ++ 0 :: g)).length + 1 := by
    simp only [List.length_append]
    omega
  constructor
  · intro hatomic
    -- the buffer of the second row is refused
    obtain ⟨rfl, rfl⟩ : seg = v ∧ lz = [] := by
      obtain ⟨j, hfails⟩ := slots_openLine_fails la lz dead hn hr
      obtain ⟨i, ln', f', -, hx', hpaste⟩ := slots_paste_reaches (w := lz ++ dead) (n := n)
        (p := s ++ 0 :: g) hr hk hx (Or.inr rfl) h0 hnl j
      obtain ⟨dead', η', hopen⟩ := hfails ln'
      rw [pasteLoop_newline, hopen] at hpaste
      obtain ⟨hview, hzero⟩ := (same_opened_iff hn).1 (hatomic _ _ _ _ hpaste)
      have htext : u ++ seg = u ++ v := by_contra fun hne => hx.view_ne hx' hne hview
      exact ⟨List.append_cancel_left htext,
        List.eq_nil_iff_forall_not_mem.2 fun x hmem => hlz x hmem (hzero x hmem)⟩
    -- the larger buffer of the first row is refused
    have hfirst : seg = [] ∨ (u.length + seg.length + 1 : Int) < ln.cap := by
      obtain ⟨cut, hcut, hcap, hpaste⟩ := slots_paste (w := [] ++ dead) (n := n) hr hk hx
        (Heap.granting_succ 0) (seg ++ newline :: (s ++ 0 :: g))
      rw [Heap.granting_next] at hpaste
      rcases slots_pasteLoop_segment_exhausted (w := [] ++ dead) (n := n) (p := s ++ 0 :: g) hr hk
          hcut (Or.inr rfl) h0 hnl hfuel with ⟨-, hloop⟩ | ⟨hfits, -⟩
      · have hview := (same_row_iff hn).1 (hatomic _ _ _ _ (by rw [hpaste, hloop]; rfl))
        refine Or.inl (by_contra fun hne => ?_)
        exact hx.view_ne hcut (by simpa using hne) hview
      · exact hfits.imp id fun hlt => by omega
    -- a third row, or the tail, finds no memory when the second row is there
    suffices hlast : newline ∉ s ∧ s.length + seg.length < 31 from
      ⟨rfl, hlast.1, rfl, hfirst, hlast.2⟩
    refine by_contra fun hlast => ?_
    obtain ⟨j, hopens⟩ := slots_openLine_opens la [] dead hn hr
    obtain ⟨i, ln', f', hf', hx', hpaste⟩ := slots_paste_reaches (w := [] ++ dead) (n := n)
      (p := s ++ 0 :: g) hr hk hx (Or.inr rfl) h0 hnl j
    obtain ⟨nl, dead', hopen, hnl', hsize⟩ := hopens ln'
    obtain ⟨d', hfails, hcount⟩ := slots_pasteLoop_exhausted [] dead' (seg ++ [0]) r k (g := g)
      (v := seg)
      (show n + 1 = ((la ++ [ln']).length : Int) + ([] : List Line).length + 1 by simp [hn])
      (show r + 1 = ((la ++ [ln']).length : Int) by simp [hr]) hnl' hsize h0'
      (show s.length < f' by simp only [List.length_append] at hf'; omega)
      (by by_cases hmem : newline ∈ s
          · exact Or.inl hmem
          · exact Or.inr (Nat.not_lt.1 fun hlt => hlast ⟨hmem, hlt⟩))
    have hrows : la ++ [ln'] ++ nl :: ([] ++ dead') = la ++ ln' :: nl :: ([] ++ dead') := by simp
    rw [hrows] at hfails
    rw [pasteLoop_newline, hopen, Option.bind_some, if_neg (fun h => h rfl), hfails] at hpaste
    have := (hatomic _ _ _ _ hpaste).rowCount
    rw [hcount, slots_rowCount] at this
    omega
  · rintro ⟨rfl, hns, rfl, hfits, hshort⟩ η d' row col h
    cases hη : η.outcome 0 with
    | none =>
      rw [slots_paste_refused hr hη] at h
      obtain ⟨rfl, -⟩ := Prod.mk.inj (Prod.mk.inj (Option.some.inj h)).2
      exact (same_row_iff hn).2 rfl
    | some junk =>
      obtain ⟨cut, hcut, hcap, hpaste⟩ := slots_paste (w := [] ++ dead) (n := n) hr hk hx hη
        (seg ++ newline :: (s ++ 0 :: g))
      rw [hpaste] at h
      rcases slots_pasteLoop_segment (w := [] ++ dead) (n := n) (p := s ++ 0 :: g) hr hk hcut
          (Or.inr rfl) h0 hnl hfuel η.next with
        ⟨hne, hfull, -, -⟩ | ⟨-, ln', f', hf', hx', -, hloop⟩ | ⟨hne, hfull, -, -⟩
      · have := hfits.resolve_left hne
        omega
      · have hview : ln'.view = ln.view := hx.view_congr hx'
        rw [hloop, pasteLoop_newline] at h
        rcases slots_openLine_cases dead ln' η.next hn hr with
          ⟨η', hopen⟩ | ⟨dead', η', hopen⟩ | ⟨nl, dead', η', hopen, hnl', hsize⟩
        · rw [hopen] at h
          obtain ⟨rfl, -⟩ := Prod.mk.inj (Prod.mk.inj (Option.some.inj h)).2
          exact (same_row_iff hn).2 hview
        · rw [hopen] at h
          obtain ⟨rfl, -⟩ := Prod.mk.inj (Prod.mk.inj (Option.some.inj h)).2
          exact (same_opened_iff hn).2 ⟨hview, nofun⟩
        · -- the second row has room for all that comes
          have hsize' : nl.cap = 32 := hsize
          have hrows : la ++ ln' :: nl :: ([] ++ dead') = (la ++ [ln']) ++ nl :: dead' := by simp
          rw [hopen, hrows, Option.bind_some, if_neg (fun h => h rfl)] at h
          have hr' : r + 1 = ((la ++ [ln']).length : Int) := by simp [hr]
          have hf'' : s.length < f' := by
            simp only [List.length_append, List.length_cons] at hf'
            omega
          rcases slots_pasteLoop_segment (w := dead') (n := n + 1) (p := g) hr'
              (show (0 : Int) = ([] : List UInt8).length from rfl) hnl' (Or.inl rfl) h0' hns hf'' η' with
            ⟨-, hfull, -, -⟩ | ⟨-, last, f'', -, hlast, hlastcap, hloop'⟩ | ⟨-, hfull, -, -⟩
          · omega
          · rw [hloop', pasteLoop_end, Option.bind_some] at h
            rcases slots_pasteEnd dead' (seg ++ [0]) seg.length r k (n := n + 1)
              (k := (0 + s.length : Int)) hr' hlast η' with
              ⟨hfull, -, -⟩ | ⟨-, hgoes⟩
            · omega
            · exact absurd h (hgoes _ _ _)
          · omega
      · have := hfits.resolve_left hne
        omega

/-- `editor_paste` on a document of live rows. -/
theorem slots_paste_iff (dead : List Line) (hn : n = la.length + lz.length + 1) (hr : r = la.length)
    (hk : k = u.length) (hx : ln.Holds True (u ++ v)) (hlz : ∀ x ∈ lz, x.view ≠ Line.zero.view)
    (h0 : 0 ∉ x) :
    (∀ η d' row col, (slots (la ++ ln :: (lz ++ dead)) n η).paste r k (x ++ 0 :: g) =
        some (.errAllocFailed, d', row, col) → (slots (la ++ ln :: (lz ++ dead)) n η).Same d') ↔
      PasteSafe u v x ln.cap (lz = []) := by
  by_cases hmem : newline ∈ x
  · obtain ⟨seg, s, rfl, hnl⟩ := List.eq_append_cons_of_mem hmem
    rw [PasteSafe, if_pos hmem, List.append_assoc, List.cons_append,
      slots_paste_rows_iff hn hr hk hx hlz (fun h => h0 (List.mem_append_left _ h))
        (fun h => h0 (List.mem_append_right _ (List.mem_cons_of_mem _ h))) hnl]
    constructor
    · rintro ⟨rfl, hns, rest⟩
      exact ⟨s, rfl, hnl, hns, rest⟩
    · rintro ⟨s', heq, hv, hns, rest⟩
      obtain ⟨rfl, -, rfl⟩ := (List.append_cons_inj_of_notMem hv hns).1 heq.symm
      exact ⟨rfl, hns, rest⟩
  · rw [PasteSafe, if_neg hmem]
    exact slots_paste_line_iff hn hr hk hx h0 hmem

/-! ## Newlines -/

/-- The newline case of the insertions: every row below has to be a NULL one. -/
theorem slots_splitLine_iff (hn : n = la.length + lz.length + 1) (hr : r = la.length)
    (hk : k ≤ ln.len) (η : Heap) :
    (∀ η' d', (slots (la ++ ln :: (lz ++ dead)) n η').splitLine r k =
        some (.errAllocFailed, d') → (slots (la ++ ln :: (lz ++ dead)) n η).Same d') ↔
      ∀ x ∈ lz, x.view = Line.zero.view := by
  constructor
  · intro hatomic
    obtain ⟨j, dead', η', hfails⟩ := slots_splitLine_fails dead ln hn hr hk
    exact ((same_opened_iff hn).1 (hatomic _ _ hfails)).2
  · intro hzero η' d' h
    rcases slots_splitLine_err hn hr h with ⟨η'', rfl⟩ | ⟨dead', η'', rfl⟩
    · exact (same_row_iff hn).2 rfl
    · exact (same_opened_iff hn).2 ⟨rfl, hzero⟩

end Paste

theorem same_withHeap (d : Doc) (heap : Heap) : d.Same { d with heap } := ⟨rfl, rfl⟩

end Doc

namespace Editor

/-! ## Local edits -/

/-- Row for row the same document, with the same cursor and selection. -/
structure Unchanged (ed ed' : Editor) : Prop where
  doc : ed.doc.Same ed'.doc
  cursorRow : ed'.cursorRow = ed.cursorRow
  cursorCol : ed'.cursorCol = ed.cursorCol
  selActive : ed'.selActive = ed.selActive
  selAnchorRow : ed'.selAnchorRow = ed.selAnchorRow
  selAnchorCol : ed'.selAnchorCol = ed.selAnchorCol

def withHeap (ed : Editor) (heap : Heap) : Editor := { ed with doc := { ed.doc with heap } }

/-- Whichever of its allocations fail, a failing call leaves `Q`. -/
def OnFailure (Q : Editor → Editor → Prop) (ed : Editor)
    (op : Editor → Option (EditorResult × Editor)) : Prop :=
  ∀ heap ed', op (ed.withHeap heap) = some (.errAllocFailed, ed') → Q ed ed'

/-- The editor holds the text `t` with its cursor at `p`. -/
structure Stands (ed : Editor) (t : List (List UInt8)) (p : Pos) : Prop where
  holds : ed.doc.Holds True t
  row : ed.cursorRow = p.row
  col : ed.cursorCol = p.col
  valid : Text.Valid t p

end Editor

/-- The edits of the local user that allocate. -/
inductive LocalEdit where
  | insertChar (c : UInt8)
  | deleteChar
  | deleteSelection
  | paste

namespace LocalEdit

def run (ed : Editor) : LocalEdit → Option (EditorResult × Editor)
  | insertChar c => ed.insertChar c
  | deleteChar => ed.deleteChar
  | deleteSelection => ed.deleteSelection
  | paste => ed.paste

/-- A newline is safe in the last row, a paste where `PasteSafe` says so. -/
def Safe (ed : Editor) (t : List (List UInt8)) (p : Pos) : LocalEdit → Prop
  | insertChar c => c = newline → p.row + 1 = t.length
  | deleteChar => True
  | deleteSelection => True
  | paste => ∀ clip, ed.clipboard = some clip →
    Doc.PasteSafe ((Text.row t p.row).take p.col) ((Text.row t p.row).drop p.col)
      (clip.takeWhile (· ≠ 0)) (((ed.doc.line ed.cursorRow).map Line.cap).getD 0)
      (p.row + 1 = t.length)

end LocalEdit

namespace Editor

section Local

variable {ed ed' : Editor} {t : List (List UInt8)} {p : Pos}

/-- A call that fails only where its edit of the line array does. -/
theorem err_of_doc {ρ : Type} {x : Option (EditorResult × ρ)} {g : ρ → Doc}
    {f : EditorResult × ρ → Option (EditorResult × Editor)}
    (h : x.bind f = some (.errAllocFailed, ed'))
    (hfails : ∀ y, f (.errAllocFailed, y) = some (.errAllocFailed, { ed with doc := g y }))
    (hgoes : ∀ res y ed'', res ≠ .errAllocFailed → f (res, y) ≠ some (.errAllocFailed, ed'')) :
    ∃ y, x = some (.errAllocFailed, y) ∧ ed' = { ed with doc := g y } := by
  obtain ⟨⟨res, y⟩, hx, h⟩ := Option.bind_eq_some_iff.1 h
  by_cases hres : res = .errAllocFailed
  · subst hres
    rw [hfails, Option.some.injEq, Prod.mk.injEq] at h
    exact ⟨y, hx, h.2.symm⟩
  · exact absurd h (hgoes res y ed' hres)

/-- Such a call leaves `Q` on failure if its edit of the line array leaves the rows. -/
theorem onFailure_iff_of_doc {ρ : Type} {Q : Editor → Editor → Prop}
    {op : Editor → Option (EditorResult × Editor)} {x : Heap → Option (EditorResult × ρ)}
    {g : ρ → Doc} {f : EditorResult × ρ → Option (EditorResult × Editor)}
    (hop : ∀ heap, op (ed.withHeap heap) = (x heap).bind f)
    (hfails : ∀ y, f (.errAllocFailed, y) = some (.errAllocFailed, { ed with doc := g y }))
    (hgoes : ∀ res y ed'', res ≠ .errAllocFailed → f (res, y) ≠ some (.errAllocFailed, ed''))
    (hQ : ∀ d, Q ed { ed with doc := d } ↔ ed.doc.Same d) :
    ed.OnFailure Q op ↔ ∀ heap y, x heap = some (.errAllocFailed, y) → ed.doc.Same (g y) := by
  constructor
  · intro hall heap y hx
    exact (hQ _).1 (hall heap _ (by rw [hop, hx, Option.bind_some, hfails]))
  · intro hall heap ed' hrun
    rw [hop] at hrun
    obtain ⟨y, hx, rfl⟩ := err_of_doc hrun hfails hgoes
    exact (hQ _).2 (hall heap y hx)

theorem withHeap_slots {ls : List Line} {n : Int} {η : Heap} (hd : ed.doc = Doc.slots ls n η)
    (heap : Heap) : (ed.withHeap heap).doc = Doc.slots ls n heap := by
  rw [withHeap, hd]
  rfl

theorem unchanged_iff_same (doc : Doc) : ed.Unchanged { ed with doc } ↔ ed.doc.Same doc :=
  ⟨fun h => h.doc, fun h => ⟨h, rfl, rfl, rfl, rfl, rfl⟩⟩

/-- A failing call that leaves all but the heap. -/
def KeepsAll (ed : Editor) (r : Option (EditorResult × Editor)) : Prop :=
  ∀ ed', r = some (.errAllocFailed, ed') → ∃ heap, ed' = ed.withHeap heap

theorem insertChar_keeps {c : UInt8} (hc : c ≠ newline) : ed.KeepsAll (ed.insertChar c) := by
  intro ed' h
  rw [insertChar, if_neg hc] at h
  obtain ⟨doc, hins, rfl⟩ := err_of_doc (g := id) h (fun _ => rfl) fun res doc ed'' hres => by
    cases res <;> simp_all
  obtain ⟨heap, rfl⟩ := Doc.insertInLine_err hins
  exact ⟨heap, rfl⟩

theorem deleteChar_keeps : ed.KeepsAll ed.deleteChar := by
  intro ed' h
  rw [deleteChar] at h
  split at h
  · simp [Option.bind_eq_some_iff] at h
  · split at h
    · obtain ⟨ln, -, h⟩ := Option.bind_eq_some_iff.1 h
      obtain ⟨doc, hjoin, rfl⟩ := err_of_doc (g := id) h (fun _ => rfl)
        fun res doc ed'' hres => by cases res <;> simp_all
      obtain ⟨heap, rfl⟩ := Doc.joinLine_err hjoin
      exact ⟨heap, rfl⟩
    · simp at h

theorem deleteSelection_keeps : ed.KeepsAll ed.deleteSelection := by
  intro ed' h
  rw [deleteSelection] at h
  split at h
  · simp at h
  · obtain ⟨doc, hdel, rfl⟩ := err_of_doc (g := id) h (fun _ => rfl)
      fun res doc ed'' hres => by cases res <;> simp_all
    simp only [deleteRange] at hdel
    split at hdel
    · simp [Option.bind_eq_some_iff] at hdel
    · obtain ⟨heap, rfl⟩ := Doc.deleteRows_err hdel
      exact ⟨heap, rfl⟩

theorem KeepsAll.onFailure {Q : Editor → Editor → Prop} {op : Editor → Option (EditorResult × Editor)}
    (h : ∀ ed : Editor, ed.KeepsAll (op ed)) (hQ : ∀ heap, Q ed (ed.withHeap heap)) :
    ed.OnFailure Q op := by
  intro heap ed' hrun
  obtain ⟨heap', rfl⟩ := h _ _ hrun
  exact hQ heap'

theorem Unchanged.withHeap (ed : Editor) (heap : Heap) : ed.Unchanged (ed.withHeap heap) :=
  (unchanged_iff_same _).2 (ed.doc.same_withHeap heap)

/-- A newline at the cursor. -/
theorem insertNewline_iff (h : ed.Stands t p) :
    ed.OnFailure Unchanged (·.insertChar newline) ↔ p.row + 1 = t.length := by
  obtain ⟨a, u, v, z, rfl, hr, hc⟩ := h.valid.split
  obtain ⟨la, ln, lz, dead, η, hd, -, ha, hx, hz⟩ := h.holds.around
  have hrow : ed.cursorRow = la.length := by rw [h.row, hr, ha.length_eq]
  have hcol : ed.cursorCol ≤ ln.len := by
    rw [h.col, hc, hx.len_eq, List.length_append]
    omega
  have hlast : p.row + 1 = (a ++ (u ++ v) :: z).length ↔ lz = [] := by
    rw [hr, List.length_append, List.length_cons, ← List.length_eq_zero_iff, hz.length_eq]
    omega
  have hlz := Doc.forall₂_left (fun _ _ hy => Line.Holds.view_ne_zero hy) hz
  have hop (heap : Heap) : (ed.withHeap heap).insertChar newline =
      ((ed.withHeap heap).doc.splitLine ed.cursorRow ed.cursorCol).bind fun r =>
        if r.1 ≠ .ok then some (r.1, { ed with doc := r.2 })
        else some (.ok, { ed with
          doc := r.2, cursorRow := ed.cursorRow + 1, cursorCol := 0 }.clampScroll) := by
    rw [insertChar, if_pos rfl]
    rfl
  rw [hlast, onFailure_iff_of_doc (g := id) hop (fun _ => rfl)
    (fun res doc ed'' hres => by cases res <;> simp_all) unchanged_iff_same]
  simp only [withHeap_slots hd, hd]
  refine (Doc.slots_splitLine_iff rfl hrow hcol η).trans ⟨fun hzero => ?_, fun hnil x hmem => ?_⟩
  · exact List.eq_nil_iff_forall_not_mem.2 fun x hmem => hlz x hmem (hzero x hmem)
  · exact absurd hmem (by simp [hnil])

/-- A text ends at its terminator. -/
theorem takeWhile_terminated {x g : List UInt8} (h0 : 0 ∉ x) :
    (x ++ 0 :: g).takeWhile (· ≠ 0) = x := by
  rw [List.takeWhile_append_of_pos (fun c hc => by simpa using fun h : c = 0 => h0 (h ▸ hc)),
    List.takeWhile_cons_of_neg (by simp), List.append_nil]

/-- A paste at the cursor. -/
theorem paste_iff (h : ed.Stands t p)
    (hclip : ∀ clip, ed.clipboard = some clip → 0 ∈ clip) :
    ed.OnFailure Unchanged (·.paste) ↔ LocalEdit.paste.Safe ed t p := by
  obtain ⟨a, u, v, z, rfl, hr, hc⟩ := h.valid.split
  obtain ⟨la, ln, lz, dead, η, hd, -, ha, hx, hz⟩ := h.holds.around
  have hrow : ed.cursorRow = la.length := by rw [h.row, hr, ha.length_eq]
  have hcol : ed.cursorCol = u.length := by rw [h.col, hc]
  have hlast : p.row + 1 = (a ++ (u ++ v) :: z).length ↔ lz = [] := by
    rw [hr, List.length_append, List.length_cons, ← List.length_eq_zero_iff, hz.length_eq]
    omega
  have hline : ((ed.doc.line ed.cursorRow).map Line.cap).getD 0 = ln.cap := by
    rw [hd, Doc.slots_line rfl hrow]
    rfl
  have hlz := Doc.forall₂_left (fun _ _ hy => Line.Holds.view_ne_zero hy) hz
  cases hboard : ed.clipboard with
  | none =>
    simp [OnFailure, Editor.paste, withHeap, hboard, LocalEdit.Safe]
  | some clip =>
    obtain ⟨x, g, rfl, h0⟩ := List.eq_append_cons_of_mem (hclip clip hboard)
    have htake := takeWhile_terminated (g := g) h0
    have hsafe : LocalEdit.paste.Safe ed (a ++ (u ++ v) :: z) p ↔
        Doc.PasteSafe u v x ln.cap (lz = []) := by
      simp only [LocalEdit.Safe, hboard, Option.some.injEq, forall_eq', hline, hlast, htake,
        Text.row_append hr, hc, List.take_left, List.drop_left]
    rw [hsafe, ← Doc.slots_paste_iff dead (n := la.length + lz.length + 1) (g := g) rfl
      hrow hcol hx hlz h0]
    have hop (heap : Heap) : (ed.withHeap heap).paste =
        ((ed.withHeap heap).doc.paste ed.cursorRow ed.cursorCol (x ++ 0 :: g)).bind fun r =>
          if r.1 ≠ .ok then some (r.1, { ed with doc := r.2.1 })
          else some (.ok, { ed with
            doc := r.2.1, cursorRow := r.2.2.1, cursorCol := r.2.2.2 }.clampScroll) := by
      simp only [Editor.paste, withHeap, hboard]
      rfl
    rw [onFailure_iff_of_doc (g := Prod.fst) hop (fun _ => rfl)
      (fun res y ed'' hres => by cases res <;> simp_all) unchanged_iff_same]
    simp only [withHeap_slots hd, hd]
    exact ⟨fun hall heap d' row col h => (hall heap (d', row, col) h).withHeap _,
      fun hall heap y h => (hall heap y.1 y.2.1 y.2.2 h).withHeap _⟩

end Local

/-- The text `t` with the cursor at `p`, the peer's at `q`, and `clip` copied. -/
def standing (t : List (List UInt8)) (p q : Pos) (clip : Option (List UInt8)) : Editor :=
  { static .zeros with
    doc := .ofText t .zeros
    cursorRow := p.row
    cursorCol := p.col
    remoteCursorRow := q.row
    remoteCursorCol := q.col
    clipboard := clip }

theorem standing_stands {t : List (List UInt8)} {p : Pos} (hp : Text.Valid t p) (q : Pos)
    (clip : Option (List UInt8)) : (standing t p q clip).Stands t p :=
  ⟨Doc.ofText_holds _ _ _, rfl, rfl, hp⟩

theorem standing_at {t : List (List UInt8)} {p : Pos} (hp : Text.Valid t p) (q : Pos)
    (clip : Option (List UInt8)) : (standing t p q clip).At True t p :=
  ⟨Doc.ofText_holds _ _ _, Heap.zeros_ample, rfl, rfl, hp⟩

/-- A failing edit of the local user leaves the document, the cursor and the selection
in every case but a newline above the last row and the pastes that are not safe. -/
theorem local_edit_atomic_iff {ed : Editor} {t : List (List UInt8)} {p : Pos} (h : ed.Stands t p)
    (hclip : ∀ clip, ed.clipboard = some clip → 0 ∈ clip) (op : LocalEdit) :
    ed.OnFailure Unchanged (fun ed => op.run ed) ↔ op.Safe ed t p := by
  cases op with
  | insertChar c =>
    by_cases hc : c = newline
    · subst hc
      exact (insertNewline_iff h).trans ⟨fun hlast _ => hlast, fun hsafe => hsafe rfl⟩
    · exact ⟨fun _ heq => absurd heq hc, fun _ =>
        KeepsAll.onFailure (fun _ => insertChar_keeps hc) (Unchanged.withHeap ed)⟩
  | deleteChar =>
    exact ⟨fun _ => trivial, fun _ =>
      KeepsAll.onFailure (fun _ => deleteChar_keeps) (Unchanged.withHeap ed)⟩
  | deleteSelection =>
    exact ⟨fun _ => trivial, fun _ =>
      KeepsAll.onFailure (fun _ => deleteSelection_keeps) (Unchanged.withHeap ed)⟩
  | paste => exact paste_iff h hclip

/-- Enter in the last of two rows. -/
theorem local_edit_atomic_enter :
    (standing [['a'.toUInt8], ['b'.toUInt8]] ⟨1, 0⟩ ⟨0, 0⟩ none).OnFailure Unchanged
      fun ed => (LocalEdit.insertChar newline).run ed :=
  (local_edit_atomic_iff (standing_stands (by decide) _ _)
    (fun _ hclip => absurd hclip (by simp [standing])) (.insertChar newline)).2 fun _ => rfl

/-- Enter in the first of two rows, with memory for the row array and not for the new
row: the second row is lost, and a NULL row has taken its place. -/
theorem newline_loses_row : ∃ ed',
    (standing [['a'.toUInt8], ['b'.toUInt8]] ⟨0, 1⟩ ⟨0, 0⟩ none).Stands
      [['a'.toUInt8], ['b'.toUInt8]] ⟨0, 1⟩ ∧
    ((standing [['a'.toUInt8], ['b'.toUInt8]] ⟨0, 1⟩ ⟨0, 0⟩ none).withHeap
      (.granting 1)).insertChar newline = some (.errAllocFailed, ed') ∧
    ed'.doc.views = some [(.block ['a'.toUInt8, 0], 1), (.null, 0)] ∧
    ¬ (standing [['a'.toUInt8], ['b'.toUInt8]] ⟨0, 1⟩ ⟨0, 0⟩ none).Unchanged ed' := by
  have hrun : (((standing [['a'.toUInt8], ['b'.toUInt8]] ⟨0, 1⟩ ⟨0, 0⟩ none).withHeap
      (.granting 1)).insertChar newline).map (fun r => (r.1, r.2.doc.views)) =
      some (.errAllocFailed, some [(.block ['a'.toUInt8, 0], 1), (.null, 0)]) := by
    decide +kernel
  obtain ⟨⟨res, ed'⟩, hins, hres⟩ := Option.map_eq_some_iff.1 hrun
  obtain ⟨rfl, hviews⟩ := Prod.mk.inj hres
  refine ⟨ed', standing_stands (by decide) _ _, hins, hviews, fun h => ?_⟩
  have := h.doc.views
  rw [hviews] at this
  exact absurd this (by decide +kernel)

end Editor

end LCode
