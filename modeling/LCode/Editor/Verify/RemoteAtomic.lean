import LCode.Editor.Verify.Atomic
import LCode.Editor.Verify.Remote

/-!
# Remote edits that run out of memory

The operations of the peer under failing allocations. A newline at the remote cursor
opens its row before it has a buffer, as the local one does; a block that grows has
freed its rows before the array is enlarged, and leaves them to be read and freed again.
-/

namespace LCode

/-- The operations of the peer, with their arguments. -/
inductive RemoteEdit where
  | insertChar (c : UInt8)
  | deleteChar
  | replaceBlock (startRow deletedCount insertedCount : Int)
  | updateLine (row : Int) (text : List UInt8) (len : Int)

namespace RemoteEdit

def run (ed : Editor) : RemoteEdit → Option (EditorResult × Editor)
  | insertChar c => ed.remoteInsertChar c
  | deleteChar => ed.remoteDeleteChar
  | replaceBlock startRow deletedCount insertedCount =>
    ed.remoteReplaceBlock startRow deletedCount insertedCount
  | updateLine row text len => ed.remoteUpdateLine row text len

/-- A newline is safe with nothing but fresh rows below, a block if it frees no buffer,
or does not grow, or grows within the array. -/
def Safe (ed : Editor) : RemoteEdit → Prop
  | insertChar c => c = newline → ∀ r, ed.remoteCursorRow < r → r < ed.doc.rowCount →
    ed.doc.line r = some Line.zero
  | deleteChar => True
  | replaceBlock startRow deletedCount insertedCount =>
    startRow < 0 ∨ ed.doc.rowCount < startRow ∨
      (∀ r, startRow ≤ r → r < startRow + ed.doc.actualDeleted startRow deletedCount →
        ed.doc.line r = some Line.zero) ∨
      insertedCount ≤ ed.doc.actualDeleted startRow deletedCount ∨
      ed.doc.rowCount + (insertedCount - ed.doc.actualDeleted startRow deletedCount) <
        ed.doc.rowCap
  | updateLine .. => True

end RemoteEdit

namespace Doc

/-! ## Rows and their views -/

section Views

variable {d d' : Doc} {ln : Line} {r : Int} {vs : List (Buf × Int)}

theorem view_mem (hvs : d.views = some vs) (hline : d.line r = some ln) (h0 : 0 ≤ r)
    (hr : r < d.rowCount) : ln.view ∈ vs := by
  obtain ⟨ls, hls, hvs⟩ := Option.bind_eq_some_iff.1 hvs
  obtain ⟨rows, hslice, hvs⟩ := Option.bind_eq_some_iff.1 hvs
  obtain rfl := Option.some.inj hvs
  rw [Doc.line, hls, Option.bind_eq_bind, Option.bind_some, Block.read, if_pos h0] at hline
  unfold Block.slice at hslice
  rw [if_neg (by omega)] at hslice
  split at hslice
  · obtain rfl := Option.some.inj hslice
    obtain ⟨hlt, rfl⟩ := List.getElem?_eq_some_iff.1 hline
    refine List.mem_map_of_mem ?_
    rw [Int.toNat_zero, List.drop_zero, List.mem_take_iff_getElem]
    exact ⟨r.toNat, by omega, rfl⟩
  · cases hslice

theorem view_dangling (h : ln.view.1 = .dangling) : ln.buf = .dangling := by
  cases hb : ln.buf <;> simp_all [Line.view]

/-- No row in use refers to a freed buffer. -/
def Live (d : Doc) : Prop :=
  ∀ r ln, 0 ≤ r → r < d.rowCount → d.line r = some ln → ln.buf ≠ .dangling

theorem Shows.live_of_same {T : Prop} {t : List (List UInt8)} (h : d.Shows T t)
    (hsame : d.Same d') : d'.Live := by
  obtain ⟨ls, dead, η, rfl, -, hf⟩ := h
  intro r ln h0 hr hline hdangling
  have hviews := hsame.views
  rw [views_slots rfl] at hviews
  obtain ⟨x, hmem, hx⟩ := List.mem_map.1 (view_mem hviews hline h0 hr)
  have hview : ln.view.1 = .dangling := by simp [Line.view, hdangling]
  exact forall₂_left (fun _ _ hy => Line.Shows.ne_dangling hy) hf x hmem
    (view_dangling (by rw [hx, hview]))

end Views

/-- Consecutive rows, read by their numbers. -/
theorem slots_lines_zero_iff {a m z : List Line} {n i : Int} {η : Heap} (hi : i = a.length) :
    (∀ r, i ≤ r → r < i + m.length → (slots (a ++ m ++ z) n η).line r = some Line.zero) ↔
      ∀ x ∈ m, x = Line.zero := by
  have hread {b y : List Line} {x : Line} (hm : m = b ++ x :: y) {r : Int}
      (hr : r = i + b.length) : (slots (a ++ m ++ z) n η).line r = some x :=
    slots_line (a := a ++ b) (z := y ++ z) (by simp [hm]) (by simp [hr, hi])
  constructor
  · intro hall x hx
    obtain ⟨b, y, hm⟩ := List.append_of_mem hx
    have hlen := congrArg List.length hm
    rw [List.length_append, List.length_cons] at hlen
    have := hall (i + b.length) (by omega) (by omega)
    rw [hread hm rfl] at this
    exact Option.some.inj this
  · intro hall r h0 hr
    obtain ⟨b, y, hm, hb⟩ := exists_eq_append_cons (t := m) (i := (r - i).toNat) (by omega)
    rw [hread hm (by omega), hall _ (List.getElem_mem _)]

end Doc

theorem Line.Shows.view_zero_iff {T : Prop} {ln : Line} {x : List UInt8} (h : ln.Shows T x) :
    ln.view = Line.zero.view ↔ ln = Line.zero := by
  rcases h with h | ⟨rfl, -⟩
  · refine ⟨fun heq => absurd heq h.view_ne_zero, fun heq => by rw [heq]⟩
  · simp

namespace Doc

/-! ## Blocks that grow -/

section Blocks

variable {la m lz dead : List Line} {n i deleted inserted : Int} {η : Heap}

theorem freed_view_iff {T : Prop} {ln : Line} {x : List UInt8} (h : ln.Shows T x) :
    ln.freed.view = ln.view ↔ ln = Line.zero := by
  rcases h with ⟨z, rest, hbuf, -⟩ | ⟨rfl, -⟩
  · have hzero : ln ≠ Line.zero := by
      rintro rfl
      exact nomatch hbuf
    simp [Line.freed, Line.view, hbuf, hzero]
  · simp [Line.freed, Line.zero]

/-- A block that outgrows the array frees its rows, and then finds no memory. -/
theorem slots_replaceBlock_refused (hi : i = la.length)
    (hactual : (slots (la ++ m ++ (lz ++ dead)) n η).actualDeleted i deleted = m.length)
    (hm : ∀ ln ∈ m, ln.buf ≠ .dangling) (hpos : 0 < inserted - m.length)
    (hfull : ¬ (slots (la ++ m ++ (lz ++ dead)) n η).Grows (n + (inserted - m.length))) :
    (slots (la ++ m ++ (lz ++ dead)) n η).replaceBlock i deleted inserted =
      some (.errAllocFailed, slots (la ++ m.map Line.freed ++ (lz ++ dead)) n η.next) := by
  have hfree := slots_freeLines_eq (a := la) (m := m) (z := lz ++ dead) (n := n) (η := η) rfl hi
    rfl hm
  rw [slots_grows_iff, not_or, Option.not_isSome_iff_eq_none] at hfull
  have hrefused : (slots (la ++ m.map Line.freed ++ (lz ++ dead)) n η).linesEnsureCap
      (n + (inserted - m.length)) =
        some (false, slots (la ++ m.map Line.freed ++ (lz ++ dead)) n η.next) := by
    have hsize : (la ++ m.map Line.freed ++ (lz ++ dead)).length =
        (la ++ m ++ (lz ++ dead)).length := by simp
    unfold Doc.linesEnsureCap
    simp only [slots, hsize, if_neg hfull.1, hfull.2]
  simp only [Doc.replaceBlock, hactual, Int.toNat_natCast, hfree, Option.bind_eq_bind,
    Option.bind_some, if_pos hpos, slots_rowCount, hrefused, Bool.not_false, if_true,
    Option.pure_def]

/-- A block of rows `m`, all of them live or fresh. -/
theorem slots_replaceBlock_iff {T : Prop} {y : List (List UInt8)} (inserted : Int)
    (hi : i = la.length)
    (hn : n = la.length + m.length + lz.length)
    (hactual : (slots (la ++ m ++ (lz ++ dead)) n η).actualDeleted i deleted = m.length)
    (hm : List.Forall₂ (Line.Shows T) m y) :
    (∀ η' d', (slots (la ++ m ++ (lz ++ dead)) n η').replaceBlock i deleted inserted =
        some (.errAllocFailed, d') → (slots (la ++ m ++ (lz ++ dead)) n η).Same d') ↔
      (∀ x ∈ m, x = Line.zero) ∨ inserted ≤ m.length ∨
        n + (inserted - m.length) < (la ++ m ++ (lz ++ dead)).length := by
  have hactual' (η' : Heap) :
      (slots (la ++ m ++ (lz ++ dead)) n η').actualDeleted i deleted = m.length := hactual
  have hlive := forall₂_ne_dangling (fun _ _ hx => hx.ne_dangling) hm
  have hfree (η' : Heap) := slots_freeLines_eq (a := la) (m := m) (z := lz ++ dead) (n := n)
    (η := η') rfl hi rfl hlive
  have hsame {η' : Heap} : (slots (la ++ m ++ (lz ++ dead)) n η).Same
      (slots (la ++ m.map Line.freed ++ (lz ++ dead)) n η') ↔ ∀ x ∈ m, x = Line.zero := by
    rw [← List.append_assoc, ← List.append_assoc, same_slots_iff (by simp [hn]; omega)
      (by simp [hn]; omega)]
    simp only [List.map_append, List.append_cancel_left_eq, List.append_cancel_right_eq,
      List.map_map]
    clear hfree hlive hactual' hactual hn
    induction hm with
    | nil => simp
    | cons hx _ ih =>
      rw [List.map_cons, List.map_cons, List.cons.injEq, List.forall_mem_cons, ih,
        Function.comp_apply, freed_view_iff hx]
  constructor
  · intro hatomic
    by_cases hgrow : 0 < inserted - m.length ∧
        (la ++ m ++ (lz ++ dead)).length ≤ n + (inserted - m.length)
    · have hfull : ¬ (slots (la ++ m ++ (lz ++ dead)) n (.granting 0)).Grows
          (n + (inserted - m.length)) := by
        rw [slots_grows_iff, Heap.granting_zero]
        exact not_or.2 ⟨by omega, nofun⟩
      exact Or.inl (hsame.1 (hatomic _ _
        (slots_replaceBlock_refused hi (hactual' _) hlive hgrow.1 hfull)))
    · omega
  · intro hsafe η' d' h
    obtain ⟨d₁, heap, hfreed, hgrow, hfull, rfl⟩ := replaceBlock_err h
    rw [hactual', Int.toNat_natCast, hfree, Option.some.injEq] at hfreed
    subst hfreed
    rw [hactual'] at hgrow hfull
    simp only [slots, List.length_append, List.length_map] at hfull hsafe
    exact hsame.2 (hsafe.resolve_right fun h => by omega)

end Blocks

end Doc

namespace Editor

/-! ## The operations of the peer -/

section Remote

variable {ed ed' : Editor} {t : List (List UInt8)} {q : Pos}

/-- Row for row the same document without a freed buffer, with the same cursors. -/
structure Untouched (ed ed' : Editor) : Prop where
  doc : ed.doc.Same ed'.doc
  live : ed'.doc.Live
  cursorRow : ed'.cursorRow = ed.cursorRow
  cursorCol : ed'.cursorCol = ed.cursorCol
  remoteCursorRow : ed'.remoteCursorRow = ed.remoteCursorRow
  remoteCursorCol : ed'.remoteCursorCol = ed.remoteCursorCol

/-- The editor shows the text `t`, some rows of it perhaps still fresh, and knows the
peer at `q`. -/
structure PeerStands (ed : Editor) (t : List (List UInt8)) (q : Pos) : Prop where
  shows : ed.doc.Shows False t
  row : ed.remoteCursorRow = q.row
  col : ed.remoteCursorCol = q.col
  valid : Text.Valid t q

theorem PeerStands.untouched_iff (h : ed.PeerStands t q) (doc : Doc) :
    ed.Untouched { ed with doc } ↔ ed.doc.Same doc :=
  ⟨fun hu => hu.doc, fun hs => ⟨hs, h.shows.live_of_same hs, rfl, rfl, rfl, rfl⟩⟩

theorem PeerStands.withHeap (h : ed.PeerStands t q) (heap : Heap) :
    ed.Untouched (ed.withHeap heap) :=
  (h.untouched_iff _).2 (ed.doc.same_withHeap heap)

theorem remoteInsertChar_keeps {c : UInt8} (hc : c ≠ newline) :
    ed.KeepsAll (ed.remoteInsertChar c) := by
  intro ed' h
  rw [remoteInsertChar, if_neg hc] at h
  obtain ⟨doc, hins, rfl⟩ := err_of_doc (g := id) h (fun _ => rfl) fun res doc ed'' hres => by
    cases res <;> simp_all
  obtain ⟨heap, rfl⟩ := Doc.insertInLine_err hins
  exact ⟨heap, rfl⟩

theorem remoteDeleteChar_keeps : ed.KeepsAll ed.remoteDeleteChar := by
  intro ed' h
  rw [remoteDeleteChar] at h
  split at h
  · simp [Option.bind_eq_some_iff] at h
  · split at h
    · obtain ⟨ln, -, h⟩ := Option.bind_eq_some_iff.1 h
      obtain ⟨doc, hjoin, rfl⟩ := err_of_doc (g := id) h (fun _ => rfl)
        fun res doc ed'' hres => by cases res <;> simp_all
      obtain ⟨heap, rfl⟩ := Doc.joinLine_err hjoin
      exact ⟨heap, rfl⟩
    · simp at h

theorem remoteUpdateLine_keeps {row len : Int} {text : List UInt8} :
    ed.KeepsAll (ed.remoteUpdateLine row text len) := by
  intro ed' h
  rw [remoteUpdateLine] at h
  split at h
  · simp at h
  · obtain ⟨doc, hupd, rfl⟩ := err_of_doc (g := id) h (fun _ => rfl)
      fun res doc ed'' hres => by cases res <;> simp_all
    obtain ⟨heap, rfl⟩ := Doc.updateLine_err hupd
    exact ⟨heap, rfl⟩

/-- A newline at the remote cursor. -/
theorem remoteInsertNewline_iff (h : ed.PeerStands t q) :
    ed.OnFailure Untouched (·.remoteInsertChar newline) ↔
      ∀ r, ed.remoteCursorRow < r → r < ed.doc.rowCount → ed.doc.line r = some Line.zero := by
  obtain ⟨a, u, v, z, rfl, hr, hc⟩ := h.valid.split
  obtain ⟨la, ln, lz, dead, η, hd, -, ha, hx, hz⟩ := h.shows.around
  have hrow : ed.remoteCursorRow = la.length := by rw [h.row, hr, ha.length_eq]
  have hcol : ed.remoteCursorCol ≤ ln.len := by
    rw [h.col, hc, hx.len_eq, List.length_append]
    omega
  have hop (heap : Heap) : (ed.withHeap heap).remoteInsertChar newline =
      ((ed.withHeap heap).doc.splitLine ed.remoteCursorRow ed.remoteCursorCol).bind fun r =>
        if r.1 ≠ .ok then some (r.1, { ed with doc := r.2 })
        else some (.ok, { ed with
          doc := r.2
          remoteCursorRow := ed.remoteCursorRow + 1
          remoteCursorCol := 0
          cursorRow := if ed.remoteCursorRow < ed.cursorRow then ed.cursorRow + 1
            else ed.cursorRow }.clampScroll) := by
    rw [remoteInsertChar, if_pos rfl]
    rfl
  rw [onFailure_iff_of_doc (g := id) hop (fun _ => rfl)
    (fun res doc ed'' hres => by cases res <;> simp_all) h.untouched_iff]
  simp only [withHeap_slots hd, hd]
  refine (Doc.slots_splitLine_iff rfl hrow hcol η).trans ?_
  have hlines := Doc.slots_lines_zero_iff (a := la ++ [ln]) (m := lz) (z := dead)
    (n := la.length + lz.length + 1) (i := la.length + 1) (η := η) (by simp)
  rw [List.append_assoc, List.append_assoc, List.singleton_append] at hlines
  have hzero : (∀ x ∈ lz, x.view = Line.zero.view) ↔ ∀ x ∈ lz, x = Line.zero :=
    forall₂_congr (Doc.forall₂_left (fun _ _ hy => Line.Shows.view_zero_iff hy) hz)
  rw [hzero, ← hlines, hrow]
  exact forall_congr' fun r => ⟨fun hall h1 h2 => hall (by omega) (by simp at h2; omega),
    fun hall h1 h2 => hall (by omega) (by simp; omega)⟩

/-- A block of the peer. -/
theorem remoteReplaceBlock_iff (h : ed.PeerStands t q) (startRow deleted inserted : Int) :
    ed.OnFailure Untouched (·.remoteReplaceBlock startRow deleted inserted) ↔
      (RemoteEdit.replaceBlock startRow deleted inserted).Safe ed := by
  rw [RemoteEdit.Safe]
  by_cases hout : startRow < 0 ∨ ed.doc.rowCount < startRow
  · refine ⟨fun _ => hout.imp id Or.inl, fun _ heap ed' hrun => ?_⟩
    replace hrun : (ed.withHeap heap).remoteReplaceBlock startRow deleted inserted =
      some (.errAllocFailed, ed') := hrun
    have hok : (ed.withHeap heap).remoteReplaceBlock startRow deleted inserted =
      some (.ok, ed.withHeap heap) := remoteReplaceBlock_out hout
    rw [hok] at hrun
    exact nomatch hrun
  have hop (heap : Heap) : (ed.withHeap heap).remoteReplaceBlock startRow deleted inserted =
      ((ed.withHeap heap).doc.replaceBlock startRow deleted inserted).bind fun r =>
        if r.1 ≠ .ok then some (r.1, { ed with doc := r.2 })
        else some (.ok, { ed with
          doc := r.2
          cursorRow := if startRow + ed.doc.actualDeleted startRow deleted ≤ ed.cursorRow then
              ed.cursorRow + (inserted - ed.doc.actualDeleted startRow deleted)
            else ed.cursorRow }.clampScroll) := by
    rw [remoteReplaceBlock, if_neg (show ¬ (startRow < 0 ∨ (ed.withHeap heap).doc.rowCount <
      startRow) from hout)]
    rfl
  rw [onFailure_iff_of_doc (g := id) hop (fun _ => rfl)
    (fun res doc ed'' hres => by cases res <;> simp_all) h.untouched_iff]
  by_cases hneg : ed.doc.actualDeleted startRow deleted < 0
  · -- no row is freed
    refine ⟨fun _ => Or.inr (Or.inr (Or.inl fun r h1 h2 => by omega)), fun _ heap doc hrep => ?_⟩
    obtain ⟨d₁, heap', hfree, -, -, rfl⟩ := Doc.replaceBlock_err hrep
    have hnone : (ed.withHeap heap).doc.actualDeleted startRow deleted < 0 := hneg
    rw [Int.toNat_of_nonpos (by omega), Doc.freeLines, Option.some.injEq] at hfree
    subst hfree
    exact ed.doc.same_withHeap heap'
  have hcount : ed.doc.rowCount = t.length := h.shows.rowCount_eq
  have hbound : startRow + ed.doc.actualDeleted startRow deleted ≤ t.length := by
    simp only [Doc.actualDeleted, hcount] at hneg ⊢
    split <;> omega
  obtain ⟨ta, y, rfl, hta⟩ := exists_eq_append (x := t) (i := startRow.toNat) (by omega)
  rw [List.length_append] at hbound
  obtain ⟨tm, tz, rfl, htm⟩ := exists_eq_append (x := y)
    (i := (ed.doc.actualDeleted startRow deleted).toNat) (by omega)
  obtain ⟨ls, dead, η, hd, -, hf⟩ := h.shows
  obtain ⟨la, lb, rfl, hla, hlb⟩ := Doc.forall₂_append.1 hf
  obtain ⟨m, lz, rfl, hmt, -⟩ := Doc.forall₂_append.1 hlb
  have hm := hmt.length_eq
  have ha := hla.length_eq
  have hactual : ed.doc.actualDeleted startRow deleted = m.length := by omega
  have hslots : la ++ (m ++ lz) ++ dead = la ++ m ++ (lz ++ dead) := by simp
  have hn : ((la ++ (m ++ lz)).length : Int) = la.length + m.length + lz.length := by
    simp only [List.length_append]
    omega
  rw [hslots, hn] at hd
  have hcount' : ed.doc.rowCount = la.length + m.length + lz.length := by rw [hd]; rfl
  have hcap : ed.doc.rowCap = (la ++ m ++ (lz ++ dead)).length := by rw [hd]; rfl
  simp only [withHeap_slots hd, hactual, hcap, hcount']
  rw [hd] at hactual ⊢
  refine (Doc.slots_replaceBlock_iff inserted (by omega) rfl hactual hmt).trans ?_
  rw [Doc.slots_lines_zero_iff (by omega)]
  refine ⟨fun hsafe => Or.inr (Or.inr hsafe), fun hsafe => ?_⟩
  exact (hsafe.resolve_left (by omega)).resolve_left (by omega)

end Remote

theorem standing_peerStands {t : List (List UInt8)} {q : Pos} (hq : Text.Valid t q) (p : Pos)
    (clip : Option (List UInt8)) : (standing t p q clip).PeerStands t q :=
  ⟨(Doc.ofText_holds False t _).shows, rfl, rfl, hq⟩

/-- A failing operation of the peer leaves the document and both cursors in every case
but a newline above a row with a buffer and a block that frees a buffer and outgrows
the array. -/
theorem remote_edit_atomic_iff {ed : Editor} {t : List (List UInt8)} {q : Pos}
    (h : ed.PeerStands t q) (op : RemoteEdit) :
    ed.OnFailure Untouched (fun ed => op.run ed) ↔ op.Safe ed := by
  cases op with
  | insertChar c =>
    by_cases hc : c = newline
    · subst hc
      exact (remoteInsertNewline_iff h).trans ⟨fun hall _ => hall, fun hsafe => hsafe rfl⟩
    · exact ⟨fun _ heq => absurd heq hc, fun _ =>
        KeepsAll.onFailure (fun _ => remoteInsertChar_keeps hc) h.withHeap⟩
  | deleteChar =>
    exact ⟨fun _ => trivial, fun _ =>
      KeepsAll.onFailure (fun _ => remoteDeleteChar_keeps) h.withHeap⟩
  | replaceBlock startRow deleted inserted => exact remoteReplaceBlock_iff h _ _ _
  | updateLine row text len =>
    exact ⟨fun _ => trivial, fun _ =>
      KeepsAll.onFailure (fun _ => remoteUpdateLine_keeps) h.withHeap⟩

/-- A block of as many rows as it replaces. -/
theorem remote_edit_atomic_block :
    (standing [['a'.toUInt8]] ⟨0, 0⟩ ⟨0, 1⟩ none).OnFailure Untouched
      fun ed => (RemoteEdit.replaceBlock 0 1 1).run ed :=
  (remote_edit_atomic_iff (standing_peerStands (by decide) _ _) (.replaceBlock 0 1 1)).2
    (Or.inr (Or.inr (Or.inr (Or.inl (by decide)))))

/-- Three rows for the only one, without memory for the larger array: the row's buffer
is freed, and the row still refers to it. -/
theorem block_leaves_freed_row : ∃ ed',
    (standing [['a'.toUInt8]] ⟨0, 0⟩ ⟨0, 1⟩ none).PeerStands [['a'.toUInt8]] ⟨0, 1⟩ ∧
    ((standing [['a'.toUInt8]] ⟨0, 0⟩ ⟨0, 1⟩ none).withHeap (.granting 0)).remoteReplaceBlock 0 1 3 =
      some (.errAllocFailed, ed') ∧
    ed'.doc.views = some [(.dangling, 1)] ∧
    ¬ (standing [['a'.toUInt8]] ⟨0, 0⟩ ⟨0, 1⟩ none).Untouched ed' := by
  have hrun : (((standing [['a'.toUInt8]] ⟨0, 0⟩ ⟨0, 1⟩ none).withHeap
      (.granting 0)).remoteReplaceBlock 0 1 3).map (fun r => (r.1, r.2.doc.views)) =
      some (.errAllocFailed, some [(.dangling, 1)]) := by
    decide +kernel
  obtain ⟨⟨res, ed'⟩, hrep, hres⟩ := Option.map_eq_some_iff.1 hrun
  obtain ⟨rfl, hviews⟩ := Prod.mk.inj hres
  refine ⟨ed', standing_peerStands (by decide) _ _, hrep, hviews, fun h => ?_⟩
  have := h.doc.views
  rw [hviews] at this
  exact absurd this (by decide +kernel)

end Editor

end LCode
