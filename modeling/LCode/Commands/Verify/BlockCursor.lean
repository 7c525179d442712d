import LCode.Commands.Verify.Files
import LCode.Commands.Verify.Packets
import LCode.Editor.Verify.RemoteAtomic

/-!
# The local cursor under a block of the peer

`editor_remote_replace_block` moves the local cursor with the rows below the block and
leaves it alone anywhere else, so a cursor inside the block can end up behind the text
of a fresh row, or in a row that has moved up. The rows of the block are then written
one by one, and a block that could not be opened leaves old rows to be overwritten.
-/

namespace LCode

open Serial

theorem Buf.store_dangling (i : Int) (xs : List UInt8) :
    Buf.dangling.store i xs = if xs.length = 0 then some .dangling else none := rfl

theorem Line.freed_len (ln : Line) : ln.freed.len = ln.len := by
  unfold Line.freed
  split <;> rfl

theorem Line.Shows.freed {T : Prop} {ln : Line} {x : List UInt8} (h : ln.Shows T x) :
    ln.freed.buf = .dangling ∨ ln.freed.len = 0 := by
  rcases h with ⟨z, rest, hbuf, -⟩ | ⟨rfl, -⟩
  · exact Or.inl (by simp [Line.freed, hbuf])
  · exact Or.inr rfl

/-- A list changed between two others, read. -/
theorem List.getElem?_map_middle {α : Type} (f : α → α) (a m z : List α) (k : Nat) :
    (a ++ m.map f ++ z)[k]? = if a.length ≤ k ∧ k < a.length + m.length then
      (a ++ m ++ z)[k]?.map f else (a ++ m ++ z)[k]? := by
  simp only [List.getElem?_append, List.length_append, List.length_map, List.getElem?_map]
  split <;> split <;> (try split) <;> first | rfl | omega

namespace Doc

theorem slots_line_natCast (l : List Line) (n : Int) (η : Heap) (k : Nat) :
    (slots l n η).line k = l[k]? := by
  simp [Doc.line, slots, Block.read_natCast]

/-! ## One row rewritten -/

section Lines

variable {d d' : Doc} {row len : Int} {ln : Line}

theorem setLine_of_line (h : d.line row = some ln) (ln' : Line) :
    ∃ d', d.setLine row ln' = some d' := by
  obtain ⟨ls, hls, hread⟩ := Option.bind_eq_some_iff.1 h
  unfold Block.read at hread
  split at hread
  · next h0 =>
    obtain ⟨hlt, -⟩ := List.getElem?_eq_some_iff.1 hread
    have hstore := Block.store_set hlt ln'
    rw [Int.toNat_of_nonneg h0] at hstore
    simp only [Doc.setLine, hls, Option.bind_eq_bind, Option.bind_some, hstore, Option.pure_def]
    exact ⟨_, rfl⟩
  · cases hread

theorem line_setLine (h : d.setLine row ln = some d') :
    d'.rowCount = d.rowCount ∧ d'.line row = some ln ∧ ∀ r, r ≠ row → d'.line r = d.line r := by
  obtain ⟨ls, hls, h⟩ := Option.bind_eq_some_iff.1 h
  obtain ⟨ls', hstore, h⟩ := Option.bind_eq_some_iff.1 h
  obtain rfl := Option.some.inj h
  obtain ⟨h0, hlt, rfl⟩ := Block.store_some hstore
  refine ⟨rfl, ?_, fun r hr => ?_⟩
  · simp only [Doc.line, Option.bind_eq_bind, Option.bind_some, Block.read, if_pos h0,
      List.getElem?_set_self hlt]
  · simp only [Doc.line, hls, Option.bind_eq_bind, Option.bind_some, Block.read]
    split
    · next hr0 => rw [List.getElem?_set_ne (by omega)]
    · rfl

theorem ensureCap_true {ln' : Line} {needed : Int} {heap heap' : Heap}
    (h : ln.ensureCap needed heap = some (true, ln', heap')) :
    ln'.len = ln.len ∧ (ln.buf = .dangling → ln' = ln) := by
  unfold Line.ensureCap at h
  by_cases hfits : needed < ln.cap
  · rw [if_pos hfits] at h
    obtain ⟨rfl, -⟩ := Prod.mk.inj (Prod.mk.inj (Option.some.inj h)).2
    exact ⟨rfl, fun _ => rfl⟩
  · rw [if_neg hfits] at h
    cases hmalloc : heap.malloc (growCap needed (needed.toNat + 1)
      (if ln.cap ≠ 0 then ln.cap * 2 else lineBufInitCap)) with
    | none =>
      simp only [hmalloc] at h
      cases h
    | some newBuf =>
      simp only [hmalloc, Option.bind_eq_bind] at h
      -- the old buffer is freed on either branch
      obtain ⟨ln₁, hfree, hlen⟩ : ∃ ln₁, ln.free = some ln₁ ∧ ln'.len = ln.len := by
        split at h
        · simp only [Option.bind_eq_some_iff, Option.some.injEq, Prod.mk.injEq, true_and] at h
          obtain ⟨_, -, _, -, ln₁, hfree, rfl, -⟩ := h
          exact ⟨ln₁, hfree, rfl⟩
        · simp only [Option.bind_eq_some_iff, Option.some.injEq, Prod.mk.injEq, true_and] at h
          obtain ⟨_, -, ln₁, hfree, rfl, -⟩ := h
          exact ⟨ln₁, hfree, rfl⟩
      refine ⟨hlen, fun hdangling => ?_⟩
      rw [Line.free, hdangling] at hfree
      cases hfree

/-- `editor_remote_update_line` that returns has left the row, for want of memory, or
has written one that had a buffer or could get one. -/
theorem updateLine_cases {res : EditorResult} {text : List UInt8}
    (h : d.updateLine row text len = some (res, d')) :
    d'.rowCount = d.rowCount ∧ (∀ r, r ≠ row → d'.line r = d.line r) ∧
      (d'.line row = d.line row ∨ ∃ ln ln', d.line row = some ln ∧ ln.buf ≠ .dangling ∧
        d'.line row = some ln' ∧ ln'.len = len) := by
  obtain ⟨⟨ok, d₁⟩, hcap, h⟩ := Option.bind_eq_some_iff.1 h
  cases ok with
  | false =>
    obtain ⟨-, rfl⟩ := Prod.mk.inj (Option.some.inj h)
    obtain ⟨heap, rfl⟩ := lineEnsureCap_false hcap
    exact ⟨rfl, fun _ _ => rfl, Or.inl rfl⟩
  | true =>
    obtain ⟨ln, hline, hcap⟩ := Option.bind_eq_some_iff.1 hcap
    obtain ⟨⟨ok, ln', heap⟩, hens, hcap⟩ := Option.bind_eq_some_iff.1 hcap
    obtain ⟨d₂, hset, hcap⟩ := Option.bind_eq_some_iff.1 hcap
    obtain ⟨rfl, rfl⟩ := Prod.mk.inj (Option.some.inj hcap)
    obtain ⟨hcount, hread, hother⟩ := line_setLine hset
    simp only [Bool.not_true, Bool.false_eq_true, if_false, Option.bind_eq_bind] at h
    obtain ⟨ln₁, hline₁, h⟩ := Option.bind_eq_some_iff.1 h
    obtain rfl : ln' = ln₁ := Option.some.inj (hread.symm.trans hline₁)
    obtain ⟨xs, -, h⟩ := Option.bind_eq_some_iff.1 h
    obtain ⟨buf, hstore, h⟩ := Option.bind_eq_some_iff.1 h
    obtain ⟨buf', hend, h⟩ := Option.bind_eq_some_iff.1 h
    obtain ⟨d₃, hset', h⟩ := Option.bind_eq_some_iff.1 h
    obtain ⟨-, rfl⟩ := Prod.mk.inj (Option.some.inj h)
    obtain ⟨hcount', hread', hother'⟩ := line_setLine hset'
    refine ⟨hcount'.trans hcount, fun r hr => (hother' r hr).trans (hother r hr),
      Or.inr ⟨ln, _, hline, fun hdangling => ?_, hread', rfl⟩⟩
    -- a terminator cannot be written to a freed buffer
    have hbuf : ln'.buf = .dangling := by rw [(ensureCap_true hens).2 hdangling, hdangling]
    have hbuf' : buf = .dangling := by
      rw [hbuf, Buf.store_dangling] at hstore
      split at hstore
      · exact (Option.some.inj hstore).symm
      · exact nomatch hstore
    rw [hbuf', Buf.store_dangling, if_neg (by simp)] at hend
    exact nomatch hend

end Lines

end Doc

namespace Editor

/-! ## The cursor -/

/-- The local cursor is a position of the document. -/
def CursorInside (ed : Editor) : Prop :=
  0 ≤ ed.cursorRow ∧ ed.cursorRow < ed.doc.rowCount ∧ 0 ≤ ed.cursorCol ∧
    ∃ ln, ed.doc.line ed.cursorRow = some ln ∧ ed.cursorCol ≤ ln.len

/-- The editor shows the text `t`, some rows of it perhaps still fresh, with its cursor
at `p`. -/
structure CursorAt (ed : Editor) (t : List (List UInt8)) (p : Pos) : Prop where
  shows : ed.doc.Shows False t
  row : ed.cursorRow = p.row
  col : ed.cursorCol = p.col
  valid : Text.Valid t p

/-- A row the packets for `inserted` rows from `start` on can name. -/
def Reached (start inserted : Nat) (row : Int) : Prop :=
  start ≤ row ∧ row < start + inserted ∧ row < 65536

/-- No update of the rows of the block takes its position from the cursor: they do not
reach its row, it stands at the beginning of it, or the row cannot be written. -/
def Sheltered (start inserted : Nat) (ed : Editor) : Prop :=
  ed.CursorInside ∧ (Reached start inserted ed.cursorRow → ed.cursorCol = 0 ∨
    ∃ ln, ed.doc.line ed.cursorRow = some ln ∧ ln.buf = .dangling)

section Cursor

variable {ed ed' : Editor} {start inserted : Nat}

theorem cursorInside_of_shows {y : List (List UInt8)} (h : ed.doc.Shows False y) {r c : Nat}
    (hr : ed.cursorRow = r) (hc : ed.cursorCol = c) :
    ed.CursorInside ↔ r < y.length ∧ c ≤ (Text.row y r).length := by
  have hcount := h.rowCount_eq
  constructor
  · rintro ⟨-, hrow, -, ln, hline, hcol⟩
    obtain ⟨a, z, hy, ha⟩ := exists_eq_append_cons (show r < y.length by omega)
    obtain ⟨ln', hline', hln⟩ := (hy ▸ h).line_eq (r := ed.cursorRow) (by omega)
    obtain rfl : ln = ln' := Option.some.inj (hline.symm.trans hline')
    refine ⟨by omega, ?_⟩
    have := hln.len_eq
    rw [hy, Text.row_append ha]
    omega
  · rintro ⟨hrow, hcol⟩
    obtain ⟨a, z, hy, ha⟩ := exists_eq_append_cons hrow
    obtain ⟨ln, hline, hln⟩ := (hy ▸ h).line_eq (r := ed.cursorRow) (by omega)
    refine ⟨by omega, by omega, by omega, ln, hline, ?_⟩
    have := hln.len_eq
    rw [hy, Text.row_append ha] at hcol
    omega

theorem remoteUpdateLine_cases {row len : Int} {text : List UInt8} {res : EditorResult}
    (h : ed.remoteUpdateLine row text len = some (res, ed')) :
    ed'.cursorRow = ed.cursorRow ∧ ed'.cursorCol = ed.cursorCol ∧
      ed'.doc.rowCount = ed.doc.rowCount ∧ (∀ r, r ≠ row → ed'.doc.line r = ed.doc.line r) ∧
      (ed'.doc.line row = ed.doc.line row ∨ ∃ ln ln', ed.doc.line row = some ln ∧
        ln.buf ≠ .dangling ∧ ed'.doc.line row = some ln' ∧ ln'.len = len) := by
  unfold Editor.remoteUpdateLine at h
  split at h
  · obtain ⟨-, rfl⟩ := Prod.mk.inj (Option.some.inj h)
    exact ⟨rfl, rfl, rfl, fun _ _ => rfl, Or.inl rfl⟩
  · obtain ⟨⟨res', doc⟩, hupd, h⟩ := Option.bind_eq_some_iff.1 h
    have hcases := Doc.updateLine_cases hupd
    simp only [ne_eq, Option.pure_def] at h
    split at h
    · obtain ⟨-, rfl⟩ := Prod.mk.inj (Option.some.inj h)
      exact ⟨rfl, rfl, hcases⟩
    · obtain ⟨-, rfl⟩ := Prod.mk.inj (Option.some.inj h)
      obtain ⟨_, _, _, _, heq⟩ := clampScroll_eq { ed with doc }
      rw [heq]
      exact ⟨rfl, rfl, hcases⟩

/-- One update of the block. -/
theorem Sheltered.update (h : ed.Sheltered start inserted) {row len : Int} {text : List UInt8}
    {res : EditorResult} (hrow : Reached start inserted row) (hlen : 0 ≤ len)
    (hupd : ed.remoteUpdateLine row text len = some (res, ed')) :
    ed'.Sheltered start inserted := by
  obtain ⟨⟨h0, hlt, hc0, ln, hline, hcol⟩, hsafe⟩ := h
  obtain ⟨hr, hc, hcount, hother, hself⟩ := remoteUpdateLine_cases hupd
  rw [Sheltered, CursorInside, hr, hc, hcount]
  by_cases hat : ed.cursorRow = row
  · subst hat
    rcases hself with hsame | ⟨ln₀, ln', hline₀, hlive, hline', hlen'⟩
    · rw [hsame]
      exact ⟨⟨h0, hlt, hc0, ln, hline, hcol⟩, hsafe⟩
    · rcases hsafe hrow with hzero | ⟨ln₁, hline₁, hdangling⟩
      · exact ⟨⟨h0, hlt, hc0, ln', hline', by omega⟩, fun _ => Or.inl hzero⟩
      · rw [Option.some.inj (hline₁.symm.trans hline₀)] at hdangling
        exact absurd hdangling hlive
  · rw [hother _ hat]
    exact ⟨⟨h0, hlt, hc0, ln, hline, hcol⟩, hsafe⟩

/-! ## The block -/

/-- What the cursor at `p` needs to keep a position of the document: the rows above the
block stay, the rows below move with it, and a cursor in the block is left in a fresh
row, where only the first column is one, or in a row that has moved up. A block that the
array has no room for leaves its old rows to be written. -/
def BlockSafe (ed : Editor) (t : List (List UInt8)) (p : Pos) (start deleted inserted : Nat) :
    Prop :=
  if inserted ≤ deleted ∨ ed.doc.Grows (ed.doc.rowCount + (inserted - deleted)) then
    p.row < start ∨ start + deleted ≤ p.row ∨ (p.row < start + inserted ∧ p.col = 0) ∨
      (start + inserted ≤ p.row ∧ p.row + deleted - inserted < t.length ∧
        p.col ≤ (Text.row t (p.row + deleted - inserted)).length)
  else p.row < start + deleted ∨ start + inserted ≤ p.row ∨ 65536 ≤ p.row ∨ p.col = 0

variable {t : List (List UInt8)} {p : Pos} {deleted : Nat}

theorem CursorAt.actualDeleted (h : ed.CursorAt t p) (hblock : start + deleted ≤ t.length) :
    ed.doc.actualDeleted start deleted = deleted := by
  have := h.shows.rowCount_eq
  rw [Doc.actualDeleted, if_neg (by omega)]

/-- With room in the array the block gives way to fresh rows. -/
theorem CursorAt.replaceBlock (h : ed.CursorAt t p) (hblock : start + deleted ≤ t.length)
    (hgrows : inserted ≤ deleted ∨ ed.doc.Grows (ed.doc.rowCount + (inserted - deleted))) :
    ∃ ed', ed.remoteReplaceBlock start deleted inserted = some (.ok, ed') ∧
      ed'.doc.Shows False (splice t start deleted (List.replicate inserted [])) ∧
      ed'.cursorRow = ((if start + deleted ≤ p.row then p.row + inserted - deleted
        else p.row : Nat) : Int) ∧
      ed'.cursorCol = p.col ∧ (ed.doc.heap.Ample → ed'.doc.heap.Ample) := by
  have hsplit : t = t.take start ++ (t.drop start).take deleted ++ t.drop (start + deleted) := by
    rw [List.append_assoc, ← List.drop_drop, List.take_append_drop, List.take_append_drop]
  have hm : ((t.drop start).take deleted).length = deleted := by
    rw [List.length_take, List.length_drop]
    omega
  have hnew : ∀ y ∈ List.replicate inserted [], Line.zero.Shows False y := fun y hy =>
    List.eq_of_mem_replicate hy ▸ Line.zero_shows
  have hlen : (inserted : Int) = (List.replicate inserted ([] : List UInt8)).length := by simp
  obtain ⟨doc, hrep, hdoc, ample⟩ := remoteReplaceBlock_grows (i := start) (hsplit ▸ h.shows)
    (fun hpos => hgrows.elim (fun hle => by omega) fun hg => by rwa [hm])
    (fun _ _ hx => hx.ne_dangling) hnew (by rw [List.length_take]; omega)
    (by rw [hm, h.actualDeleted hblock]) hlen
  obtain ⟨_, _, _, _, heq⟩ := clampScroll_eq { ed with
    doc
    cursorRow := if (start + ((t.drop start).take deleted).length : Int) ≤ ed.cursorRow then
        ed.cursorRow + (inserted - ((t.drop start).take deleted).length)
      else ed.cursorRow }
  rw [heq] at hrep
  refine ⟨_, hrep, hdoc, ?_, h.col, ample⟩
  simp only [hm, h.row]
  split <;> split <;> omega

/-- Where such a block leaves the cursor. -/
theorem CursorAt.inside_iff (h : ed.CursorAt t p) (hblock : start + deleted ≤ t.length)
    (hgrows : inserted ≤ deleted ∨ ed.doc.Grows (ed.doc.rowCount + (inserted - deleted)))
    (shows : ed'.doc.Shows False (splice t start deleted (List.replicate inserted [])))
    (hrow : ed'.cursorRow = ((if start + deleted ≤ p.row then p.row + inserted - deleted
      else p.row : Nat) : Int)) (hcol : ed'.cursorCol = p.col) :
    ed'.CursorInside ↔ ed.BlockSafe t p start deleted inserted := by
  obtain ⟨hlt, hle⟩ := h.valid
  have hlen := splice_length (w := List.replicate inserted ([] : List UInt8)) hblock
  rw [List.length_replicate] at hlen
  rw [cursorInside_of_shows shows hrow hcol, BlockSafe, if_pos hgrows]
  have hmoved (k : Nat) (hk : k < start ∨ start + deleted ≤ k) :
      Text.row (splice t start deleted (List.replicate inserted []))
        (Text.moveRow start deleted inserted k) = Text.row t k := by
    have := Text.row_splice (w := List.replicate inserted []) hblock hk
    rwa [List.length_replicate] at this
  have hnew (k : Nat) (hk : start ≤ k) (hk' : k < start + inserted) :
      Text.row (splice t start deleted (List.replicate inserted [])) k = [] := by
    rw [Text.row_splice_new (by omega) hk (by rwa [List.length_replicate]),
      Text.row_eq_getElem (by rw [List.length_replicate]; omega), List.getElem_replicate]
  by_cases hbelow : start + deleted ≤ p.row
  · have hrow' := hmoved p.row (Or.inr hbelow)
    rw [Text.moveRow, if_neg (by omega),
      show p.row - deleted + inserted = p.row + inserted - deleted by omega] at hrow'
    rw [if_pos hbelow, hrow']
    exact ⟨fun _ => Or.inr (Or.inl hbelow), fun _ => ⟨by omega, hle⟩⟩
  · rw [if_neg hbelow]
    by_cases habove : p.row < start
    · have hrow' := hmoved p.row (Or.inl habove)
      rw [Text.moveRow, if_pos habove] at hrow'
      rw [hrow']
      exact ⟨fun _ => Or.inl habove, fun _ => ⟨by omega, hle⟩⟩
    · by_cases hin : p.row < start + inserted
      · rw [hnew p.row (by omega) hin, List.length_nil]
        omega
      · have hrow' := hmoved (p.row + deleted - inserted) (Or.inr (by omega))
        rw [Text.moveRow, if_neg (by omega),
          show p.row + deleted - inserted - deleted + inserted = p.row by omega] at hrow'
        rw [hrow']
        omega

/-- Fresh rows shelter the cursor that has a position in them. -/
theorem CursorInside.sheltered {y : List (List UInt8)} (h : ed.CursorInside)
    (shows : ed.doc.Shows False y)
    (hnew : ∀ k, start ≤ k → k < start + inserted → Text.row y k = []) :
    ed.Sheltered start inserted := by
  refine ⟨h, fun ⟨hlo, hhi, _⟩ => Or.inl ?_⟩
  have hrow : ed.cursorRow = ed.cursorRow.toNat := by omega
  have hcol : ed.cursorCol = ed.cursorCol.toNat := by
    have := h.2.2.1
    omega
  have hle := ((cursorInside_of_shows shows hrow hcol).1 h).2
  rw [hnew _ (by omega) (by omega), List.length_nil] at hle
  omega

/-- A block that finds no room leaves its rows freed, and the others. -/
theorem CursorAt.replaceBlock_refused (h : ed.CursorAt t p) (hblock : start + deleted ≤ t.length)
    (hfull : ¬ (inserted ≤ deleted ∨ ed.doc.Grows (ed.doc.rowCount + (inserted - deleted)))) :
    ∃ ed' ln, ed.remoteReplaceBlock start deleted inserted = some (.errAllocFailed, ed') ∧
      ed'.cursorRow = p.row ∧ ed'.cursorCol = p.col ∧ ed'.doc.rowCount = t.length ∧
      ed'.doc.line p.row = some ln ∧ ln.len = (Text.row t p.row).length ∧
      (if start ≤ p.row ∧ p.row < start + deleted then ln.buf = .dangling ∨ ln.len = 0
        else ln.Shows False (Text.row t p.row)) := by
  have hactual := h.actualDeleted hblock
  obtain ⟨b, z, ht, hb⟩ := exists_eq_append_cons h.valid.1
  obtain ⟨x, hx, hshows⟩ := (ht ▸ h.shows).line_eq (r := p.row) (by omega)
  rw [← Text.row_eq_getElem h.valid.1] at hshows
  obtain ⟨ls, dead, η, hd, -, hf⟩ := h.shows
  have hlen := hf.length_eq
  obtain ⟨la, m, lz, rfl, hla, hm⟩ : ∃ la m lz, ls = la ++ m ++ lz ∧ la.length = start ∧
      m.length = deleted := by
    refine ⟨ls.take start, (ls.drop start).take deleted, ls.drop (start + deleted), ?_, ?_, ?_⟩
    · rw [List.append_assoc, ← List.drop_drop, List.take_append_drop, List.take_append_drop]
    · rw [List.length_take]
      omega
    · rw [List.length_take, List.length_drop]
      omega
  have hcount : ed.doc.rowCount = t.length := by rw [hd, Doc.slots_rowCount, hlen]
  rw [List.append_assoc _ lz dead, hlen] at hd
  rw [not_or, hcount] at hfull
  have hlive : ∀ ln ∈ m, ln.buf ≠ .dangling := fun ln hln =>
    Doc.forall₂_ne_dangling (fun _ _ hy => hy.ne_dangling) hf ln (by simp [hln])
  have hpos : 0 < (inserted : Int) - m.length := by omega
  have hrep := Doc.slots_replaceBlock_refused (i := start) (by rw [hla]) (by rw [← hd, hactual, hm])
    hlive hpos (by rw [← hd, hm]; exact hfull.2)
  rw [← hd] at hrep
  have hin : ¬ ((start : Int) < 0 ∨ ed.doc.rowCount < start) := by omega
  refine ⟨{ ed with doc := .slots (la ++ m.map Line.freed ++ (lz ++ dead)) t.length η.next },
    if start ≤ p.row ∧ p.row < start + deleted then x.freed else x, ?_, h.row, h.col, rfl, ?_, ?_,
    ?_⟩
  · simp only [Editor.remoteReplaceBlock, if_neg hin, hrep, Option.bind_eq_bind, Option.bind_some]
    rfl
  · rw [hd, Doc.slots_line_natCast] at hx
    rw [Doc.slots_line_natCast, List.getElem?_map_middle, hx, hla, hm]
    split <;> rfl
  · split
    · rw [Line.freed_len, hshows.len_eq]
    · exact hshows.len_eq
  · split
    · exact hshows.freed
    · exact hshows

/-- Such a block keeps the cursor, and shelters it where `BlockSafe` says so. -/
theorem CursorAt.refused_sheltered_iff {ln : Line} (h : ed.CursorAt t p)
    (hfull : ¬ (inserted ≤ deleted ∨ ed.doc.Grows (ed.doc.rowCount + (inserted - deleted))))
    (hrow : ed'.cursorRow = p.row) (hcol : ed'.cursorCol = p.col)
    (hcount : ed'.doc.rowCount = t.length) (hline : ed'.doc.line p.row = some ln)
    (hlen : ln.len = (Text.row t p.row).length)
    (hblock : if start ≤ p.row ∧ p.row < start + deleted then ln.buf = .dangling ∨ ln.len = 0
      else ln.Shows False (Text.row t p.row)) :
    ed'.CursorInside ∧
      (ed'.Sheltered start inserted ↔ ed.BlockSafe t p start deleted inserted) := by
  obtain ⟨hlt, hle⟩ := h.valid
  have hinside : ed'.CursorInside := by
    rw [CursorInside, hrow, hcol, hcount]
    exact ⟨by omega, by omega, by omega, ln, hline, by omega⟩
  refine ⟨hinside, ?_⟩
  rw [Sheltered, Reached, hrow, hcol, BlockSafe, if_neg hfull]
  constructor
  · rintro ⟨-, hsafe⟩
    by_cases hreached : start + deleted ≤ p.row ∧ p.row < start + inserted ∧ p.row < 65536
    · rw [if_neg (by omega)] at hblock
      rcases hsafe ⟨by omega, by omega, by omega⟩ with hzero | ⟨ln', hline', hdangling⟩
      · omega
      · obtain rfl : ln = ln' := Option.some.inj (hline.symm.trans hline')
        exact absurd hdangling hblock.ne_dangling
    · omega
  · intro hsafe
    refine ⟨hinside, fun ⟨hlo, hhi, hword⟩ => ?_⟩
    by_cases hin : p.row < start + deleted
    · rw [if_pos ⟨by omega, hin⟩] at hblock
      rcases hblock with hdangling | hzero
      · exact Or.inr ⟨ln, hline, hdangling⟩
      · exact Or.inl (by omega)
    · exact Or.inl (by omega)

/-- An empty text takes its position from a cursor behind the first column. -/
theorem remoteUpdateLine_empty {ln : Line} {x : List UInt8} (hrow : 0 ≤ ed.cursorRow)
    (hlt : ed.cursorRow < ed.doc.rowCount) (hcol : 0 < ed.cursorCol)
    (hline : ed.doc.line ed.cursorRow = some ln) (hln : ln.Holds False x) (text : List UInt8) :
    ∃ ed', ed.remoteUpdateLine ed.cursorRow text 0 = some (.ok, ed') ∧ ¬ ed'.CursorInside := by
  obtain ⟨z, rest, hbuf, -, hcap, -⟩ := hln
  have hfits : (0 : Int) < ln.cap := by
    rw [hcap, List.length_append, List.length_cons]
    omega
  have hens : ed.doc.lineEnsureCap ed.cursorRow 0 = some (true, ed.doc) := by
    simp only [Doc.lineEnsureCap, hline, Line.ensureCap_fits hfits, Doc.store_read hline,
      Option.bind_eq_bind, Option.bind_some, Option.pure_def]
  obtain ⟨buf, hend⟩ : ∃ buf, ln.buf.store 0 [0] = some buf := by
    rw [hbuf]
    refine ⟨_, Buf.store_prefix ?_⟩
    simp only [List.length_append, List.length_cons, List.length_nil]
    omega
  obtain ⟨doc, hset⟩ := Doc.setLine_of_line hline { ln with buf, len := 0 }
  have hupd : ed.doc.updateLine ed.cursorRow text 0 = some (.ok, doc) := by
    have hslice : Block.slice text 0 0 = some [] := rfl
    have hnone : ln.buf.store 0 [] = some ln.buf := rfl
    simp only [Doc.updateLine, hens, hline, hslice, hnone, hend, hset, Option.bind_eq_bind,
      Option.bind_some, Bool.not_true, Bool.false_eq_true, if_false, Option.pure_def]
  have hin : ¬ (ed.cursorRow < 0 ∨ ed.doc.rowCount ≤ ed.cursorRow) := by omega
  refine ⟨{ ed with doc }.clampScroll, ?_, ?_⟩
  · simp only [Editor.remoteUpdateLine, if_neg hin, hupd, Option.bind_eq_bind, Option.bind_some,
      ne_eq, not_true_eq_false, if_false, Option.pure_def]
  · obtain ⟨-, hread, -⟩ := Doc.line_setLine hset
    obtain ⟨_, _, _, _, heq⟩ := clampScroll_eq { ed with doc }
    rw [heq]
    rintro ⟨-, -, -, ln', hline', hle⟩
    rw [← Option.some.inj (hread.symm.trans hline')] at hle
    exact Int.not_le.2 hcol hle

end Cursor

end Editor

namespace Commands

/-! ## The packets -/

/-- A CMD_UPDATE_LINE packet for one of the `inserted` rows from `start` on. -/
def UpdatesBlock (start inserted : Nat) (se : SerialEvent) : Prop :=
  ∃ (row : Nat) (x : List UInt8), start ≤ row ∧ row < start + inserted ∧ row < 65536 ∧
    se.Carries SerialCommand.updateLine.code (hiByte row :: loByte row :: x)

/-- The local cursor is a position of the document after the packet `se` and after each
packet for the rows of its block that follows. -/
def KeepsCursor (app : App) (se : SerialEvent) (start inserted : Nat) : Prop :=
  ∀ ses app', (∀ u ∈ ses, UpdatesBlock start inserted u) →
    (se :: ses).foldlM dispatchSerial app = some app' → app'.editor.CursorInside

section Packets

variable {app app' : App} {start inserted : Nat} {ses : List SerialEvent}

theorem sheltered_updates (h : app.editor.Sheltered start inserted)
    (hses : ∀ u ∈ ses, UpdatesBlock start inserted u)
    (hrun : ses.foldlM dispatchSerial app = some app') : app'.editor.Sheltered start inserted := by
  induction ses generalizing app with
  | nil =>
    obtain rfl := Option.some.inj hrun
    exact h
  | cons u ses ih =>
    rw [List.foldlM_cons] at hrun
    obtain ⟨app₁, hdisp, hrun⟩ := Option.bind_eq_some_iff.1 hrun
    obtain ⟨row, x, hlo, hhi, hword, hu⟩ := hses u (by simp)
    rw [dispatchSerial_update_eq app hu, Option.map_eq_some_iff] at hdisp
    obtain ⟨⟨res, ed⟩, hupd, rfl⟩ := hdisp
    refine ih ?_ (fun u hu => hses u (by simp [hu])) hrun
    have hrow : (row : Int) % 65536 = row := by omega
    rw [hrow] at hupd
    have hreached : Editor.Reached start inserted row := ⟨by omega, by omega, by omega⟩
    have hsheltered := h.update hreached (Int.natCast_nonneg _) hupd
    obtain ⟨_, _, _, heq⟩ := App.setRenderEx_eq { app with editor := ed } .full
    rw [heq]
    exact hsheltered

/-- With memory for all of them every packet goes through. -/
theorem updates_run {ys : List (List UInt8)} (h : Rowed (Line.Shows False) app ys)
    (hses : ∀ u ∈ ses, UpdatesBlock start inserted u) :
    ∃ app', ses.foldlM dispatchSerial app = some app' := by
  induction ses generalizing app ys with
  | nil => exact ⟨app, rfl⟩
  | cons u ses ih =>
    obtain ⟨row, x, -, -, -, hu⟩ := hses u (by simp)
    obtain ⟨app₁, hdisp, h₁⟩ := dispatchSerial_update_rows h (fun ln w hw => ⟨w, hw⟩)
      (fun ln hln => (hln.mono fun _ => trivial).shows) hu
    obtain ⟨app', hrun⟩ := ih h₁ fun u hu => hses u (by simp [hu])
    exact ⟨app', by rw [List.foldlM_cons, hdisp]; exact hrun⟩

/-- A packet that empties the row of a cursor behind its first column. -/
theorem exists_update_outside (app : App) {ln : Line} {x : List UInt8}
    (hreached : Editor.Reached start inserted app.editor.cursorRow)
    (hlt : app.editor.cursorRow < app.editor.doc.rowCount) (hcol : 0 < app.editor.cursorCol)
    (hline : app.editor.doc.line app.editor.cursorRow = some ln) (hln : ln.Holds False x) :
    ∃ u app', UpdatesBlock start inserted u ∧ dispatchSerial app u = some app' ∧
      ¬ app'.editor.CursorInside := by
  obtain ⟨hlo, hhi, hword⟩ := hreached
  obtain ⟨row, hrow⟩ := Int.eq_ofNat_of_zero_le (show 0 ≤ app.editor.cursorRow by omega)
  let u := frameEvent SerialCommand.updateLine.code [hiByte row, loByte row] fun _ => 0
  have hu : u.Carries SerialCommand.updateLine.code (hiByte row :: loByte row :: []) :=
    frameEvent_carries (by simp) _
  obtain ⟨ed, hupd, hout⟩ := Editor.remoteUpdateLine_empty (by omega) hlt hcol hline hln
    (u.payloadBuf.drop 2)
  have hdisp := dispatchSerial_update_eq app hu
  rw [show (row : Int) % 65536 = app.editor.cursorRow by omega] at hdisp
  obtain ⟨_, _, _, heq⟩ := App.setRenderEx_eq { app with editor := ed } .full
  rw [List.length_nil, Int.natCast_zero, hupd, Option.map_some] at hdisp
  refine ⟨u, _, ⟨row, [], by omega, by omega, by omega, hu⟩, hdisp, ?_⟩
  rw [heq]
  exact hout

/-- The local cursor keeps a position of the document, whatever texts follow for the
rows of a block, in exactly the states of `BlockSafe`. -/
theorem block_keeps_cursor_iff {t : List (List UInt8)} {p : Pos} {deleted : Nat} {se : SerialEvent}
    (h : app.editor.CursorAt t p) (hstart : start < 65536) (hdeleted : deleted < 65536)
    (hinserted : inserted < 65536) (hse : (replaceMessage start deleted inserted).Event se)
    (hblock : start + deleted ≤ t.length) :
    (KeepsCursor app se start inserted ↔ app.editor.BlockSafe t p start deleted inserted) ∧
      (app.editor.doc.heap.Ample → ∀ ses, (∀ u ∈ ses, UpdatesBlock start inserted u) →
        ∃ app', (se :: ses).foldlM dispatchSerial app = some app') := by
  have hdisp := dispatchSerial_replace_eq app hse
  rw [show (start : Int) % 65536 = start by omega, show (deleted : Int) % 65536 = deleted by omega,
    show (inserted : Int) % 65536 = inserted by omega] at hdisp
  by_cases hgrows : inserted ≤ deleted ∨
      app.editor.doc.Grows (app.editor.doc.rowCount + (inserted - deleted))
  · obtain ⟨ed, hrep, shows, hrow, hcol, ample⟩ := h.replaceBlock hblock hgrows
    have hiff := h.inside_iff hblock hgrows shows hrow hcol
    rw [hrep, Option.map_some] at hdisp
    have hrun (ses : List SerialEvent) : (se :: ses).foldlM dispatchSerial app =
        ses.foldlM dispatchSerial { app with editor := ed } := by
      rw [List.foldlM_cons, hdisp]
      rfl
    refine ⟨⟨fun hkeeps => hiff.1 (hkeeps [] _ nofun (hrun [])), ?_⟩, ?_⟩
    · intro hsafe ses app' hses hfold
      rw [hrun] at hfold
      refine (sheltered_updates ((hiff.2 hsafe).sheltered shows ?_) hses hfold).1
      intro k hlo hhi
      rw [Text.row_splice_new (by omega) hlo (by rwa [List.length_replicate]),
        Text.row_eq_getElem (by rw [List.length_replicate]; omega), List.getElem_replicate]
    · intro hample ses hses
      rw [hrun]
      exact updates_run ⟨shows, ample hample⟩ hses
  · obtain ⟨ed, ln, hrep, hrow, hcol, hcount, hline, hlen, hrows⟩ :=
      h.replaceBlock_refused hblock hgrows
    obtain ⟨hinside, hiff⟩ :=
      h.refused_sheltered_iff hgrows hrow hcol hcount hline hlen hrows
    rw [hrep, Option.map_some] at hdisp
    have hrun (ses : List SerialEvent) : (se :: ses).foldlM dispatchSerial app =
        ses.foldlM dispatchSerial { app with editor := ed } := by
      rw [List.foldlM_cons, hdisp]
      rfl
    refine ⟨⟨fun hkeeps => hiff.1 (by_contra fun hnot => ?_), ?_⟩, fun hample =>
      absurd (Or.inr (Doc.grows_of_ample hample _)) hgrows⟩
    · -- an old row of the document is emptied under the cursor
      obtain ⟨hreached, hcol0, hdangling⟩ : Editor.Reached start inserted p.row ∧ p.col ≠ 0 ∧
          ln.buf ≠ .dangling := by
        rw [Editor.Sheltered, hrow, hcol] at hnot
        refine ⟨by_contra fun hno => hnot ⟨hinside, fun hr => absurd hr hno⟩, fun hzero =>
          hnot ⟨hinside, fun _ => Or.inl (by omega)⟩, fun hd =>
          hnot ⟨hinside, fun _ => Or.inr ⟨ln, hline, hd⟩⟩⟩
      obtain ⟨hlt, hle⟩ := h.valid
      have hheld : ln.Holds False (Text.row t p.row) := by
        split at hrows
        · exact absurd (hrows.resolve_left hdangling) (by omega)
        · refine hrows.resolve_right fun ⟨_, hnil⟩ => ?_
          rw [hnil, List.length_nil] at hle
          omega
      have hin : ed.cursorRow < ed.doc.rowCount := by omega
      have hpos : 0 < ed.cursorCol := by omega
      obtain ⟨u, app', hu, hupd, hout⟩ := exists_update_outside { app with editor := ed }
        (by rwa [hrow]) hin hpos (by rwa [hrow]) hheld
      refine hout (hkeeps [u] app' (by simpa using hu) ?_)
      rw [hrun, List.foldlM_cons, hupd]
      rfl
    · intro hsafe ses app' hses hfold
      rw [hrun] at hfold
      exact (sheltered_updates (hiff.2 hsafe) hses hfold).1

end Packets

/-- A process with the rows `t` and its cursor at `p`. -/
def standingApp (t : List (List UInt8)) (p : Pos) : App :=
  { holding t with editor := .standing t p ⟨0, 0⟩ none }

theorem standingApp_cursorAt {t : List (List UInt8)} {p : Pos} (hp : Text.Valid t p) :
    (standingApp t p).editor.CursorAt t p :=
  ⟨(Doc.ofText_holds False t _).shows, rfl, rfl, hp⟩

/-- A block of the peer, as it arrives. -/
def blockEvent (start deleted inserted : Nat) : SerialEvent :=
  frameEvent SerialCommand.replaceBlock.code (replaceMessage start deleted inserted).body fun _ => 0

theorem blockEvent_event (start deleted inserted : Nat) :
    (replaceMessage start deleted inserted).Event (blockEvent start deleted inserted) :=
  frameEvent_carries (by simp [replaceMessage]) _

/-- Two rows for one, above the row of the cursor. -/
theorem block_keeps_cursor_below :
    KeepsCursor (standingApp [['a'.toUInt8], ['b'.toUInt8]] ⟨1, 1⟩) (blockEvent 0 1 2) 0 2 := by
  refine (block_keeps_cursor_iff (standingApp_cursorAt (by decide)) (by decide) (by decide)
    (by decide) (blockEvent_event 0 1 2) (by decide)).1.2 ?_
  rw [Editor.BlockSafe, if_pos (Or.inr (Doc.grows_of_ample Heap.zeros_ample _))]
  exact Or.inr (Or.inl (by decide))

/-- A block of one row for another, with the cursor behind its text: the cursor stays in
the second column of a row that is empty now. -/
theorem block_strands_cursor :
    (standingApp [['a'.toUInt8, 'b'.toUInt8]] ⟨0, 1⟩).editor.CursorAt
      [['a'.toUInt8, 'b'.toUInt8]] ⟨0, 1⟩ ∧
    (replaceMessage (0 : Nat) (1 : Nat) (1 : Nat)).Event (blockEvent 0 1 1) ∧
    (∃ app', dispatchSerial (standingApp [['a'.toUInt8, 'b'.toUInt8]] ⟨0, 1⟩) (blockEvent 0 1 1) =
        some app' ∧ app'.editor.cursorRow = 0 ∧ app'.editor.cursorCol = 1 ∧
      app'.editor.doc.rowCount = 1 ∧ app'.editor.doc.line 0 = some Line.zero) ∧
    ¬ KeepsCursor (standingApp [['a'.toUInt8, 'b'.toUInt8]] ⟨0, 1⟩) (blockEvent 0 1 1) 0 1 := by
  have hrun : (dispatchSerial (standingApp [['a'.toUInt8, 'b'.toUInt8]] ⟨0, 1⟩)
      (blockEvent 0 1 1)).map (fun app => (app.editor.cursorRow, app.editor.cursorCol,
        app.editor.doc.rowCount, app.editor.doc.line 0)) = some (0, 1, 1, some Line.zero) := by
    decide +kernel
  obtain ⟨app', hdisp, hstate⟩ := Option.map_eq_some_iff.1 hrun
  simp only [Prod.mk.injEq] at hstate
  obtain ⟨hrow, hcol, hcount, hline⟩ := hstate
  refine ⟨standingApp_cursorAt (by decide), blockEvent_event 0 1 1,
    ⟨app', hdisp, hrow, hcol, hcount, hline⟩, fun hkeeps => ?_⟩
  obtain ⟨-, -, -, ln, hln, hle⟩ := hkeeps [] app' nofun (by rw [List.foldlM_cons, hdisp]; rfl)
  rw [hrow, hline] at hln
  rw [← Option.some.inj hln, hcol] at hle
  exact absurd hle (by decide)

end Commands

end LCode
