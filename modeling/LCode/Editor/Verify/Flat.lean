import LCode.Editor.Verify.Elsewhere
import LCode.Lib.Beside
import LCode.Lib.Machine

/-!
# The editor as a string with a caret

`Editor.caret` is what the line array and the cursor stand for: the rows joined by
newlines, and the offset of the cursor. Insertions, deletions and moves are those of
the string, a selection is a stretch of it, and an edit of the peer moves the local
caret as an edit of the string would.
-/

namespace LCode

namespace Editor

/-- The document as a string, with its caret at the cursor. -/
def caret (ed : Editor) : Option (Caret UInt8) := do
  return Text.caret newline (← ed.doc.text) ⟨ed.cursorRow.toNat, ed.cursorCol.toNat⟩

/-- The document as a string, with its caret at the remote cursor. -/
def remoteCaret (ed : Editor) : Option (Caret UInt8) := do
  return Text.caret newline (← ed.doc.text) ⟨ed.remoteCursorRow.toNat, ed.remoteCursorCol.toNat⟩

/-- `editor_insert_char`, `editor_delete_char`, `editor_move_left` and
`editor_move_right`, with the results of the edits. -/
def perform : Machine Editor (Caret.Op UInt8) EditorResult
  | ed, .insert c => do
    let (res, ed) ← ed.insertChar c
    return (ed, [res])
  | ed, .delete => do
    let (res, ed) ← ed.deleteChar
    return (ed, [res])
  | ed, .left => do return (← ed.moveLeft, [])
  | ed, .right => do return (← ed.moveRight, [])

section Local

variable {T : Prop} {ed : Editor} {t : List (List UInt8)} {p q s : Pos}

theorem At.caret (h : ed.At T t p) : ed.caret = some (Text.caret newline t p) := by
  rw [Editor.caret, h.holds.shows.text_eq, h.row, h.col]
  rfl

theorem PeerAt.remoteCaret (h : ed.PeerAt T t q) :
    ed.remoteCaret = some (Text.caret newline t q) := by
  rw [Editor.remoteCaret, h.holds.shows.text_eq, h.row, h.col]
  rfl

/-- The editor stands for the string with a caret. -/
def StandsFor (T : Prop) (ed : Editor) (x : Caret UInt8) : Prop :=
  ∃ t p, ed.At T t p ∧ Text.caret newline t p = x

theorem StandsFor.caret {x : Caret UInt8} (h : ed.StandsFor T x) : ed.caret = some x := by
  obtain ⟨t, p, hat, rfl⟩ := h
  exact hat.caret

/-- Each operation is that of the string. -/
theorem StandsFor.perform {x : Caret UInt8} (h : ed.StandsFor T x) (op : Caret.Op UInt8) :
    ∃ ed' os, perform ed op = some (ed', os) ∧ ed'.StandsFor T (x.step op) ∧
      ∀ res ∈ os, res = .ok := by
  obtain ⟨t, p, hat, rfl⟩ := h
  cases op with
  | insert c =>
    obtain ⟨doc, hins, hat'⟩ := hat.insertChar c
    refine ⟨_, [.ok], by simp only [Editor.perform, hins]; rfl, ⟨_, _, hat', ?_⟩, by simp⟩
    exact Text.caret_insert newline hat.valid c
  | delete =>
    obtain ⟨doc, hdel, hat'⟩ := hat.deleteChar
    refine ⟨_, [.ok], by simp only [Editor.perform, hdel]; rfl, ⟨_, _, hat', ?_⟩, by simp⟩
    exact Text.caret_backspace newline hat.valid
  | left =>
    refine ⟨_, [], by simp only [Editor.perform, hat.pointed.moveLeft]; rfl,
      ⟨_, _, hat.of_valid hat.valid.left, ?_⟩, by simp⟩
    exact Text.caret_left newline hat.valid
  | right =>
    refine ⟨_, [], by simp only [Editor.perform, hat.pointed.moveRight]; rfl,
      ⟨_, _, hat.of_valid hat.valid.right, ?_⟩, by simp⟩
    exact Text.caret_right newline hat.valid

/-- Every sequence of the operations is one of the string with a caret. -/
theorem edits_refine_string (h : ed.At T t p) (ops : List (Caret.Op UInt8)) :
    ∃ x ed' os, ed.caret = some x ∧ Machine.run perform ed ops = some (ed', os) ∧
      ed'.caret = some (ops.foldl Caret.step x) ∧ ∀ res ∈ os, res = .ok := by
  obtain ⟨ed', os, hrun, hfor, hos⟩ := Machine.run_refines (R := StandsFor T)
    (fun _ _ op h => h.perform op) ⟨t, p, h, rfl⟩ ops
  exact ⟨_, ed', os, h.caret, hrun, hfor.caret, hos⟩

/-- Two rows joined, split again and left. -/
theorem edits_refine_string_join : ∃ x ed' os,
    (selecting [['a'.toUInt8], ['b'.toUInt8]] ⟨0, 0⟩ ⟨1, 0⟩ ⟨0, 0⟩).caret = some x ∧
      Machine.run perform (selecting [['a'.toUInt8], ['b'.toUInt8]] ⟨0, 0⟩ ⟨1, 0⟩ ⟨0, 0⟩)
        [.delete, .insert newline, .left, .left, .right] = some (ed', os) ∧
      ed'.caret =
        some ([.delete, .insert newline, .left, .left, .right].foldl Caret.step x) ∧
      ∀ res ∈ os, res = .ok := by
  obtain ⟨hat, -, -⟩ := selecting_at (t := [['a'.toUInt8], ['b'.toUInt8]]) (s := ⟨0, 0⟩)
    (p := ⟨1, 0⟩) (q := ⟨0, 0⟩) (by decide) (by decide) (by decide)
  exact edits_refine_string hat _

/-! ## The selection -/

theorem range_inj {b e b' e' : Pos} (h : ((b.row : Int), (b.col : Int), (e.row : Int),
    (e.col : Int)) = ((b'.row : Int), (b'.col : Int), (e'.row : Int), (e'.col : Int))) :
    b = b' ∧ e = e' := by
  simp only [Prod.mk.injEq, Int.natCast_inj] at h
  obtain ⟨hbr, hbc, her, hec⟩ := h
  exact ⟨Pos.ext hbr hbc, Pos.ext her hec⟩

/-- Copying and deleting act on one stretch of the string, between the offsets of anchor
and cursor; what the first copy loop measures is what the second one writes. -/
theorem selection_is_stretch (h : ed.At T t p) (hs : ed.Selected t s) :
    ∃ x i j, x = Text.flat newline t ∧ i = min (Text.offset t s) (Text.offset t p) ∧
      j = max (Text.offset t s) (Text.offset t p) ∧
      (∃ heap, ed.copySelection = some { ed with
        doc := { ed.doc with heap }
        clipboard := some ((x.take j).drop i ++ [0]) }) ∧
      (∃ startRow startCol endRow endCol, ed.selGetRange = (startRow, startCol, endRow, endCol) ∧
        measureLoop ed.doc startRow startCol endRow endCol (endRow - startRow + 1).toNat 0 =
          some ((j : Int) - i) ∧
        ∀ block : List UInt8, (block.length : Int) = j - i + 1 →
          ∃ clip, fillLoop ed.doc startRow startCol endRow endCol (endRow - startRow + 1).toNat
            block 0 = some (clip, (j : Int) - i)) ∧
      ∃ ed', ed.deleteSelection = some (.ok, ed') ∧
        ed'.caret = some ⟨x.take i ++ x.drop j, i⟩ ∧ ed'.selActive = false := by
  obtain ⟨b, e, hrange, hbe, hb, he, hends⟩ := hs.range h
  obtain ⟨f, m, g, hflat, hstart, hend, hcopy, hcut⟩ := Text.flat_range newline hb he hbe
  have hends : min (Text.offset t s) (Text.offset t p) = f.length ∧
      max (Text.offset t s) (Text.offset t p) = f.length + m.length := by
    rcases hends with ⟨rfl, rfl⟩ | ⟨rfl, rfl⟩ <;> omega
  have hrows : ((e.row : Int) - b.row + 1).toNat = e.row - b.row + 1 := by
    unfold Text.before at hbe
    omega
  have hlen : ((f.length + m.length : Nat) : Int) - f.length = m.length := by omega
  have hlength : (Text.copyRows newline t b e (e.row - b.row + 1)).length = m.length :=
    congrArg List.length hcopy
  refine ⟨_, _, _, rfl, rfl, rfl, ?_, ⟨b.row, b.col, e.row, e.col, hrange, ?_, ?_⟩, ?_⟩
  · obtain ⟨b', e', heap, hrange', -, hrun⟩ := h.copySelection hs
    obtain ⟨rfl, rfl⟩ := range_inj (hrange.symm.trans hrange')
    rw [hends.1, hends.2, hflat, ← List.length_append, List.take_left, List.drop_left, ← hcopy]
    exact ⟨heap, hrun⟩
  · have hmeasure := h.measureLoop hb he hbe (Nat.le_refl _) 0
    rw [hlength, Int.zero_add] at hmeasure
    rw [hends.1, hends.2, hlen, hrows]
    exact hmeasure
  · intro block hblock
    rw [hends.1, hends.2, hlen] at hblock ⊢
    obtain ⟨rest, -, hfill⟩ := h.fillLoop hb he hbe (Nat.le_refl _) (w := []) (f := block)
      (i := 0) rfl (by omega)
    rw [hlength, Int.zero_add] at hfill
    rw [hrows]
    exact ⟨_, hfill⟩
  · obtain ⟨b', e', doc, hrange', -, -, hrun, hat⟩ := h.deleteSelection hs
    obtain ⟨rfl, rfl⟩ := range_inj (hrange.symm.trans hrange')
    refine ⟨_, hrun, ?_, by simp [unselected]⟩
    rw [hat.caret, hcut, hends.1, hends.2, hflat, List.append_assoc, List.take_left,
      ← List.append_assoc, ← List.length_append, List.drop_left]

/-- A selection over a line end, from the cursor back to the anchor. -/
theorem selection_is_stretch_rows : ∃ ed',
    (selecting [['a'.toUInt8], ['b'.toUInt8]] ⟨1, 1⟩ ⟨0, 0⟩ ⟨0, 0⟩).deleteSelection =
        some (.ok, ed') ∧ ed'.caret = some ⟨[], 0⟩ := by
  obtain ⟨hat, hs, -⟩ := selecting_at (t := [['a'.toUInt8], ['b'.toUInt8]]) (s := ⟨1, 1⟩)
    (p := ⟨0, 0⟩) (q := ⟨0, 0⟩) (by decide) (by decide) (by decide)
  obtain ⟨x, i, j, rfl, rfl, rfl, -, -, ed', hdel, hcaret, -⟩ := selection_is_stretch hat hs
  exact ⟨ed', hdel, hcaret.trans (by decide)⟩

/-! ## Paste -/

/-- Characters typed one by one. -/
theorem At.typeAll (h : ed.At T t p) (x : List UInt8) :
    ∃ ed' os, Machine.run perform ed (x.map .insert) = some (ed', os) ∧
      ed'.At T (Text.paste newline t p x) (Text.afterPaste newline p x) ∧
      ∀ res ∈ os, res = .ok := by
  induction x generalizing ed t p with
  | nil =>
    rw [Text.paste_nil newline h.valid]
    exact ⟨ed, [], rfl, h, nofun⟩
  | cons c x ih =>
    obtain ⟨doc, hins, hat⟩ := h.insertChar c
    obtain ⟨ed', os, hrun, hat', hos⟩ := ih hat
    have hstep : perform ed (.insert c) =
        some (ed.goto doc (Text.afterInsert newline p c), [.ok]) := by
      simp only [perform, hins]
      rfl
    rw [Text.paste_cons newline h.valid]
    refine ⟨ed', _, Machine.run_cons hstep hrun, hat', fun res hres => ?_⟩
    rcases List.mem_append.1 hres with hmem | hmem
    · exact List.mem_singleton.1 hmem
    · exact hos res hmem

/-- A paste is the typing of its characters. -/
theorem paste_is_typing (h : ed.At T t p) {x rest : List UInt8}
    (hclip : ed.clipboard = some (x ++ 0 :: rest)) (hx : 0 ∉ x) :
    ∃ pasted typed os, ed.paste = some (.ok, pasted) ∧
      Machine.run perform ed (x.map .insert) = some (typed, os) ∧ (∀ res ∈ os, res = .ok) ∧
      pasted.doc.text.isSome ∧ pasted.doc.text = typed.doc.text ∧
      pasted.doc.rowCount = typed.doc.rowCount ∧
      pasted.cursorRow = typed.cursorRow ∧ pasted.cursorCol = typed.cursorCol := by
  obtain ⟨doc, hpaste, hpasted⟩ := h.paste hclip hx
  obtain ⟨typed, os, hrun, htyped, hos⟩ := h.typeAll x
  refine ⟨_, typed, os, hpaste, hrun, hos, ?_, ?_, ?_, ?_, ?_⟩
  · rw [hpasted.holds.shows.text_eq]
    rfl
  · rw [hpasted.holds.shows.text_eq, htyped.holds.shows.text_eq]
  · rw [hpasted.rowCount_eq, htyped.rowCount_eq]
  · rw [hpasted.row, htyped.row]
  · rw [hpasted.col, htyped.col]

/-- A paste with a line end, between two characters. -/
theorem paste_is_typing_rows : ∃ pasted typed os,
    Editor.paste { selecting [['a'.toUInt8, 'b'.toUInt8]] ⟨0, 0⟩ ⟨0, 1⟩ ⟨0, 0⟩ with
      clipboard := some ['x'.toUInt8, newline, 0] } = some (.ok, pasted) ∧
    Machine.run perform { selecting [['a'.toUInt8, 'b'.toUInt8]] ⟨0, 0⟩ ⟨0, 1⟩ ⟨0, 0⟩ with
      clipboard := some ['x'.toUInt8, newline, 0] }
        ([UInt8.ofNat 120, newline].map .insert) = some (typed, os) ∧
    pasted.doc.text = typed.doc.text := by
  have hat : At True { selecting [['a'.toUInt8, 'b'.toUInt8]] ⟨0, 0⟩ ⟨0, 1⟩ ⟨0, 0⟩ with
      clipboard := some ['x'.toUInt8, newline, 0] } [['a'.toUInt8, 'b'.toUInt8]] ⟨0, 1⟩ :=
    ⟨Doc.ofText_holds _ _ _, Heap.zeros_ample, rfl, rfl, by decide⟩
  obtain ⟨pasted, typed, os, hpaste, hrun, -, -, htext, -⟩ :=
    paste_is_typing hat (show _ = some (['x'.toUInt8, newline] ++ 0 :: []) from rfl) (by decide)
  exact ⟨pasted, typed, os, hpaste, hrun, htext⟩

/-! ## Edits of the peer -/

/-- From `ed` to `ed'` the string with the remote caret `y` has made the step `op`, and
the local caret `x` has stayed between the characters it was between. -/
structure Transformed (T : Prop) (ed' : Editor) (x y : Caret UInt8) (op : Caret.Op UInt8) :
    Prop where
  remote : ed'.remoteCaret = some (y.step op)
  stays : ed'.StandsFor T ⟨(y.step op).text, y.follow op x.off⟩
  before : Caret.before ⟨(y.step op).text, y.follow op x.off⟩ = x.before
  /-- A deletion may take the character behind the local caret. -/
  after : (op = .delete → x.off + 1 ≠ y.off) →
    Caret.after ⟨(y.step op).text, y.follow op x.off⟩ = x.after

theorem StandsFor.of_remote {t' : List (List UInt8)} {p' q' : Pos} {ed' : Editor}
    {x : Caret UInt8} (hpeer : ed'.PeerAt T t' q') (hvalid : Text.Valid t' p')
    (hrow : ed'.cursorRow = p'.row) (hcol : ed'.cursorCol = p'.col)
    (htext : (Text.caret newline t' q').text = x.text) (hoff : Text.offset t' p' = x.off) :
    ed'.StandsFor T x :=
  ⟨t', p', ⟨hpeer.holds, hpeer.ample, hrow, hcol, hvalid⟩, Caret.ext htext hoff⟩

/-- An edit of the peer in another row is one of the string, and the local caret goes
with the characters around it. -/
theorem remote_edit_transforms (h : ed.At T t p) (hq : ed.PeerAt T t q) (hne : p.row ≠ q.row) :
    ∃ x y, ed.caret = some x ∧ ed.remoteCaret = some y ∧
      (∀ c, ∃ ed', ed.remoteInsertChar c = some (.ok, ed') ∧
        Transformed T ed' x y (.insert c)) ∧
      (0 < y.off → ∃ ed', ed.remoteDeleteChar = some (.ok, ed') ∧
        Transformed T ed' x y .delete) := by
  have hapart : Text.offset t p ≠ Text.offset t q := by
    rcases Nat.lt_or_gt_of_ne hne with hlt | hgt
    · exact Nat.ne_of_lt (Text.offset_lt newline h.valid hq.valid hlt)
    · exact Nat.ne_of_gt (Text.offset_lt newline hq.valid h.valid hgt)
  refine ⟨_, _, h.caret, hq.remoteCaret, fun c => ?_, fun h0 => ?_⟩
  · obtain ⟨doc, hins, hpeer⟩ := hq.remoteInsertChar c
    obtain ⟨hvalid, hoff⟩ := Text.offset_besideInsert newline h.valid hq.valid hne c
    have hstep := Text.caret_insert newline hq.valid c
    have htext := congrArg Caret.text hstep
    have hrow : rowAfterInsert q c ed.cursorRow = (Text.besideInsert newline q c p).row := by
      rw [h.row, rowAfterInsert, Text.besideInsert]
      by_cases hc : c = newline ∧ q.row < p.row
      · rw [if_pos ⟨hc.1, Int.ofNat_lt.2 hc.2⟩, if_pos hc]
        rfl
      · rw [if_neg fun h => hc ⟨h.1, Int.ofNat_lt.1 h.2⟩, if_neg hc]
    obtain ⟨hbefore, hafter⟩ := Caret.beside_insert (s := Text.caret newline t q)
      (Text.offset_le newline hq.valid) hapart c
    refine ⟨_, hins, ?_, ?_, hbefore, fun _ => hafter⟩
    · rw [hpeer.remoteCaret, hstep]
    · refine .of_remote hpeer hvalid ?_ ?_ htext hoff
      · rw [remoteGoto_cursorRow, hrow]
      · rw [remoteGoto_cursorCol, h.col]
        rfl
  · obtain ⟨doc, hdel, hpeer⟩ := hq.remoteDeleteChar
    obtain ⟨hvalid, hoff⟩ := Text.offset_besideBackspace newline h.valid hq.valid hne h0
    have hstep := Text.caret_backspace newline hq.valid
    have htext := congrArg Caret.text hstep
    have hrow : rowAfterBackspace q ed.cursorRow = (Text.besideBackspace q p).row := by
      rw [h.row, rowAfterBackspace, Text.besideBackspace]
      by_cases hc : q.col = 0 ∧ 0 < q.row ∧ q.row < p.row
      · rw [if_pos ⟨hc.1, hc.2.1, Int.ofNat_lt.2 hc.2.2⟩, if_pos hc]
        exact (Int.ofNat_sub (show 1 ≤ p.row by omega)).symm
      · rw [if_neg fun h => hc ⟨h.1, h.2.1, Int.ofNat_lt.1 h.2.2⟩, if_neg hc]
    obtain ⟨hbefore, hafter⟩ := Caret.beside_delete (s := Text.caret newline t q) h0 hapart
    refine ⟨_, hdel, ?_, ?_, hbefore, fun hnot => hafter (hnot rfl)⟩
    · rw [hpeer.remoteCaret, hstep]
    · refine .of_remote hpeer hvalid ?_ ?_ htext hoff
      · rw [remoteGoto_cursorRow, hrow]
      · rw [remoteGoto_cursorCol, h.col]
        rfl

/-- The row of the peer joined to the one with the local caret. -/
theorem remote_edit_transforms_join : ∃ x y ed',
    (selecting [['a'.toUInt8], ['b'.toUInt8]] ⟨0, 0⟩ ⟨0, 1⟩ ⟨1, 0⟩).caret = some x ∧
      (selecting [['a'.toUInt8], ['b'.toUInt8]] ⟨0, 0⟩ ⟨0, 1⟩ ⟨1, 0⟩).remoteCaret = some y ∧
      (selecting [['a'.toUInt8], ['b'.toUInt8]] ⟨0, 0⟩ ⟨0, 1⟩ ⟨1, 0⟩).remoteDeleteChar =
        some (.ok, ed') ∧ Transformed True ed' x y .delete := by
  obtain ⟨hat, -, hq⟩ := selecting_at (t := [['a'.toUInt8], ['b'.toUInt8]]) (s := ⟨0, 0⟩)
    (p := ⟨0, 1⟩) (q := ⟨1, 0⟩) (by decide) (by decide) (by decide)
  obtain ⟨x, y, hx, hy, -, hdelete⟩ := remote_edit_transforms hat hq (by decide)
  obtain ⟨ed', hdel, htransformed⟩ := hdelete (by
    rw [hq.remoteCaret] at hy
    obtain rfl := Option.some.inj hy
    decide)
  exact ⟨x, y, ed', hx, hy, hdel, htransformed⟩

end Local

end Editor

end LCode
