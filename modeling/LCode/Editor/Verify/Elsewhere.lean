import LCode.Editor.Verify.Remote
import LCode.Editor.Verify.Selection

/-!
# Remote edits away from the selection

An operation of the peer replaces a stretch of rows. Rows outside of it stay what
they are, and the local cursor goes with its row; the anchor of a selection keeps
its row number, so a stretch above the selection that changes its length parts
the two.
-/

namespace LCode

/-- An operation of the peer: the edits at the remote cursor, and a block of rows
replaced by the rows `new`. -/
inductive RemoteOp where
  | insertChar (c : UInt8)
  | deleteChar
  | replaceBlock (startRow deleted : Nat) (new : List (List UInt8))

namespace Editor

/-- `editor_remote_update_line` for the rows `new`, from number `row` on. -/
def updateRows (ed : Editor) (row : Int) : List (List UInt8) → Option Editor
  | [] => some ed
  | x :: new => do updateRows (← ed.remoteUpdateLine row x x.length).2 (row + 1) new

def applyRemote (ed : Editor) : RemoteOp → Option Editor
  | .insertChar c => do return (← ed.remoteInsertChar c).2
  | .deleteChar => do return (← ed.remoteDeleteChar).2
  | .replaceBlock startRow deleted new => do
    updateRows (← ed.remoteReplaceBlock startRow deleted new.length).2 startRow new

end Editor

namespace RemoteOp

/-! ## The stretch of an operation -/

/-- `old` rows from `first` on give way to `new` rows. -/
structure Stretch where
  first : Nat
  old : Nat
  new : Nat

/-- The rows the operation touches, with the remote cursor at `q`. -/
def stretch (t : List (List UInt8)) (q : Pos) : RemoteOp → Stretch
  | .insertChar c => ⟨q.row, 1, if c = newline then 2 else 1⟩
  | .deleteChar =>
    if 0 < q.col then ⟨q.row, 1, 1⟩
    else if 0 < q.row then ⟨q.row - 1, 2, 1⟩
    else ⟨0, 0, 0⟩
  | .replaceBlock startRow deleted new =>
    if t.length < startRow then ⟨0, 0, 0⟩
    else ⟨startRow, min deleted (t.length - startRow), new.length⟩

/-- The text after the operation. -/
def text (t : List (List UInt8)) (q : Pos) : RemoteOp → List (List UInt8)
  | .insertChar c => Text.insert newline t q c
  | .deleteChar => Text.backspace t q
  | .replaceBlock startRow deleted new =>
    if t.length < startRow then t
    else splice t startRow (min deleted (t.length - startRow)) new

/-- Where a position outside the stretch has gone. -/
def follow (t : List (List UInt8)) (q : Pos) (op : RemoteOp) (p : Pos) : Pos :=
  ⟨Text.moveRow (op.stretch t q).first (op.stretch t q).old (op.stretch t q).new p.row, p.col⟩

/-- The rows of the operation are below those of `s` and `p`. -/
def Below (op : RemoteOp) (t : List (List UInt8)) (q s p : Pos) : Prop :=
  s.row < (op.stretch t q).first ∧ p.row < (op.stretch t q).first

/-- The rows of the operation are above those of `s` and `p`. -/
def Above (op : RemoteOp) (t : List (List UInt8)) (q s p : Pos) : Prop :=
  (op.stretch t q).first + (op.stretch t q).old ≤ s.row ∧
    (op.stretch t q).first + (op.stretch t q).old ≤ p.row

instance (op : RemoteOp) (t : List (List UInt8)) (q s p : Pos) : Decidable (op.Above t q s p) :=
  inferInstanceAs (Decidable (_ ∧ _))

/-- The operation puts in as many rows as it takes out. -/
def Level (op : RemoteOp) (t : List (List UInt8)) (q : Pos) : Prop :=
  (op.stretch t q).new = (op.stretch t q).old

/-- The rows of a block have no line ends inside. -/
def Plain : RemoteOp → Prop
  | .insertChar _ | .deleteChar => True
  | .replaceBlock _ _ new => Text.All (· ≠ newline) new

section Stretch

variable {t : List (List UInt8)} {p q : Pos}

theorem text_eq (hq : Text.Valid t q) (op : RemoteOp) :
    ∃ w, w.length = (op.stretch t q).new ∧
      op.text t q = splice t (op.stretch t q).first (op.stretch t q).old w ∧
      (op.stretch t q).first + (op.stretch t q).old ≤ t.length := by
  have hlt := hq.1
  cases op with
  | insertChar c =>
    simp only [stretch, text, Text.insert]
    split
    · exact ⟨_, rfl, rfl, hlt⟩
    · exact ⟨_, rfl, rfl, hlt⟩
  | deleteChar =>
    simp only [stretch, text, Text.backspace]
    split
    · exact ⟨_, rfl, rfl, hlt⟩
    · split
      · exact ⟨_, rfl, rfl, by simp only; omega⟩
      · exact ⟨[], rfl, by simp [splice], Nat.zero_le _⟩
  | replaceBlock startRow deleted new =>
    simp only [stretch, text]
    split
    · exact ⟨[], rfl, by simp [splice], Nat.zero_le _⟩
    · exact ⟨new, rfl, rfl, by simp only; omega⟩

theorem Plain.text {op : RemoteOp} (hop : op.Plain) (ht : Text.All (· ≠ newline) t) (q : Pos) :
    Text.All (· ≠ newline) (op.text t q) := by
  cases op with
  | insertChar c =>
    by_cases hc : c = newline
    · rw [RemoteOp.text, Text.insert, if_pos hc]
      refine ht.splice fun x hx d hd => ht.row q.row d ?_
      rcases List.mem_pair.1 hx with rfl | rfl
      · exact List.mem_of_mem_take hd
      · exact List.mem_of_mem_drop hd
    · exact ht.insert newline q hc
  | deleteChar => exact ht.backspace q
  | replaceBlock startRow deleted new =>
    rw [RemoteOp.text]
    split
    · exact ht
    · exact ht.splice hop

/-- The edits at the remote cursor take the row of the local one along. -/
theorem follow_insertChar (c : UInt8) (hp : p.row < q.row ∨ q.row + 1 ≤ p.row) :
    Editor.rowAfterInsert q c p.row = (follow t q (.insertChar c) p).row := by
  simp only [Editor.rowAfterInsert, follow, stretch]
  rcases hp with hlt | hge
  · rw [Text.moveRow_lt hlt, if_neg (by omega)]
  · rw [Text.moveRow_ge (by omega)]
    by_cases hc : c = newline
    · rw [if_pos hc, if_pos ⟨hc, by omega⟩]
      omega
    · rw [if_neg hc, if_neg fun h => hc h.1]
      omega

theorem follow_deleteChar (hp : p.row < (stretch t q .deleteChar).first ∨
      (stretch t q .deleteChar).first + (stretch t q .deleteChar).old ≤ p.row) :
    Editor.rowAfterBackspace q p.row = (follow t q .deleteChar p).row := by
  simp only [Editor.rowAfterBackspace, follow]
  simp only [stretch] at hp ⊢
  by_cases hcol : 0 < q.col
  · simp only [hcol, if_true] at hp ⊢
    rw [if_neg (by omega)]
    rcases hp with hlt | hge
    · rw [Text.moveRow_lt hlt]
    · rw [Text.moveRow_ge (by omega)]
      omega
  · by_cases hrow : 0 < q.row
    · simp only [hcol, hrow, if_true, if_false] at hp ⊢
      have hp : p.row < q.row - 1 ∨ q.row - 1 + 2 ≤ p.row := hp
      rcases hp with hlt | hge
      · rw [Text.moveRow_lt hlt, if_neg (by omega)]
      · rw [Text.moveRow_ge (by omega), if_pos ⟨by omega, trivial, by omega⟩]
        omega
    · simp only [hcol, hrow, if_false] at hp ⊢
      rw [Text.moveRow_ge (Nat.zero_le _), if_neg (fun h => h.2.1.elim)]
      rfl

theorem follow_replaceBlock {startRow deleted : Nat} {w : List (List UInt8)}
    (hin : startRow ≤ t.length) (hp : p.row < startRow ∨
      startRow + min deleted (t.length - startRow) ≤ p.row) :
    (if (startRow : Int) + (min deleted (t.length - startRow) : Nat) ≤ p.row then
        (p.row : Int) + (w.length - (min deleted (t.length - startRow) : Nat))
      else p.row) = (follow t q (.replaceBlock startRow deleted w) p).row := by
  have hout : ¬ t.length < startRow := by omega
  simp only [follow, stretch, hout, if_false]
  rcases hp with hlt | hge
  · rw [Text.moveRow_lt hlt, if_neg (by omega)]
  · rw [Text.moveRow_ge (by omega), if_pos (by omega)]
    omega

end Stretch

end RemoteOp

namespace Editor

/-! ## The operation -/

section Apply

variable {T : Prop} {ed : Editor} {t : List (List UInt8)} {p q s : Pos}

/-- Cursor and selection of an editor, after an operation that left `doc` and took
the cursor to row `row`. -/
structure Shifted (ed ed' : Editor) (row : Int) : Prop where
  row : ed'.cursorRow = row
  col : ed'.cursorCol = ed.cursorCol
  selActive : ed'.selActive = ed.selActive
  selAnchorRow : ed'.selAnchorRow = ed.selAnchorRow
  selAnchorCol : ed'.selAnchorCol = ed.selAnchorCol

theorem Shifted.clampScroll (ed : Editor) (doc : Doc) (row : Int) :
    ({ ed with doc, cursorRow := row }.clampScroll).doc = doc ∧
      ed.Shifted { ed with doc, cursorRow := row }.clampScroll row := by
  obtain ⟨_, _, _, _, h⟩ := clampScroll_eq { ed with doc, cursorRow := row }
  rw [h]
  exact ⟨rfl, rfl, rfl, rfl, rfl, rfl⟩

theorem Shifted.remoteGoto (ed : Editor) (doc : Doc) (q : Pos) (row : Int) :
    ed.Shifted (ed.remoteGoto doc q row) row := by
  obtain ⟨_, _, _, _, h⟩ := remoteGoto_eq ed doc q row
  rw [h]
  exact ⟨rfl, rfl, rfl, rfl, rfl⟩

theorem Shifted.trans {ed' ed'' : Editor} {row row' : Int} (h : ed.Shifted ed' row)
    (h' : ed'.Shifted ed'' row') : ed.Shifted ed'' row' :=
  ⟨h'.row, h'.col.trans h.col, h'.selActive.trans h.selActive,
    h'.selAnchorRow.trans h.selAnchorRow, h'.selAnchorCol.trans h.selAnchorCol⟩

theorem updateRows_eq {a z : List (List UInt8)} {b : List (Option (List UInt8))}
    {new : List (List UInt8)} {row : Int}
    (holds : ed.doc.Rows (Line.Stores T) (a.map some ++ b ++ z.map some))
    (ample : ed.doc.heap.Ample) (hb : b.length = new.length) (hrow : row = a.length) :
    ∃ ed', ed.updateRows row new = some ed' ∧ ed'.doc.Holds T (a ++ new ++ z) ∧
      ed'.doc.heap.Ample ∧ ed.Shifted ed' ed.cursorRow := by
  induction new generalizing ed a b row with
  | nil =>
    obtain rfl := List.eq_nil_of_length_eq_zero hb
    refine ⟨ed, rfl, ?_, ample, rfl, rfl, rfl, rfl, rfl⟩
    rw [List.append_nil, ← List.map_append] at holds
    rw [List.append_nil]
    exact (Doc.rows_map (R := Line.Stores T) (f := some)).1 holds
  | cons x new ih =>
    obtain ⟨y, b, rfl⟩ := List.exists_cons_of_length_pos (show 0 < b.length by simp at hb; omega)
    have hlive (ln : Line) (hln : ln.Stores T y) : ∃ w, ln.Shows False w :=
      ⟨_, hln.shows.imp (fun hh => hh.mono nofun) id⟩
    have holds' : ed.doc.Rows (Line.Stores T) (a.map some ++ y :: (b ++ z.map some)) := by
      simpa using holds
    have hnew (ln : Line) (hln : ln.Holds True x) : ln.Stores T (some x) :=
      hln.mono fun _ => trivial
    have hrow' : row = (a.map some).length := by simpa using hrow
    have htext : Block.slice x 0 x.length = some x := Block.slice_prefix (z := []) (by simp) rfl
    obtain ⟨doc, hupd, hdoc, ample'⟩ := remoteUpdateLine_rows holds' ample hlive hnew hrow' rfl htext
    obtain ⟨hdoc₁, hshift₁⟩ := Shifted.clampScroll ed doc ed.cursorRow
    generalize { ed with doc }.clampScroll = ed₁ at hupd hdoc₁ hshift₁
    subst hdoc₁
    have hdoc' : ed₁.doc.Rows (Line.Stores T) ((a ++ [x]).map some ++ b ++ z.map some) := by
      simpa using hdoc
    have hnext : row + 1 = ((a ++ [x]).length : Int) := by simp [hrow]
    obtain ⟨ed', hrun, hholds, ample'', hshift⟩ := ih hdoc' ample' (by simpa using hb) hnext
    rw [hshift₁.row] at hshift
    exact ⟨ed', by simp [updateRows, hupd, hrun], by simpa using hholds, ample'',
      hshift₁.trans hshift⟩

/-- Rows out of range are ignored. -/
theorem updateRows_out {row : Int} (h : ed.doc.rowCount ≤ row) (new : List (List UInt8)) :
    ed.updateRows row new = some ed := by
  induction new generalizing row with
  | nil => rfl
  | cons x new ih =>
    simp only [updateRows, remoteUpdateLine_out (Or.inr h), Option.bind_eq_bind,
      Option.bind_some]
    exact ih (by omega)

/-- A block in the document, above the cursor or below it. -/
theorem applyBlock_eq (h : ed.At T t p) {startRow deleted : Nat} {new : List (List UInt8)}
    (hin : startRow ≤ t.length)
    (hp : p.row < startRow ∨ startRow + min deleted (t.length - startRow) ≤ p.row) :
    ∃ ed', ed.applyRemote (.replaceBlock startRow deleted new) = some ed' ∧
      ed'.doc.Holds T (splice t startRow (min deleted (t.length - startRow)) new) ∧
      ed'.doc.heap.Ample ∧
      ed.Shifted ed' (RemoteOp.follow t q (.replaceBlock startRow deleted new) p).row := by
  have hcount := h.rowCount_eq
  generalize hd : min deleted (t.length - startRow) = d at hp ⊢
  obtain ⟨a, y, ha, hlen⟩ := exists_eq_append hin
  obtain ⟨m, z, rfl, hm⟩ := exists_eq_append (x := y) (i := d) (by
    have := congrArg List.length ha
    rw [List.length_append] at this
    omega)
  have hactual : ed.doc.actualDeleted startRow deleted = m.length := by
    simp only [Doc.actualDeleted, hcount]
    split <;> omega
  have hstored : ed.doc.Rows (Line.Stores T) (a.map some ++ m.map some ++ z.map some) := by
    rw [← List.map_append, ← List.map_append, List.append_assoc, ← ha]
    exact Doc.rows_map.2 h.holds
  have hfresh : ∀ y ∈ List.replicate new.length none, Line.zero.Stores T y :=
    fun _ hy => List.eq_of_mem_replicate hy ▸ rfl
  have hactual' : ed.doc.actualDeleted startRow deleted = (m.map some).length := by
    simpa using hactual
  have hinserted : (new.length : Int) = (List.replicate new.length
      (none : Option (List UInt8))).length := by simp
  obtain ⟨doc, hrep, hdoc, ample⟩ := remoteReplaceBlock_rows (i := startRow) hstored h.ample
    (fun _ _ hx => hx.shows.ne_dangling) hfresh (by rw [List.length_map]; omega) hactual'
    hinserted
  have hrow := RemoteOp.follow_replaceBlock (q := q) (w := new) hin (hd ▸ hp)
  rw [List.length_map, h.row, ← hm, ← hd, hrow] at hrep
  obtain ⟨hdoc₁, hshift₁⟩ := Shifted.clampScroll ed doc
    (RemoteOp.follow t q (.replaceBlock startRow deleted new) p).row
  generalize Editor.clampScroll _ = ed₁ at hrep hdoc₁ hshift₁
  subst hdoc₁
  have hblock : (List.replicate new.length (none : Option (List UInt8))).length = new.length :=
    by simp
  have hstart : (startRow : Int) = a.length := by omega
  obtain ⟨ed', hrun, hholds, ample', hshift⟩ := updateRows_eq hdoc ample hblock hstart
  rw [hshift₁.row] at hshift
  refine ⟨ed', by simp [applyRemote, hrep, hrun], ?_, ample', hshift₁.trans hshift⟩
  rw [ha, ← List.append_assoc, splice_append hlen hm]
  exact hholds

/-- An operation away from the cursor. -/
theorem applyRemote_eq (h : ed.At T t p) (hq : ed.PeerAt T t q) (op : RemoteOp)
    (hp : p.row < (op.stretch t q).first ∨
      (op.stretch t q).first + (op.stretch t q).old ≤ p.row) :
    ∃ ed', ed.applyRemote op = some ed' ∧ ed'.At T (op.text t q) (op.follow t q p) ∧
      ed.Shifted ed' (op.follow t q p).row := by
  obtain ⟨w, hw, htext, hle⟩ := op.text_eq hq.valid
  have hvalid : Text.Valid (op.text t q) (op.follow t q p) := by
    rw [htext, RemoteOp.follow, ← hw]
    exact h.valid.splice hle hp
  suffices ∃ ed', ed.applyRemote op = some ed' ∧ ed'.doc.Holds T (op.text t q) ∧
      ed'.doc.heap.Ample ∧ ed.Shifted ed' (op.follow t q p).row by
    obtain ⟨ed', happly, holds, ample, hshift⟩ := this
    exact ⟨ed', happly, ⟨holds, ample, hshift.row, hshift.col.trans h.col, hvalid⟩, hshift⟩
  have hcount := h.rowCount_eq
  cases op with
  | insertChar c =>
    obtain ⟨doc, hins, hat⟩ := hq.remoteInsertChar c
    refine ⟨_, by simp only [applyRemote, hins]; rfl, hat.holds, hat.ample, ?_⟩
    rw [← RemoteOp.follow_insertChar c hp, ← h.row]
    exact .remoteGoto ed doc _ _
  | deleteChar =>
    obtain ⟨doc, hdel, hat⟩ := hq.remoteDeleteChar
    refine ⟨_, by simp only [applyRemote, hdel]; rfl, hat.holds, hat.ample, ?_⟩
    rw [← RemoteOp.follow_deleteChar hp, ← h.row]
    exact .remoteGoto ed doc _ _
  | replaceBlock startRow deleted new =>
    by_cases hout : t.length < startRow
    · -- the block and all its rows are ignored
      have hrep : ed.remoteReplaceBlock startRow deleted new.length = some (.ok, ed) :=
        remoteReplaceBlock_out (by omega)
      have hrows : ed.updateRows startRow new = some ed := updateRows_out (by omega) new
      have hstretch : RemoteOp.stretch t q (.replaceBlock startRow deleted new) = ⟨0, 0, 0⟩ :=
        if_pos hout
      have htext' : RemoteOp.text t q (.replaceBlock startRow deleted new) = t := if_pos hout
      have hrow : (RemoteOp.follow t q (.replaceBlock startRow deleted new) p).row = p.row := by
        rw [RemoteOp.follow, hstretch, Text.moveRow_ge (Nat.zero_le _)]
        rfl
      rw [htext', hrow]
      exact ⟨ed, by simp [applyRemote, hrep, hrows], h.holds, h.ample, h.row, rfl, rfl, rfl, rfl⟩
    · have hin : startRow ≤ t.length := by omega
      have hstretch : RemoteOp.stretch t q (.replaceBlock startRow deleted new) =
          ⟨startRow, min deleted (t.length - startRow), new.length⟩ := if_neg hout
      have htext' : RemoteOp.text t q (.replaceBlock startRow deleted new) =
          splice t startRow (min deleted (t.length - startRow)) new := if_neg hout
      rw [hstretch] at hp
      rw [htext']
      exact applyBlock_eq h hin hp

end Apply

/-! ## The selection -/

/-- The editor copies the text `x`, and deletes it. -/
def Takes (ed : Editor) (x : List UInt8) : Prop :=
  (∃ ed', ed.copySelection = some ed' ∧ ed'.clipboard = some (x ++ [0])) ∧
    ∃ ed' t b e, ed.deleteSelection = some (.ok, ed') ∧ ed.doc.text = some t ∧
      Text.copy newline t b e = x ∧ ed'.doc.text = some (Text.deleteRange t b e)

/-- Anchor and cursor are positions of the document. -/
def EndsValid (ed : Editor) : Prop :=
  ∃ t s p, ed.doc.text = some t ∧ ed.selAnchorRow = (s : Pos).row ∧ ed.selAnchorCol = s.col ∧
    ed.cursorRow = (p : Pos).row ∧ ed.cursorCol = p.col ∧ Text.Valid t s ∧ Text.Valid t p

/-- From `ed` to `ed'` the selection has kept its text, and its ends are valid. -/
def KeepsSelection (ed ed' : Editor) : Prop :=
  ed'.EndsValid ∧ ∃ x, ed.Takes x ∧ ed'.Takes x

section Selection

variable {T : Prop} {ed : Editor} {t : List (List UInt8)} {p q s : Pos}

/-- What is copied and deleted is the text between anchor and cursor. -/
theorem At.takes_iff (h : ed.At T t p) (hs : ed.Selected t s) (x : List UInt8) :
    ed.Takes x ↔ x = Text.between newline t s p := by
  obtain ⟨b, e, hrange, hbe, -, -, hends⟩ := hs.range h
  have hbetween : Text.copy newline t b e = Text.between newline t s p := by
    rw [← Text.between_before hbe]
    rcases hends with ⟨rfl, rfl⟩ | ⟨rfl, rfl⟩
    · rfl
    · exact Text.between_comm _ _ _ _
  have hsame {b' e' : Pos} (h' : ed.selGetRange = (↑b'.row, ↑b'.col, ↑e'.row, ↑e'.col)) :
      b' = b ∧ e' = e := by
    rw [hrange] at h'
    simp only [Prod.mk.injEq, Int.natCast_inj] at h'
    obtain ⟨h1, h2, h3, h4⟩ := h'
    exact ⟨by cases b; cases b'; simp_all, by cases e; cases e'; simp_all⟩
  obtain ⟨b₁, e₁, heap, hrange₁, -, hcopy⟩ := h.copySelection hs
  obtain ⟨rfl, rfl⟩ := hsame hrange₁
  obtain ⟨b₂, e₂, doc, hrange₂, -, -, hdel, hat⟩ := h.deleteSelection hs
  obtain ⟨rfl, rfl⟩ := hsame hrange₂
  rw [← hbetween]
  constructor
  · rintro ⟨⟨ed', hed', hclip⟩, -⟩
    rw [hcopy] at hed'
    obtain rfl := Option.some.inj hed'
    exact (List.append_cancel_right (Option.some.inj hclip)).symm
  · rintro rfl
    exact ⟨⟨_, hcopy, rfl⟩, _, t, _, _, hdel, h.holds.shows.text_eq, rfl, hat.holds.shows.text_eq⟩

theorem At.endsValid_iff (h : ed.At T t p) (hrow : ed.selAnchorRow = s.row)
    (hcol : ed.selAnchorCol = s.col) : ed.EndsValid ↔ Text.Valid t s := by
  constructor
  · rintro ⟨t', s', p', htext, hrow', hcol', -, -, hvalid, -⟩
    rw [h.holds.shows.text_eq] at htext
    obtain rfl := Option.some.inj htext
    obtain rfl : s' = s := by
      cases s
      cases s'
      simp only at hrow hrow' hcol hcol'
      congr 1 <;> omega
    exact hvalid
  · intro hvalid
    exact ⟨t, s, p, h.holds.shows.text_eq, hrow, hcol, h.row, h.col, hvalid, h.valid⟩

/-- The anchor, left where it was, bounds the selected text by chance. -/
def Coincides (t t' : List (List UInt8)) (s p p' : Pos) : Prop :=
  Text.Valid t' s ∧ Text.between newline t' s p' = Text.between newline t s p

/-- Away from the selection it is the text that decides. -/
theorem applyRemote_keeps_iff (h : ed.At T t p) (hs : ed.Selected t s) (hq : ed.PeerAt T t q)
    {op : RemoteOp} (helse : op.Below t q s p ∨ op.Above t q s p) :
    ∃ ed', ed.applyRemote op = some ed' ∧
      (ed.KeepsSelection ed' ↔ Coincides t (op.text t q) s p (op.follow t q p)) := by
  obtain ⟨ed', happly, hat, hshift⟩ := applyRemote_eq h hq op (helse.imp And.right And.right)
  refine ⟨ed', happly, ?_⟩
  have hrow := hshift.selAnchorRow.trans hs.row
  have hcol := hshift.selAnchorCol.trans hs.col
  unfold KeepsSelection Coincides
  rw [hat.endsValid_iff hrow hcol]
  refine and_congr_right fun hvalid => ?_
  have hs' : ed'.Selected (op.text t q) s := ⟨hshift.selActive.trans hs.active, hrow, hcol, hvalid⟩
  simp only [h.takes_iff hs, hat.takes_iff hs']
  exact ⟨fun ⟨_, hx, hx'⟩ => hx'.symm.trans hx, fun heq => ⟨_, rfl, heq.symm⟩⟩

/-- Rows that keep their number keep the text of the selection. -/
theorem coincides_of_stay (hs : Text.Valid t s) (hq : Text.Valid t q) {op : RemoteOp}
    (hmove : ∀ r, min s.row p.row ≤ r → r ≤ max s.row p.row →
      (r < (op.stretch t q).first ∨ (op.stretch t q).first + (op.stretch t q).old ≤ r) ∧
        Text.moveRow (op.stretch t q).first (op.stretch t q).old (op.stretch t q).new r = r) :
    Coincides t (op.text t q) s p (op.follow t q p) := by
  obtain ⟨w, hw, htext, hle⟩ := op.text_eq hq
  rw [← hw] at hmove
  have hfollow : op.follow t q p = p := by
    rw [RemoteOp.follow, ← hw, (hmove p.row (by omega) (by omega)).2]
  rw [hfollow, htext]
  refine ⟨?_, Text.between_congr newline fun r hlo hhi => ?_⟩
  · obtain ⟨hout, hsame⟩ := hmove s.row (by omega) (by omega)
    have := hs.splice (w := w) hle hout
    rwa [hsame] at this
  · obtain ⟨hout, hsame⟩ := hmove r hlo hhi
    have := Text.row_splice (w := w) hle hout
    rwa [hsame] at this

/-- Below the selection, or without a shift, the rows of the selection keep their number. -/
theorem coincides_of_below_or_level (hs : Text.Valid t s) (hq : Text.Valid t q) {op : RemoteOp}
    (helse : op.Below t q s p ∨ op.Above t q s p) (hstay : op.Below t q s p ∨ op.Level t q) :
    Coincides t (op.text t q) s p (op.follow t q p) := by
  refine coincides_of_stay hs hq fun r hlo hhi => ?_
  have hbelow (h : op.Below t q s p) : r < (op.stretch t q).first := by
    obtain ⟨hbs, hbp⟩ := h
    omega
  rcases hstay with hb | hlevel
  · exact ⟨.inl (hbelow hb), Text.moveRow_lt (hbelow hb)⟩
  · rcases helse with hb | ⟨has, hap⟩
    · exact ⟨.inl (hbelow hb), Text.moveRow_lt (hbelow hb)⟩
    · unfold RemoteOp.Level at hlevel
      exact ⟨.inr (by omega), by rw [Text.moveRow_ge (by omega)]; omega⟩

/-- Without line ends inside rows there is no coincidence, unless the cursor has
gone as far past the anchor as it was before it. -/
theorem Coincides.mirrored {t' : List (List UInt8)} {p' : Pos} (ht : Text.All (· ≠ newline) t)
    (ht' : Text.All (· ≠ newline) t') (h : Coincides t t' s p p') :
    (p'.row : Int) = p.row ∨ (p.row : Int) + p'.row = 2 * s.row := by
  have hcount := congrArg (List.count newline) h.2
  rw [Text.count_between fun x hx hmem => ht x hx newline hmem rfl,
    Text.count_between fun x hx hmem => ht' x hx newline hmem rfl] at hcount
  omega

/-- An operation of the peer in rows below or above the selected ones: the selection
keeps its text if they are below, or their number stays the same. Elsewhere the
anchor and the cursor part, and what lies between them afterwards can only be the same
text if the shift is twice the way from the cursor to the anchor: it is ±1 at Enter and
at the join of two rows. -/
theorem selection_elsewhere (h : ed.At T t p) (hs : ed.Selected t s) (hq : ed.PeerAt T t q)
    {op : RemoteOp} (helse : op.Below t q s p ∨ op.Above t q s p) :
    ∃ ed', ed.applyRemote op = some ed' ∧
      (op.Below t q s p ∨ op.Level t q → ed.KeepsSelection ed') ∧
      (Text.All (· ≠ newline) t → op.Plain → ed.KeepsSelection ed' →
        (op.Below t q s p ∨ op.Level t q) ∨
          ((op.stretch t q).new : Int) - (op.stretch t q).old = 2 * ((s.row : Int) - p.row)) := by
  obtain ⟨ed', happly, hkeeps⟩ := applyRemote_keeps_iff h hs hq helse
  refine ⟨ed', happly, fun hstay => ?_, fun ht hop hkept => ?_⟩
  · exact hkeeps.2 (coincides_of_below_or_level hs.valid hq.valid helse hstay)
  · rcases helse with hbelow | ⟨has, hap⟩
    · exact .inl (.inl hbelow)
    · have hrow : (op.follow t q p).row = p.row - (op.stretch t q).old + (op.stretch t q).new :=
        Text.moveRow_ge (by omega)
      rcases (hkeeps.1 hkept).mirrored ht (hop.text ht q) with hstays | hmirror
      · exact .inl (.inr (by unfold RemoteOp.Level; omega))
      · exact .inr (by omega)

/-- The text `t` with a selection from `s` to `p` and the peer at `q`. -/
def selecting (t : List (List UInt8)) (s p q : Pos) : Editor :=
  { static .zeros with
    doc := .ofText t .zeros
    cursorRow := p.row
    cursorCol := p.col
    selActive := true
    selAnchorRow := s.row
    selAnchorCol := s.col
    remoteCursorRow := q.row
    remoteCursorCol := q.col }

theorem selecting_at (hs : Text.Valid t s) (hp : Text.Valid t p) (hq : Text.Valid t q) :
    (selecting t s p q).At True t p ∧ (selecting t s p q).Selected t s ∧
      (selecting t s p q).PeerAt True t q :=
  ⟨⟨Doc.ofText_holds _ _ _, Heap.zeros_ample, rfl, rfl, hp⟩, ⟨rfl, rfl, rfl, hs⟩,
    ⟨Doc.ofText_holds _ _ _, Heap.zeros_ample, rfl, rfl, hq⟩⟩

/-- A character typed by the peer two rows above. -/
theorem selection_elsewhere_char : ∃ ed',
    (selecting [[], [], ['a'.toUInt8]] ⟨2, 0⟩ ⟨2, 1⟩ ⟨0, 0⟩).applyRemote
        (.insertChar 'b'.toUInt8) = some ed' ∧
      (selecting [[], [], ['a'.toUInt8]] ⟨2, 0⟩ ⟨2, 1⟩ ⟨0, 0⟩).KeepsSelection ed' := by
  obtain ⟨hat, hs, hq⟩ := selecting_at (t := [[], [], ['a'.toUInt8]]) (s := ⟨2, 0⟩) (p := ⟨2, 1⟩)
    (q := ⟨0, 0⟩) (by decide) (by decide) (by decide)
  have habove : (RemoteOp.insertChar 'b'.toUInt8).Above [[], [], ['a'.toUInt8]] ⟨0, 0⟩ ⟨2, 0⟩
      ⟨2, 1⟩ := by
    decide
  obtain ⟨ed', happly, hkeeps, -⟩ := selection_elsewhere hat hs hq (Or.inr habove)
  exact ⟨ed', happly, hkeeps (Or.inr rfl)⟩

/-- Enter typed by the peer two rows above. -/
theorem selection_elsewhere_newline : ∃ ed',
    (selecting [[], [], ['a'.toUInt8]] ⟨2, 0⟩ ⟨2, 1⟩ ⟨0, 0⟩).applyRemote
        (.insertChar newline) = some ed' ∧
      ¬ (selecting [[], [], ['a'.toUInt8]] ⟨2, 0⟩ ⟨2, 1⟩ ⟨0, 0⟩).KeepsSelection ed' := by
  obtain ⟨hat, hs, hq⟩ := selecting_at (t := [[], [], ['a'.toUInt8]]) (s := ⟨2, 0⟩) (p := ⟨2, 1⟩)
    (q := ⟨0, 0⟩) (by decide) (by decide) (by decide)
  have habove : (RemoteOp.insertChar newline).Above [[], [], ['a'.toUInt8]] ⟨0, 0⟩ ⟨2, 0⟩
      ⟨2, 1⟩ := by
    decide
  obtain ⟨ed', happly, hkeeps⟩ := applyRemote_keeps_iff hat hs hq (Or.inr habove)
  refine ⟨ed', happly, fun h => ?_⟩
  have hlost : ¬ Text.between newline (Text.insert newline [[], [], ['a'.toUInt8]] ⟨0, 0⟩ newline)
      ⟨2, 0⟩ ⟨3, 1⟩ = Text.between newline [[], [], ['a'.toUInt8]] ⟨2, 0⟩ ⟨2, 1⟩ := by
    decide
  exact hlost (hkeeps.1 h).2

end Selection

end Editor

end LCode
