import LCode.Editor.Verify.Atomic
import LCode.Editor.Verify.Flat
import LCode.Editor.Verify.Granted
import LCode.Editor.Verify.Selection

/-!
# Local edits and the remote cursor

The edits of the peer take the local cursor along with its row; the local edits leave
the remote cursor at its row and column, whatever happens to the rows above it. It is
still on its character if it stands before the edit, or if the edit neither takes away
nor puts in a line end.
-/

namespace LCode

/-! ## What a local edit replaces -/

namespace Editor

/-- The start of the selection. -/
def selFirst (ed : Editor) : Pos := ⟨ed.selGetRange.1.toNat, ed.selGetRange.2.1.toNat⟩

/-- The end of the selection. -/
def selLast (ed : Editor) : Pos := ⟨ed.selGetRange.2.2.1.toNat, ed.selGetRange.2.2.2.toNat⟩

end Editor

namespace LocalEdit

/-- The position from which an edit at `p` replaces the text. -/
def first (ed : Editor) (t : List (List UInt8)) (p : Pos) : LocalEdit → Pos
  | deleteChar => Text.left t p
  | deleteSelection => if ed.selActive then ed.selFirst else p
  | _ => p

/-- The position up to which it does. -/
def last (ed : Editor) (p : Pos) : LocalEdit → Pos
  | deleteSelection => if ed.selActive then ed.selLast else p
  | _ => p

/-- What it puts in. -/
def new (ed : Editor) : LocalEdit → List UInt8
  | insertChar c => [c]
  | paste => (ed.clipboard.getD []).takeWhile (· ≠ 0)
  | _ => []

/-- The edit of the string that it is. -/
def stretch (ed : Editor) (t : List (List UInt8)) (p : Pos) (op : LocalEdit) : Stretch UInt8 :=
  ⟨Text.offset t (op.first ed t p), Text.offset t (op.last ed p), op.new ed⟩

theorem run_granted (ed : Editor) (op : LocalEdit) :
    Lifts (·.1 ≠ .errAllocFailed) (fun r => (r.1, r.2.granted)) (op.run ed) (op.run ed.granted) := by
  cases op with
  | insertChar c => exact ed.insertChar_granted c
  | deleteChar => exact ed.deleteChar_granted
  | deleteSelection => exact ed.deleteSelection_granted
  | paste => exact ed.paste_granted

section Granted

variable (ed : Editor) (t : List (List UInt8)) (p : Pos) (op : LocalEdit)

theorem first_granted : op.first ed.granted t p = op.first ed t p := by
  cases op <;> rfl

theorem last_granted : op.last ed.granted p = op.last ed p := by
  cases op <;> rfl

theorem new_granted : op.new ed.granted = op.new ed := by
  cases op <;> rfl

theorem stretch_granted : op.stretch ed.granted t p = op.stretch ed t p := by
  rw [stretch, first_granted, last_granted, new_granted]
  rfl

end Granted

section Run

variable {ed : Editor} {t : List (List UInt8)} {p q : Pos}

theorem selFirst_eq {b e : Pos} (h : ed.selGetRange = (↑b.row, ↑b.col, ↑e.row, ↑e.col)) :
    ed.selFirst = b ∧ ed.selLast = e := by
  rw [Editor.selFirst, Editor.selLast, h]
  exact ⟨rfl, rfl⟩

/-- The ends of the replaced range, and which of them is the cursor. -/
theorem range_valid (h : ed.At True t p)
    (hsel : ed.selActive = true → ∃ s, ed.Selected t s) (op : LocalEdit) :
    Text.Valid t (op.first ed t p) ∧ Text.Valid t (op.last ed p) ∧
      Text.before (op.first ed t p) (op.last ed p) ∧
      ((op.new ed = [] ∧ (op.first ed t p = p ∨ op.last ed p = p)) ∨
        (op.first ed t p = p ∧ op.last ed p = p)) := by
  have hself : Text.before p p := Or.inr ⟨rfl, Nat.le_refl _⟩
  cases op with
  | insertChar c => exact ⟨h.valid, h.valid, hself, Or.inr ⟨rfl, rfl⟩⟩
  | deleteChar =>
    exact ⟨h.valid.left, h.valid, Text.before_left t p, Or.inl ⟨rfl, Or.inr rfl⟩⟩
  | deleteSelection =>
    by_cases hactive : ed.selActive = true
    · obtain ⟨s, hs⟩ := hsel hactive
      obtain ⟨b, e, hrange, hbe, hb, he, hends⟩ := hs.range h
      obtain ⟨hfirst, hlast⟩ := selFirst_eq hrange
      simp only [first, last, hactive, if_true, hfirst, hlast]
      exact ⟨hb, he, hbe, Or.inl ⟨rfl, hends.symm.imp And.left And.right⟩⟩
    · simp only [first, last, hactive]
      exact ⟨h.valid, h.valid, hself, Or.inl ⟨rfl, Or.inl rfl⟩⟩
  | paste => exact ⟨h.valid, h.valid, hself, Or.inr ⟨rfl, rfl⟩⟩

/-- The edit replaces the range, and leaves the remote cursor where it was. -/
theorem run_replaces (h : ed.At True t p) (hsel : ed.selActive = true → ∃ s, ed.Selected t s)
    (hclip : ∀ clip, ed.clipboard = some clip → 0 ∈ clip) (op : LocalEdit) :
    ∃ res ed', op.run ed = some (res, ed') ∧ res ≠ .errAllocFailed ∧
      ed'.doc.Holds True
        (Text.replaceRange newline t (op.first ed t p) (op.last ed p) (op.new ed)) ∧
      ed'.remoteCursorRow = ed.remoteCursorRow ∧ ed'.remoteCursorCol = ed.remoteCursorCol := by
  have hstay : Text.replaceRange newline t p p [] = t := by
    rw [Text.replaceRange, Text.deleteRange_self h.valid, Text.paste_nil newline h.valid]
  cases op with
  | insertChar c =>
    obtain ⟨doc, hrun, hat⟩ := h.insertChar c
    refine ⟨.ok, _, hrun, by decide, ?_, by simp, by simp⟩
    simp only [first, last, new, Text.replaceRange, Text.deleteRange_self h.valid]
    rw [Text.paste_cons newline h.valid, Text.paste_nil newline (h.valid.insert newline c)]
    exact hat.holds
  | deleteChar =>
    obtain ⟨doc, hrun, hat⟩ := h.deleteChar
    refine ⟨.ok, _, hrun, by decide, ?_, by simp, by simp⟩
    have hvalid := h.valid.left.deleteRange h.valid (Text.before_left t p)
    simp only [first, last, new, Text.replaceRange]
    rw [Text.paste_nil newline hvalid, ← Text.backspace_eq_deleteRange h.valid]
    exact hat.holds
  | deleteSelection =>
    by_cases hactive : ed.selActive = true
    · obtain ⟨s, hs⟩ := hsel hactive
      obtain ⟨b, e, doc, hrange, hbe, he, hrun, hat⟩ := h.deleteSelection hs
      obtain ⟨hfirst, hlast⟩ := selFirst_eq hrange
      refine ⟨.ok, _, hrun, by decide, ?_, by simp [Editor.unselected], by simp [Editor.unselected]⟩
      simp only [first, last, new, hactive, if_true, hfirst, hlast, Text.replaceRange]
      rw [Text.paste_nil newline hat.valid]
      exact hat.holds
    · refine ⟨.ok, ed, by simp [run, Editor.deleteSelection, hactive], by decide, ?_, rfl, rfl⟩
      simp only [first, last, new, hactive, Bool.false_eq_true, if_false, hstay]
      exact h.holds
  | paste =>
    cases hboard : ed.clipboard with
    | none =>
      refine ⟨.errNoClipboard, ed, by simp [run, Editor.paste, hboard], by decide, ?_, rfl, rfl⟩
      simp only [first, last, new, hboard, Option.getD_none, List.takeWhile_nil, hstay]
      exact h.holds
    | some clip =>
      obtain ⟨x, g, rfl, h0⟩ := List.eq_append_cons_of_mem (hclip clip hboard)
      obtain ⟨doc, hrun, hat⟩ := h.paste hboard h0
      refine ⟨.ok, _, hrun, by decide, ?_, by simp, by simp⟩
      simp only [first, last, new, hboard, Option.getD_some, Editor.takeWhile_terminated h0,
        Text.replaceRange, Text.deleteRange_self h.valid]
      exact hat.holds

/-- A remote cursor in another row that the range does not cover is on one side of it. -/
theorem outside (h : ed.At True t p) (hq : Text.Valid t q) (hne : q.row ≠ p.row) (op : LocalEdit)
    (hcover : op = deleteSelection → ed.selActive = true →
      Text.before q ed.selFirst ∨ Text.before ed.selLast q) :
    Text.before q (op.first ed t p) ∨ Text.before (op.last ed p) q := by
  have hsides : Text.before q p ∨ Text.before p q := (Nat.lt_or_gt_of_ne hne).imp Or.inl Or.inl
  cases op with
  | insertChar c => exact hsides
  | deleteChar =>
    exact (Nat.lt_or_gt_of_ne hne).imp (Text.before_left_of_row newline hq h.valid) Or.inl
  | deleteSelection =>
    by_cases hactive : ed.selActive = true
    · simp only [first, last, hactive, if_true]
      exact hcover rfl hactive
    · simp only [first, last, hactive]
      exact hsides
  | paste => exact hsides

end Run

end LocalEdit

namespace Editor

/-! ## The remote cursor -/

/-- The text `t`, with the remote cursor a position `q` of it. -/
structure Knows (ed : Editor) (t : List (List UInt8)) (q : Pos) : Prop where
  text : ed.doc.text = some t
  row : ed.remoteCursorRow = q.row
  col : ed.remoteCursorCol = q.col
  valid : Text.Valid t q

theorem Knows.remoteCaret {ed : Editor} {t : List (List UInt8)} {q : Pos} (h : ed.Knows t q) :
    ed.remoteCaret = some (Text.caret newline t q) := by
  rw [Editor.remoteCaret, h.text, h.row, h.col]
  rfl

/-- From `ed` to `ed'` the string has had the stretch `s` replaced, and the remote cursor,
a position of the text again, has moved by the characters that came and went before it. -/
def RemoteFollows (ed ed' : Editor) (s : Stretch UInt8) : Prop :=
  ∃ x t q, ed.remoteCaret = some x ∧ ed'.Knows t q ∧
    ed'.remoteCaret = some ⟨s.apply x.text, s.follow x.off⟩

theorem knows_granted {ed : Editor} {t : List (List UInt8)} {q : Pos} :
    ed.granted.Knows t q ↔ ed.Knows t q :=
  ⟨fun h => ⟨h.text, h.row, h.col, h.valid⟩, fun h => ⟨h.text, h.row, h.col, h.valid⟩⟩

theorem remoteFollows_granted {ed ed' : Editor} {s : Stretch UInt8} :
    ed.granted.RemoteFollows ed'.granted s ↔ ed.RemoteFollows ed' s := by
  simp only [RemoteFollows, knows_granted]
  rfl

section Follows

variable {ed ed' : Editor} {t t' : List (List UInt8)} {p q q' : Pos} {s : Stretch UInt8}

/-- The character the peer types next goes where the peer sees its cursor. -/
theorem RemoteFollows.lands (h : ed.RemoteFollows ed' s) (holds : ed'.doc.Holds True t')
    (ample : ed'.doc.heap.Ample) (c : UInt8) :
    ∃ x ed'', ed.remoteCaret = some x ∧ ed'.remoteInsertChar c = some (.ok, ed'') ∧
      ed''.remoteCaret = some (Caret.step ⟨s.apply x.text, s.follow x.off⟩ (.insert c)) := by
  obtain ⟨x, t₁, q₁, hx, hknows, hcaret⟩ := h
  obtain rfl : t' = t₁ := Option.some.inj (holds.shows.text_eq.symm.trans hknows.text)
  have hpeer : ed'.PeerAt True t' q₁ := ⟨holds, ample, hknows.row, hknows.col, hknows.valid⟩
  obtain ⟨doc, hins, hpeer'⟩ := hpeer.remoteInsertChar c
  refine ⟨x, _, hx, hins, ?_⟩
  rw [hpeer'.remoteCaret, Text.caret_insert newline hknows.valid, ← hknows.remoteCaret.symm.trans
    hcaret |> Option.some.inj]

/-- A remote cursor left at its row and column follows if these are those of the position
its character has gone to. -/
theorem remoteFollows_iff (h : ed.Knows t q) (text : ed'.doc.text = some t')
    (hrow : ed'.remoteCursorRow = ed.remoteCursorRow)
    (hcol : ed'.remoteCursorCol = ed.remoteCursorCol)
    (hflat : Text.flat newline t' = s.apply (Text.flat newline t)) (valid : Text.Valid t' q')
    (hoff : Text.offset t' q' = s.follow (Text.offset t q)) :
    ed.RemoteFollows ed' s ↔ q' = q := by
  constructor
  · rintro ⟨x, t₁, q₁, hx, hknows, hcaret⟩
    obtain rfl : t' = t₁ := Option.some.inj (text.symm.trans hknows.text)
    obtain rfl : q = q₁ := by
      have hr := (h.row.symm.trans hrow.symm).trans hknows.row
      have hc := (h.col.symm.trans hcol.symm).trans hknows.col
      exact Pos.ext (Int.ofNat.inj hr) (Int.ofNat.inj hc)
    rw [h.remoteCaret] at hx
    obtain rfl := Option.some.inj hx
    rw [hknows.remoteCaret] at hcaret
    have hsame : Text.offset t' q = s.follow (Text.offset t q) :=
      congrArg Caret.off (Option.some.inj hcaret)
    exact Text.offset_inj newline valid hknows.valid (hoff.trans hsame.symm)
  · rintro rfl
    have hknows : ed'.Knows t' q' := ⟨text, hrow.trans h.row, hcol.trans h.col, valid⟩
    refine ⟨_, t', q', h.remoteCaret, hknows, ?_⟩
    rw [hknows.remoteCaret]
    exact congrArg some (Caret.ext hflat hoff)

theorem Stands.granted_at (h : ed.Stands t p) : ed.granted.At True t p :=
  ⟨h.holds.withHeap _, Heap.granted_ample _, h.row, h.col, h.valid⟩

/-- On the heap that refuses nothing. -/
theorem At.run_follows_iff (h : ed.At True t p)
    (hsel : ed.selActive = true → ∃ s, ed.Selected t s)
    (hclip : ∀ clip, ed.clipboard = some clip → 0 ∈ clip) (hq : ed.Knows t q)
    (hne : q.row ≠ p.row) (op : LocalEdit)
    (hcover : op = .deleteSelection → ed.selActive = true →
      Text.before q ed.selFirst ∨ Text.before ed.selLast q) :
    ∃ res ed', op.run ed = some (res, ed') ∧ res ≠ .errAllocFailed ∧
      (ed.RemoteFollows ed' (op.stretch ed t p) ↔ Text.before q (op.first ed t p) ∨
        ((op.first ed t p).row = (op.last ed p).row ∧ newline ∉ op.new ed)) := by
  obtain ⟨hb, he, hbe, hends⟩ := op.range_valid h hsel
  obtain ⟨res, ed', hrun, hres, hdoc, hrow, hcol⟩ := op.run_replaces h hsel hclip
  have hout := op.outside h hq.valid hne hcover
  have hput : op.new ed = [] ∨ (op.first ed t p = op.last ed p ∧ q.row ≠ (op.first ed t p).row) := by
    rcases hends with ⟨hnew, -⟩ | ⟨hfirst, hlast⟩
    · exact Or.inl hnew
    · exact Or.inr ⟨hfirst.trans hlast.symm, by rwa [hfirst]⟩
  have hput' : (op.new ed = [] ∧ ((op.first ed t p).row = (op.last ed p).row →
      q.row ≠ (op.first ed t p).row)) ∨
      (op.first ed t p = op.last ed p ∧ q.row ≠ (op.first ed t p).row) := by
    rcases hends with ⟨hnew, hfirst | hlast⟩ | ⟨hfirst, hlast⟩
    · exact Or.inl ⟨hnew, fun _ => by rwa [hfirst]⟩
    · exact Or.inl ⟨hnew, fun hsame => by rwa [hsame, hlast]⟩
    · exact Or.inr ⟨hfirst.trans hlast.symm, by rwa [hfirst]⟩
  obtain ⟨hvalid, hoff⟩ := Text.offset_besideReplace newline hb he hbe hq.valid hout hput
  refine ⟨res, ed', hrun, hres, ?_⟩
  rw [LocalEdit.stretch, remoteFollows_iff hq hdoc.shows.text_eq hrow hcol
    (Text.flat_replaceRange newline hb he hbe _) hvalid hoff]
  exact Text.besideReplace_eq_iff newline hbe hout hput'

/-- An edit of the local user keeps the remote cursor of another row on its character if
and only if the cursor stands before what is edited, or no line end goes or comes. -/
theorem local_edit_keeps_remote_iff (h : ed.Stands t p)
    (hsel : ed.selActive = true → ∃ s, ed.Selected t s)
    (hclip : ∀ clip, ed.clipboard = some clip → 0 ∈ clip) (hq : ed.Knows t q)
    (hne : q.row ≠ p.row) (op : LocalEdit)
    (hcover : op = .deleteSelection → ed.selActive = true →
      Text.before q ed.selFirst ∨ Text.before ed.selLast q) :
    (∀ res ed', op.run ed = some (res, ed') → res ≠ .errAllocFailed →
      (ed.RemoteFollows ed' (op.stretch ed t p) ↔ Text.before q (op.first ed t p) ∨
        ((op.first ed t p).row = (op.last ed p).row ∧ newline ∉ op.new ed))) ∧
    (ed.doc.heap.Ample → ∃ res ed', op.run ed = some (res, ed') ∧ res ≠ .errAllocFailed) := by
  constructor
  · intro res ed' hrun hres
    have hsel' : ed.granted.selActive = true → ∃ s, ed.granted.Selected t s := fun hactive =>
      (hsel hactive).imp fun s hs => ⟨hs.active, hs.row, hs.col, hs.valid⟩
    obtain ⟨res₁, ed₁, hrun₁, -, hiff⟩ := h.granted_at.run_follows_iff hsel' hclip
      ⟨hq.text, hq.row, hq.col, hq.valid⟩ hne op hcover
    obtain ⟨-, rfl⟩ := Prod.mk.inj
      (Option.some.inj (hrun₁.symm.trans (op.run_granted ed _ hrun hres)))
    rwa [remoteFollows_granted, LocalEdit.stretch_granted, LocalEdit.first_granted,
      LocalEdit.last_granted, LocalEdit.new_granted] at hiff
  · intro ample
    obtain ⟨res, ed', hrun, hres, -⟩ := At.run_follows_iff
      ⟨h.holds, ample, h.row, h.col, h.valid⟩ hsel hclip hq hne op hcover
    exact ⟨res, ed', hrun, hres⟩

/-- A character typed in the row above. -/
theorem local_edit_keeps_remote_char : ∃ ed',
    (LocalEdit.insertChar 'x'.toUInt8).run
      (standing [['a'.toUInt8], ['b'.toUInt8]] ⟨0, 0⟩ ⟨1, 0⟩ none) = some (.ok, ed') ∧
    (standing [['a'.toUInt8], ['b'.toUInt8]] ⟨0, 0⟩ ⟨1, 0⟩ none).RemoteFollows ed'
      ⟨0, 0, ['x'.toUInt8]⟩ := by
  have hstands := standing_stands (t := [['a'.toUInt8], ['b'.toUInt8]]) (p := ⟨0, 0⟩) (by decide)
    ⟨1, 0⟩ none
  obtain ⟨hiff, -⟩ := local_edit_keeps_remote_iff (q := ⟨1, 0⟩) hstands
    (fun hactive => by nomatch hactive) (fun clip hclip => by nomatch hclip)
    ⟨hstands.holds.shows.text_eq, rfl, rfl, by decide⟩ (by decide) (.insertChar 'x'.toUInt8)
    (fun hop => by nomatch hop)
  obtain ⟨doc, hrun, -⟩ := (standing_at hstands.valid ⟨1, 0⟩ none).insertChar 'x'.toUInt8
  exact ⟨_, hrun, (hiff _ _ hrun nofun).2 (Or.inr ⟨rfl, by decide⟩)⟩

/-- Enter in the first of two rows: the remote cursor at the start of the second stays in
row 1, which is the new row. -/
theorem newline_leaves_remote : ∃ ed',
    (LocalEdit.insertChar newline).run
      (standing [['a'.toUInt8], ['b'.toUInt8]] ⟨0, 0⟩ ⟨1, 0⟩ none) = some (.ok, ed') ∧
    ed'.remoteCaret = some ⟨[newline, 'a'.toUInt8, newline, 'b'.toUInt8], 1⟩ ∧
    (standing [['a'.toUInt8], ['b'.toUInt8]] ⟨0, 0⟩ ⟨1, 0⟩ none).remoteCaret =
      some ⟨['a'.toUInt8, newline, 'b'.toUInt8], 2⟩ ∧
    ¬ (standing [['a'.toUInt8], ['b'.toUInt8]] ⟨0, 0⟩ ⟨1, 0⟩ none).RemoteFollows ed'
      ⟨0, 0, [newline]⟩ := by
  have hrun : ((LocalEdit.insertChar newline).run
      (standing [['a'.toUInt8], ['b'.toUInt8]] ⟨0, 0⟩ ⟨1, 0⟩ none)).bind
        (fun r => return decide (r.1 = .ok ∧
          r.2.remoteCaret = some ⟨[newline, 'a'.toUInt8, newline, 'b'.toUInt8], 1⟩)) =
      some true := by
    decide +kernel
  have hold : (standing [['a'.toUInt8], ['b'.toUInt8]] ⟨0, 0⟩ ⟨1, 0⟩ none).remoteCaret =
      some ⟨['a'.toUInt8, newline, 'b'.toUInt8], 2⟩ := by
    decide +kernel
  obtain ⟨⟨res, ed'⟩, hrun, hreturn⟩ := Option.bind_eq_some_iff.mp hrun
  obtain ⟨rfl, hnew⟩ := of_decide_eq_true (Option.some.inj hreturn)
  refine ⟨ed', hrun, hnew, hold, ?_⟩
  rintro ⟨x, t, q, hx, -, hcaret⟩
  obtain rfl := Option.some.inj (hold.symm.trans hx)
  -- the caret is at 1, the character it was on at 3
  have hoff := congrArg Caret.off (Option.some.inj (hnew.symm.trans hcaret))
  exact absurd hoff (by decide)

end Follows

end Editor

end LCode
