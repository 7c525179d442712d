import LCode.Peer.Verify.Local

/-!
# Local runs keep the editor intact

From the start of the process on, every sequence of keys and mouse events is
handled and leaves the representation of the editor intact: its rows, their
buffers, the cursor, and the anchor of the selection. The editor operations do
not look after the anchor; the dispatcher deletes what is selected before every
edit, so that the anchor lies in the text whenever it counts.
-/

namespace LCode

/-! ## The representation -/

/-- A line with a terminated text in a buffer of its capacity. -/
structure Line.Intact (ln : Line) : Prop where
  live : ∃ bytes, ln.buf = .block bytes ∧ ln.cap = bytes.length
  len_nonneg : 0 ≤ ln.len
  len_lt : ln.len < ln.cap
  text : ∀ i, 0 ≤ i → i < ln.len → ∃ c, ln.buf.read i = some c ∧ c ≠ 0
  terminated : ln.buf.read ln.len = some 0

/-- The row and the column are a position of the document. -/
def Doc.Position (d : Doc) (row col : Int) : Prop :=
  0 ≤ row ∧ row < d.rowCount ∧ ∃ ln, d.line row = some ln ∧ 0 ≤ col ∧ col ≤ ln.len

/-- The representation invariant of `editor.c`. -/
structure Editor.Intact (ed : Editor) : Prop where
  rows : 1 ≤ ed.doc.rowCount
  cap : ed.doc.rowCount < ed.doc.rowCap
  line : ∀ r, 0 ≤ r → r < ed.doc.rowCount → ∃ ln, ed.doc.line r = some ln ∧ ln.Intact
  cursor : ed.doc.Position ed.cursorRow ed.cursorCol
  anchor : ed.selActive = true → ed.doc.Position ed.selAnchorRow ed.selAnchorCol

theorem Line.Holds.intact {ln : Line} {x : List UInt8} (h : ln.Holds True x) (h0 : 0 ∉ x) :
    ln.Intact := by
  obtain ⟨z, rest, hbuf, hlen, hcap, hz⟩ := h
  obtain rfl := hz trivial
  refine ⟨⟨_, hbuf, hcap⟩, by omega, ?_, ?_, ?_⟩
  · rw [hlen, hcap, List.length_append, List.length_cons]
    omega
  · intro i hi hlt
    obtain ⟨k, rfl⟩ := Int.eq_ofNat_of_zero_le hi
    have hk : k < x.length := by omega
    have hread := Line.Holds.read (T := True) ⟨0, rest, hbuf, hlen, hcap, fun _ => rfl⟩ hk
    exact ⟨x[k], hread, fun hzero => h0 (hzero ▸ List.getElem_mem hk)⟩
  · rw [hbuf]
    exact Buf.read_eq rfl hlen

section Intact

variable {T : Prop} {ed : Editor} {t : List (List UInt8)} {p : Pos}

theorem Editor.At.position (h : ed.At T t p) {q : Pos} (hq : Text.Valid t q) :
    ed.doc.Position q.row q.col := by
  obtain ⟨ln, hln, hx⟩ := h.holds.line_row hq.1
  have hcount := h.rowCount_eq
  have hrow := hq.1
  have hcol := hq.2
  exact ⟨by omega, by omega, ln, hln, by omega, by rw [hx.len_eq]; omega⟩

theorem Doc.Rows.rowCap_gt {β : Type} {R : Line → β → Prop} {d : Doc} {t : List β}
    (h : d.Rows R t) : d.rowCount < d.rowCap := by
  obtain ⟨ls, dead, heap, rfl, hne, -⟩ := h
  have := List.length_pos_iff.2 hne
  simp only [Doc.slots, List.length_append]
  omega

theorem Editor.Sound.intact (h : ed.Sound True t p) (hall : Text.All (· ≠ 0) t) : ed.Intact := by
  have hat := h.at'
  have hcount := hat.rowCount_eq
  have hpos := hat.valid.1
  refine ⟨by omega, hat.holds.rowCap_gt, ?_, ?_, ?_⟩
  · intro r hr hlt
    obtain ⟨k, rfl⟩ := Int.eq_ofNat_of_zero_le hr
    have hk : k < t.length := by omega
    obtain ⟨ln, hln, hx⟩ := hat.holds.line_row hk
    exact ⟨ln, hln, hx.intact fun h0 => hall.row k 0 h0 rfl⟩
  · rw [hat.row, hat.col]
    exact hat.position hat.valid
  · intro hactive
    obtain ⟨s, hs⟩ := h.selected hactive
    rw [hs.row, hs.col]
    exact hat.position hs.valid

end Intact

/-! ## Runs -/

/-- `proj_main_loop` reaches its loop with an empty document. -/
theorem start_good (T : Prop) (files : Files) {heap : Heap} (ample : heap.Ample)
    (name : List UInt8) :
    ∃ app, App.start files heap name = some app ∧ app.Good T [[]] ⟨0, 0⟩ := by
  have hstatic : (Editor.static heap).doc.Freeable := .inr ⟨rfl, rfl⟩
  obtain ⟨doc, hinit, hload, ample'⟩ := Editor.init_eq (R := Line.Holds T) hstatic ample
  obtain ⟨-, hdoc⟩ := hload.loadFinalize_nil (T := T)
  refine ⟨_, by simp only [App.start, App.static, hinit]; rfl, ⟨⟨hdoc, ample', rfl, rfl,
    by decide⟩, fun hactive => ?_, fun _ hclip => ?_⟩, by simp [Text.All], ?_, rfl, ?_⟩
  · cases hactive
  · cases hclip
  · exact FileTree.init_inRange rfl rfl
  · simp [Scene.updateLayout, Scene.static, Scene.editorY, Scene.fontH]

/-- After every local input the process is good again. -/
theorem run_good {T : Prop} {app : App} {t : List (List UInt8)} {p : Pos} (h : app.Good T t p)
    (inputs : List Input) :
    Yields T (app.run inputs) fun app' => ∃ t' q, app'.Good T t' q := by
  induction inputs generalizing app t p with
  | nil => exact yields ⟨t, p, h⟩
  | cons i inputs ih =>
    refine (handle_acts h i).bind fun app' hacts => ?_
    obtain ⟨t', q, h'⟩ := hacts.good
    exact ih h'

/-- From the start on, local events are handled and leave the editor intact. -/
theorem local_run_intact (files : Files) {heap : Heap} (ample : heap.Ample) (name : List UInt8) :
    ∃ app, App.start files heap name = some app ∧
      ∀ inputs, ∃ app', app.run inputs = some app' ∧ app'.editor.Intact := by
  obtain ⟨app, hstart, h⟩ := start_good True files ample name
  refine ⟨app, hstart, fun inputs => ?_⟩
  rcases run_good h inputs with ⟨app', hrun, t, p, h'⟩ | ⟨hT, -⟩
  · exact ⟨app', hrun, h'.sound.intact h'.nul⟩
  · exact absurd trivial hT

/-- Typing, selecting with Shift and typing over the selection. -/
theorem local_run_intact_typing : ∃ app app', App.start Commands.emptyDisk .zeros (ascii "a.c") = some app ∧
    app.run [.key { KeyEvent.none with c := 'x'.toUInt8 },
      .key { KeyEvent.none with dir := .left, shift := true },
      .key { KeyEvent.none with c := 'y'.toUInt8 }] = some app' ∧ app'.editor.Intact := by
  obtain ⟨app, hstart, hrun⟩ := local_run_intact Commands.emptyDisk Heap.zeros_ample (ascii "a.c")
  obtain ⟨app', hrun', hintact⟩ := hrun [.key { KeyEvent.none with c := 'x'.toUInt8 },
    .key { KeyEvent.none with dir := .left, shift := true },
    .key { KeyEvent.none with c := 'y'.toUInt8 }]
  exact ⟨app, app', hstart, hrun', hintact⟩

end LCode
