import LCode.Editor.Verify.Cursor
import LCode.Lib.Sat

/-!
# Edits that get their memory

An edit asks for memory at a few places and gives up where it is refused. One that does
not report a failure was refused nothing: it does what it does on the heap that refuses
nothing at all.
-/

namespace LCode

/-- The heap that also grants what `h` refuses. -/
def Heap.granted (h : Heap) : Heap := ⟨fun k => some ((h.outcome k).getD fun _ => 0)⟩

theorem Heap.granted_ample (h : Heap) : h.granted.Ample := fun _ => rfl

namespace Doc

def granted (d : Doc) : Doc := { d with heap := d.heap.granted }

@[simp] theorem granted_line (d : Doc) (row : Int) : d.granted.line row = d.line row := rfl

@[simp] theorem granted_rowCount (d : Doc) : d.granted.rowCount = d.rowCount := rfl

/-! ## Steps that ask for nothing -/

/-- What is done to the line array alone. -/
theorem onLines_granted (d : Doc) (f : List Line → Option (List Line)) :
    (d.lines.bind fun ls => (f ls).bind fun ls' => some { d.granted with lines := some ls' }) =
      (d.lines.bind fun ls => (f ls).bind fun ls' => some { d with lines := some ls' }).map
        granted := by
  cases d.lines with
  | none => rfl
  | some ls =>
    simp only [Option.bind_some]
    cases f ls with
    | none => rfl
    | some ls' => rfl

theorem setLine_granted (d : Doc) (row : Int) (ln : Line) :
    d.granted.setLine row ln = (d.setLine row ln).map granted :=
  onLines_granted d fun ls => Block.store ls row [ln]

theorem moveLines_granted (d : Doc) (dst src n : Int) :
    d.granted.moveLines dst src n = (d.moveLines dst src n).map granted :=
  onLines_granted d fun ls => Block.move ls dst src n

theorem zeroLines_granted (d : Doc) (row : Int) (n : Nat) :
    d.granted.zeroLines row n = (d.zeroLines row n).map granted :=
  onLines_granted d fun ls => Block.store ls row (List.replicate n Line.zero)

theorem freeLines_granted (d : Doc) (row : Int) (n : Nat) :
    d.granted.freeLines row n = (d.freeLines row n).map granted := by
  induction n generalizing d row with
  | zero => rfl
  | succ n ih =>
    simp only [freeLines, granted_line, setLine_granted, Option.bind_eq_bind, Option.map_bind,
      Option.bind_map, Function.comp_def, ih]

theorem deleteInLine_granted (d : Doc) (row col : Int) :
    d.granted.deleteInLine row col = (d.deleteInLine row col).map granted := by
  simp only [deleteInLine, granted_line, setLine_granted, Option.bind_eq_bind, Option.map_bind,
    Function.comp_def]

theorem deleteSpan_granted (d : Doc) (row startCol endCol : Int) :
    d.granted.deleteSpan row startCol endCol = (d.deleteSpan row startCol endCol).map granted := by
  simp only [deleteSpan, granted_line, setLine_granted, Option.bind_eq_bind, Option.map_bind,
    Function.comp_def]

/-! ## Steps that ask for memory -/

theorem ensureCap_granted (ln : Line) (needed : Int) (heap : Heap) :
    Lifts (·.1 = true) (fun r => (r.1, r.2.1, r.2.2.granted)) (ln.ensureCap needed heap)
      (ln.ensureCap needed heap.granted) := by
  unfold Line.ensureCap
  refine .ite .some ?_
  simp only [Heap.malloc, Heap.granted]
  cases heap.outcome 0 with
  | none => exact .of_bad (by simp)
  | some junk =>
    refine .ite ?_ ?_
    · exact .read fun _ => .read fun _ => .read fun _ => .some
    · exact .read fun _ => .read fun _ => .some

theorem lineEnsureCap_granted (d : Doc) (row needed : Int) :
    Lifts (·.1 = true) (fun r => (r.1, r.2.granted)) (d.lineEnsureCap row needed)
      (d.granted.lineEnsureCap row needed) := by
  refine .read fun ln => .bind (ensureCap_granted ln needed d.heap) (fun r hr => ?_) fun r hr => ?_
  · exact .step (setLine_granted d row r.2.1) fun d' => .some
  · exact Sat.of_bind fun _ => .some hr

theorem linesEnsureCap_granted (d : Doc) (needed : Int) :
    Lifts (·.1 = true) (fun r => (r.1, r.2.granted)) (d.linesEnsureCap needed)
      (d.granted.linesEnsureCap needed) := by
  unfold linesEnsureCap
  refine .ite .some ?_
  simp only [granted, Heap.granted]
  cases d.heap.outcome 0 with
  | none => exact .of_bad (by simp)
  | some junk =>
    simp only
    cases d.lines with
    | none => exact .some
    | some lines => exact .read fun _ => .read fun _ => .some

/-! ## Edits -/

section Edits

/-- A refused call is reported, and what comes after a granted one lifts. -/
theorem lifts_of_cap {ρ : Type} {g : EditorResult × ρ → EditorResult × ρ}
    {x y : Option (Bool × Doc)} {f f' : Bool × Doc → Option (EditorResult × ρ)}
    (hx : Lifts (·.1 = true) (fun r => (r.1, r.2.granted)) x y)
    (hbad : ∀ d, ∃ a, f (false, d) = some (.errAllocFailed, a))
    (hf : ∀ d, Lifts (·.1 ≠ .errAllocFailed) g (f (true, d)) (f' (true, d.granted))) :
    Lifts (·.1 ≠ .errAllocFailed) g (x.bind f) (y.bind f') := by
  refine hx.bind (fun r hr => ?_) fun r hr => ?_
  · obtain ⟨ok, d⟩ := r
    obtain rfl : ok = true := hr
    exact hf d
  · obtain ⟨ok, d⟩ := r
    obtain rfl : ok = false := by simpa using hr
    obtain ⟨a, ha⟩ := hbad d
    intro b hb hne
    exact hne (Option.some.inj (ha.symm.trans hb) ▸ rfl)

theorem insertInLine_granted (d : Doc) (row col : Int) (c : UInt8) :
    Lifts (·.1 ≠ .errAllocFailed) (fun r => (r.1, r.2.granted)) (d.insertInLine row col c)
      (d.granted.insertInLine row col c) := by
  refine .read fun ln => ?_
  refine lifts_of_cap (lineEnsureCap_granted d row _) (fun _ => ⟨_, rfl⟩) fun d => ?_
  refine .read fun ln => .read fun buf => .read fun buf => ?_
  exact .step (setLine_granted d row _) fun d => .some

theorem splitLine_granted (d : Doc) (row col : Int) :
    Lifts (·.1 ≠ .errAllocFailed) (fun r => (r.1, r.2.granted)) (d.splitLine row col)
      (d.granted.splitLine row col) := by
  refine lifts_of_cap (linesEnsureCap_granted d _) (fun _ => ⟨_, rfl⟩) fun d => ?_
  refine .step (moveLines_granted d _ _ _) fun d => .read fun ln => ?_
  refine .step (setLine_granted d _ _) fun d => ?_
  refine lifts_of_cap (lineEnsureCap_granted d _ _) (fun _ => ⟨_, rfl⟩) fun d => ?_
  refine .read fun nl => .read fun ln => .read fun x => .read fun buf => .read fun buf => ?_
  refine .step (setLine_granted d _ _) fun d => .read fun ln => .read fun buf => ?_
  exact .step (setLine_granted d _ _) fun d => .some

theorem joinLine_granted (d : Doc) (row : Int) :
    Lifts (·.1 ≠ .errAllocFailed) (fun r => (r.1, r.2.granted)) (d.joinLine row)
      (d.granted.joinLine row) := by
  refine .read fun prev => .read fun ln => ?_
  refine lifts_of_cap (lineEnsureCap_granted d _ _) (fun _ => ⟨_, rfl⟩) fun d => ?_
  refine .read fun prev => .read fun ln => .read fun x => .read fun buf => ?_
  refine .step (setLine_granted d _ _) fun d => .step (freeLines_granted d _ _) fun d => ?_
  refine .step (moveLines_granted d _ _ _) fun d => ?_
  exact .step (setLine_granted d _ _) fun d => .some

theorem deleteRows_granted (d : Doc) (startRow startCol endRow endCol : Int) :
    Lifts (·.1 ≠ .errAllocFailed) (fun r => (r.1, r.2.granted))
      (d.deleteRows startRow startCol endRow endCol)
      (d.granted.deleteRows startRow startCol endRow endCol) := by
  refine .read fun last => ?_
  refine lifts_of_cap (lineEnsureCap_granted d _ _) (fun _ => ⟨_, rfl⟩) fun d => ?_
  refine .read fun first => .read fun last => .read fun x => .read fun buf => ?_
  refine .step (setLine_granted d _ _) fun d => .step (freeLines_granted d _ _) fun d => ?_
  refine .step (moveLines_granted d _ _ _) fun d => ?_
  exact .step (zeroLines_granted d _ _) fun d => .some

theorem openLine_granted (d : Doc) (row : Int) :
    Lifts (·.1 ≠ .errAllocFailed) (fun r => (r.1, r.2.granted)) (d.openLine row)
      (d.granted.openLine row) := by
  refine lifts_of_cap (linesEnsureCap_granted d _) (fun _ => ⟨_, rfl⟩) fun d => ?_
  refine .step (moveLines_granted d _ _ _) fun d => .step (setLine_granted d _ _) fun d => ?_
  exact lifts_of_cap (lineEnsureCap_granted d _ _) (fun _ => ⟨_, rfl⟩) fun d => .some

theorem appendSegment_granted (d : Doc) (row col : Int) (seg : List UInt8) :
    Lifts (·.1 ≠ .errAllocFailed) (fun r => (r.1, r.2.granted)) (d.appendSegment row col seg)
      (d.granted.appendSegment row col seg) := by
  refine lifts_of_cap (lineEnsureCap_granted d _ _) (fun _ => ⟨_, rfl⟩) fun d => ?_
  refine .read fun ln => .read fun buf => .read fun buf => ?_
  exact .step (setLine_granted d _ _) fun d => .some

/-- The result of a paste, on the heap that refuses nothing. -/
def grantedPaste (r : EditorResult × Doc × Int × Int) : EditorResult × Doc × Int × Int :=
  (r.1, r.2.1.granted, r.2.2)

/-- A round of the paste loop: a failure ends it. -/
theorem lifts_of_round {x y : Option (EditorResult × Doc)} {row col : Int}
    {f : Doc → Option (EditorResult × Doc × Int × Int)}
    (hx : Lifts (·.1 ≠ .errAllocFailed) (fun r => (r.1, r.2.granted)) x y)
    (hf : ∀ d, Lifts (·.1 ≠ .errAllocFailed) grantedPaste (f d) (f d.granted)) :
    Lifts (·.1 ≠ .errAllocFailed) grantedPaste
      (x.bind fun r => if r.1 ≠ .ok then some (r.1, r.2, row, col) else f r.2)
      (y.bind fun r => if r.1 ≠ .ok then some (r.1, r.2, row, col) else f r.2) := by
  refine hx.bind (fun r _ => .ite .some (hf r.2)) fun r hr => ?_
  have hbad : r.1 = .errAllocFailed := by simpa using hr
  rw [if_pos (by simp [hbad])]
  exact .some (fun hne => hne hbad)

theorem pasteLoop_granted (d : Doc) (row col : Int) (fuel : Nat) (p : List UInt8) :
    Lifts (·.1 ≠ .errAllocFailed) grantedPaste (d.pasteLoop row col fuel p)
      (d.granted.pasteLoop row col fuel p) := by
  induction fuel generalizing d row col p with
  | zero => exact .none
  | succ fuel ih =>
    refine .read fun c => .ite .some (.ite ?_ ?_)
    · exact lifts_of_round (f := fun d => d.pasteLoop (row + 1) 0 fuel p.tail)
        (openLine_granted d row) fun d => ih d _ _ _
    · exact lifts_of_round (f := fun d => d.pasteLoop row (col + _) fuel (p.drop _))
        (appendSegment_granted d row col _) fun d => ih d _ _ _

theorem paste_granted (d : Doc) (row col : Int) (clip : List UInt8) :
    Lifts (·.1 ≠ .errAllocFailed) grantedPaste (d.paste row col clip)
      (d.granted.paste row col clip) := by
  refine .read fun ln => ?_
  simp only [granted, Heap.granted, Heap.malloc]
  cases d.heap.outcome 0 with
  | none => exact .of_bad (by simp)
  | some junk =>
    refine .read fun x => .read fun tail => .read fun buf => ?_
    refine .step (setLine_granted { d with heap := d.heap.next } row _) fun d => ?_
    refine .bind (pasteLoop_granted d _ _ _ _) (fun r _ => .ite .some ?_) fun r hr => ?_
    · refine lifts_of_cap (lineEnsureCap_granted r.2.1 _ _) (fun _ => ⟨_, rfl⟩) fun d => ?_
      refine .read fun dest => .read fun x => .read fun buf => ?_
      exact .step (setLine_granted d _ _) fun d => .some
    · have hbad : r.1 = .errAllocFailed := by simpa using hr
      rw [if_pos (by simp [hbad])]
      exact .some (fun hne => hne hbad)

end Edits

end Doc

namespace Editor

def granted (ed : Editor) : Editor := { ed with doc := ed.doc.granted }

theorem clampScrollRow_granted (ed : Editor) :
    ed.granted.clampScrollRow = ed.clampScrollRow.granted := by
  rw [clampScrollRow, clampScrollRow, apply_ite granted, apply_ite granted]
  rfl

theorem clampScrollCol_granted (ed : Editor) :
    ed.granted.clampScrollCol = ed.clampScrollCol.granted := by
  rw [clampScrollCol, clampScrollCol, apply_ite granted, apply_ite granted]
  rfl

theorem clampScroll_granted (ed : Editor) : ed.granted.clampScroll = ed.clampScroll.granted := by
  simp only [clampScroll, clampScrollRow_granted, clampScrollCol_granted, apply_ite granted]
  rfl

/-! ## Edits of the local user -/

/-- An edit of the line array, and what is made of it. -/
theorem lifts_of_doc {ρ ρ' : Type} {x : Option (EditorResult × ρ)} {y : Option (EditorResult × ρ')}
    {k : ρ → ρ'} {f : EditorResult × ρ → Option (EditorResult × Editor)}
    {f' : EditorResult × ρ' → Option (EditorResult × Editor)}
    (hx : Lifts (·.1 ≠ .errAllocFailed) (fun r => (r.1, k r.2)) x y)
    (hbad : ∀ a, ∃ ed, f (.errAllocFailed, a) = some (.errAllocFailed, ed))
    (hf : ∀ r, r.1 ≠ .errAllocFailed →
      Lifts (·.1 ≠ .errAllocFailed) (fun r => (r.1, r.2.granted)) (f r) (f' (r.1, k r.2))) :
    Lifts (·.1 ≠ .errAllocFailed) (fun r => (r.1, r.2.granted)) (x.bind f) (y.bind f') := by
  refine hx.bind hf fun r hr => ?_
  obtain ⟨res, a⟩ := r
  obtain rfl : res = .errAllocFailed := by simpa using hr
  obtain ⟨ed, hed⟩ := hbad a
  intro b hb hne
  exact hne (Option.some.inj (hed.symm.trans hb) ▸ rfl)

theorem lifts_clampScroll (ed : Editor) :
    Lifts (·.1 ≠ .errAllocFailed) (fun r => (r.1, r.2.granted)) (some (EditorResult.ok, ed.clampScroll))
      (some (.ok, ed.granted.clampScroll)) := by
  rw [clampScroll_granted]
  exact .some

variable (ed : Editor)

theorem insertChar_granted (c : UInt8) :
    Lifts (·.1 ≠ .errAllocFailed) (fun r => (r.1, r.2.granted)) (ed.insertChar c)
      (ed.granted.insertChar c) := by
  unfold insertChar
  refine .ite ?_ ?_
  · refine lifts_of_doc (Doc.splitLine_granted _ _ _) (fun _ => ⟨_, rfl⟩) fun r _ => .ite .some ?_
    exact lifts_clampScroll { ed with doc := r.2, cursorRow := ed.cursorRow + 1, cursorCol := 0 }
  · refine lifts_of_doc (Doc.insertInLine_granted _ _ _ _) (fun _ => ⟨_, rfl⟩) fun r _ =>
      .ite .some ?_
    exact lifts_clampScroll { ed with doc := r.2, cursorCol := ed.cursorCol + 1 }

theorem deleteChar_granted :
    Lifts (·.1 ≠ .errAllocFailed) (fun r => (r.1, r.2.granted)) ed.deleteChar
      ed.granted.deleteChar := by
  unfold deleteChar
  refine .ite ?_ (.ite ?_ (lifts_clampScroll ed))
  · refine .step (Doc.deleteInLine_granted ed.doc _ _) fun doc => ?_
    exact lifts_clampScroll { ed with doc, cursorCol := ed.cursorCol - 1 }
  · refine .read fun prev => ?_
    refine lifts_of_doc (Doc.joinLine_granted _ _) (fun _ => ⟨_, rfl⟩) fun r _ => .ite .some ?_
    exact lifts_clampScroll
      { ed with doc := r.2, cursorRow := ed.cursorRow - 1, cursorCol := prev.len }

theorem deleteRange_granted (d : Doc) (startRow startCol endRow endCol : Int) :
    Lifts (·.1 ≠ .errAllocFailed) (fun r => (r.1, r.2.granted))
      (deleteRange d startRow startCol endRow endCol)
      (deleteRange d.granted startRow startCol endRow endCol) := by
  unfold deleteRange
  refine .ite ?_ (Doc.deleteRows_granted d _ _ _ _)
  exact .step (Doc.deleteSpan_granted d _ _ _) fun d => .some

theorem deleteSelection_granted :
    Lifts (·.1 ≠ .errAllocFailed) (fun r => (r.1, r.2.granted)) ed.deleteSelection
      ed.granted.deleteSelection := by
  unfold deleteSelection
  refine .ite .some ?_
  refine lifts_of_doc (deleteRange_granted ed.doc _ _ _ _) (fun _ => ⟨_, rfl⟩) fun r _ =>
    .ite .some ?_
  exact lifts_clampScroll { ed with
    doc := r.2
    cursorRow := ed.selGetRange.1
    cursorCol := ed.selGetRange.2.1
    selActive := false
    selDirty := true }

theorem paste_granted :
    Lifts (·.1 ≠ .errAllocFailed) (fun r => (r.1, r.2.granted)) ed.paste ed.granted.paste := by
  have hboard : ed.granted.clipboard = ed.clipboard := rfl
  cases hclip : ed.clipboard with
  | none =>
    rw [paste, paste, hboard, hclip]
    exact .some
  | some clip =>
    rw [paste, paste, hboard]
    simp only [hclip]
    refine lifts_of_doc (k := fun x : Doc × Int × Int => (x.1.granted, x.2))
      (Doc.paste_granted ed.doc _ _ clip) (fun _ => ⟨_, rfl⟩) fun r _ => .ite .some ?_
    exact lifts_clampScroll { ed with
      doc := r.2.1
      cursorRow := r.2.2.1
      cursorCol := r.2.2.2
      clipboard := some clip }

end Editor

end LCode
