import LCode.Editor.Verify.Atomic
import LCode.Lib.Sat
import LCode.Peer.Verify.Integrity

/-!
# Keys and the selection

Ctrl+V deletes the selection before it knows whether the paste will happen, and does
not look at the result of the deletion. A paste that fails after it leaves the text
without what was selected, and the peer is not told.
-/

namespace LCode

/-! ## Deletions that use up the memory -/

theorem Line.Holds.ensureCap_granting {ln : Line} {x : List UInt8} (h : ln.Holds True x)
    (needed : Int) : ∃ j ln' η, ln.ensureCap needed (.granting j) = some (true, ln', η) ∧
      η.outcome 0 = none ∧ ln'.Holds True x ∧ needed < ln'.cap := by
  by_cases hfits : needed < ln.cap
  · exact ⟨0, ln, .granting 0, Line.ensureCap_fits hfits, Heap.granting_zero, h, hfits⟩
  · obtain ⟨ln', hcap, hx, hroom⟩ := h.grow (Heap.granting_succ 0) (Int.not_lt.1 hfits)
    exact ⟨1, ln', .granting 0, by rw [hcap, Heap.granting_next], Heap.granting_zero, hx, hroom⟩

namespace Doc

theorem openLine_reason (d : Doc) (row : Int) : Sat (·.1 ≠ .errNoClipboard) (d.openLine row) := by
  refine Sat.of_bind fun _ => Sat.ite (.some nofun) ?_
  refine Sat.of_bind fun _ => Sat.of_bind fun _ => Sat.of_bind fun _ => ?_
  exact Sat.ite (.some nofun) (.some nofun)

theorem appendSegment_reason (d : Doc) (row col : Int) (seg : List UInt8) :
    Sat (·.1 ≠ .errNoClipboard) (d.appendSegment row col seg) := by
  refine Sat.of_bind fun _ => Sat.ite (.some nofun) ?_
  refine Sat.of_bind fun _ => Sat.of_bind fun _ => Sat.of_bind fun _ => Sat.of_bind fun _ => ?_
  exact .some nofun

theorem pasteLoop_reason (fuel : Nat) (d : Doc) (row col : Int) (p : List UInt8) :
    Sat (·.1 ≠ .errNoClipboard) (d.pasteLoop row col fuel p) := by
  induction fuel generalizing d row col p with
  | zero => exact .none
  | succ fuel ih =>
    refine Sat.of_bind fun c => Sat.ite (.some nofun) (Sat.ite ?_ ?_)
    · exact Sat.bind (openLine_reason d row) fun r hr => Sat.ite (.some hr) (ih _ _ _ _)
    · exact Sat.bind (appendSegment_reason d row col _) fun r hr => Sat.ite (.some hr) (ih _ _ _ _)

theorem paste_reason (d : Doc) (row col : Int) (clip : List UInt8) :
    Sat (·.1 ≠ .errNoClipboard) (d.paste row col clip) := by
  refine Sat.of_bind fun ln => ?_
  simp only
  split
  · exact .some nofun
  · refine Sat.of_bind fun _ => Sat.of_bind fun _ => Sat.of_bind fun _ => Sat.of_bind fun _ => ?_
    refine Sat.bind (pasteLoop_reason _ _ _ _ _) fun r hr => Sat.ite (.some hr) ?_
    refine Sat.of_bind fun _ => Sat.ite (.some nofun) ?_
    refine Sat.of_bind fun _ => Sat.of_bind fun _ => Sat.of_bind fun _ => Sat.of_bind fun _ => ?_
    exact .some nofun

end Doc

namespace Editor

variable {ed : Editor} {t : List (List UInt8)} {p s b e : Pos}

/-- There is a heap with which a range is deleted and no allocation after that succeeds. -/
theorem deleteRange_exhausts {d : Doc} (h : d.Holds True t) (hb : Text.Valid t b)
    (he : Text.Valid t e) (hbe : Text.before b e) :
    ∃ heap doc, deleteRange { d with heap } b.row b.col e.row e.col = some (.ok, doc) ∧
      doc.Holds True (Text.deleteRange t b e) ∧ doc.heap.outcome 0 = none := by
  unfold deleteRange
  rcases hbe with hlt | ⟨hrow, hcol⟩
  · obtain ⟨a, u, m, mid, x, v, z, rfl, hr, hc, hr', hc'⟩ := hb.split_rows he hlt
    obtain ⟨ln, hline, hx⟩ := Doc.Rows.line_eq (r := b.row) h (by omega)
    obtain ⟨j, ln', η, hcap, hη, hx', hroom⟩ := hx.ensureCap_granting (b.col + v.length + 1)
    rw [Text.deleteRange_rows hr hc hr' hc']
    refine ⟨.granting j, ?_⟩
    rw [if_neg (by omega)]
    refine Doc.Holds.deleteRows_room (P := fun η => η.outcome 0 = none)
      (h.withHeap (.granting j)) (by omega) (by omega) (by omega) (by omega) fun ln₁ hline₁ _ => ?_
    obtain rfl : ln = ln₁ := Option.some.inj (hline.symm.trans hline₁)
    exact ⟨ln', η, hcap, hη, hx', hroom⟩
  · obtain ⟨a, u, m, v, z, rfl, hr, hc, hc'⟩ := hb.split_span he hrow.symm hcol
    rw [Text.deleteRange_span hr hc hrow.symm hc']
    obtain ⟨doc, hdel, hdoc, hheap⟩ := Doc.Holds.deleteSpan (r := b.row) (k := b.col)
      (s := e.col) (h.withHeap (.granting 0)) (by omega) (by omega) (by omega)
    refine ⟨.granting 0, doc, ?_, hdoc, hheap ▸ Heap.granting_zero⟩
    rw [if_pos (by omega), hdel]
    rfl

/-! ## What a failed paste reports -/

/-- The text of the clipboard is pasted, or memory runs out. -/
theorem paste_reason {clip : List UInt8} (h : ed.clipboard = some clip) :
    Sat (·.1 ≠ .errNoClipboard) ed.paste := by
  rw [paste, h]
  refine Sat.bind (Doc.paste_reason ed.doc _ _ clip) fun r hr => ?_
  exact Sat.ite (.some hr) (.some (by simp))

/-! ## Pasting over a selection -/

/-- What Ctrl+V does to the editor: the selection is deleted, whether or not that works,
and then the clipboard is pasted. -/
def pasteOver (ed : Editor) : Option (EditorResult × Editor) := do
  let ed ← if ed.selActive then ed.deleteSelection.map Prod.snd else some ed
  ed.paste

/-- With the memory used up, whatever is in the clipboard is not pasted. -/
theorem paste_refused (ed : Editor) (h : ed.doc.Holds True t) (hp : Text.Valid t p) (hrow : ed.cursorRow = p.row)
    (hη : ed.doc.heap.outcome 0 = none) :
    ∃ r ed', ed.paste = some (r, ed') ∧ (r = .errNoClipboard ∨ r = .errAllocFailed) ∧
      ed'.selActive = ed.selActive := by
  cases hclip : ed.clipboard with
  | none =>
    refine ⟨.errNoClipboard, ed, ?_, Or.inl rfl, rfl⟩
    rw [paste, hclip]
  | some clip =>
    obtain ⟨a, u, v, z, rfl, hr, -⟩ := hp.split
    obtain ⟨la, ln, lz, dead, η, hd, -, ha, -, -⟩ := h.around
    rw [hd, Doc.slots_heap] at hη
    have hla : ed.cursorRow = la.length := by rw [hrow, hr, ha.length_eq]
    refine ⟨.errAllocFailed, { ed with
      doc := Doc.slots (la ++ ln :: (lz ++ dead)) (la.length + lz.length + 1) η.next },
      ?_, Or.inr rfl, rfl⟩
    rw [paste, hclip]
    simp [hd, Doc.slots_paste_refused hla hη]

theorem pasteOver_active {ed₁ : Editor} {r : EditorResult} (h : ed.selActive = true)
    (hdel : ed.deleteSelection = some (r, ed₁)) : ed.pasteOver = ed₁.paste := by
  simp [pasteOver, h, hdel]

theorem pasteOver_inactive (h : ed.selActive = false) : ed.pasteOver = ed.paste := by
  simp [pasteOver, h]

/-- A selection can be lost to a paste that does not happen. -/
theorem pasteOver_fails (h : ed.Stands t p) (hs : ed.Selected t s) :
    ∃ heap r ed', (r = .errNoClipboard ∨ r = .errAllocFailed) ∧
      (ed.withHeap heap).pasteOver = some (r, ed') ∧ ed'.selActive = false := by
  have hat : (ed.withHeap .zeros).At True t p :=
    ⟨h.holds.withHeap _, Heap.zeros_ample, h.row, h.col, h.valid⟩
  have hs' : (ed.withHeap .zeros).Selected t s := ⟨hs.active, hs.row, hs.col, hs.valid⟩
  obtain ⟨b, e, hrange, hbe, hb, he, -⟩ := hs'.range hat
  obtain ⟨heap, doc, hdel, hdoc, hη⟩ := deleteRange_exhausts h.holds hb he hbe
  have hactive : (ed.withHeap heap).selActive = true := hs.active
  have hsel : (ed.withHeap heap).deleteSelection =
      some (.ok, (ed.withHeap heap).unselected.goto doc b) := by
    have hrange : (ed.withHeap heap).selGetRange = (↑b.row, ↑b.col, ↑e.row, ↑e.col) := hrange
    have hdel : deleteRange (ed.withHeap heap).doc b.row b.col e.row e.col = some (.ok, doc) := hdel
    simp [Editor.deleteSelection, hactive, hrange, hdel, Editor.goto, unselected]
  obtain ⟨r, ed', hpaste, hr, hkept⟩ := paste_refused
    ((ed.withHeap heap).unselected.goto doc b) (by simpa using hdoc)
    (hb.deleteRange he hbe) (by simp) (by simpa using hη)
  exact ⟨heap, r, ed', hr, (pasteOver_active hactive hsel).trans hpaste, by
    simpa [unselected] using hkept⟩

end Editor

namespace Commands

variable {app : App} {ev : KeyEvent} {t : List (List UInt8)} {p : Pos}

/-- Ctrl+V comes to `pasteKey`. -/
theorem dispatch_pastes (h : app.Pastes ev) : dispatch app ev = pasteKey app := by
  obtain ⟨hfocus, hmode, hescape, hback, hdir, hctrl, hc⟩ := h
  have hb : ('v'.toUInt8 == 'b'.toUInt8) = false := by decide
  have hq : ('v'.toUInt8 == 'q'.toUInt8) = false := by decide
  have hcc : ('v'.toUInt8 == 'c'.toUInt8) = false := by decide
  have hx : ('v'.toUInt8 == 'x'.toUInt8) = false := by decide
  simp [dispatch, filetreeCommandsTry, editorKey, hfocus, hmode, hescape, hback, hdir, hctrl, hc,
    hb, hq, hcc, hx]

/-- A paste that fails leaves the editor as `pasteOver` left it. -/
theorem pasteKey_failed (app : App) {r : EditorResult} {ed : Editor}
    (hr : r = .errNoClipboard ∨ r = .errAllocFailed) (h : app.editor.pasteOver = some (r, ed)) :
    ∃ app', pasteKey app = some app' ∧ app'.editor = ed := by
  cases hactive : app.editor.selActive with
  | false =>
    rw [Editor.pasteOver_inactive hactive] at h
    simp only [pasteKey, hactive, Bool.false_eq_true, if_false, Option.bind_eq_bind,
      Option.bind_some, h]
    rcases hr with rfl | rfl <;> exact ⟨_, rfl, by rfl⟩
  | true =>
    obtain ⟨ed₁, ⟨r₁, hdel⟩, hpaste⟩ : ∃ ed₁ : Editor,
        (∃ r₁, app.editor.deleteSelection = some (r₁, ed₁)) ∧ ed₁.paste = some (r, ed) := by
      simpa [Editor.pasteOver, hactive, Option.bind_eq_some_iff] using h
    simp only [pasteKey, hactive, if_true, hdel, Option.map_some, Option.bind_eq_bind,
      Option.bind_some, hpaste]
    rcases hr with rfl | rfl <;> exact ⟨_, rfl, by rfl⟩

/-- Whichever of the allocations fail: when the paste of a Ctrl+V fails, the document,
the cursor and the selection are as they were. -/
def PasteAtomic (app : App) (ev : KeyEvent) : Prop :=
  ∀ heap r ed app', (app.editor.withHeap heap).pasteOver = some (r, ed) →
    r = .errNoClipboard ∨ r = .errAllocFailed →
    dispatch { app with editor := app.editor.withHeap heap } ev = some app' →
    app.editor.Unchanged app'.editor

theorem pasteAtomic_iff_editor (hev : app.Pastes ev) :
    PasteAtomic app ev ↔ ∀ heap r ed, (app.editor.withHeap heap).pasteOver = some (r, ed) →
      r = .errNoClipboard ∨ r = .errAllocFailed → app.editor.Unchanged ed := by
  have hkey (heap : Heap) : dispatch { app with editor := app.editor.withHeap heap } ev =
      pasteKey { app with editor := app.editor.withHeap heap } := dispatch_pastes hev
  constructor
  · intro hatomic heap r ed hpaste hr
    obtain ⟨app', hpasted, rfl⟩ := pasteKey_failed
      { app with editor := app.editor.withHeap heap } hr hpaste
    exact hatomic heap r _ app' hpaste hr (by rw [hkey, hpasted])
  · intro hatomic heap r ed app' hpaste hr hdispatch
    obtain ⟨app₁, hpasted, rfl⟩ := pasteKey_failed
      { app with editor := app.editor.withHeap heap } hr hpaste
    rw [hkey, hpasted, Option.some.injEq] at hdispatch
    exact hdispatch ▸ hatomic heap r _ hpaste hr

/-- A paste that cannot happen changes nothing if and only if nothing is selected and
`editor_paste` alone changes nothing. -/
theorem paste_atomic_iff (h : app.editor.Stands t p)
    (hsel : app.editor.selActive = true → ∃ s, app.editor.Selected t s)
    (hclip : ∀ clip, app.editor.clipboard = some clip → 0 ∈ clip) (hev : app.Pastes ev) :
    PasteAtomic app ev ↔ app.editor.selActive = false ∧ LocalEdit.paste.Safe app.editor t p := by
  rw [pasteAtomic_iff_editor hev]
  cases hactive : app.editor.selActive with
  | true =>
    refine ⟨fun hatomic => ?_, fun hsafe => absurd hsafe.1 (by simp)⟩
    obtain ⟨s, hs⟩ := hsel hactive
    obtain ⟨heap, r, ed, hr, hpaste, hcleared⟩ := Editor.pasteOver_fails h hs
    have hkept := (hatomic heap r ed hpaste hr).selActive
    exact absurd (hcleared.symm.trans hkept) (by simp [hactive])
  | false =>
    have hover (heap : Heap) : (app.editor.withHeap heap).pasteOver =
        (app.editor.withHeap heap).paste := Editor.pasteOver_inactive hactive
    rw [← Editor.paste_iff h hclip]
    constructor
    · intro hatomic
      refine ⟨rfl, fun heap ed hpaste => hatomic heap _ ed ?_ (Or.inr rfl)⟩
      rw [hover]
      exact hpaste
    · rintro ⟨-, hatomic⟩ heap r ed hpaste hr
      rw [hover] at hpaste
      rcases hr with rfl | rfl
      · -- without a clipboard nothing is tried
        cases hboard : app.editor.clipboard with
        | none =>
          have hboard' : (app.editor.withHeap heap).clipboard = none := hboard
          rw [Editor.paste, hboard', Option.some.injEq, Prod.mk.injEq] at hpaste
          exact hpaste.2 ▸ Editor.Unchanged.withHeap app.editor heap
        | some clip =>
          have hboard' : (app.editor.withHeap heap).clipboard = some clip := hboard
          exact absurd rfl (Editor.paste_reason hboard' _ hpaste)
      · exact hatomic heap ed hpaste

instance (app : App) (ev : KeyEvent) : Decidable (app.Pastes ev) :=
  inferInstanceAs (Decidable (_ ∧ _ ∧ _ ∧ _ ∧ _ ∧ _ ∧ _))

def ctrlV : KeyEvent := { KeyEvent.none with ctrl := true, c := 'v'.toUInt8 }

/-- Behind the last character, with nothing selected. -/
theorem paste_atomic_end : PasteAtomic
    { holding [['a'.toUInt8]] with
      editor := .standing [['a'.toUInt8]] ⟨0, 1⟩ ⟨1, 0⟩ (some ['b'.toUInt8, 0]) } ctrlV := by
  refine (paste_atomic_iff (Editor.standing_stands (by decide) _ _) (fun h => by nomatch h)
    (fun clip h => ?_) (by decide)).2 ⟨rfl, fun clip h => ?_⟩
  · obtain rfl := Option.some.inj h
    decide
  · obtain rfl := Option.some.inj h
    rw [Doc.PasteSafe, if_neg (by decide)]
    exact Or.inl (by decide)

/-- A character typed and selected. -/
def typedSelected : Option App := do
  let app ← App.start emptyDisk .zeros (ascii "a.c")
  app.run [.key { KeyEvent.none with c := 'a'.toUInt8 },
    .key { KeyEvent.none with dir := .left, shift := true }]

/-- Ctrl+V over it, with nothing copied: the character is gone. -/
theorem selection_lost : ∃ app app', typedSelected = some app ∧ app.Pastes ctrlV ∧
    app.editor.doc.text = some [['a'.toUInt8]] ∧ dispatch app ctrlV = some app' ∧
    app'.editor.doc.text = some [[]] ∧ ¬ PasteAtomic app ctrlV := by
  have hrun : typedSelected.bind (fun app => do
      let app' ← dispatch app ctrlV
      let r ← (app.editor.withHeap .zeros).pasteOver
      let app₀ ← dispatch { app with editor := app.editor.withHeap .zeros } ctrlV
      return decide (app.Pastes ctrlV ∧ app.editor.doc.text = some [['a'.toUInt8]] ∧
        app'.editor.doc.text = some [[]] ∧ r.1 = .errNoClipboard ∧
        app.editor.selActive = true ∧ app₀.editor.selActive = false)) = some true := by
    decide +kernel
  obtain ⟨app, hstart, hrun⟩ := Option.bind_eq_some_iff.1 hrun
  obtain ⟨app', hdisp, hrun⟩ := Option.bind_eq_some_iff.1 hrun
  obtain ⟨r, hpaste, hrun⟩ := Option.bind_eq_some_iff.1 hrun
  obtain ⟨app₀, hdisp₀, hrun⟩ := Option.bind_eq_some_iff.1 hrun
  obtain ⟨hkey, hold, hnew, hres, hactive, hcleared⟩ := of_decide_eq_true (Option.some.inj hrun)
  refine ⟨app, app', hstart, hkey, hold, hdisp, hnew, fun hatomic => ?_⟩
  have hkept := (hatomic .zeros r.1 r.2 app₀ hpaste (Or.inl hres) hdisp₀).selActive
  exact absurd (hcleared.symm.trans hkept) (by simp [hactive])

end Commands

/-! ## Backspace -/

/-- The selection is set but has nothing in it: its anchor is where the cursor is. -/
def Editor.SelEmpty (ed : Editor) : Prop :=
  ed.selAnchorRow = ed.cursorRow ∧ ed.selAnchorCol = ed.cursorCol

instance (ed : Editor) : Decidable ed.SelEmpty := inferInstanceAs (Decidable (_ ∧ _))

/-- The editor shows the text `t` with its cursor at `p`. -/
structure Editor.ShowsAt (ed : Editor) (t : List (List UInt8)) (p : Pos) : Prop where
  text : ed.doc.text = some t
  row : ed.cursorRow = p.row
  col : ed.cursorCol = p.col

namespace Editor

variable {ed : Editor} {t t' : List (List UInt8)} {p q s : Pos}

theorem At.showsAt (h : ed.At True t p) : ed.ShowsAt t p :=
  ⟨h.holds.shows.text_eq, h.row, h.col⟩

theorem ShowsAt.inj (h : ed.ShowsAt t p) (h' : ed.ShowsAt t' q) : t = t' ∧ p = q := by
  refine ⟨Option.some.inj (h.text.symm.trans h'.text), ?_⟩
  have hrow := h.row.symm.trans h'.row
  have hcol := h.col.symm.trans h'.col
  cases p
  cases q
  simp only [Pos.mk.injEq] at hrow hcol ⊢
  omega

end Editor

namespace Commands

variable {app : App} {ev : KeyEvent} {t : List (List UInt8)} {p : Pos}

/-- Backspace removes the selected text if there is any, and otherwise the character or
the line break before the cursor. -/
def BackspaceDeletes (app : App) (ev : KeyEvent) : Prop :=
  ∃ t p app', app.editor.ShowsAt t p ∧ dispatch app ev = some app' ∧
    if app.editor.selActive = true ∧ ¬ app.editor.SelEmpty then
      ∃ b e : Pos, app.editor.selGetRange = (↑b.row, ↑b.col, ↑e.row, ↑e.col) ∧
        app'.editor.ShowsAt (Text.deleteRange t b e) b
    else app'.editor.ShowsAt (Text.backspace t p) (Text.afterBackspace t p)

theorem dispatch_backspace (hfocus : app.tree.focused = false) (hmode : app.bar.mode = .editor)
    (hev : ev.Erases) : dispatch app ev = backspaceKey app ev := by
  simp [dispatch, filetreeCommandsTry, editorKey, hfocus, hmode, hev.escape, hev.backspace,
    hev.ctrl]

/-- An empty selection is deleted, and that is all. -/
theorem dispatch_backspace_empty (h : app.Good True t p) (hfocus : app.tree.focused = false)
    (hmode : app.bar.mode = .editor) (hev : ev.Erases) (hactive : app.editor.selActive = true)
    (hempty : app.editor.SelEmpty) :
    ∃ app', dispatch app ev = some app' ∧ app'.editor.ShowsAt t p := by
  have hat := h.sound.at'
  obtain ⟨s, hs⟩ := h.sound.selected hactive
  obtain ⟨b, e, app', hrange, -, -, hkey, hed⟩ := deleteSelectionKey_range hat hs
  have hend : b = p ∧ e = p := by
    unfold Editor.selGetRange at hrange
    rw [hempty.1, hempty.2, hat.row, hat.col] at hrange
    simp only [true_and, Int.le_refl, or_true, if_true, Prod.mk.injEq] at hrange
    obtain ⟨hr, hc, hr', hc'⟩ := hrange
    cases b
    cases e
    cases p
    simp only [Pos.mk.injEq] at hr hc hr' hc' ⊢
    omega
  obtain ⟨rfl, rfl⟩ := hend
  refine ⟨app', ?_, ?_⟩
  · rw [dispatch_backspace hfocus hmode hev, backspaceKey, if_pos hactive, hkey]
  · have hshows := hed.at'.showsAt
    rwa [Text.deleteRange_self hat.valid] at hshows

/-- In a good state Backspace deletes what it should, unless a selection is set that is
empty and there is something before the cursor. -/
theorem backspaceDeletes_iff (h : app.Good True t p) (hfocus : app.tree.focused = false)
    (hmode : app.bar.mode = .editor) (hev : ev.Erases) :
    BackspaceDeletes app ev ↔ app.editor.selActive = false ∨ ¬ app.editor.SelEmpty ∨
      (app.editor.cursorRow = 0 ∧ app.editor.cursorCol = 0) := by
  have hat := h.sound.at'
  cases hactive : app.editor.selActive with
  | false =>
    refine ⟨fun _ => Or.inl rfl, fun _ => ?_⟩
    obtain ⟨app', hkey, hed⟩ := deleteCharKey_eq hat hactive
    refine ⟨t, p, app', hat.showsAt, ?_, ?_⟩
    · rw [dispatch_backspace hfocus hmode hev, backspaceKey, hactive, hev.ctrl]
      exact hkey
    · rw [if_neg (by simp [hactive])]
      exact hed.at'.showsAt
  | true =>
    by_cases hempty : app.editor.SelEmpty
    · obtain ⟨app', hdisp, hkept⟩ := dispatch_backspace_empty h hfocus hmode hev hactive hempty
      constructor
      · rintro ⟨t', q, app₁, hshows, hdisp', hdel⟩
        obtain ⟨rfl, rfl⟩ := hat.showsAt.inj hshows
        obtain rfl : app' = app₁ := Option.some.inj (hdisp.symm.trans hdisp')
        rw [if_neg (fun hsel => hsel.2 hempty)] at hdel
        have hstart := Text.afterBackspace_eq_iff.1 (hdel.inj hkept).2
        exact Or.inr (Or.inr (by rw [hat.row, hat.col, hstart]; exact ⟨rfl, rfl⟩))
      · rintro (hoff | hne | ⟨hrow, hcol⟩)
        · cases hoff
        · exact absurd hempty hne
        · have hstart : p = ⟨0, 0⟩ := by
            rw [hat.row] at hrow
            rw [hat.col] at hcol
            cases p
            simp only [Pos.mk.injEq] at hrow hcol ⊢
            omega
          refine ⟨t, p, app', hat.showsAt, hdisp, ?_⟩
          rw [if_neg (fun hsel => hsel.2 hempty), Text.afterBackspace_eq_iff.2 hstart]
          simpa [Text.backspace, hstart] using hkept
    · refine ⟨fun _ => Or.inr (Or.inl hempty), fun _ => ?_⟩
      obtain ⟨s, hs⟩ := h.sound.selected hactive
      obtain ⟨b, e, app', hrange, -, -, hkey, hed⟩ := deleteSelectionKey_range hat hs
      refine ⟨t, p, app', hat.showsAt, ?_, ?_⟩
      · rw [dispatch_backspace hfocus hmode hev, backspaceKey, if_pos hactive, hkey]
      · rw [if_pos ⟨hactive, hempty⟩]
        exact ⟨b, e, hrange, hed.at'.showsAt⟩

/-- From the start on, in every state that local keys and mouse events reach: Backspace
deletes what it should if and only if no empty selection is set, or there is nothing
before the cursor. -/
theorem backspace_run_iff (files : Files) {heap : Heap} (ample : heap.Ample) (name : List UInt8) :
    ∃ app₀, App.start files heap name = some app₀ ∧ ∀ inputs, ∃ app, app₀.run inputs = some app ∧
      ∀ ev : KeyEvent, ev.Erases → app.tree.focused = false → app.bar.mode = .editor →
        (BackspaceDeletes app ev ↔ app.editor.selActive = false ∨ ¬ app.editor.SelEmpty ∨
          (app.editor.cursorRow = 0 ∧ app.editor.cursorCol = 0)) := by
  obtain ⟨app₀, hstart, good⟩ := start_good True files ample name
  refine ⟨app₀, hstart, fun inputs => ?_⟩
  rcases run_good good inputs with ⟨app, hrun, t, p, h⟩ | ⟨hT, -⟩
  · exact ⟨app, hrun, fun ev hev hfocus hmode => backspaceDeletes_iff h hfocus hmode hev⟩
  · exact absurd trivial hT

def backspaceEvent : KeyEvent := { KeyEvent.none with backspace := true }

/-- A character typed, and Backspace. -/
theorem backspace_run_typed : ∃ app₀ app, App.start emptyDisk .zeros (ascii "a.c") = some app₀ ∧
    app₀.run [.key { KeyEvent.none with c := 'a'.toUInt8 }] = some app ∧
    BackspaceDeletes app backspaceEvent := by
  obtain ⟨app₀, hstart, hruns⟩ := backspace_run_iff emptyDisk Heap.zeros_ample (ascii "a.c")
  obtain ⟨app, hrun, hiff⟩ := hruns [.key { KeyEvent.none with c := 'a'.toUInt8 }]
  have hstate : ((App.start emptyDisk .zeros (ascii "a.c")).bind
      (·.run [.key { KeyEvent.none with c := 'a'.toUInt8 }])).map (fun app =>
        (app.tree.focused, app.bar.mode, app.editor.selActive)) = some (false, .editor, false) := by
    decide +kernel
  rw [hstart, Option.bind_some, hrun, Option.map_some, Option.some.injEq] at hstate
  simp only [Prod.mk.injEq] at hstate
  exact ⟨app₀, app, hstart, hrun,
    (hiff backspaceEvent ⟨rfl, rfl, rfl⟩ hstate.1 hstate.2.1).2 (Or.inl hstate.2.2)⟩

/-- A character typed, and a click behind it. -/
def clickedBehind : Option App := do
  let app ← App.start emptyDisk .zeros (ascii "a.c")
  app.run [.key { KeyEvent.none with c := 'a'.toUInt8 }, .mouse ⟨true, false, 300, 100, 0⟩]

/-- The click leaves a selection with nothing in it, and Backspace does not delete the
character. -/
theorem click_blocks_backspace : ∃ app app', clickedBehind = some app ∧
    app.tree.focused = false ∧ app.bar.mode = .editor ∧ app.editor.selActive = true ∧
    app.editor.SelEmpty ∧ app.editor.ShowsAt [['a'.toUInt8]] ⟨0, 1⟩ ∧
    dispatch app backspaceEvent = some app' ∧ app'.editor.ShowsAt [['a'.toUInt8]] ⟨0, 1⟩ ∧
    ¬ BackspaceDeletes app backspaceEvent := by
  have hrun : clickedBehind.bind (fun app => do
      let app' ← dispatch app backspaceEvent
      return decide (app.tree.focused = false ∧ app.bar.mode = .editor ∧
        app.editor.selActive = true ∧ app.editor.SelEmpty ∧
        (app.editor.doc.text = some [['a'.toUInt8]] ∧ app.editor.cursorRow = 0 ∧
          app.editor.cursorCol = 1) ∧
        (app'.editor.doc.text = some [['a'.toUInt8]] ∧ app'.editor.cursorRow = 0 ∧
          app'.editor.cursorCol = 1))) = some true := by
    decide +kernel
  obtain ⟨app, hstart, hrun⟩ := Option.bind_eq_some_iff.1 hrun
  obtain ⟨app', hdisp, hrun⟩ := Option.bind_eq_some_iff.1 hrun
  obtain ⟨hfocus, hmode, hactive, hempty, ⟨htext, hrow, hcol⟩, htext', hrow', hcol'⟩ :=
    of_decide_eq_true (Option.some.inj hrun)
  have hold : app.editor.ShowsAt [['a'.toUInt8]] ⟨0, 1⟩ := ⟨htext, hrow, hcol⟩
  have hnew : app'.editor.ShowsAt [['a'.toUInt8]] ⟨0, 1⟩ := ⟨htext', hrow', hcol'⟩
  refine ⟨app, app', hstart, hfocus, hmode, hactive, hempty, hold, hdisp, hnew, ?_⟩
  rintro ⟨t, p, app₁, hshows, hdisp', hdel⟩
  obtain ⟨rfl, rfl⟩ := hold.inj hshows
  obtain rfl : app' = app₁ := Option.some.inj (hdisp.symm.trans hdisp')
  rw [if_neg (fun hsel => hsel.2 hempty)] at hdel
  exact absurd (Text.afterBackspace_eq_iff.1 (hdel.inj hnew).2) (by decide)

end Commands

end LCode
