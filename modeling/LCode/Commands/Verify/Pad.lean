import LCode.Commands.Verify.Blocks
import LCode.Commands.Verify.Files
import LCode.Editor.Verify.Pad

/-!
# The keys as those of a pad

Every key that edits the text or moves in it does to the process what it does to the
string the process stands for, so a run of keys is a run over the string.
-/

namespace LCode

open Serial

namespace Commands

/-! ## Keys -/

/-- The motion of a cursor key. -/
def motion (ev : KeyEvent) : Option Pad.Motion :=
  match ev.dir with
  | .left => some (if ev.ctrl then .wordLeft else .left)
  | .right => some (if ev.ctrl then .wordRight else .right)
  | .up => some .up
  | .down => some .down
  | .home => some .home
  | .end => some .lineEnd
  | .none => none

/-- What a key is to the text; none if it is no editing key. -/
def padKey (ev : KeyEvent) : Option (Pad.Key UInt8) :=
  if ev.escape then none
  else if ev.backspace then
    -- the keyboard gives Backspace and the cursor keys no character
    if ev.c ≠ 0 then none else some (if ev.ctrl then .eraseWord else .erase)
  else if ev.dir ≠ .none then
    if ev.c ≠ 0 then none else (motion ev).map fun m => .move m ev.shift
  else if ev.ctrl then
    if ev.c = 'c'.toUInt8 then some .copy
    else if ev.c = 'x'.toUInt8 then some .cut
    else if ev.c = 'v'.toUInt8 then some .paste
    else none
  else if ev.c = ':'.toUInt8 then none
  else if ev.enter then some (.type newline)
  else if ev.c ≠ 0 then some (.type ev.c)
  else none

section Keys

variable {s : Pad UInt8} {t : List (List UInt8)} {p : Pos} {ev : KeyEvent}

/-- A cursor key goes where the motion of the string leads, as long as no peer has a
cursor in the way. -/
theorem moveCursor_target {ed : Editor} (h : ed.IsPad s t p) (alone : ed.remoteCursorRow < 0)
    {m : Pad.Motion} (hm : motion ev = some m) :
    ∃ ed' p', moveCursor ed ev = some ed' ∧ ed'.At True t p' ∧
      Text.offset t p' = s.target newline space m ∧ ed.Moved ed' := by
  have hat := h.at'
  have hvalid := hat.valid
  have hgo {q : Pos} (hq : Text.Valid t q) (hmove : moveCursor ed ev = some (ed.goto ed.doc q))
      (ho : Text.offset t q = s.target newline space m) :
      ∃ ed' p', moveCursor ed ev = some ed' ∧ ed'.At True t p' ∧
        Text.offset t p' = s.target newline space m ∧ ed.Moved ed' :=
    ⟨_, q, hmove, hat.of_valid hq, ho, Editor.moved_goto ed q⟩
  obtain ⟨ln, hln, hx⟩ := hat.holds.line_row hvalid.1
  cases hdir : ev.dir with
  | left =>
    cases hctrl : ev.ctrl with
    | false =>
      obtain rfl : Pad.Motion.left = m := by simpa [motion, hdir, hctrl] using hm
      refine hgo hvalid.left (by simp [moveCursor, hdir, hctrl, hat.pointed.moveLeft]) ?_
      rw [Pad.target, Text.offset_left newline hvalid, h.off]
    | true =>
      obtain rfl : Pad.Motion.wordLeft = m := by simpa [motion, hdir, hctrl] using hm
      have hword := wordLeft_run hx hvalid.2
      have hq : Text.Valid t ⟨p.row, p.col - Caret.blanksAndWord space
          ((Text.row t p.row).take p.col).reverse⟩ :=
        ⟨hvalid.1, Nat.le_trans (Nat.sub_le _ _) hvalid.2⟩
      refine hgo hq ?_ ?_
      · simp [moveCursor, hdir, hctrl, Editor.moveWordLeft, Editor.goto, hat.row, hat.col, hln,
          hword]
      · rw [Pad.target, h.caret, h.plain.wordLeft space hvalid]
  | right =>
    cases hctrl : ev.ctrl with
    | false =>
      obtain rfl : Pad.Motion.right = m := by simpa [motion, hdir, hctrl] using hm
      refine hgo hvalid.right (by simp [moveCursor, hdir, hctrl, hat.pointed.moveRight]) ?_
      have hright := congrArg Caret.off (Text.caret_right newline hvalid)
      rw [Pad.target, h.text, h.off]
      exact hright
    | true =>
      obtain rfl : Pad.Motion.wordRight = m := by simpa [motion, hdir, hctrl] using hm
      have hword := wordRight_run hx hvalid.2
      obtain ⟨k, -, hk, hrun⟩ := wordRight_eq hx hvalid.2
      have hkeq := Int.natCast_inj.1 (Option.some.inj (hword.symm.trans hrun))
      have hq : Text.Valid t ⟨p.row, p.col + Caret.wordAndBlanks space
          ((Text.row t p.row).drop p.col)⟩ := ⟨hvalid.1, hkeq ▸ hk⟩
      refine hgo hq ?_ ?_
      · simp [moveCursor, hdir, hctrl, Editor.moveWordRight, Editor.goto, hat.row, hat.col, hln,
          hword]
      · rw [Pad.target, h.caret, h.plain.wordRight space hvalid]
  | up =>
    obtain rfl : Pad.Motion.up = m := by simpa [motion, hdir] using hm
    have htarget := h.plain.up hvalid
    rw [← h.caret] at htarget
    by_cases hrow : 0 < p.row
    · rw [if_pos hrow] at htarget
      have hfree : ¬ ed.remoteCursorRow + 1 = p.row := by omega
      refine hgo (Text.valid_enter p (Nat.lt_of_le_of_lt (Nat.sub_le _ _) hvalid.1)) ?_
        htarget.symm
      simp [moveCursor, hdir, hat.pointed.moveUp, hrow, hfree]
    · rw [if_neg hrow] at htarget
      exact hgo hvalid (by simp [moveCursor, hdir, hat.pointed.moveUp, hrow]) htarget.symm
  | down =>
    obtain rfl : Pad.Motion.down = m := by simpa [motion, hdir] using hm
    have hfree : ¬ ed.remoteCursorRow = p.row + 1 := by omega
    have htarget := h.plain.down hvalid
    rw [← h.caret] at htarget
    by_cases hrow : p.row + 1 < t.length
    · rw [if_pos hrow] at htarget
      refine hgo (Text.valid_enter p hrow) ?_ htarget.symm
      simp [moveCursor, hdir, hat.pointed.moveDown, hrow, hfree]
    · rw [if_neg hrow] at htarget
      exact hgo hvalid (by simp [moveCursor, hdir, hat.pointed.moveDown, hrow]) htarget.symm
  | home =>
    obtain rfl : Pad.Motion.home = m := by simpa [motion, hdir] using hm
    refine hgo (q := ⟨p.row, 0⟩) ⟨hvalid.1, Nat.zero_le _⟩ ?_ ?_
    · simp [moveCursor, hdir, hat.pointed.moveHome]
    · rw [Pad.target, h.caret, h.plain.home hvalid]
  | «end» =>
    obtain rfl : Pad.Motion.lineEnd = m := by simpa [motion, hdir] using hm
    refine hgo (q := ⟨p.row, (Text.row t p.row).length⟩) ⟨hvalid.1, Nat.le_refl _⟩ ?_ ?_
    · simp [moveCursor, hdir, hat.pointed.moveEnd]
    · rw [Pad.target, h.caret, h.plain.lineEnd hvalid]
  | none =>
    rw [motion, hdir] at hm
    cases hm

/-- The packets of a block leave the process otherwise as it is. -/
theorem synced {T : Prop} (app : App) (h : app.editor.At T t p) (start deleted inserted : Int) :
    ∃ ms, ∀ f : App → Option App, (if app.remote then
      (syncBlock app start deleted inserted).bind f else f app) = f (tell app ms) := by
  have hshows := h.holds.shows
  cases hr : app.remote with
  | false => exact ⟨[], fun f => by simp [tell_nil]⟩
  | true =>
    have hcursor (ms : List Message) :
        sendCursor (tell app ms) = some (tell app (ms ++ [moveMessage p])) := by
      rw [sendCursor_eq (a := tell app ms) h, tell_tell]
    have hreplace : sendPacket app .replaceBlock (blockPayload start deleted inserted) 6 0 =
        some (tell app [replaceMessage start deleted inserted]) :=
      sendPacket_eq (m := replaceMessage start deleted inserted) rfl
    have hupdates := sendUpdateLines_eq
      (a := tell app [replaceMessage start deleted inserted]) hshows start inserted.toNat
    simp only [syncBlock, hr, Bool.not_true, Bool.false_eq_true, if_false, if_true,
      Option.bind_eq_bind]
    by_cases hone : deleted = 1 ∧ inserted = 1
    · rw [if_pos hone, sendRow_update hshows, Option.bind_some, hcursor]
      exact ⟨_, fun f => rfl⟩
    · rw [if_neg hone, hreplace, Option.bind_some, hupdates, tell_tell, Option.bind_some, hcursor]
      exact ⟨_, fun f => rfl⟩

/-- A process in editor mode, with the keyboard on a text that stands for `s` and no peer
in it. -/
structure IsPad (app : App) (s : Pad UInt8) : Prop where
  editor : ∃ t p, app.editor.IsPad s t p
  mode : app.bar.mode = .editor
  focused : app.tree.focused = false
  alone : app.editor.remoteCursorRow < 0

section IsPad

variable {app : App}

theorem IsPad.tell (h : IsPad app s) (ms : List Message) : IsPad (tell app ms) s :=
  ⟨h.editor, h.mode, h.focused, h.alone⟩

theorem IsPad.setRender (h : IsPad app s) (mode : RenderMode) : IsPad (app.setRender mode) s :=
  ⟨h.editor, h.mode, h.focused, h.alone⟩

theorem IsPad.setStatus (h : IsPad app s) (msg : String) : IsPad (app.setStatus msg) s :=
  ⟨h.editor, h.mode, h.focused, h.alone⟩

theorem IsPad.setRenderEx (h : IsPad app s) (mode : RenderMode) :
    IsPad (app.setRenderEx mode) s := by
  obtain ⟨_, _, _, heq⟩ := app.setRenderEx_eq mode
  rw [heq]
  obtain ⟨t, p, hpad⟩ := h.editor
  refine ⟨⟨t, p, ?_⟩, h.mode, h.focused, h.alone⟩
  refine ⟨?_, hpad.plain, hpad.nul, hpad.caret, ?_, hpad.clip⟩
  · exact ⟨hpad.at'.holds, hpad.at'.ample, hpad.at'.row, hpad.at'.col, hpad.at'.valid⟩
  · rcases hpad.anchor with hnone | ⟨q, hsel, hsome⟩
    · exact Or.inl hnone
    · exact Or.inr ⟨q, ⟨hsel.active, hsel.row, hsel.col, hsel.valid⟩, hsome⟩

/-- The editor has gone on, nothing else has. -/
theorem IsPad.of_editor (h : IsPad app s) {ed : Editor} {s' : Pad UInt8} {t' : List (List UInt8)}
    {p' : Pos} (hed : ed.IsPad s' t' p') (hrow : ed.remoteCursorRow = app.editor.remoteCursorRow) :
    IsPad { app with editor := ed } s' :=
  ⟨⟨t', p', hed⟩, h.mode, h.focused, hrow ▸ h.alone⟩

/-- Backspace or Ctrl+X with a selection. -/
theorem deleteSelectionKey_pad (h : IsPad app s) :
    ∃ app', deleteSelectionKey app = some app' ∧ IsPad app' s.clear := by
  obtain ⟨t, p, hpad⟩ := h.editor
  obtain ⟨ed', t', p', hdel, hpad', -, hrow⟩ := hpad.deleteSelection
  obtain ⟨ms, hsync⟩ := synced { app with editor := ed' } hpad'.at'
    (selRows app.editor).1 (selRows app.editor).2 1
  refine ⟨_, ?_, ((h.of_editor hpad' hrow).tell ms).setRenderEx .full⟩
  simp only [deleteSelectionKey, hdel, Option.bind_eq_bind, Option.bind_some, afterEdit,
    reduceCtorEq, if_false, Option.pure_def]
  exact hsync fun a => some (a.setRenderEx .full)

/-- Backspace without a selection. -/
theorem deleteCharKey_pad (h : IsPad app s) (hs : app.editor.selActive = false) :
    ∃ app', deleteCharKey app = some app' ∧ IsPad app' (s.eraseTo (s.off - 1)) := by
  obtain ⟨t, p, hpad⟩ := h.editor
  obtain ⟨ed', t', p', hdel, hpad', -, hrow⟩ := hpad.deleteChar hs
  refine ⟨_, ?_, ((h.of_editor hpad' hrow).tell
    (if app.remote then [⟨.deleteChar, []⟩] else [])).setRenderEx
      (if decide (0 < app.editor.cursorCol) then .line else .full)⟩
  simp only [deleteCharKey, hdel, Option.bind_eq_bind, Option.bind_some, afterEdit, reduceCtorEq,
    if_false, Option.pure_def]
  exact share_bind (a := { app with editor := ed' })
    (fun _ => sendPacket_eq (m := ⟨.deleteChar, []⟩) rfl) fun b =>
      some (b.setRenderEx (if decide (0 < app.editor.cursorCol) then .line else .full))

/-- Ctrl+Backspace without a selection. -/
theorem deleteWordKey_pad (h : IsPad app s) (hs : app.editor.selActive = false) :
    ∃ app', deleteWordKey app = some app' ∧ IsPad app'
      (if s.toCaret.home newline = s.off then s.eraseTo (s.off - 1)
        else s.eraseTo (s.toCaret.wordLeft newline space)) := by
  obtain ⟨t, p, hpad⟩ := h.editor
  have hvalid := hpad.at'.valid
  have hhome := hpad.plain.home hvalid
  rw [← hpad.caret] at hhome
  have hoff := Text.offset_row (t := t) p 0
  have hcol := hpad.at'.col
  by_cases h0 : p.col = 0
  · obtain ⟨ed', t', p', hdel, hpad', -, hrow⟩ := hpad.deleteChar hs
    obtain ⟨ms, hsync⟩ := synced { app with editor := ed' } hpad'.at'
      (app.editor.cursorRow - 1) 2 1
    have hcur : app.editor.cursorCol = 0 := by omega
    rw [if_pos (by rw [hhome, hpad.off]; omega)]
    refine ⟨_, ?_, ((h.of_editor hpad' hrow).tell ms).setRenderEx .full⟩
    simp only [deleteWordKey, hcur, if_true, hdel, Option.bind_eq_bind, Option.bind_some,
      afterEdit, reduceCtorEq, if_false, Option.pure_def]
    exact hsync fun a => some (a.setRenderEx .full)
  · obtain ⟨ed', t', p', hdel, hpad', -, hrow⟩ := hpad.deleteWord hs (by omega)
    obtain ⟨ms, hsync⟩ := synced { app with editor := ed' } hpad'.at'
      app.editor.cursorRow 1 1
    have hcur : ¬ app.editor.cursorCol = 0 := by omega
    rw [if_neg (by rw [hhome, hpad.off]; omega)]
    refine ⟨_, ?_, ((h.of_editor hpad' hrow).tell ms).setRenderEx .line⟩
    simp only [deleteWordKey, hcur, if_false, hdel, Option.bind_eq_bind, Option.bind_some,
      afterEdit, reduceCtorEq, Option.pure_def]
    exact hsync fun a => some (a.setRenderEx .line)

/-- A character or Enter over a selection. -/
theorem insertOverSelection_pad (h : IsPad app s) {c : UInt8} (hc : c ≠ 0) (rows : Int) :
    ∃ app', insertOverSelection app c rows = some app' ∧ IsPad app' (s.clear.put [c]) := by
  obtain ⟨t, p, hpad⟩ := h.editor
  obtain ⟨ed₁, t₁, p₁, hdel, hpad₁, hs, hrow₁⟩ := hpad.deleteSelection
  obtain ⟨ed₂, t₂, p₂, hins, hpad₂, -, hrow₂⟩ := hpad₁.insertChar hs hc
  obtain ⟨ms, hsync⟩ := synced { app with editor := ed₂ } hpad₂.at'
    (selRows app.editor).1 (selRows app.editor).2 rows
  refine ⟨_, ?_, ((h.of_editor hpad₂ (hrow₂.trans hrow₁)).tell ms).setRender .full⟩
  simp only [insertOverSelection, hdel, hins, Option.bind_eq_bind, Option.bind_some, if_true,
    Option.pure_def]
  exact hsync fun a => some (a.setRender .full)

/-- Enter. -/
theorem enterKey_pad (h : IsPad app s) :
    ∃ app', enterKey app = some app' ∧ IsPad app' (s.clear.put [newline]) := by
  unfold enterKey
  cases hs : app.editor.selActive with
  | true => exact insertOverSelection_pad h (by decide) 2
  | false =>
    obtain ⟨t, p, hpad⟩ := h.editor
    obtain ⟨ed', t', p', hins, hpad', -, hrow⟩ := hpad.insertChar hs (c := newline) (by decide)
    rw [Pad.clear_none (hpad.inactive hs)]
    refine ⟨_, ?_, ((h.of_editor hpad' hrow).tell
      (if app.remote then [⟨.insertChar, [newline]⟩] else [])).setRender .full⟩
    simp only [Bool.false_eq_true, if_false, hins, Option.bind_eq_bind, Option.bind_some,
      afterEdit, reduceCtorEq, Option.pure_def]
    exact share_bind (a := { app with editor := ed' })
      (fun _ => sendPacket_eq (m := ⟨.insertChar, [newline]⟩) rfl) fun a => some (a.setRender .full)

/-- A character. -/
theorem charKey_pad (h : IsPad app s) {c : UInt8} (hc : c ≠ 0) :
    ∃ app', charKey app c = some app' ∧ IsPad app' (s.clear.put [c]) := by
  unfold charKey
  cases hs : app.editor.selActive with
  | true => exact insertOverSelection_pad h hc 1
  | false =>
    obtain ⟨t, p, hpad⟩ := h.editor
    obtain ⟨ed', t', p', hins, hpad', -, hrow⟩ := hpad.insertChar hs hc
    rw [Pad.clear_none (hpad.inactive hs)]
    refine ⟨_, ?_, ((h.of_editor hpad' hrow).tell
      (if app.remote then [⟨.insertChar, [c]⟩] else [])).setRenderEx .line⟩
    simp only [Bool.false_eq_true, if_false, hins, Option.bind_eq_bind, Option.bind_some,
      afterEdit, reduceCtorEq, Option.pure_def]
    exact share_bind (a := { app with editor := ed' })
      (fun _ => sendPacket_eq (m := ⟨.insertChar, [c]⟩) rfl) fun a => some (a.setRenderEx .line)

/-- Ctrl+X. -/
theorem cutKey_pad (h : IsPad app s) :
    ∃ app', cutKey app = some app' ∧ IsPad app' s.copy.clear := by
  obtain ⟨t, p, hpad⟩ := h.editor
  obtain ⟨ed', hcopy, hpad', hsel, hrow⟩ := hpad.copySelection
  have h' := h.of_editor hpad' hrow
  simp only [cutKey, hcopy, Option.bind_eq_bind, Option.bind_some]
  cases hs : ed'.selActive with
  | true => exact deleteSelectionKey_pad h'
  | false =>
    rw [Pad.clear_none (hpad'.inactive hs)]
    exact ⟨_, rfl, h'⟩

/-- Ctrl+V. -/
theorem pasteKey_pad (h : IsPad app s) :
    ∃ app', pasteKey app = some app' ∧ IsPad app' (s.clear.put (s.clip.getD [])) := by
  obtain ⟨t, p, hpad⟩ := h.editor
  obtain ⟨ed₁, t₁, p₁, hdel, hpad₁, hs, hrow₁⟩ := hpad.deleteSelection
  -- without a selection there is nothing to delete
  have hcleared (f : Editor → Option App) : (if app.editor.selActive then
      (app.editor.deleteSelection.map Prod.snd).bind f else f app.editor) = f ed₁ := by
    cases hactive : app.editor.selActive with
    | true => simp [hdel]
    | false =>
      have hsame : app.editor.deleteSelection = some (.ok, app.editor) := by
        simp [Editor.deleteSelection, hactive]
      rw [hsame] at hdel
      obtain rfl := congrArg Prod.snd (Option.some.inj hdel)
      rfl
  cases hclip : s.clip with
  | none =>
    have hnone : ed₁.clipboard = none := hpad₁.clipboard_none (by rw [Pad.clear_clip, hclip])
    have hpaste : ed₁.paste = some (.errNoClipboard, ed₁) := by
      simp [Editor.paste, hnone]
    have hput : s.clear.put [] = s.clear := by
      simp [Pad.put]
    rw [Option.getD_none, hput]
    refine ⟨_, ?_, ((h.of_editor hpad₁ hrow₁).setStatus "Nothing to paste").setRender .status⟩
    simp only [pasteKey, Option.bind_eq_bind, hcleared, hpaste, Option.bind_some,
      Option.pure_def]
  | some x =>
    obtain ⟨ed₂, t₂, p₂, hpaste, hpad₂, -, hrow₂⟩ :=
      hpad₁.paste hs (show s.clear.clip = some x by rw [Pad.clear_clip, hclip])
    obtain ⟨ms, hsync⟩ := synced { app with editor := ed₂ } hpad₂.at'
      (if app.editor.selActive then selRows app.editor else (app.editor.cursorRow, 1)).1
      (if app.editor.selActive then selRows app.editor else (app.editor.cursorRow, 1)).2
      (ed₂.doc.rowCount - ed₁.doc.rowCount + 1)
    refine ⟨_, ?_, ((h.of_editor hpad₂ (hrow₂.trans hrow₁)).tell ms).setRenderEx .full⟩
    simp only [pasteKey, Option.bind_eq_bind, hcleared, hpaste, Option.bind_some,
      Option.pure_def]
    exact hsync fun a => some (a.setRenderEx .full)

/-- A cursor key. -/
theorem directionKey_pad (h : IsPad app s) {m : Pad.Motion} (hm : motion ev = some m) :
    ∃ app', directionKey app ev = some app' ∧
      IsPad app' (s.step newline space (.move m ev.shift)) := by
  obtain ⟨t, p, hpad⟩ := h.editor
  -- the selection is set up before the cursor moves
  obtain ⟨ed, hed, hpad', hrow⟩ : ∃ ed,
      (if ev.shift then if !app.editor.selActive then app.editor.selSetAnchor else app.editor
        else app.editor.selClear) = ed ∧
      ed.IsPad { s with anchor := if ev.shift then some (s.anchor.getD s.off) else none } t p ∧
      ed.remoteCursorRow = app.editor.remoteCursorRow := by
    refine ⟨_, rfl, ?_⟩
    have hat : ∀ ed : Editor, ed.doc = app.editor.doc → ed.cursorRow = app.editor.cursorRow →
        ed.cursorCol = app.editor.cursorCol → ed.At True t p := by
      intro ed hdoc hr hc
      exact ⟨hdoc ▸ hpad.at'.holds, hdoc ▸ hpad.at'.ample, hr.trans hpad.at'.row,
        hc.trans hpad.at'.col, hpad.at'.valid⟩
    cases hshift : ev.shift with
    | false =>
      refine ⟨⟨hat _ rfl rfl rfl, hpad.plain, hpad.nul, hpad.caret, Or.inl ⟨rfl, rfl⟩,
        hpad.clip⟩, rfl⟩
    | true =>
      cases hactive : app.editor.selActive with
      | false =>
        refine ⟨⟨hat _ rfl rfl rfl, hpad.plain, hpad.nul, hpad.caret, Or.inr ⟨p, ?_, ?_⟩,
          hpad.clip⟩, rfl⟩
        · exact ⟨rfl, hpad.at'.row, hpad.at'.col, hpad.at'.valid⟩
        · rw [hpad.inactive hactive, hpad.off]
          rfl
      | true =>
        obtain ⟨q, hsel, hanchor⟩ := hpad.active hactive
        refine ⟨⟨hpad.at', hpad.plain, hpad.nul, hpad.caret, Or.inr ⟨q, hsel, ?_⟩,
          hpad.clip⟩, rfl⟩
        rw [hanchor]
        rfl
  obtain ⟨ed', p', hmove, hat, ho, hmoved⟩ :=
    moveCursor_target hpad' (hrow ▸ h.alone) hm
  have hpad'' := hpad'.moved hat ho hmoved
  refine ⟨_, ?_, ((h.of_editor hpad'' (hmoved.remoteCursorRow.trans hrow)).tell
    (if app.remote then [moveMessage p'] else [])).setRenderEx .char⟩
  simp only [directionKey, hed, hmove, Option.bind_eq_bind, Option.bind_some]
  exact share_bind (a := { app with editor := ed' })
    (fun _ => sendCursor_eq hat) fun a => some (a.setRenderEx .char)

/-! ## Dispatch -/

/-- A key that edits or moves is handled by the editor. -/
theorem dispatch_editor (h : IsPad app s) (hb : (ev.ctrl && ev.c == 'b'.toUInt8) = false) :
    dispatch app ev = editorKey app ev := by
  simp [dispatch, filetreeCommandsTry, hb, h.focused, h.mode]

theorem dispatch_pad (h : IsPad app s) {k : Pad.Key UInt8} (hk : padKey ev = some k) :
    ∃ app', dispatch app ev = some app' ∧ IsPad app' (s.step newline space k) := by
  have hq : ¬ (0 : UInt8) = 'q'.toUInt8 := by decide
  unfold padKey at hk
  split at hk
  · cases hk
  next hescape =>
  split at hk
  · next hback =>
    -- Backspace
    split at hk
    · cases hk
    next hc =>
    obtain rfl := Option.some.inj hk
    have hc0 : ev.c = 0 := Decidable.not_not.1 hc
    have hkey : dispatch app ev = backspaceKey app ev := by
      rw [dispatch_editor h (by rw [hc0]; simp; exact fun _ => by decide)]
      simp [editorKey, hescape, hback, hc0, hq]
    rw [hkey, backspaceKey]
    obtain ⟨t, p, hpad⟩ := h.editor
    cases hs : app.editor.selActive with
    | true =>
      obtain ⟨q, -, hanchor⟩ := hpad.active hs
      obtain ⟨app', hdel, hpad'⟩ := deleteSelectionKey_pad h
      refine ⟨app', hdel, ?_⟩
      cases ev.ctrl <;> simpa [Pad.step, hanchor] using hpad'
    | false =>
      have hanchor := hpad.inactive hs
      cases hctrl : ev.ctrl with
      | true =>
        obtain ⟨app', hdel, hpad'⟩ := deleteWordKey_pad h hs
        exact ⟨app', hdel, by simpa [Pad.step, hanchor] using hpad'⟩
      | false =>
        obtain ⟨app', hdel, hpad'⟩ := deleteCharKey_pad h hs
        exact ⟨app', hdel, by simpa [Pad.step, hanchor] using hpad'⟩
  next hback =>
  split at hk
  · next hdir =>
    -- a cursor key
    split at hk
    · cases hk
    next hc =>
    obtain ⟨m, hm, rfl⟩ := Option.map_eq_some_iff.1 hk
    have hc0 : ev.c = 0 := Decidable.not_not.1 hc
    have hkey : dispatch app ev = directionKey app ev := by
      rw [dispatch_editor h (by rw [hc0]; simp; exact fun _ => by decide)]
      simp [editorKey, hescape, hback, hdir, hc0, hq]
    rw [hkey]
    exact directionKey_pad h hm
  next hdir =>
  have hdir0 : ev.dir = .none := Decidable.not_not.1 hdir
  split at hk
  · next hctrl =>
    -- the clipboard
    split at hk
    · next hc =>
      obtain rfl := Option.some.inj hk
      obtain ⟨t, p, hpad⟩ := h.editor
      obtain ⟨ed', hcopy, hpad', -, hrow⟩ := hpad.copySelection
      refine ⟨_, ?_, h.of_editor hpad' hrow⟩
      rw [dispatch_editor h (by rw [hc]; simp; exact fun _ => by decide)]
      simp [editorKey, hescape, hback, hdir0, hctrl, hc, hcopy,
        show ¬ 'c'.toUInt8 = 'q'.toUInt8 by decide]
    split at hk
    · next hc =>
      obtain rfl := Option.some.inj hk
      have hkey : dispatch app ev = cutKey app := by
        rw [dispatch_editor h (by rw [hc]; simp; exact fun _ => by decide)]
        simp [editorKey, hescape, hback, hdir0, hctrl, hc,
          show ¬ 'x'.toUInt8 = 'q'.toUInt8 by decide, show ¬ 'x'.toUInt8 = 'c'.toUInt8 by decide]
      rw [hkey]
      exact cutKey_pad h
    split at hk
    · next hc =>
      obtain rfl := Option.some.inj hk
      have hkey : dispatch app ev = pasteKey app := by
        rw [dispatch_editor h (by rw [hc]; simp; exact fun _ => by decide)]
        simp [editorKey, hescape, hback, hdir0, hctrl, hc,
          show ¬ 'v'.toUInt8 = 'q'.toUInt8 by decide, show ¬ 'v'.toUInt8 = 'c'.toUInt8 by decide,
          show ¬ 'v'.toUInt8 = 'x'.toUInt8 by decide]
      rw [hkey]
      exact pasteKey_pad h
    · cases hk
  next hctrl =>
  split at hk
  · cases hk
  next hcolon =>
  split at hk
  · next henter =>
    obtain rfl := Option.some.inj hk
    have hkey : dispatch app ev = enterKey app := by
      rw [dispatch_editor h (by simp [hctrl])]
      simp [editorKey, hescape, hback, hdir0, hctrl, hcolon, henter]
    rw [hkey]
    exact enterKey_pad h
  next henter =>
  split at hk
  · next hc =>
    obtain rfl := Option.some.inj hk
    have hkey : dispatch app ev = charKey app ev.c := by
      rw [dispatch_editor h (by simp [hctrl])]
      simp [editorKey, hescape, hback, hdir0, hctrl, hcolon, henter, hc]
    rw [hkey]
    exact charKey_pad h hc
  · cases hk

end IsPad

/-! ## Runs -/

/-- The string editor that a process stands for. -/
def pad (app : App) : Option (Pad UInt8) := do
  let t ← app.editor.doc.text
  return {
    toCaret := Text.caret newline t ⟨app.editor.cursorRow.toNat, app.editor.cursorCol.toNat⟩
    anchor := if app.editor.selActive then
        some (Text.offset t ⟨app.editor.selAnchorRow.toNat, app.editor.selAnchorCol.toNat⟩)
      else none
    clip := app.editor.clipboard.map (·.takeWhile (· ≠ 0)) }

variable {app : App}

theorem IsPad.pad (h : IsPad app s) : pad app = some s := by
  obtain ⟨t, p, hpad⟩ := h.editor
  have hcaret := hpad.caret
  obtain ⟨c, anchor, clip⟩ := s
  simp only at hcaret
  have hanchor := hpad.anchor
  have hclip := hpad.clip
  simp only [Commands.pad, hpad.at'.holds.shows.text_eq, Option.bind_eq_bind, Option.bind_some,
    Option.pure_def, hpad.at'.row, hpad.at'.col, Int.toNat_natCast, Option.some.injEq,
    Pad.mk.injEq]
  refine ⟨hcaret.symm, ?_, ?_⟩
  · rcases hanchor with ⟨hs, rfl⟩ | ⟨q, hsel, rfl⟩
    · simp [hs]
    · simp [hsel.active, hsel.row, hsel.col]
  · rcases hclip with ⟨hnone, rfl⟩ | ⟨x, rest, hsome, hx, rfl⟩
    · simp [hnone]
    · have hall : ∀ c ∈ x, decide (c ≠ 0) = true := by
        intro c hc
        exact decide_eq_true fun h0 => hx (h0 ▸ hc)
      rw [hsome, Option.map_some, List.takeWhile_append_of_pos hall]
      simp

/-- A sound editor with plain rows, in editor mode and alone, stands for a string. -/
theorem isPad (h : app.editor.Sound True t p) (plain : Text.Plain newline t)
    (nul : Text.All (· ≠ 0) t) (mode : app.bar.mode = .editor) (focused : app.tree.focused = false)
    (alone : app.editor.remoteCursorRow < 0) : ∃ s, IsPad app s := by
  refine ⟨⟨Text.caret newline t p, if app.editor.selActive then
      some (Text.offset t ⟨app.editor.selAnchorRow.toNat, app.editor.selAnchorCol.toNat⟩) else none,
    app.editor.clipboard.map (·.takeWhile (· ≠ 0))⟩, ⟨t, p, h.at', plain, nul, rfl, ?_, ?_⟩,
    mode, focused, alone⟩
  · cases hs : app.editor.selActive with
    | false => exact Or.inl ⟨rfl, rfl⟩
    | true =>
      obtain ⟨q, hsel⟩ := h.selected hs
      exact Or.inr ⟨q, hsel, by simp [hsel.row, hsel.col]⟩
  · cases hclip : app.editor.clipboard with
    | none => exact Or.inl ⟨rfl, rfl⟩
    | some clip =>
      obtain ⟨x, rest, rfl, hx⟩ := h.clip clip hclip
      refine Or.inr ⟨x, rest, rfl, hx, ?_⟩
      have hall : ∀ c ∈ x, decide (c ≠ 0) = true := by
        intro c hc
        exact decide_eq_true fun h0 => hx (h0 ▸ hc)
      simp only [Option.map_some]
      rw [List.takeWhile_append_of_pos hall]
      simp

theorem run_pad (h : IsPad app s) (evs : List KeyEvent) (hevs : ∀ ev ∈ evs, (padKey ev).isSome) :
    ∃ app', evs.foldlM dispatch app = some app' ∧
      IsPad app' ((evs.filterMap padKey).foldl (Pad.step newline space) s) := by
  induction evs generalizing app s with
  | nil => exact ⟨app, rfl, h⟩
  | cons ev evs ih =>
    obtain ⟨k, hk⟩ := Option.isSome_iff_exists.1 (hevs ev (List.mem_cons_self ..))
    obtain ⟨app₁, hstep, h₁⟩ := dispatch_pad h hk
    obtain ⟨app₂, hrun, h₂⟩ := ih h₁ fun e he => hevs e (List.mem_cons_of_mem _ he)
    refine ⟨app₂, ?_, ?_⟩
    · rw [List.foldlM_cons, hstep]
      exact hrun
    · rw [List.filterMap_cons_some hk]
      exact h₂

/-- A run of keys is a run over the string: the process stands at the end for what the
keys make of the string, the caret, the selection and the clipboard it stood for. -/
theorem keys_refine_pad (h : app.editor.Sound True t p) (plain : Text.Plain newline t)
    (nul : Text.All (· ≠ 0) t) (mode : app.bar.mode = .editor) (focused : app.tree.focused = false)
    (alone : app.editor.remoteCursorRow < 0) (evs : List KeyEvent)
    (hevs : ∀ ev ∈ evs, (padKey ev).isSome) :
    ∃ s app', pad app = some s ∧ evs.foldlM dispatch app = some app' ∧
      pad app' = some ((evs.filterMap padKey).foldl (Pad.step newline space) s) := by
  obtain ⟨s, hs⟩ := isPad h plain nul mode focused alone
  obtain ⟨app', hrun, hs'⟩ := run_pad hs evs hevs
  exact ⟨s, app', hs.pad, hrun, hs'.pad⟩

/-- A word selected backwards over a line end, cut, and pasted behind a typed blank. -/
theorem keys_refine_pad_cut : ∃ s app',
    pad (holding [['a'.toUInt8], ['b'.toUInt8]]) = some s ∧
      [{ KeyEvent.none with dir := .down }, { KeyEvent.none with dir := .up, shift := true },
        { KeyEvent.none with c := 'x'.toUInt8, ctrl := true },
        { KeyEvent.none with c := space },
        { KeyEvent.none with c := 'v'.toUInt8, ctrl := true }].foldlM dispatch
          (holding [['a'.toUInt8], ['b'.toUInt8]]) = some app' ∧
      pad app' = some (([{ KeyEvent.none with dir := .down },
        { KeyEvent.none with dir := .up, shift := true },
        { KeyEvent.none with c := 'x'.toUInt8, ctrl := true },
        { KeyEvent.none with c := space },
        { KeyEvent.none with c := 'v'.toUInt8, ctrl := true }].filterMap padKey).foldl
          (Pad.step newline space) s) := by
  refine keys_refine_pad (t := [['a'.toUInt8], ['b'.toUInt8]]) (p := ⟨0, 0⟩) ⟨?_, ?_, ?_⟩ ?_
    (by decide) rfl rfl (by decide) _ (by decide)
  · exact ⟨holding_holds _, Heap.zeros_ample, rfl, rfl, by decide⟩
  · intro hs
    cases hs
  · intro clip hclip
    cases hclip
  · intro x hx c hc hnl
    revert hx hc
    subst hnl
    decide +revert

/-- What is cut and pasted at once is back where it was, the cursor behind it. -/
theorem cut_paste_restores (h : app.editor.Sound True t p) (plain : Text.Plain newline t)
    (nul : Text.All (· ≠ 0) t) (mode : app.bar.mode = .editor) (focused : app.tree.focused = false)
    (alone : app.editor.remoteCursorRow < 0) (active : app.editor.selActive = true)
    {cut paste : KeyEvent} (hcut : padKey cut = some .cut) (hpaste : padKey paste = some .paste) :
    ∃ s a app', pad app = some s ∧ s.anchor = some a ∧
      [cut, paste].foldlM dispatch app = some app' ∧ app'.editor.doc.text = app.editor.doc.text ∧
      pad app' = some ⟨⟨s.text, (s.range a).2⟩, none, some (s.selected a)⟩ := by
  obtain ⟨s, hs⟩ := isPad h plain nul mode focused alone
  obtain ⟨app', hrun, hs'⟩ := run_pad hs [cut, paste] (by simp [hcut, hpaste])
  obtain ⟨t₀, p₀, hpad⟩ := hs.editor
  obtain ⟨q, hsel, hanchor⟩ := hpad.active active
  have hvalid : s.Valid := by
    refine ⟨?_, fun a ha => ?_⟩
    · rw [hpad.off, hpad.text]
      exact Text.offset_le newline hpad.at'.valid
    · obtain rfl := Option.some.inj (hanchor.symm.trans ha)
      rw [hpad.text]
      exact Text.offset_le newline hsel.valid
  have hstep : ([cut, paste].filterMap padKey).foldl (Pad.step newline space) s =
      (s.step newline space .cut).step newline space .paste := by
    simp [hcut, hpaste]
  rw [hstep, Pad.paste_cut newline space hvalid hanchor] at hs'
  refine ⟨s, _, app', hs.pad, hanchor, hrun, ?_, hs'.pad⟩
  -- plain rows are read back from the string
  obtain ⟨t₁, p₁, hpad₁⟩ := hs'.editor
  have hflat : Text.flat newline t₁ = Text.flat newline t₀ := hpad₁.text.symm.trans hpad.text
  have hne {t : List (List UInt8)} {p : Pos} (hp : Text.Valid t p) : t ≠ [] := by
    rintro rfl
    exact absurd hp.1 (Nat.not_lt_zero _)
  rw [hpad₁.at'.holds.shows.text_eq, hpad.at'.holds.shows.text_eq,
    hpad₁.plain.flat_inj hpad.plain (hne hpad₁.at'.valid) (hne hpad.at'.valid) hflat]

/-- Two rows, from the start of the first to the cursor in the second. -/
theorem cut_paste_restores_rows : ∃ s a app',
    pad { holding [['a'.toUInt8], ['b'.toUInt8]] with
      editor := { (holding [['a'.toUInt8], ['b'.toUInt8]]).editor with
        cursorRow := 1, cursorCol := 1, selActive := true } } = some s ∧ s.anchor = some a ∧
      [{ KeyEvent.none with c := 'x'.toUInt8, ctrl := true },
        { KeyEvent.none with c := 'v'.toUInt8, ctrl := true }].foldlM dispatch
          { holding [['a'.toUInt8], ['b'.toUInt8]] with
            editor := { (holding [['a'.toUInt8], ['b'.toUInt8]]).editor with
              cursorRow := 1, cursorCol := 1, selActive := true } } = some app' ∧
      app'.editor.doc.text = (holding [['a'.toUInt8], ['b'.toUInt8]]).editor.doc.text ∧
      pad app' = some ⟨⟨s.text, (s.range a).2⟩, none, some (s.selected a)⟩ := by
  refine cut_paste_restores (t := [['a'.toUInt8], ['b'.toUInt8]]) (p := ⟨1, 1⟩) ⟨?_, ?_, ?_⟩ ?_
    (by decide) rfl rfl (by decide) rfl (by decide) (by decide)
  · exact ⟨holding_holds _, Heap.zeros_ample, rfl, rfl, by decide⟩
  · intro hs
    exact ⟨⟨0, 0⟩, rfl, rfl, rfl, by decide⟩
  · intro clip hclip
    cases hclip
  · intro x hx c hc hnl
    revert hx hc
    subst hnl
    decide +revert

/-- Whatever is typed, as many erasures take it back. -/
theorem typed_erased (h : app.editor.Sound True t p) (plain : Text.Plain newline t)
    (nul : Text.All (· ≠ 0) t) (mode : app.bar.mode = .editor) (focused : app.tree.focused = false)
    (alone : app.editor.remoteCursorRow < 0) (inactive : app.editor.selActive = false)
    {typed erased : List KeyEvent} {x : List UInt8}
    (htyped : typed.map padKey = x.map fun c => some (.type c))
    (herased : erased.map padKey = List.replicate x.length (some .erase)) :
    ∃ app', (typed ++ erased).foldlM dispatch app = some app' ∧
      app'.editor.doc.text = app.editor.doc.text ∧
      app'.editor.cursorRow = app.editor.cursorRow ∧
      app'.editor.cursorCol = app.editor.cursorCol ∧ pad app' = pad app := by
  obtain ⟨s, hs⟩ := isPad h plain nul mode focused alone
  have hkeys : (typed ++ erased).map padKey =
      (x.map Pad.Key.type ++ List.replicate x.length Pad.Key.erase).map some := by
    rw [List.map_append, htyped, herased, List.map_append, List.map_map, List.map_replicate]
    rfl
  have hsome : ∀ ev ∈ typed ++ erased, (padKey ev).isSome := by
    intro ev hev
    have hmem := List.mem_map_of_mem (f := padKey) hev
    rw [hkeys] at hmem
    obtain ⟨k, -, hk⟩ := List.mem_map.1 hmem
    rw [← hk]
    rfl
  have hfilter : (typed ++ erased).filterMap padKey =
      x.map Pad.Key.type ++ List.replicate x.length Pad.Key.erase := by
    have hid := congrArg (List.filterMap id) hkeys
    rw [List.filterMap_map, List.filterMap_map] at hid
    simpa using hid
  obtain ⟨app', hrun, hs'⟩ := run_pad hs _ hsome
  obtain ⟨t₀, p₀, hpad⟩ := hs.editor
  have hvalid : s.Valid := by
    refine ⟨?_, fun a ha => ?_⟩
    · rw [hpad.off, hpad.text]
      exact Text.offset_le newline hpad.at'.valid
    · rw [hpad.inactive inactive] at ha
      cases ha
  rw [hfilter, List.foldl_append, Pad.erase_typed newline space hvalid (hpad.inactive inactive)]
    at hs'
  obtain ⟨t₁, p₁, hpad₁⟩ := hs'.editor
  have hflat : Text.flat newline t₁ = Text.flat newline t₀ := hpad₁.text.symm.trans hpad.text
  have hne {t : List (List UInt8)} {p : Pos} (hp : Text.Valid t p) : t ≠ [] := by
    rintro rfl
    exact absurd hp.1 (Nat.not_lt_zero _)
  obtain rfl := hpad₁.plain.flat_inj hpad.plain (hne hpad₁.at'.valid) (hne hpad.at'.valid) hflat
  obtain rfl := Text.offset_inj newline hpad₁.at'.valid hpad.at'.valid
    (hpad₁.off.symm.trans hpad.off)
  refine ⟨app', hrun, ?_, ?_, ?_, hs'.pad.trans hs.pad.symm⟩
  · rw [hpad₁.at'.holds.shows.text_eq, hpad.at'.holds.shows.text_eq]
  · rw [hpad₁.at'.row, hpad.at'.row]
  · rw [hpad₁.at'.col, hpad.at'.col]

/-- A character and a line end typed before a row. -/
theorem typed_erased_line : ∃ app',
    ([{ KeyEvent.none with c := 'b'.toUInt8 }, { KeyEvent.none with enter := true }] ++
      [{ KeyEvent.none with backspace := true }, { KeyEvent.none with backspace := true }]).foldlM
        dispatch (holding [['a'.toUInt8]]) = some app' ∧
      app'.editor.doc.text = (holding [['a'.toUInt8]]).editor.doc.text ∧
      app'.editor.cursorRow = (holding [['a'.toUInt8]]).editor.cursorRow ∧
      app'.editor.cursorCol = (holding [['a'.toUInt8]]).editor.cursorCol ∧
      pad app' = pad (holding [['a'.toUInt8]]) := by
  refine typed_erased (t := [['a'.toUInt8]]) (p := ⟨0, 0⟩) (x := ['b'.toUInt8, newline])
    ⟨?_, ?_, ?_⟩ ?_ (by decide) rfl rfl (by decide) rfl (by decide) (by decide)
  · exact ⟨holding_holds _, Heap.zeros_ample, rfl, rfl, by decide⟩
  · intro hs
    cases hs
  · intro clip hclip
    cases hclip
  · intro x hx c hc hnl
    revert hx hc
    subst hnl
    decide +revert

end Keys

end Commands

end LCode
