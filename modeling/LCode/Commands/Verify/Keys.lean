import LCode.Commands.Verify.Transmit
import LCode.Editor.Verify.Selection

/-!
# Keys in the editor

What a key does to a process in editor mode without a selection: the edit or
move of the editor at its cursor and, while the document is shared, the packet
that tells the peer.
-/

namespace LCode

open Serial

/-! ## Scheduling a redraw -/

/-- `set_render_ex` touches the render schedule and the dirty flags only. -/
theorem App.setRenderEx_eq (app : App) (mode : RenderMode) : ∃ scrollDirty selDirty renderMode,
    app.setRenderEx mode =
      { app with editor := { app.editor with scrollDirty, selDirty }, renderMode } := by
  cases hscroll : app.editor.scrollDirty with
  | true =>
    refine ⟨false, app.editor.selDirty, setRenderMode app.renderMode .full, ?_⟩
    simp [setRenderEx, Editor.consumeScrollDirty, setRender, hscroll]
  | false =>
    cases hsel : app.editor.selDirty with
    | true =>
      refine ⟨false, false, setRenderMode app.renderMode .full, ?_⟩
      simp [setRenderEx, Editor.consumeScrollDirty, Editor.consumeSelDirty, setRender, hscroll,
        hsel]
    | false =>
      refine ⟨false, false,
        setRenderMode app.renderMode (if app.editor.selActive then .full else mode), ?_⟩
      simp [setRenderEx, Editor.consumeScrollDirty, Editor.consumeSelDirty, setRender, hscroll,
        hsel]

theorem Editor.At.setRenderEx {T : Prop} {a : App} {t : List (List UInt8)} {p : Pos}
    (h : a.editor.At T t p) (mode : RenderMode) : (a.setRenderEx mode).editor.At T t p := by
  obtain ⟨_, _, _, heq⟩ := a.setRenderEx_eq mode
  rw [heq]
  exact ⟨h.holds, h.ample, h.row, h.col, h.valid⟩

/-! ## Plain keys -/

/-- An event without a key. -/
def KeyEvent.none : KeyEvent := ⟨0, false, false, false, false, false, false, .none⟩

/-- The key types the character `c`. -/
structure KeyEvent.Types (ev : KeyEvent) (c : UInt8) : Prop where
  escape : ev.escape = false
  backspace : ev.backspace = false
  dir : ev.dir = .none
  ctrl : ev.ctrl = false
  colon : ev.c ≠ ':'.toUInt8
  char : (ev.enter = true ∧ c = newline) ∨ (ev.enter = false ∧ ev.c ≠ 0 ∧ c = ev.c)

/-- The key is Backspace without Ctrl. -/
structure KeyEvent.Erases (ev : KeyEvent) : Prop where
  escape : ev.escape = false
  backspace : ev.backspace = true
  ctrl : ev.ctrl = false

/-- The key is a cursor key without Shift. -/
structure KeyEvent.Moves (ev : KeyEvent) (dir : Direction) : Prop where
  escape : ev.escape = false
  backspace : ev.backspace = false
  shift : ev.shift = false
  char : ev.c = 0
  dir_eq : ev.dir = dir
  dir_ne : dir ≠ .none

namespace Commands

/-! ## What a key leaves -/

/-- Text, cursor and selection apart the process stays as it was, and sends `ms`
while the text is shared. -/
structure Tells (app app' : App) (ms : List Message) : Prop where
  remoteRow : app'.editor.remoteCursorRow = app.editor.remoteCursorRow
  remoteCol : app'.editor.remoteCursorCol = app.editor.remoteCursorCol
  clipboard : app'.editor.clipboard = app.editor.clipboard
  bar : app'.bar = app.bar
  tree : app'.tree = app.tree
  scene : app'.scene = app.scene
  files : app'.files = app.files
  remote : app'.remote = app.remote
  fileNumLines : app'.fileNumLines = app.fileNumLines
  sent : app'.sent = app.sent ++ stream (if app.remote then ms else [])
  scrolled : app.editor.Scrolled → app'.editor.Scrolled

/-- The key has made `t` of the text and taken the cursor to `p`. -/
structure Edited (T : Prop) (app app' : App) (t : List (List UInt8)) (p : Pos)
    (ms : List Message) : Prop extends Tells app app' ms where
  at' : app'.editor.At T t p
  inactive : app'.editor.selActive = false

section Leaves

variable {T : Prop} {a a' : App} {t : List (List UInt8)} {p : Pos} {ms : List Message}

theorem tells {ed : Editor} (hrow : ed.remoteCursorRow = a.editor.remoteCursorRow)
    (hcol : ed.remoteCursorCol = a.editor.remoteCursorCol)
    (hclip : ed.clipboard = a.editor.clipboard) (hscroll : a.editor.Scrolled → ed.Scrolled) :
    Tells a (tell { a with editor := ed } (if a.remote then ms else [])) ms :=
  ⟨hrow, hcol, hclip, rfl, rfl, rfl, rfl, rfl, rfl, rfl, hscroll⟩

theorem Tells.setRenderEx (h : Tells a a' ms) (mode : RenderMode) :
    Tells a (a'.setRenderEx mode) ms := by
  obtain ⟨_, _, _, heq⟩ := a'.setRenderEx_eq mode
  rw [heq]
  exact ⟨h.remoteRow, h.remoteCol, h.clipboard, h.bar, h.tree, h.scene, h.files, h.remote,
    h.fileNumLines, h.sent, fun hs => ⟨(h.scrolled hs).row, (h.scrolled hs).col⟩⟩

theorem Edited.setRender (h : Edited T a a' t p ms) (mode : RenderMode) :
    Edited T a (a'.setRender mode) t p ms :=
  ⟨⟨h.remoteRow, h.remoteCol, h.clipboard, h.bar, h.tree, h.scene, h.files, h.remote,
    h.fileNumLines, h.sent, h.scrolled⟩, h.at', h.inactive⟩

theorem Edited.setRenderEx (h : Edited T a a' t p ms) (mode : RenderMode) :
    Edited T a (a'.setRenderEx mode) t p ms := by
  refine ⟨h.toTells.setRenderEx mode, h.at'.setRenderEx mode, ?_⟩
  obtain ⟨_, _, _, heq⟩ := a'.setRenderEx_eq mode
  rw [heq]
  exact h.inactive

/-- The packets of a handler that has gone to `p`. -/
theorem edited_goto {ed : Editor} {doc : Doc} (hat : (ed.goto doc p).At T t p)
    (hs : ed.selActive = false) (hrow : ed.remoteCursorRow = a.editor.remoteCursorRow)
    (hcol : ed.remoteCursorCol = a.editor.remoteCursorCol)
    (hclip : ed.clipboard = a.editor.clipboard) (hscroll : a.editor.Scrolled → ed.Scrolled) :
    Edited T a (tell { a with editor := ed.goto doc p } (if a.remote then ms else [])) t p ms :=
  ⟨tells (by simpa using hrow) (by simpa using hcol) (by simpa using hclip)
    fun h => (hscroll h).goto _ _, hat, by simpa [tell] using hs⟩

/-- A packet is sent while the text is shared. -/
theorem share_bind {told : Option App} (h : a.remote = true → told = some (tell a ms))
    (f : App → Option App) :
    (if a.remote then told.bind f else f a) = f (tell a (if a.remote then ms else [])) := by
  cases hr : a.remote with
  | false => simp [tell_nil]
  | true => simp [h hr]

end Leaves

/-- The keyboard goes to the text of a shared document, nothing is selected. -/
structure Editing (app : App) : Prop where
  mode : app.bar.mode = .editor
  focused : app.tree.focused = false
  remote : app.remote = true
  inactive : app.editor.selActive = false

theorem Edited.editing {T : Prop} {a a' : App} {t : List (List UInt8)} {p : Pos}
    {ms : List Message} (h : Edited T a a' t p ms) (he : Editing a) : Editing a' :=
  ⟨h.bar ▸ he.mode, h.tree ▸ he.focused, h.remote ▸ he.remote, h.inactive⟩

/-! ## Handlers -/

section Handlers

variable {T : Prop} {a : App} {ev : KeyEvent} {t : List (List UInt8)} {p : Pos}

/-- A character without a selection. -/
theorem charKey_eq (h : a.editor.At T t p) (hs : a.editor.selActive = false) (c : UInt8) :
    ∃ a', charKey a c = some a' ∧ Edited T a a' (Text.insert newline t p c)
      (Text.afterInsert newline p c) [⟨.insertChar, [c]⟩] := by
  obtain ⟨doc, hins, hat⟩ := h.insertChar c
  refine ⟨_, ?_, (edited_goto hat hs rfl rfl rfl id).setRenderEx .line⟩
  simp only [charKey, hs, Bool.false_eq_true, if_false, hins, Option.bind_eq_bind,
    Option.bind_some, afterEdit, reduceCtorEq]
  exact share_bind (a := { a with editor := a.editor.goto doc (Text.afterInsert newline p c) })
    (fun _ => sendPacket_eq (m := ⟨.insertChar, [c]⟩) rfl) fun a => some (a.setRenderEx .line)

/-- Enter without a selection. -/
theorem enterKey_eq (h : a.editor.At T t p) (hs : a.editor.selActive = false) :
    ∃ a', enterKey a = some a' ∧ Edited T a a' (Text.insert newline t p newline)
      (Text.afterInsert newline p newline) [⟨.insertChar, [newline]⟩] := by
  obtain ⟨doc, hins, hat⟩ := h.insertChar newline
  refine ⟨_, ?_, (edited_goto hat hs rfl rfl rfl id).setRender .full⟩
  simp only [enterKey, hs, Bool.false_eq_true, if_false, hins, Option.bind_eq_bind,
    Option.bind_some, afterEdit, reduceCtorEq]
  exact share_bind
    (a := { a with editor := a.editor.goto doc (Text.afterInsert newline p newline) })
    (fun _ => sendPacket_eq (m := ⟨.insertChar, [newline]⟩) rfl) fun a => some (a.setRender .full)

/-- Backspace without a selection. -/
theorem deleteCharKey_eq (h : a.editor.At T t p) (hs : a.editor.selActive = false) :
    ∃ a', deleteCharKey a = some a' ∧ Edited T a a' (Text.backspace t p)
      (Text.afterBackspace t p) [⟨.deleteChar, []⟩] := by
  obtain ⟨doc, hdel, hat⟩ := h.deleteChar
  refine ⟨_, ?_, (edited_goto hat hs rfl rfl rfl id).setRenderEx
    (if decide (0 < a.editor.cursorCol) then .line else .full)⟩
  simp only [deleteCharKey, hdel, Option.bind_eq_bind, Option.bind_some, afterEdit, reduceCtorEq,
    if_false]
  exact share_bind (a := { a with editor := a.editor.goto doc (Text.afterBackspace t p) })
    (fun _ => sendPacket_eq (m := ⟨.deleteChar, []⟩) rfl) fun b =>
      some (b.setRenderEx (if decide (0 < a.editor.cursorCol) then .line else .full))

/-! ## Cursor keys -/

/-- Where a cursor key takes the cursor from `p`, next to a remote cursor in
`remoteRow`. A word key stays in the row. -/
def Target (ev : KeyEvent) (t : List (List UInt8)) (p : Pos) (remoteRow : Int) (p' : Pos) : Prop :=
  match ev.dir with
  | .left => if ev.ctrl then p'.row = p.row ∧ p'.col ≤ p.col else p' = Text.left t p
  | .right =>
    if ev.ctrl then p'.row = p.row ∧ p'.col ≤ (Text.row t p.row).length else p' = Text.right t p
  | .up => p' = if 0 < p.row ∧ remoteRow + 1 ≠ p.row then Text.enter t p (p.row - 1) else p
  | .down =>
    p' = if p.row + 1 < t.length ∧ remoteRow ≠ p.row + 1 then Text.enter t p (p.row + 1) else p
  | .home => p' = ⟨p.row, 0⟩
  | .end => p' = ⟨p.row, (Text.row t p.row).length⟩
  | .none => p' = p

/-- A cursor key goes to its target, or is refused there. -/
theorem moveCursor_pointed {ed : Editor} (h : ed.Pointed T t p) (ev : KeyEvent) :
    ∃ p' ed', moveCursor ed ev = some ed' ∧ Text.Valid t p' ∧
      Target ev t p ed.remoteCursorRow p' ∧ (ed' = ed ∧ p' = p ∨ ed' = ed.goto ed.doc p') := by
  have hgo {q : Pos} (hq : Text.Valid t q) (hmove : moveCursor ed ev = some (ed.goto ed.doc q))
      (htarget : Target ev t p ed.remoteCursorRow q) : ∃ p' ed', moveCursor ed ev = some ed' ∧
        Text.Valid t p' ∧ Target ev t p ed.remoteCursorRow p' ∧
        (ed' = ed ∧ p' = p ∨ ed' = ed.goto ed.doc p') :=
    ⟨q, _, hmove, hq, htarget, Or.inr rfl⟩
  cases hdir : ev.dir with
  | left =>
    cases hctrl : ev.ctrl with
    | false =>
      exact hgo h.valid.left (by simp [moveCursor, hdir, hctrl, h.moveLeft])
        (by simp [Target, hdir, hctrl])
    | true =>
      obtain ⟨k, hk, hword⟩ := h.moveWordLeft
      exact hgo (q := ⟨p.row, k⟩) ⟨h.valid.1, Nat.le_trans hk h.valid.2⟩ (by
        simp [moveCursor, hdir, hctrl, hword]) (by simp [Target, hdir, hctrl, hk])
  | right =>
    cases hctrl : ev.ctrl with
    | false =>
      exact hgo h.valid.right (by simp [moveCursor, hdir, hctrl, h.moveRight])
        (by simp [Target, hdir, hctrl])
    | true =>
      obtain ⟨k, -, hk, hword⟩ := h.moveWordRight
      exact hgo (q := ⟨p.row, k⟩) ⟨h.valid.1, hk⟩ (by simp [moveCursor, hdir, hctrl, hword])
        (by simp [Target, hdir, hctrl, hk])
  | up =>
    by_cases hrow : 0 < p.row
    · by_cases hrem : ed.remoteCursorRow + 1 = p.row
      · exact ⟨p, ed, by simp [moveCursor, hdir, h.moveUp, hrow, hrem], h.valid,
          by simp [Target, hdir, hrem], Or.inl ⟨rfl, rfl⟩⟩
      · exact hgo (Text.valid_enter p (Nat.lt_of_le_of_lt (Nat.sub_le _ _) h.valid.1))
          (by simp [moveCursor, hdir, h.moveUp, hrow, hrem]; rfl)
          (by simp [Target, hdir, hrow, hrem])
    · exact hgo h.valid (by simp [moveCursor, hdir, h.moveUp, hrow])
        (by simp [Target, hdir, hrow])
  | down =>
    by_cases hrow : p.row + 1 < t.length
    · by_cases hrem : ed.remoteCursorRow = p.row + 1
      · exact ⟨p, ed, by simp [moveCursor, hdir, h.moveDown, hrow, hrem], h.valid,
          by simp [Target, hdir, hrem], Or.inl ⟨rfl, rfl⟩⟩
      · exact hgo (Text.valid_enter p hrow)
          (by simp [moveCursor, hdir, h.moveDown, hrow, hrem])
          (by simp [Target, hdir, hrow, hrem])
    · exact hgo h.valid (by simp [moveCursor, hdir, h.moveDown, hrow])
        (by simp [Target, hdir, hrow])
  | home =>
    exact hgo (q := ⟨p.row, 0⟩) ⟨h.valid.1, Nat.zero_le _⟩ (by simp [moveCursor, hdir, h.moveHome])
      (by simp [Target, hdir])
  | «end» =>
    exact hgo (q := ⟨p.row, (Text.row t p.row).length⟩) ⟨h.valid.1, Nat.le_refl _⟩
      (by simp [moveCursor, hdir, h.moveEnd]) (by simp [Target, hdir])
  | none =>
    exact ⟨p, ed, by simp [moveCursor, hdir], h.valid, by simp [Target, hdir], Or.inl ⟨rfl, rfl⟩⟩

theorem moveCursor_eq {ed : Editor} (h : ed.At T t p) (ev : KeyEvent) :
    ∃ p' ed', moveCursor ed ev = some ed' ∧ ed'.At T t p' ∧
      Target ev t p ed.remoteCursorRow p' ∧ ed.Moved ed' := by
  obtain ⟨p', ed', hmove, hvalid, htarget, ⟨rfl, rfl⟩ | rfl⟩ := moveCursor_pointed h.pointed ev
  · exact ⟨p', ed', hmove, h, htarget, .refl ed'⟩
  · exact ⟨p', _, hmove, h.of_valid hvalid, htarget, Editor.moved_goto ed p'⟩

/-- A cursor key; with Shift it selects from where the cursor was. -/
theorem directionKey_eq (h : a.editor.At T t p) (ev : KeyEvent) :
    ∃ a' p', directionKey a ev = some a' ∧ Target ev t p a.editor.remoteCursorRow p' ∧
      a'.editor.At T t p' ∧ Tells a a' [moveMessage p'] ∧ a'.editor.selActive = ev.shift ∧
      (a'.editor.selActive = true →
        (a'.editor.selAnchorRow = p.row ∧ a'.editor.selAnchorCol = p.col) ∨
          (a.editor.selActive = true ∧ a'.editor.selAnchorRow = a.editor.selAnchorRow ∧
            a'.editor.selAnchorCol = a.editor.selAnchorCol)) := by
  -- the selection is set up before the cursor moves
  obtain ⟨ed, hed, hat, hscroll, hrow, hcol, hclip, hsel, hanchor⟩ : ∃ ed,
      (if ev.shift then if !a.editor.selActive then a.editor.selSetAnchor else a.editor
        else a.editor.selClear) = ed ∧ ed.At T t p ∧ (a.editor.Scrolled → ed.Scrolled) ∧
      ed.remoteCursorRow = a.editor.remoteCursorRow ∧
      ed.remoteCursorCol = a.editor.remoteCursorCol ∧ ed.clipboard = a.editor.clipboard ∧
      ed.selActive = ev.shift ∧ (ed.selActive = true →
        (ed.selAnchorRow = p.row ∧ ed.selAnchorCol = p.col) ∨
          (a.editor.selActive = true ∧ ed.selAnchorRow = a.editor.selAnchorRow ∧
            ed.selAnchorCol = a.editor.selAnchorCol)) := by
    refine ⟨_, rfl, ?_⟩
    have hat' := h
    obtain ⟨holds, ample, hrow, hcol, valid⟩ := hat'
    cases hshift : ev.shift with
    | false =>
      exact ⟨⟨holds, ample, hrow, hcol, valid⟩, fun h => ⟨h.row, h.col⟩, rfl, rfl, rfl, rfl,
        fun h => nomatch h⟩
    | true =>
      cases hactive : a.editor.selActive with
      | false =>
        exact ⟨⟨holds, ample, hrow, hcol, valid⟩, fun h => ⟨h.row, h.col⟩, rfl, rfl, rfl, rfl,
          fun _ => Or.inl ⟨hrow, hcol⟩⟩
      | true => exact ⟨h, id, rfl, rfl, rfl, hactive, fun _ => Or.inr ⟨rfl, rfl, rfl⟩⟩
  obtain ⟨p', ed', hmove, hat', htarget, hmoved⟩ := moveCursor_eq hat ev
  have htells : Tells a (tell { a with editor := ed' } (if a.remote then [moveMessage p'] else []))
      [moveMessage p'] :=
    tells (hmoved.remoteCursorRow.trans hrow) (hmoved.remoteCursorCol.trans hcol)
      (hmoved.clipboard.trans hclip) fun h => hmoved.scrolled (hscroll h)
  refine ⟨_, p', ?_, hrow ▸ htarget, hat'.setRenderEx (a := tell { a with editor := ed' } _) .char,
    htells.setRenderEx .char, ?_, ?_⟩
  · simp only [directionKey, hed, hmove, Option.bind_eq_bind, Option.bind_some]
    exact share_bind (a := { a with editor := ed' }) (fun _ => sendCursor_eq hat') fun a =>
      some (a.setRenderEx .char)
  · obtain ⟨_, _, _, heq⟩ := (tell { a with editor := ed' }
      (if a.remote then [moveMessage p'] else [])).setRenderEx_eq .char
    rw [heq]
    exact hmoved.selActive.trans hsel
  · obtain ⟨_, _, _, heq⟩ := (tell { a with editor := ed' }
      (if a.remote then [moveMessage p'] else [])).setRenderEx_eq .char
    rw [heq]
    simp only [tell_editor, hmoved.selActive, hmoved.selAnchorRow, hmoved.selAnchorCol]
    exact hanchor

end Handlers

/-! ## Dispatch -/

section Dispatch

variable {T : Prop} {a : App} {ev : KeyEvent} {t : List (List UInt8)} {p : Pos}

/-- The file tree passes the key on. -/
theorem dispatch_editing (h : Editing a) (hctrl : ev.ctrl = false ∨ ev.c = 0) :
    dispatch a ev = editorKey a ev := by
  have hb : (ev.ctrl && ev.c == 'b'.toUInt8) = false := by
    rcases hctrl with hc | hc
    · simp [hc]
    · simp only [hc, Bool.and_eq_false_iff]
      exact Or.inr rfl
  simp [dispatch, filetreeCommandsTry, hb, h.focused, h.mode]

/-- A typed character, or Enter. -/
theorem dispatch_types (h : a.editor.At T t p) (he : Editing a) {c : UInt8} (hev : ev.Types c) :
    ∃ a', dispatch a ev = some a' ∧ Edited T a a' (Text.insert newline t p c)
      (Text.afterInsert newline p c) [⟨.insertChar, [c]⟩] := by
  rw [dispatch_editing he (Or.inl hev.ctrl)]
  rcases hev.char with ⟨hent, rfl⟩ | ⟨hent, hc, rfl⟩
  · have hkey : editorKey a ev = enterKey a := by
      simp [editorKey, hev.escape, hev.backspace, hev.dir, hev.ctrl, hev.colon, hent]
    rw [hkey]
    exact enterKey_eq h he.inactive
  · have hkey : editorKey a ev = charKey a ev.c := by
      simp [editorKey, hev.escape, hev.backspace, hev.dir, hev.ctrl, hev.colon, hent, hc]
    rw [hkey]
    exact charKey_eq h he.inactive ev.c

/-- Backspace. -/
theorem dispatch_erases (h : a.editor.At T t p) (he : Editing a) (hev : ev.Erases) :
    ∃ a', dispatch a ev = some a' ∧
      Edited T a a' (Text.backspace t p) (Text.afterBackspace t p) [⟨.deleteChar, []⟩] := by
  have hkey : editorKey a ev = deleteCharKey a := by
    simp [editorKey, hev.escape, hev.backspace, hev.ctrl, backspaceKey, he.inactive]
  rw [dispatch_editing he (Or.inl hev.ctrl), hkey]
  exact deleteCharKey_eq h he.inactive

/-- A cursor key without Shift. -/
theorem dispatch_moves (h : a.editor.At T t p) (he : Editing a) {dir : Direction}
    (hev : ev.Moves dir) :
    ∃ a' p', dispatch a ev = some a' ∧ Target ev t p a.editor.remoteCursorRow p' ∧
      Edited T a a' t p' [moveMessage p'] := by
  have hq : ¬ (0 : UInt8) = 'q'.toUInt8 := by decide
  have hkey : editorKey a ev = directionKey a ev := by
    have hdir : ev.dir ≠ .none := hev.dir_eq ▸ hev.dir_ne
    simp [editorKey, hev.escape, hev.backspace, hev.char, hdir, hq]
  rw [dispatch_editing he (Or.inr hev.char), hkey]
  obtain ⟨a', p', hdir, htarget, hat, htells, hsel, -⟩ := directionKey_eq h ev
  exact ⟨a', p', hdir, htarget, htells, hat, hsel.trans hev.shift⟩

end Dispatch

end Commands

end LCode
