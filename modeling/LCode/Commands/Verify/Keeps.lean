import LCode.Commands.Basic
import LCode.Lib.Sat

/-!
# What the handlers leave alone

A property that no single update of the state touches is an invariant of every
handler. The first half is about the handlers that edit and transmit; the second
also allows what opens, saves and navigates.
-/

namespace LCode

namespace Commands

/-! ## Edits -/

/-- An edit, a packet, a status message and a redraw keep `P`. No handler schedules
RENDER_WORD. -/
structure Keeps (P : App → Prop) : Prop where
  editor : ∀ {app : App} (editor : Editor), P app → P { app with editor }
  sent : ∀ {app : App} (sent : List UInt8), P app → P { app with sent }
  status : ∀ {app : App} (msg : String), P app → P (app.setStatus msg)
  render : ∀ {app : App} {mode : RenderMode}, mode ≠ .word → P app → P (app.setRender mode)

namespace Keeps

variable {P : App → Prop} {app : App}

theorem setRenderEx (hP : Keeps P) {mode : RenderMode} (hmode : mode ≠ .word) (h : P app) :
    P (app.setRenderEx mode) := by
  unfold App.setRenderEx
  dsimp only
  split
  · exact hP.render nofun (hP.editor _ h)
  · split
    · exact hP.render nofun (hP.editor _ (hP.editor _ h))
    · refine hP.render ?_ (hP.editor _ (hP.editor _ h))
      split
      · exact nofun
      · exact hmode

theorem outOfMemory (hP : Keeps P) (h : P app) : P app.outOfMemory :=
  hP.render nofun (hP.status _ h)

/-- A handler that ends with a redraw. -/
theorem thenRenderEx (hP : Keeps P) {x : Option App} (hx : Sat P x) {mode : RenderMode}
    (hmode : mode ≠ .word) : Sat P (x.bind fun app => some (app.setRenderEx mode)) :=
  hx.bind fun _ h => .some (hP.setRenderEx hmode h)

theorem thenRenderFull (hP : Keeps P) {x : Option App} (hx : Sat P x) :
    Sat P (x.bind fun app => some (app.setRender .full)) :=
  hx.bind fun _ h => .some (hP.render nofun h)

/-! ## Packets -/

theorem sendPacket (hP : Keeps P) (h : P app) (cmd : SerialCommand) (payload : Buf)
    (len numLines : Int) : Sat P (sendPacket app cmd payload len numLines) :=
  Sat.of_bind fun _ => .some (hP.sent _ h)

theorem sendCursor (hP : Keeps P) (h : P app) : Sat P (sendCursor app) :=
  hP.sendPacket h _ _ _ _

theorem sendRow (hP : Keeps P) (h : P app) (cmd : SerialCommand) (row numLines : Int) :
    Sat P (sendRow app cmd row numLines) :=
  Sat.of_bind fun _ => Sat.of_bind fun _ => hP.sendPacket h _ _ _ _

theorem sendUpdateLines (hP : Keeps P) (h : P app) (row : Int) (n : Nat) :
    Sat P (sendUpdateLines app row n) := by
  induction n generalizing app row with
  | zero => exact .some h
  | succ n ih => exact (hP.sendRow h _ _ _).bind fun _ h => ih h _

theorem syncBlock (hP : Keeps P) (h : P app) (startRow deleted inserted : Int) :
    Sat P (syncBlock app startRow deleted inserted) := by
  unfold Commands.syncBlock
  dsimp only
  split
  · exact .some h
  · split
    · exact (hP.sendRow h _ _ _).bind fun _ h => hP.sendCursor h
    · refine (hP.sendPacket h _ _ _ _).bind fun _ h => ?_
      exact (hP.sendUpdateLines h _ _).bind fun _ h => hP.sendCursor h

/-! ## Keys -/

theorem afterEdit (hP : Keeps P) (h : P app) (res : EditorResult) {done : App → Option App}
    (hdone : Sat P (done app)) : Sat P (afterEdit app res done) := by
  unfold Commands.afterEdit
  split
  · exact .some (hP.outOfMemory h)
  · exact hdone

theorem deleteSelectionKey (hP : Keeps P) (h : P app) : Sat P (deleteSelectionKey app) := by
  refine Sat.of_bind fun ⟨res, editor⟩ => hP.afterEdit (hP.editor editor h) res ?_
  dsimp only
  split
  · exact hP.thenRenderEx (hP.syncBlock (hP.editor editor h) _ _ _) nofun
  · exact hP.thenRenderEx (.some (hP.editor editor h)) nofun

theorem deleteWordKey (hP : Keeps P) (h : P app) : Sat P (deleteWordKey app) := by
  unfold Commands.deleteWordKey
  split
  all_goals
    refine Sat.of_bind fun ⟨res, editor⟩ => hP.afterEdit (hP.editor editor h) res ?_
    dsimp only
    split
    · exact hP.thenRenderEx (hP.syncBlock (hP.editor editor h) _ _ _) nofun
    · exact hP.thenRenderEx (.some (hP.editor editor h)) nofun

theorem deleteCharKey (hP : Keeps P) (h : P app) : Sat P (deleteCharKey app) := by
  have hmode (b : Bool) : (if b then RenderMode.line else .full) ≠ .word := by
    cases b <;> exact nofun
  refine Sat.of_bind fun ⟨res, editor⟩ => hP.afterEdit (hP.editor editor h) res ?_
  dsimp only
  split
  · exact hP.thenRenderEx (hP.sendPacket (hP.editor editor h) _ _ _ _) (hmode _)
  · exact hP.thenRenderEx (.some (hP.editor editor h)) (hmode _)

theorem backspaceKey (hP : Keeps P) (h : P app) (ev : KeyEvent) : Sat P (backspaceKey app ev) :=
  .ite (hP.deleteSelectionKey h) (.ite (hP.deleteWordKey h) (hP.deleteCharKey h))

theorem directionKey (hP : Keeps P) (h : P app) (ev : KeyEvent) :
    Sat P (directionKey app ev) := by
  refine Sat.of_bind fun editor => ?_
  dsimp only
  split
  · exact hP.thenRenderEx (hP.sendCursor (hP.editor editor h)) nofun
  · exact hP.thenRenderEx (.some (hP.editor editor h)) nofun

theorem cutKey (hP : Keeps P) (h : P app) : Sat P (cutKey app) :=
  Sat.of_bind fun editor =>
    .ite (hP.deleteSelectionKey (hP.editor editor h)) (.some (hP.editor editor h))

theorem pasteKey (hP : Keeps P) (h : P app) : Sat P (pasteKey app) := by
  unfold Commands.pasteKey
  dsimp only
  split
  all_goals
    refine Sat.of_bind fun _ => Sat.of_bind fun ⟨res, editor⟩ => ?_
    cases res with
    | ok =>
      dsimp only
      split
      · exact hP.thenRenderEx (hP.syncBlock (hP.editor editor h) _ _ _) nofun
      · exact hP.thenRenderEx (.some (hP.editor editor h)) nofun
    | errNoClipboard => exact .some (hP.render nofun (hP.status _ (hP.editor editor h)))
    | errAllocFailed => exact .some (hP.outOfMemory (hP.editor editor h))

theorem insertOverSelection (hP : Keeps P) (h : P app) (c : UInt8) (inserted : Int) :
    Sat P (insertOverSelection app c inserted) := by
  refine Sat.of_bind fun _ => Sat.of_bind fun ⟨res, editor⟩ => ?_
  dsimp only
  split
  · split
    · exact hP.thenRenderFull (hP.syncBlock (hP.editor editor h) _ _ _)
    · exact hP.thenRenderFull (.some (hP.editor editor h))
  · exact .some (hP.editor editor h)

theorem enterKey (hP : Keeps P) (h : P app) : Sat P (enterKey app) := by
  unfold Commands.enterKey
  split
  · exact hP.insertOverSelection h _ _
  · refine Sat.of_bind fun ⟨res, editor⟩ => hP.afterEdit (hP.editor editor h) res ?_
    dsimp only
    split
    · exact hP.thenRenderFull (hP.sendPacket (hP.editor editor h) _ _ _ _)
    · exact hP.thenRenderFull (.some (hP.editor editor h))

theorem charKey (hP : Keeps P) (h : P app) (c : UInt8) : Sat P (charKey app c) := by
  unfold Commands.charKey
  split
  · exact hP.insertOverSelection h _ _
  · refine Sat.of_bind fun ⟨res, editor⟩ => hP.afterEdit (hP.editor editor h) res ?_
    dsimp only
    split
    · exact hP.thenRenderEx (hP.sendPacket (hP.editor editor h) _ _ _ _) nofun
    · exact hP.thenRenderEx (.some (hP.editor editor h)) nofun

/-! ## The mouse -/

theorem textMouse (hP : Keeps P) (h : P app) (me : MouseEvent) : Sat P (textMouse app me) := by
  have hanchor (app : App) (h : P app) : Sat P (some
      (if (app.setRenderEx .char).editor.selActive then app.setRenderEx .char
        else { app.setRenderEx .char with editor :=
          (app.setRenderEx .char).editor.selSetAnchor })) := by
    split
    · exact .some (hP.setRenderEx nofun h)
    · exact .some (hP.editor _ (hP.setRenderEx nofun h))
  refine Sat.of_bind fun place => ?_
  cases place with
  | none => exact .some h
  | some place =>
    obtain ⟨row, col⟩ := place
    dsimp only
    split
    · refine Sat.of_bind fun editor => ?_
      split
      · exact (hP.sendPacket (hP.editor editor h) _ _ _ _).bind hanchor
      · exact hanchor _ (hP.editor editor h)
    · exact .ite (Sat.of_bind fun editor => .some (hP.editor editor h)) (.some h)

theorem clickScrollbar (hP : Keeps P) (h : P app) (px py : Int) :
    P (app.clickScrollbar px py).2 := by
  have hdone (c : Bool) {a a' : App} (h : P a) (h' : P a') : P (if c then a else a') := by
    cases c
    · exact h'
    · exact h
  unfold App.clickScrollbar
  dsimp only
  split
  · exact h
  · split
    · exact h
    · exact hdone _ (hP.render nofun (hP.editor _ h)) (hP.editor _ h)

/-! ## Packets of the peer -/

theorem serialInsertChar (hP : Keeps P) (h : P app) (se : SerialEvent) :
    Sat P (serialInsertChar app se) := by
  refine Sat.of_bind fun _ => Sat.of_bind fun ⟨res, editor⟩ => .some (hP.setRenderEx nofun ?_)
  split
  · exact hP.outOfMemory (hP.editor editor h)
  · exact hP.editor editor h

theorem serialDeleteChar (hP : Keeps P) (h : P app) : Sat P (serialDeleteChar app) := by
  have hmode (b : Bool) : (if b then RenderMode.remoteLine else .full) ≠ .word := by
    cases b <;> exact nofun
  refine Sat.of_bind fun ⟨res, editor⟩ => .some ?_
  split
  · exact hP.outOfMemory (hP.editor editor h)
  · exact hP.setRenderEx (hmode _) (hP.editor editor h)

theorem serialMoveCursor (hP : Keeps P) (h : P app) (se : SerialEvent) :
    Sat P (serialMoveCursor app se) := by
  refine Sat.of_bind fun _ => Sat.of_bind fun _ => .some (hP.setRenderEx ?_ (hP.editor _ h))
  split <;> exact nofun

theorem serialReplaceBlock (hP : Keeps P) (h : P app) (se : SerialEvent) :
    Sat P (serialReplaceBlock app se) :=
  Sat.of_bind fun _ => Sat.of_bind fun _ => Sat.of_bind fun _ => Sat.of_bind fun _ =>
    .some (hP.editor _ h)

theorem serialUpdateLine (hP : Keeps P) (h : P app) (se : SerialEvent) :
    Sat P (serialUpdateLine app se) :=
  Sat.of_bind fun _ => Sat.of_bind fun ⟨_, editor⟩ =>
    .some (hP.setRenderEx nofun (hP.editor editor h))

end Keeps

/-! ## Every event -/

/-- Nothing but a redraw of a word and the layout of the scene can break `P`. -/
structure Inert (P : App → Prop) : Prop extends Keeps P where
  bar : ∀ {app : App} (bar : CommandBar), P app → P { app with bar }
  tree : ∀ {app : App} (tree : FileTree), P app → P { app with tree }
  files : ∀ {app : App} (files : Files), P app → P { app with files }
  language : ∀ {app : App} (language : SyntaxLanguage) (languageSet : Bool), P app →
    P { app with language, languageSet }
  quit : ∀ {app : App} (quit : Bool), P app → P { app with quit }
  remote : ∀ {app : App} (remote : Bool), P app → P { app with remote }
  lines : ∀ {app : App} (fileNumLines linesContador : Nat), P app →
    P { app with fileNumLines, linesContador }

namespace Inert

variable {P : App → Prop} {app : App}

theorem setFile (hP : Inert P) (h : P app) (name : List UInt8) : P (app.setFile name) :=
  hP.language (syntaxDetectLanguage name) true (hP.bar (app.bar.setFilename name) h)

theorem executeSave (hP : Inert P) (h : P app) (name : List UInt8) :
    Sat P (executeSave app name) :=
  .ite (.some h) (.ite (.some h) (Sat.of_bind fun _ => .some (hP.setFile (hP.files _ h) name)))

theorem executeOpen (hP : Inert P) (h : P app) (name : List UInt8) :
    Sat P (executeOpen app name) := by
  unfold Commands.executeOpen
  split
  · exact .some h
  · split
    · exact .some h
    · exact Sat.of_bind fun ⟨_, _⟩ => Sat.of_bind fun _ => Sat.of_bind fun editor =>
        .some (hP.setFile (hP.editor editor h) name)

theorem sendFileLines (hP : Inert P) (h : P app) (row : Int) (n : Nat) :
    Sat P (sendFileLines app row n) := by
  induction n generalizing app row with
  | zero => exact .some h
  | succ n ih => exact (hP.sendRow h _ _ _).bind fun _ h => ih h _

theorem cmdSync (hP : Inert P) (h : P app) : Sat P (cmdSync app) := by
  have hsync : Sat P (executeSync { app with remote := true }) :=
    (hP.sendPacket (hP.remote true h) _ _ _ _).bind fun _ h =>
      (hP.sendFileLines h _ _).bind fun _ h => hP.sendCursor h
  exact hsync.bind fun _ h => .some (hP.status _ h)

theorem executeCommand (hP : Inert P) (h : P app) (raw : List UInt8) :
    Sat P (executeCommand app raw) :=
  .ite (hP.executeSave h _) (.ite (hP.executeOpen h _) (.ite (.some (hP.quit true h))
    (.ite (hP.cmdSync h) (.some h))))

theorem dispatchCommandMode (hP : Inert P) (h : P app) (ev : KeyEvent) :
    Sat P (dispatchCommandMode app ev) :=
  .ite (.some (hP.render nofun (hP.bar _ h)))
    (.ite (hP.thenRenderFull (hP.executeCommand (hP.bar _ h) _))
      (.ite (.some (hP.render nofun (hP.bar _ h)))
        (.ite (.some (hP.render nofun (hP.bar _ h))) (.some h))))

theorem showFiletreeError (hP : Inert P) (h : P app) : P (showFiletreeError app) := by
  unfold Commands.showFiletreeError
  split
  · exact h
  · exact hP.bar _ h

theorem openFiletreeFile (hP : Inert P) (h : P app) : Sat P (openFiletreeFile app) := by
  refine Sat.of_bind fun ⟨r, tree⟩ => ?_
  have htree := hP.tree tree h
  cases r with
  | ok => exact .some (hP.render nofun htree)
  | err => exact .some (hP.render nofun (hP.showFiletreeError htree))
  | file =>
    refine Sat.of_bind fun path => (hP.executeOpen htree path).bind fun app h => ?_
    exact .some (hP.render nofun (hP.tree { app.tree with focused := false } h))

theorem dispatchFiletreeMode (hP : Inert P) (h : P app) (ev : KeyEvent) :
    Sat P (dispatchFiletreeMode app ev) := by
  refine .ite (.some (hP.render nofun (hP.tree _ h))) ?_
  refine .ite (.some (hP.render nofun (hP.tree _ h))) ?_
  refine .ite (.some (hP.render nofun (hP.tree _ h))) ?_
  refine .ite (.some (hP.render nofun ?_)) (.ite (hP.openFiletreeFile h) (.some h))
  split
  · exact hP.showFiletreeError (hP.tree _ h)
  · exact hP.tree _ h

theorem filetreeCommandsTry (hP : Inert P) (h : P app) (ev : KeyEvent) :
    Sat (fun r => P r.2) (filetreeCommandsTry app ev) :=
  .ite (.some (hP.render nofun (hP.tree _ h)))
    (.ite ((hP.dispatchFiletreeMode h ev).bind fun _ h => .some h) (.some h))

theorem saveKey (hP : Inert P) (h : P app) : Sat P (saveKey app) :=
  .ite (.some (hP.render nofun (hP.bar _ h))) (hP.thenRenderFull (hP.executeSave h _))

theorem editorKey (hP : Inert P) (h : P app) (ev : KeyEvent) : Sat P (editorKey app ev) := by
  refine .ite (.some (hP.quit true h)) ?_
  refine .ite (hP.backspaceKey h ev) ?_
  refine .ite (hP.directionKey h ev) ?_
  refine .ite (Sat.of_bind fun editor => .some (hP.editor editor h)) ?_
  refine .ite (hP.cutKey h) ?_
  refine .ite (hP.pasteKey h) ?_
  refine .ite (hP.saveKey h) ?_
  refine .ite (.some (hP.render nofun (hP.bar _ h))) ?_
  refine .ite (.some h) ?_
  refine .ite (.some (hP.render nofun (hP.bar _ h))) ?_
  refine .ite (hP.enterKey h) ?_
  exact .ite (hP.charKey h ev.c) (.some h)

theorem dispatch (hP : Inert P) (h : P app) (ev : KeyEvent) : Sat P (dispatch app ev) := by
  refine (hP.filetreeCommandsTry h ev).bind fun ⟨consumed, app⟩ h => ?_
  exact .ite (.some h) (.ite (hP.dispatchCommandMode h ev) (hP.editorKey h ev))

theorem filetreeCommandsMouse (hP : Inert P) (h : P app) (me : MouseEvent) :
    Sat (fun r => P r.2) (filetreeCommandsMouse app me) := by
  unfold Commands.filetreeCommandsMouse
  dsimp only
  split
  · exact .some (hP.render nofun (hP.tree _ h))
  · refine .ite (.some (hP.render nofun (hP.tree _ h))) ?_
    refine .ite (.some (hP.render nofun (hP.tree _ h))) ?_
    refine .ite ((hP.openFiletreeFile (hP.tree _ h)).bind fun _ h => ?_) ?_
    · exact .some (hP.render nofun h)
    · exact .some (hP.render nofun (hP.tree _ h))

theorem dispatchMouse (hP : Inert P) (h : P app) (me : MouseEvent) :
    Sat P (dispatchMouse app me) := by
  have hclear : P (if me.leftHolding then app
      else { app with editor := app.editor.selClear }) := by
    split
    · exact h
    · exact hP.editor _ h
  have hclick := hP.clickScrollbar hclear me.clickX me.clickY
  refine .ite (.some hclear) (.ite (.some hclick) ?_)
  refine (hP.filetreeCommandsMouse hclick me).bind fun ⟨consumed, app⟩ h => ?_
  exact .ite (.some h) (.ite (.some (hP.render nofun (hP.editor _ h))) (hP.textMouse h me))

theorem serialFileStart (hP : Inert P) (h : P app) (se : SerialEvent) :
    Sat P (serialFileStart app se) :=
  Sat.of_bind fun ⟨_, editor⟩ => Sat.of_bind fun _ => Sat.of_bind fun _ =>
    .some (hP.setRenderEx nofun (hP.status _ (hP.remote _ (hP.bar _ (hP.lines _ _
      (hP.editor editor h))))))

theorem serialFileLine (hP : Inert P) (h : P app) (se : SerialEvent) :
    Sat P (serialFileLine app se) := by
  refine .ite (.some h) (Sat.of_bind fun ⟨_, editor⟩ => ?_)
  have hline := hP.lines app.fileNumLines ((app.linesContador + 1) % 65536) (hP.editor editor h)
  have hfull : (RenderMode.full) ≠ .word := nofun
  refine .ite (Sat.of_bind fun editor => .some ?_) (.some hline)
  exact hP.lines 0 _ (hP.editor editor (hP.status "" (hP.setRenderEx hfull hline)))

theorem dispatchSerial (hP : Inert P) (h : P app) (se : SerialEvent) :
    Sat P (dispatchSerial app se) := by
  refine .ite (.some h) ?_
  refine .ite (hP.serialInsertChar h se) ?_
  refine .ite (hP.serialDeleteChar h) ?_
  refine .ite (hP.serialMoveCursor h se) ?_
  refine .ite (hP.serialReplaceBlock h se) ?_
  refine .ite (hP.serialUpdateLine h se) ?_
  refine .ite (hP.serialFileStart h se) ?_
  exact .ite (hP.serialFileLine h se) (.some h)

end Inert

end Commands

end LCode
