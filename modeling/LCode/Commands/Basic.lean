import LCode.App.State

/-!
# The command handlers

`commands.c` and `filetree_commands.c`: the dispatchers of key, mouse and
serial events. Each branch of `commands_dispatch` is a definition of its own.
-/

namespace LCode

namespace Commands

def fileReadBuf : Nat := 4096

/-! ## Files -/

/-- The string at a pointer, as `%s` prints it: the bytes up to the first NUL. -/
def cString : Buf → Option (List UInt8)
  | .block bytes => if 0 ∈ bytes then some (bytes.takeWhile (· ≠ 0)) else none
  | _ => none

/-- The loop of `execute_save` over `n` rows from `row` on: the bytes written. -/
def saveRows (ed : Editor) (row : Int) : Nat → Option (List UInt8)
  | 0 => some []
  | n + 1 => do
    let text ← cString (← ed.getLine row)
    return text ++ newline :: (← saveRows ed (row + 1) n)

/-- `execute_save`. -/
def executeSave (app : App) (name : List UInt8) : Option App :=
  if name = [] then some app
  else if !app.files.writable name then some app
  else do
    let contents ← saveRows app.editor 0 app.editor.doc.rowCount.toNat
    return { app with files := app.files.write name contents }.setFile name

/-- `fgets` into a buffer of `size` bytes: what it reads, and the rest. -/
def fgets : Nat → List UInt8 → List UInt8 × List UInt8
  | size + 2, c :: rest =>
    if c = newline then ([c], rest)
    else
      let (chunk, rest) := fgets (size + 1) rest
      (c :: chunk, rest)
  | _, rest => ([], rest)

/-- `strlen` and the newline stripped off: the string left in `line`. -/
def stripLine (chunk : List UInt8) : List UInt8 :=
  let line := chunk.takeWhile (· ≠ 0)
  if line.getLast? = some newline then line.dropLast else line

/-- The loop of `execute_open`, with a bound on its rounds. -/
def openLoop (ed : Editor) : Nat → List UInt8 → Option Editor
  | 0, _ => none
  | fuel + 1, contents =>
    if contents = [] then some ed
    else do
      let (chunk, rest) := fgets fileReadBuf contents
      let line := stripLine chunk
      let (res, ed) ← ed.loadLine (line ++ [0]) line.length
      if res ≠ .ok then return ed
      openLoop ed fuel rest

/-- `execute_open`. -/
def executeOpen (app : App) (name : List UInt8) : Option App :=
  if name = [] then some app
  else match app.files.read name with
    | none => some app
    | some contents => do
      let (_, editor) ← app.editor.init
      let editor ← openLoop editor (contents.length + 1) contents
      let editor ← editor.loadFinalize
      return { app with editor }.setFile name

/-! ## Packets -/

/-- `build_packet_serial`: the bytes go to the UART. -/
def sendPacket (app : App) (cmd : SerialCommand) (payload : Buf) (len numLines : Int) :
    Option App := do
  return { app with sent := app.sent ++ (← Serial.buildPacketSerial cmd payload len numLines) }

/-- A row and a column as four bytes. -/
def positionPayload (row col : Int) : Buf :=
  .block [Serial.hiByte row, Serial.loByte row, Serial.hiByte col, Serial.loByte col]

/-- A CMD_MOVE_CURSOR packet with the local cursor. -/
def sendCursor (app : App) : Option App :=
  sendPacket app .moveCursor (positionPayload app.editor.cursorRow app.editor.cursorCol) 4 0

/-- The packet for one row: `editor_get_line` and `editor_get_line_len`. -/
def sendRow (app : App) (cmd : SerialCommand) (row numLines : Int) : Option App := do
  sendPacket app cmd (← app.editor.getLine row) (← app.editor.getLineLen row) numLines

/-- The loop of `execute_sync` over `n` rows from `row` on. -/
def sendFileLines (app : App) (row : Int) : Nat → Option App
  | 0 => some app
  | n + 1 => do sendFileLines (← sendRow app .fileLine row 0) (row + 1) n

/-- `execute_sync`. -/
def executeSync (app : App) : Option App := do
  let filename := app.bar.filename
  let totalLines := app.editor.doc.rowCount
  let app ← sendPacket app .fileStart (.block (filename ++ [0])) filename.length totalLines
  let app ← sendFileLines app 0 totalLines.toNat
  sendCursor app

/-- The loop of `sync_block` over `n` rows from `row` on. -/
def sendUpdateLines (app : App) (row : Int) : Nat → Option App
  | 0 => some app
  | n + 1 => do sendUpdateLines (← sendRow app .updateLine row row) (row + 1) n

/-- The payload of CMD_REPLACE_BLOCK. -/
def blockPayload (startRow deletedCount insertedCount : Int) : Buf :=
  .block [Serial.hiByte startRow, Serial.loByte startRow, Serial.hiByte deletedCount,
    Serial.loByte deletedCount, Serial.hiByte insertedCount, Serial.loByte insertedCount]

/-- `sync_block`. -/
def syncBlock (app : App) (startRow deletedCount insertedCount : Int) : Option App :=
  if !app.remote then some app
  else do
    let app ←
      if deletedCount = 1 ∧ insertedCount = 1 then sendRow app .updateLine startRow startRow
      else do
        let app ← sendPacket app .replaceBlock
          (blockPayload startRow deletedCount insertedCount) 6 0
        sendUpdateLines app startRow insertedCount.toNat
    sendCursor app

/-! ## The command bar -/

/-- `cmd_sync`. -/
def cmdSync (app : App) : Option App := do
  return (← executeSync { app with remote := true }).setStatus "Ficheiro Partilhado!"

/-- `cmd_save`. -/
def cmdSave (app : App) (args : List UInt8) : Option App :=
  executeSave app (if args ≠ [] then args else app.bar.filename)

/-- `execute_command`: the name ends at the first space, the arguments follow. -/
def executeCommand (app : App) (raw : List UInt8) : Option App :=
  let i := min (raw.takeWhile (· ≠ space)).length (cmdBufSize - 1)
  let name := raw.take i
  let args := if raw[i]? = some space then raw.drop (i + 1) else []
  if name = ascii "save" ∨ name = ascii "w" then cmdSave app args
  else if name = ascii "open" then executeOpen app args
  else if name = ascii "q" then some { app with quit := true }
  else if name = ascii "sync" then cmdSync app
  else some app

/-- `dispatch_command_mode`. -/
def dispatchCommandMode (app : App) (ev : KeyEvent) : Option App :=
  if ev.escape then some ({ app with bar := app.bar.cancel }.setRender .full)
  else if ev.enter then do
    let (input, bar) := app.bar.commit
    return (← executeCommand { app with bar } input).setRender .full
  else if ev.backspace && !ev.ctrl then
    some ({ app with bar := app.bar.delete }.setRender .status)
  else if ev.c ≠ 0 then some ({ app with bar := app.bar.insert ev.c }.setRender .status)
  else some app

/-! ## The file tree -/

/-- `show_filetree_error`. -/
def showFiletreeError (app : App) : App :=
  if app.tree.errorMsg = [] then app else { app with bar := app.bar.setStatus app.tree.errorMsg }

/-- `open_filetree_file`. -/
def openFiletreeFile (app : App) : Option App := do
  let (r, tree) ← app.tree.enterSelected app.files
  let app := { app with tree }
  let app ← match r with
    | .file => do
      let app ← executeOpen app (← app.tree.getSelectedPath pathMax)
      some { app with tree := { app.tree with focused := false } }
    | .err => some (showFiletreeError app)
    | .ok => some app
  return app.setRender .full

/-- `dispatch_filetree_mode`. -/
def dispatchFiletreeMode (app : App) (ev : KeyEvent) : Option App :=
  if ev.escape then
    some ({ app with tree := { app.tree with focused := false } }.setRender .full)
  else if ev.dir = .up then
    some ({ app with tree := app.tree.moveUp app.scene.visRows }.setRender .full)
  else if ev.dir = .down then
    some ({ app with tree := app.tree.moveDown app.scene.visRows }.setRender .full)
  else if ev.backspace ∨ ev.dir = .left then
    let (r, tree) := app.tree.goParent app.files
    let app := { app with tree }
    some ((if r = .err then showFiletreeError app else app).setRender .full)
  else if ev.enter then openFiletreeFile app
  else some app

/-- `filetree_commands_try`: whether it consumed the event, and the state. -/
def filetreeCommandsTry (app : App) (ev : KeyEvent) : Option (Bool × App) :=
  if ev.ctrl && ev.c == 'b'.toUInt8 then
    let nowVisible := !app.tree.visible
    some (true,
      { app with tree := { app.tree with visible := nowVisible, focused := nowVisible } }.setRender
        .full)
  else if app.tree.focused then do return (true, ← dispatchFiletreeMode app ev)
  else some (false, app)

/-- `filetree_commands_mouse`. -/
def filetreeCommandsMouse (app : App) (me : MouseEvent) : Option (Bool × App) :=
  let app := { app with tree := { app.tree with focused := false } }
  match app.scene.pxToFiletree app.tree me.clickX me.clickY with
  | none => some (false, app.setRender .full)
  | some idx =>
    if me.scroll ≠ 0 then
      let tree := { app.tree.scrollBy me.scroll app.scene.visRows with focused := true }
      some (true, { app with tree }.setRender .full)
    else
      let app := { app with tree := { app.tree with focused := true } }
      if idx = -1 then some (true, app.setRender .full)
      else do
        -- second click on the same entry opens it
        let same := idx = app.tree.cursor
        let app := { app with tree := app.tree.setCursor idx app.scene.visRows }
        let app ← if same then openFiletreeFile app else some app
        return (true, app.setRender .full)

/-! ## Keys in the editor -/

/-- The start row and the number of rows of the selection. -/
def selRows (ed : Editor) : Int × Int :=
  let (sr, _, er, _) := ed.selGetRange
  (sr, er - sr + 1)

/-- The answer to an edit: a failed allocation is reported, otherwise `done`
goes on. -/
def afterEdit (app : App) (res : EditorResult) (done : App → Option App) : Option App :=
  if res = .errAllocFailed then some app.outOfMemory else done app

/-- Backspace or Ctrl+X on a selection: it is deleted and its rows are synced. -/
def deleteSelectionKey (app : App) : Option App := do
  let (sr, deleted) := selRows app.editor
  let (r, editor) ← app.editor.deleteSelection
  afterEdit { app with editor } r fun app => do
    return (← if app.remote then syncBlock app sr deleted 1 else some app).setRenderEx .full

/-- Ctrl+Backspace without a selection. -/
def deleteWordKey (app : App) : Option App :=
  if app.editor.cursorCol = 0 then do
    let sr := app.editor.cursorRow - 1
    let (r, editor) ← app.editor.deleteChar
    afterEdit { app with editor } r fun app => do
      return (← if app.remote then syncBlock app sr 2 1 else some app).setRenderEx .full
  else do
    let sr := app.editor.cursorRow
    let (r, editor) ← app.editor.deleteWord
    afterEdit { app with editor } r fun app => do
      return (← if app.remote then syncBlock app sr 1 1 else some app).setRenderEx .line

/-- Backspace without a selection and without Ctrl. -/
def deleteCharKey (app : App) : Option App := do
  let midLine := decide (0 < app.editor.cursorCol)
  let (r, editor) ← app.editor.deleteChar
  afterEdit { app with editor } r fun app => do
    let app ← if app.remote then sendPacket app .deleteChar .null 0 0 else some app
    return app.setRenderEx (if midLine then .line else .full)

/-- The backspace branch of `commands_dispatch`. -/
def backspaceKey (app : App) (ev : KeyEvent) : Option App :=
  if app.editor.selActive then deleteSelectionKey app
  else if ev.ctrl then deleteWordKey app
  else deleteCharKey app

/-- The cursor move of a direction key. -/
def moveCursor (ed : Editor) (ev : KeyEvent) : Option Editor :=
  match ev.dir with
  | .left => if ev.ctrl then ed.moveWordLeft else ed.moveLeft
  | .right => if ev.ctrl then ed.moveWordRight else ed.moveRight
  | .up => ed.moveUp
  | .down => ed.moveDown
  | .home => some ed.moveHome
  | .end => ed.moveEnd
  | .none => some ed

/-- The direction branch of `commands_dispatch`. -/
def directionKey (app : App) (ev : KeyEvent) : Option App := do
  let editor :=
    if ev.shift then if !app.editor.selActive then app.editor.selSetAnchor else app.editor
    else app.editor.selClear
  let app := { app with editor := ← moveCursor editor ev }
  return (← if app.remote then sendCursor app else some app).setRenderEx .char

/-- Ctrl+X. -/
def cutKey (app : App) : Option App := do
  let app := { app with editor := ← app.editor.copySelection }
  if app.editor.selActive then deleteSelectionKey app else return app

/-- Ctrl+V. -/
def pasteKey (app : App) : Option App := do
  let (startR, deleted) :=
    if app.editor.selActive then selRows app.editor else (app.editor.cursorRow, 1)
  let editor ← if app.editor.selActive then app.editor.deleteSelection.map Prod.snd
    else some app.editor
  let oldRows := editor.doc.rowCount
  let (r, editor) ← editor.paste
  let inserted := editor.doc.rowCount - oldRows + 1
  let app := { app with editor }
  match r with
  | .ok => do
    return (← if app.remote then syncBlock app startR deleted inserted else some app).setRenderEx
      .full
  | .errNoClipboard => return (app.setStatus "Nothing to paste").setRender .status
  | .errAllocFailed => return app.outOfMemory

/-- Ctrl+S. -/
def saveKey (app : App) : Option App := do
  let app ← if app.bar.filename = ascii "untitled" then
      some { app with bar := app.bar.startPrefill (ascii "save ") }
    else executeSave app app.bar.filename
  return app.setRender .full

/-- Enter, or a character, over a selection: `inserted` rows take its place. -/
def insertOverSelection (app : App) (c : UInt8) (inserted : Int) : Option App := do
  let (sr, deleted) := selRows app.editor
  let (_, editor) ← app.editor.deleteSelection
  let (r, editor) ← editor.insertChar c
  let app := { app with editor }
  if r = .ok then
    return (← if app.remote then syncBlock app sr deleted inserted else some app).setRender .full
  else return app

/-- The Enter branch of `commands_dispatch`. -/
def enterKey (app : App) : Option App :=
  if app.editor.selActive then insertOverSelection app newline 2
  else do
    let (r, editor) ← app.editor.insertChar newline
    afterEdit { app with editor } r fun app => do
      let app ← if app.remote then sendPacket app .insertChar (.block [newline]) 1 0 else some app
      return app.setRender .full

/-- The character branch of `commands_dispatch`. -/
def charKey (app : App) (c : UInt8) : Option App :=
  if app.editor.selActive then insertOverSelection app c 1
  else do
    let (r, editor) ← app.editor.insertChar c
    afterEdit { app with editor } r fun app => do
      let app ← if app.remote then sendPacket app .insertChar (.block [c]) 1 0 else some app
      return app.setRenderEx .line

/-- The editor half of `commands_dispatch`: a key in MODE_EDITOR. -/
def editorKey (app : App) (ev : KeyEvent) : Option App :=
  if ev.escape || (ev.ctrl && ev.c == 'q'.toUInt8) then some { app with quit := true }
  else if ev.backspace then backspaceKey app ev
  else if ev.dir ≠ .none then directionKey app ev
  else if ev.ctrl && ev.c == 'c'.toUInt8 then do
    return { app with editor := ← app.editor.copySelection }
  else if ev.ctrl && ev.c == 'x'.toUInt8 then cutKey app
  else if ev.ctrl && ev.c == 'v'.toUInt8 then pasteKey app
  else if ev.ctrl && ev.c == 's'.toUInt8 then saveKey app
  else if ev.ctrl && ev.c == 'o'.toUInt8 then
    some ({ app with bar := app.bar.startPrefill (ascii "open ") }.setRender .full)
  else if ev.ctrl then some app
  else if ev.c = ':'.toUInt8 then some ({ app with bar := app.bar.start }.setRender .full)
  else if ev.enter then enterKey app
  else if ev.c ≠ 0 then charKey app ev.c
  else some app

/-- `commands_dispatch`. -/
def dispatch (app : App) (ev : KeyEvent) : Option App := do
  let (consumed, app) ← filetreeCommandsTry app ev
  if consumed then return app
  if app.bar.mode = .command then dispatchCommandMode app ev else editorKey app ev

/-! ## Mouse -/

def scrollSpeedMultiplier : Int := 3

/-- A click or a drag in the text area. -/
def textMouse (app : App) (me : MouseEvent) : Option App := do
  match ← app.scene.pxToText app.editor me.clickX me.clickY with
  | none => return app
  | some (row, col) =>
    if me.leftClicked then do
      let app := { app with editor := ← app.editor.selClear.setCursor row col }
      -- the clicked position is sent, wherever the cursor went
      let app ← if app.remote then sendPacket app .moveCursor (positionPayload row col) 4 0
        else some app
      let app := app.setRenderEx .char
      return if app.editor.selActive then app else { app with editor := app.editor.selSetAnchor }
    else if me.leftHolding then return { app with editor := ← app.editor.setCursor row col }
    else return app

/-- `commands_dispatch_mouse`. -/
def dispatchMouse (app : App) (me : MouseEvent) : Option App := do
  let app := if me.leftHolding then app else { app with editor := app.editor.selClear }
  if !me.leftClicked && me.scroll == 0 && !me.leftHolding then return app
  let (clicked, app) := app.clickScrollbar me.clickX me.clickY
  if clicked then return app
  let (consumed, app) ← filetreeCommandsMouse app me
  if consumed then return app
  if me.scroll ≠ 0 then
    return { app with editor := app.editor.scrollBy (me.scroll * scrollSpeedMultiplier) 0 }.setRender
      .full
  textMouse app me

/-! ## Packets of the peer -/

/-- `se.payload_buf[i]`. -/
def payload (se : SerialEvent) (i : Int) : Option UInt8 := Block.read se.payloadBuf i

/-- The big-endian number in two payload bytes. -/
def payloadWord (se : SerialEvent) (i : Int) : Option Int := do
  return Serial.word (← payload se i) (← payload se (i + 1))

/-- CMD_INSERT_CHAR. -/
def serialInsertChar (app : App) (se : SerialEvent) : Option App := do
  let (r, editor) ← app.editor.remoteInsertChar (← payload se 0)
  let app := { app with editor }
  return (if r = .errAllocFailed then app.outOfMemory else app).setRenderEx .remoteLine

/-- CMD_DELETE_CHAR. -/
def serialDeleteChar (app : App) : Option App := do
  let midLine := decide (0 < app.editor.remoteCursorCol)
  let (r, editor) ← app.editor.remoteDeleteChar
  let app := { app with editor }
  return if r = .errAllocFailed then app.outOfMemory
    else app.setRenderEx (if midLine then .remoteLine else .full)

/-- CMD_MOVE_CURSOR. -/
def serialMoveCursor (app : App) (se : SerialEvent) : Option App := do
  let row ← payloadWord se 0
  let col ← payloadWord se 2
  let mode : RenderMode := if app.editor.remoteCursorRow ≠ row then .full else .remoteLine
  return { app with editor := app.editor.setRemoteCursor row col }.setRenderEx mode

/-- CMD_REPLACE_BLOCK. -/
def serialReplaceBlock (app : App) (se : SerialEvent) : Option App := do
  let startRow ← payloadWord se 0
  let deleted ← payloadWord se 2
  let inserted ← payloadWord se 4
  return { app with editor := (← app.editor.remoteReplaceBlock startRow deleted inserted).2 }

/-- CMD_UPDATE_LINE. -/
def serialUpdateLine (app : App) (se : SerialEvent) : Option App := do
  let rowIndex ← payloadWord se 0
  let textLen : Int := se.payloadLen.toNat - 2
  let (_, editor) ← app.editor.remoteUpdateLine rowIndex (se.payloadBuf.drop 2) textLen
  return { app with editor }.setRenderEx .full

/-- CMD_FILE_START. -/
def serialFileStart (app : App) (se : SerialEvent) : Option App := do
  let (_, editor) ← app.editor.init
  let numLines ← payloadWord se 0
  let nameLen : Int := se.payloadLen.toNat - 2
  let fileName ← Block.slice (se.payloadBuf.drop 2) 0 nameLen
  let app := { app with
    editor
    fileNumLines := numLines.toNat
    linesContador := 0
    bar := app.bar.setFilename fileName
    remote := true }
  return (app.setStatus "A Receber Ficheiro...").setRenderEx .full

/-- CMD_FILE_LINE. -/
def serialFileLine (app : App) (se : SerialEvent) : Option App :=
  if app.fileNumLines = 0 then some app
  else do
    let contador := (app.linesContador + 1) % 65536
    let (_, editor) ← app.editor.loadLine se.payloadBuf se.payloadLen.toNat
    let app := { app with editor, linesContador := contador }
    if app.fileNumLines ≤ contador then
      let app := (app.setRenderEx .full).setStatus ""
      return { app with editor := ← app.editor.loadFinalize, fileNumLines := 0 }
    else return app

/-- `commands_dispatch_serial`. -/
def dispatchSerial (app : App) (se : SerialEvent) : Option App :=
  if se.payloadLen = 0 ∧ se.cmd ≠ SerialCommand.deleteChar.code ∧
      se.cmd ≠ SerialCommand.fileLine.code then some app
  else if se.cmd = SerialCommand.insertChar.code then serialInsertChar app se
  else if se.cmd = SerialCommand.deleteChar.code then serialDeleteChar app
  else if se.cmd = SerialCommand.moveCursor.code then serialMoveCursor app se
  else if se.cmd = SerialCommand.replaceBlock.code then serialReplaceBlock app se
  else if se.cmd = SerialCommand.updateLine.code then serialUpdateLine app se
  else if se.cmd = SerialCommand.fileStart.code then serialFileStart app se
  else if se.cmd = SerialCommand.fileLine.code then serialFileLine app se
  else some app

end Commands

end LCode
