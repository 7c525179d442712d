import LCode.Commands.Verify.Keys
import LCode.Editor.Verify.Remote
import LCode.Editor.Verify.Transfer

/-!
# Packets of the peer

What `commands_dispatch_serial` does with the event of an edit or of a cursor
position: the operation of the editor at its remote cursor.
-/

namespace LCode

open Serial

/-- A redraw does not move the remote cursor. -/
theorem Editor.PeerAt.setRenderEx {T : Prop} {a : App} {t : List (List UInt8)} {q : Pos}
    (h : a.editor.PeerAt T t q) (mode : RenderMode) :
    (a.setRenderEx mode).editor.PeerAt T t q := by
  obtain ⟨_, _, _, heq⟩ := a.setRenderEx_eq mode
  rw [heq]
  exact ⟨h.holds, h.ample, h.row, h.col, h.valid⟩

namespace Commands

/-! ## Payloads -/

section Payload

variable {se : SerialEvent} {cmd : UInt8} {body : List UInt8}

theorem payload_eq {a z : List UInt8} {x : UInt8} {i : Int} (h : se.Carries cmd body)
    (hb : body = a ++ x :: z) (hi : i = a.length) : payload se i = some x := by
  have hsplit : se.payloadBuf = a ++ x :: (z ++ se.payloadBuf.drop body.length) := by
    conv_lhs => rw [← List.take_append_drop body.length se.payloadBuf, h.payload_eq, hb]
    simp [hb]
  exact Block.read_eq hsplit hi

/-- What follows the first bytes of the payload. -/
theorem payload_slice {a x : List UInt8} (h : se.Carries cmd (a ++ x)) :
    Block.slice (se.payloadBuf.drop a.length) 0 x.length = some x := by
  have hbuf : se.payloadBuf = a ++ (x ++ se.payloadBuf.drop (a ++ x).length) := by
    rw [← List.append_assoc]
    conv_lhs => rw [← List.take_append_drop (a ++ x).length se.payloadBuf, h.payload_eq]
  refine Block.slice_prefix (z := se.payloadBuf.drop (a ++ x).length) ?_ rfl
  conv_lhs => rw [hbuf, List.drop_left]

theorem payloadWord_eq {a z : List UInt8} {x y : UInt8} {i : Int} (h : se.Carries cmd body)
    (hb : body = a ++ x :: y :: z) (hi : i = a.length) :
    payloadWord se i = some (Serial.word x y) := by
  have h₁ := payload_eq h hb hi
  have h₂ := payload_eq (a := a ++ [x]) (x := y) (z := z) (i := i + 1) h (by simp [hb]) (by simp [hi])
  simp [payloadWord, h₁, h₂]

/-- An event with a payload is dispatched on its command. -/
theorem payloadLen_ne (h : se.Carries cmd body) (hne : body ≠ []) : ¬ se.payloadLen = 0 := by
  intro h0
  have := h.payloadLen_eq
  rw [h0] at this
  exact hne (List.eq_nil_of_length_eq_zero this.symm)

end Payload

/-! ## Edits and positions -/

section Received

variable {T : Prop} {app : App} {se : SerialEvent} {t : List (List UInt8)} {q : Pos}

/-- What a packet leaves of a process: the peer at `q`, the local cursor in row
`row`, and nothing else changed. -/
structure Received (T : Prop) (app app' : App) (t : List (List UInt8)) (q : Pos) (row : Int) :
    Prop where
  peer : app'.editor.PeerAt T t q
  cursorRow : app'.editor.cursorRow = row
  cursorCol : app'.editor.cursorCol = app.editor.cursorCol
  selActive : app'.editor.selActive = app.editor.selActive
  bar : app'.bar = app.bar
  tree : app'.tree = app.tree
  remote : app'.remote = app.remote
  sent : app'.sent = app.sent

theorem Received.editing {app' : App} {row : Int} (h : Received T app app' t q row)
    (he : Editing app) : Editing app' :=
  ⟨h.bar ▸ he.mode, h.tree ▸ he.focused, h.remote ▸ he.remote, h.selActive ▸ he.inactive⟩

theorem Received.setRenderEx {app' : App} {row : Int} (h : Received T app app' t q row)
    (mode : RenderMode) : Received T app (app'.setRenderEx mode) t q row := by
  have hpeer := h.peer.setRenderEx mode
  obtain ⟨_, _, _, heq⟩ := app'.setRenderEx_eq mode
  rw [heq] at hpeer ⊢
  exact ⟨hpeer, h.cursorRow, h.cursorCol, h.selActive, h.bar, h.tree, h.remote, h.sent⟩

/-- An operation at the remote cursor. -/
theorem received_remoteGoto {doc : Doc} {q' : Pos} {row : Int} {t' : List (List UInt8)}
    (h : (app.editor.remoteGoto doc q' row).PeerAt T t' q') :
    Received T app { app with editor := app.editor.remoteGoto doc q' row } t' q' row :=
  ⟨h, by simp, by simp, by simp, rfl, rfl, rfl, rfl⟩

/-- CMD_INSERT_CHAR. -/
theorem dispatchSerial_insert (h : app.editor.PeerAt T t q) {c : UInt8}
    (hse : se.Carries SerialCommand.insertChar.code [c]) :
    ∃ app', dispatchSerial app se = some app' ∧
      Received T app app' (Text.insert newline t q c) (Text.afterInsert newline q c)
        (Editor.rowAfterInsert q c app.editor.cursorRow) := by
  obtain ⟨doc, hins, hpeer⟩ := h.remoteInsertChar c
  have hpay := payload_eq (a := []) (i := 0) hse rfl rfl
  refine ⟨_, ?_, (received_remoteGoto hpeer).setRenderEx .remoteLine⟩
  simp [dispatchSerial, payloadLen_ne hse, hse.cmd_eq, serialInsertChar, hpay, hins]

/-- CMD_DELETE_CHAR. -/
theorem dispatchSerial_delete (h : app.editor.PeerAt T t q)
    (hse : se.Carries SerialCommand.deleteChar.code []) :
    ∃ app', dispatchSerial app se = some app' ∧
      Received T app app' (Text.backspace t q) (Text.afterBackspace t q)
        (Editor.rowAfterBackspace q app.editor.cursorRow) := by
  obtain ⟨doc, hdel, hpeer⟩ := h.remoteDeleteChar
  refine ⟨_, ?_, (received_remoteGoto hpeer).setRenderEx
    (if decide (0 < app.editor.remoteCursorCol) then .remoteLine else .full)⟩
  have h₁ : ¬ SerialCommand.deleteChar.code = SerialCommand.insertChar.code := by decide
  simp [dispatchSerial, hse.cmd_eq, h₁, serialDeleteChar, hdel]

/-- CMD_MOVE_CURSOR: a position in the row of the local cursor is dropped. -/
theorem dispatchSerial_move (h : app.editor.PeerAt T t q) {p : Pos} (hp : Text.Valid t p)
    (hrow : p.row < 65536) (hcol : p.col < 65536)
    (hse : se.Carries SerialCommand.moveCursor.code (position p)) :
    ∃ app', dispatchSerial app se = some app' ∧
      Received T app app' t (if (p.row : Int) = app.editor.cursorRow then q else p)
        app.editor.cursorRow := by
  have hr := payloadWord_eq (a := []) (i := 0) hse rfl rfl
  have hc := payloadWord_eq (a := [Serial.hiByte p.row, Serial.loByte p.row]) (i := 2) hse rfl rfl
  rw [Serial.word_bytes_of_lt hrow] at hr
  rw [Serial.word_bytes_of_lt hcol] at hc
  have h₁ : ¬ SerialCommand.moveCursor.code = SerialCommand.insertChar.code := by decide
  have h₂ : ¬ SerialCommand.moveCursor.code = SerialCommand.deleteChar.code := by decide
  have hne : ¬ se.payloadLen = 0 := payloadLen_ne hse (by simp [position])
  let moved : App := { app with editor := app.editor.setRemoteCursor p.row p.col }
  refine ⟨moved.setRenderEx (if app.editor.remoteCursorRow ≠ p.row then .full else .remoteLine),
    by simp [dispatchSerial, hne, hse.cmd_eq, h₁, h₂, serialMoveCursor, hr, hc, moved], ?_⟩
  have hmoved : moved.editor.PeerAt T t (if (p.row : Int) = app.editor.cursorRow then q else p) := by
    simp only [moved, Editor.setRemoteCursor]
    split
    · exact h
    · exact ⟨h.holds, h.ample, rfl, rfl, hp⟩
  have hrecv : Received T app moved t (if (p.row : Int) = app.editor.cursorRow then q else p)
      app.editor.cursorRow := by
    refine ⟨hmoved, ?_, ?_, ?_, rfl, rfl, rfl, rfl⟩ <;>
      simp only [moved, Editor.setRemoteCursor] <;> split <;> rfl
  exact hrecv.setRenderEx _

end Received

/-! ## Blocks of rows -/

section Blocks

variable {app : App} {se : SerialEvent} {t : List (List UInt8)}

/-- The rows of the document, some of them perhaps without a buffer. -/
structure Showing (app : App) (t : List (List UInt8)) : Prop where
  shows : app.editor.doc.Shows False t
  ample : app.editor.doc.heap.Ample

/-- The rows of the document, in any relation to its lines. -/
structure Rowed {β : Type} (R : Line → β → Prop) (app : App) (ys : List β) : Prop where
  rows : app.editor.doc.Rows R ys
  ample : app.editor.doc.heap.Ample

/-- CMD_UPDATE_LINE as the operation of the editor. -/
theorem dispatchSerial_update_eq (app : App) {row : Int} {x : List UInt8}
    (hse : se.Carries SerialCommand.updateLine.code (hiByte row :: loByte row :: x)) :
    dispatchSerial app se =
      (app.editor.remoteUpdateLine (row % 65536) (se.payloadBuf.drop 2) x.length).map fun r =>
        ({ app with editor := r.2 } : App).setRenderEx .full := by
  have hr := payloadWord_eq (a := []) (i := 0) hse rfl rfl
  rw [word_bytes] at hr
  have hlen : (se.payloadLen.toNat : Int) - 2 = x.length := by
    rw [hse.payloadLen_eq, List.length_cons, List.length_cons]
    omega
  simp only [dispatchSerial, payloadLen_ne hse (by simp), false_and, if_false, hse.cmd_eq,
    SerialCommand.code, serialUpdateLine, hr, hlen, Option.bind_eq_bind, Option.bind_some]
  cases app.editor.remoteUpdateLine (row % 65536) (se.payloadBuf.drop 2) x.length <;> rfl

/-- CMD_REPLACE_BLOCK as the operation of the editor. -/
theorem dispatchSerial_replace_eq (app : App) {start deleted inserted : Int}
    (hse : (replaceMessage start deleted inserted).Event se) :
    dispatchSerial app se =
      (app.editor.remoteReplaceBlock (start % 65536) (deleted % 65536) (inserted % 65536)).map
        fun r => { app with editor := r.2 } := by
  simp only [Message.Event, replaceMessage] at hse
  have hr := payloadWord_eq (a := []) (i := 0) hse rfl rfl
  have hd := payloadWord_eq (a := [hiByte start, loByte start]) (i := 2) hse rfl rfl
  have hn := payloadWord_eq (a := [hiByte start, loByte start, hiByte deleted, loByte deleted])
    (i := 4) hse rfl rfl
  rw [word_bytes] at hr hd hn
  simp only [dispatchSerial, payloadLen_ne hse (by simp), false_and, if_false, hse.cmd_eq,
    SerialCommand.code, serialReplaceBlock, hr, hd, hn, Option.bind_eq_bind, Option.bind_some]
  cases app.editor.remoteReplaceBlock (start % 65536) (deleted % 65536) (inserted % 65536) <;> rfl

section Rowed

variable {β : Type} {R : Line → β → Prop} {ys : List β}

theorem Rowed.setRenderEx (h : Rowed R app ys) (mode : RenderMode) :
    Rowed R (app.setRenderEx mode) ys := by
  obtain ⟨_, _, _, heq⟩ := app.setRenderEx_eq mode
  rw [heq]
  exact ⟨h.rows, h.ample⟩

theorem rowed_clampScroll {ed : Editor} (rows : ed.doc.Rows R ys) (ample : ed.doc.heap.Ample) :
    Rowed R { app with editor := ed.clampScroll } ys := by
  obtain ⟨_, _, _, _, heq⟩ := ed.clampScroll_eq
  rw [heq]
  exact ⟨rows, ample⟩

/-- CMD_UPDATE_LINE, on a row of the document or on none. -/
theorem dispatchSerial_update_rows (h : Rowed R app ys)
    (hshows : ∀ ln y, R ln y → ∃ w, ln.Shows False w) {row : Int} {w : List UInt8} {y' : β}
    (hnew : ∀ ln : Line, ln.Holds True w → R ln y')
    (hse : se.Carries SerialCommand.updateLine.code (hiByte row :: loByte row :: w)) :
    ∃ app', dispatchSerial app se = some app' ∧
      Rowed R app' (ys.set (row % 65536).toNat y') := by
  have htext : Block.slice (se.payloadBuf.drop 2) 0 w.length = some w :=
    payload_slice (a := [hiByte row, loByte row]) hse
  obtain ⟨ed, hupd, hrows⟩ : ∃ ed,
      app.editor.remoteUpdateLine (row % 65536) (se.payloadBuf.drop 2) w.length =
        some (.ok, ed) ∧ Rowed R { app with editor := ed } (ys.set (row % 65536).toNat y') := by
    have hcount := h.rows.rowCount_eq
    by_cases hin : (row % 65536).toNat < ys.length
    · obtain ⟨a, y, z, hys, ha⟩ : ∃ a y z, ys = a ++ y :: z ∧ (row % 65536).toNat = a.length := by
        obtain ⟨a, z, hys, ha⟩ := exists_eq_append_cons hin
        exact ⟨a, _, z, hys, ha⟩
      obtain ⟨doc, hupd, hrows, ample⟩ := Editor.remoteUpdateLine_rows (r := row % 65536)
        (hys ▸ h.rows) h.ample (fun ln => hshows ln y) hnew (by omega) rfl htext
      refine ⟨_, hupd, rowed_clampScroll ?_ ample⟩
      have hset : (a ++ y :: z).set a.length y' = a ++ y' :: z := by simp
      rw [hys, ha, hset]
      exact hrows
    · refine ⟨app.editor, Editor.remoteUpdateLine_out (by omega), ?_⟩
      rw [List.set_eq_of_length_le (by omega)]
      exact h
  exact ⟨_, by rw [dispatchSerial_update_eq app hse, hupd, Option.map_some],
    hrows.setRenderEx .full⟩

/-- CMD_REPLACE_BLOCK: the rows of the block become fresh ones, as far as there
are such rows. -/
theorem dispatchSerial_replace_rows (h : Rowed R app ys)
    (hlive : ∀ ln y, R ln y → ln.buf ≠ .dangling) {y' : β} (hfresh : R Line.zero y')
    {start : Int} {d n : Nat} (hse : (replaceMessage start d n).Event se) :
    ∃ app', dispatchSerial app se = some app' ∧
      Rowed R app' (if (start % 65536).toNat ≤ ys.length then
        splice ys (start % 65536).toNat (d % 65536) (List.replicate (n % 65536) y') else ys) := by
  have hd' : (d : Int) % 65536 = (d % 65536 : Nat) := by omega
  have hn' : (n : Int) % 65536 = (n % 65536 : Nat) := by omega
  rw [dispatchSerial_replace_eq app hse, hd', hn']
  generalize d % 65536 = d
  generalize n % 65536 = n
  have hcount := h.rows.rowCount_eq
  obtain ⟨ed, hrep, hrows⟩ : ∃ ed,
      app.editor.remoteReplaceBlock (start % 65536) d n = some (.ok, ed) ∧
        Rowed R { app with editor := ed } (if (start % 65536).toNat ≤ ys.length then
          splice ys (start % 65536).toNat d (List.replicate n y') else ys) := by
    split
    · next hin =>
      obtain ⟨a, z, hys, ha⟩ := exists_eq_append (x := ys) hin
      have hsplit : ys = a ++ z.take d ++ z.drop d := by
        rw [List.append_assoc, List.take_append_drop]
        exact hys
      have hm : app.editor.doc.actualDeleted (start % 65536) d = (z.take d).length := by
        have hlen := congrArg List.length hys
        rw [List.length_append] at hlen
        simp only [Doc.actualDeleted, hcount, List.length_take]
        split <;> omega
      have hnew : ∀ y ∈ List.replicate n y', R Line.zero y := fun y hy =>
        List.eq_of_mem_replicate hy ▸ hfresh
      have hlen : (n : Int) = (List.replicate n y').length := by simp
      obtain ⟨doc, hrep, hrows, ample⟩ := Editor.remoteReplaceBlock_rows (i := start % 65536)
        (hsplit ▸ h.rows) h.ample hlive hnew (by omega) hm hlen
      refine ⟨_, hrep, rowed_clampScroll ?_ ample⟩
      have hdrop : ys.drop ((start % 65536).toNat + d) = z.drop d := by
        rw [hys, ha, ← List.drop_drop, List.drop_left]
      have htake : ys.take (start % 65536).toNat = a := by
        rw [hys, ha, List.take_left]
      rw [splice, hdrop, htake]
      exact hrows
    · next hout => exact ⟨app.editor, Editor.remoteReplaceBlock_out (by omega), h⟩
  exact ⟨_, by rw [hrep, Option.map_some], hrows⟩

end Rowed

theorem Showing.rowed (h : Showing app t) : Rowed (Line.Shows False) app t := ⟨h.shows, h.ample⟩

theorem Rowed.showing (h : Rowed (Line.Shows False) app t) : Showing app t := ⟨h.rows, h.ample⟩

theorem dispatchSerial_update (h : Showing app t) {row : Int} {x : List UInt8}
    (hx : x.length ≤ 250) (hse : (updateMessage row x).Event se) :
    ∃ app', dispatchSerial app se = some app' ∧
      Showing app' (t.set (row % 65536).toNat x) := by
  have hnew (ln : Line) (hln : ln.Holds True (x.take 250)) : ln.Shows False x := by
    rw [List.take_of_length_le hx] at hln
    exact (hln.mono fun _ => trivial).shows
  obtain ⟨app', hdisp, hrows⟩ := dispatchSerial_update_rows h.rowed (fun ln w hw => ⟨w, hw⟩) hnew hse
  exact ⟨app', hdisp, hrows.showing⟩

theorem dispatchSerial_replace (h : Showing app t) {start : Int} {d n : Nat} (hd : d < 65536)
    (hn : n < 65536) (hse : (replaceMessage start d n).Event se) :
    ∃ app', dispatchSerial app se = some app' ∧
      Showing app' (if (start % 65536).toNat ≤ t.length then
        splice t (start % 65536).toNat d (List.replicate n []) else t) := by
  obtain ⟨app', hdisp, hrows⟩ := dispatchSerial_replace_rows h.rowed
    (fun _ _ hx => hx.ne_dangling) Line.zero_shows hse
  rw [Nat.mod_eq_of_lt hd, Nat.mod_eq_of_lt hn] at hrows
  exact ⟨app', hdisp, hrows.showing⟩

/-- CMD_MOVE_CURSOR leaves the document alone. -/
theorem dispatchSerial_moveMessage (app : App) {p : Pos} (hse : (moveMessage p).Event se) :
    ∃ app', dispatchSerial app se = some app' ∧ app'.editor.doc = app.editor.doc ∧
      app'.fileNumLines = app.fileNumLines := by
  simp only [Message.Event, moveMessage, position] at hse
  have hr := payloadWord_eq (a := []) (i := 0) hse rfl rfl
  have hc := payloadWord_eq (a := [hiByte p.row, loByte p.row]) (i := 2) hse rfl rfl
  generalize word (hiByte p.row) (loByte p.row) = row at hr
  generalize word (hiByte p.col) (loByte p.col) = col at hc
  have hdoc : (app.editor.setRemoteCursor row col).doc = app.editor.doc := by
    unfold Editor.setRemoteCursor
    split <;> rfl
  let moved : App := { app with editor := app.editor.setRemoteCursor row col }
  let mode : RenderMode := if app.editor.remoteCursorRow ≠ row then .full else .remoteLine
  refine ⟨moved.setRenderEx mode, ?_, ?_⟩
  · simp [dispatchSerial, payloadLen_ne hse, hse.cmd_eq, SerialCommand.code, serialMoveCursor, hr,
      hc, moved, mode]
  · obtain ⟨_, _, _, heq⟩ := moved.setRenderEx_eq mode
    rw [heq]
    exact ⟨hdoc, rfl⟩

theorem Showing.of_doc {app' : App} (h : Showing app t) (hdoc : app'.editor.doc = app.editor.doc) :
    Showing app' t :=
  ⟨by rw [hdoc]; exact h.shows, by rw [hdoc]; exact h.ample⟩

end Blocks

/-! ## A file -/

section File

variable {β : Type} {R : Line → β → Prop} {app : App} {se : SerialEvent} {t : List β}

/-- A file of `n` rows arrives, and the rows `t` have been loaded. -/
structure Loading (R : Line → β → Prop) (app : App) (t : List β) (n : Nat) : Prop where
  loading : app.editor.doc.Loading R t
  ample : app.editor.doc.heap.Ample
  fileNumLines : app.fileNumLines = n
  linesContador : app.linesContador = t.length
  open' : t.length < n

/-- The whole file has arrived. -/
structure Loaded (R : Line → β → Prop) (app : App) (t : List β) : Prop where
  rows : app.editor.doc.Rows R t
  ample : app.editor.doc.heap.Ample
  fileNumLines : app.fileNumLines = 0

/-- CMD_FILE_START, for any number of rows. -/
theorem dispatchSerial_fileStart_rows (h : app.editor.doc.Freeable)
    (ample : app.editor.doc.heap.Ample) {name : List UInt8} {n : Nat}
    (hse : (fileStartMessage name n).Event se) :
    ∃ app', dispatchSerial app se = some app' ∧ app'.editor.doc.Loading R [] ∧
      app'.editor.doc.heap.Ample ∧ app'.fileNumLines = n % 65536 ∧ app'.linesContador = 0 := by
  simp only [Message.Event, fileStartMessage] at hse
  generalize name.take 250 = x at hse
  have hn := payloadWord_eq (a := []) (i := 0) hse rfl rfl
  rw [word_bytes] at hn
  have hcount : ((n : Int) % 65536).toNat = n % 65536 := by omega
  have hlen : (se.payloadLen.toNat : Int) - 2 = x.length := by
    rw [hse.payloadLen_eq, List.length_cons, List.length_cons]
    omega
  have hname : Block.slice (se.payloadBuf.drop 2) 0 x.length = some x :=
    payload_slice (a := [hiByte n, loByte n]) hse
  obtain ⟨doc, hinit, hload, ample'⟩ := Editor.init_eq (R := R) h ample
  let started : App := { app with
    editor := app.editor.afterInit doc
    fileNumLines := n % 65536
    linesContador := 0
    bar := app.bar.setFilename x
    remote := true }
  refine ⟨(started.setStatus "A Receber Ficheiro...").setRenderEx .full, ?_, ?_⟩
  · simp [dispatchSerial, payloadLen_ne hse, hse.cmd_eq, SerialCommand.code, serialFileStart, hinit,
      hn, hlen, hname, hcount, started]
  · obtain ⟨_, _, _, heq⟩ := (started.setStatus "A Receber Ficheiro...").setRenderEx_eq .full
    rw [heq]
    exact ⟨hload, ample', rfl, rfl⟩

/-- CMD_FILE_START. -/
theorem dispatchSerial_fileStart (h : app.editor.doc.Freeable)
    (ample : app.editor.doc.heap.Ample) {name : List UInt8} {n : Nat} (hpos : 0 < n)
    (hsmall : n < 65536) (hse : (fileStartMessage name n).Event se) :
    ∃ app', dispatchSerial app se = some app' ∧ Loading R app' [] n := by
  obtain ⟨app', hdisp, hload, ample', hlines, hcount⟩ :=
    dispatchSerial_fileStart_rows (R := R) h ample hse
  rw [Nat.mod_eq_of_lt hsmall] at hlines
  exact ⟨app', hdisp, hload, ample', hlines, hcount, hpos⟩

/-- CMD_FILE_LINE while no file is awaited. -/
theorem dispatchSerial_fileLine_idle (h : app.fileNumLines = 0) {x : List UInt8}
    (hse : se.Carries SerialCommand.fileLine.code x) : dispatchSerial app se = some app := by
  simp [dispatchSerial, hse.cmd_eq, SerialCommand.code, serialFileLine, h]

/-- CMD_FILE_LINE: `e` is the byte behind the payload. Until the last line there is
a fresh row below the file. -/
theorem dispatchSerial_fileLine {n : Nat} (h : Loading R app t n) (hsmall : n < 65536)
    {x : List UInt8} {e : UInt8} {y : β} (hse : se.Carries SerialCommand.fileLine.code x)
    (hend : Block.slice se.payloadBuf 0 (x.length + 1) = some (x ++ [e]))
    (hR : ∀ ln : Line, ln.Ends x e → R ln y) :
    ∃ app', dispatchSerial app se = some app' ∧
      if t.length + 1 = n then Loaded R app' (t ++ [y])
      else Loading R app' (t ++ [y]) n ∧
        app'.editor.doc.line (app'.editor.doc.rowCount - 1) = some Line.zero := by
  obtain ⟨doc, hline, hload, ample, hfresh⟩ := h.loading.loadLine h.ample rfl hend hR
  have hline' : app.editor.loadLine se.payloadBuf x.length =
      some (.ok, { app.editor with doc }) := by
    simp [Editor.loadLine, hline]
  have hlen : (se.payloadLen.toNat : Int) = x.length := by rw [hse.payloadLen_eq]
  have hopen := h.open'
  have hcount : (app.linesContador + 1) % 65536 = t.length + 1 := by
    rw [h.linesContador, Nat.mod_eq_of_lt (by omega)]
  have hpos : ¬ n = 0 := by omega
  have hkey : dispatchSerial app se = serialFileLine app se := by
    simp [dispatchSerial, hse.cmd_eq, SerialCommand.code]
  rw [hkey]
  simp only [serialFileLine, h.fileNumLines, hpos, if_false, hlen, hline', hcount,
    Option.bind_eq_bind, Option.bind_some]
  by_cases hlast : t.length + 1 = n
  · simp only [if_pos hlast]
    rw [if_pos (by omega)]
    obtain ⟨doc', hfin, hrows, hheap⟩ := hload.loadFinalize (by simp)
    obtain ⟨_, _, _, heq⟩ := App.setRenderEx_eq { app with
      editor := { app.editor with doc }
      fileNumLines := n
      linesContador := t.length + 1 } .full
    simp only [heq, App.setStatus, Editor.loadFinalize, hfin, Option.bind_eq_bind,
      Option.bind_some, Option.pure_def]
    exact ⟨_, rfl, hrows, hheap ▸ ample, rfl⟩
  · simp only [if_neg hlast]
    rw [if_neg (by omega)]
    have hlen' : (t ++ [y]).length = t.length + 1 := by simp
    exact ⟨_, rfl, ⟨hload, ample, rfl, hlen'.symm, by omega⟩, hfresh⟩

end File

end Commands

end LCode
