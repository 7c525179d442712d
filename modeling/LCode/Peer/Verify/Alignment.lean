import LCode.Lib.Along
import LCode.Peer.Verify.BlockSync
import LCode.Peer.Verify.FileSync
import LCode.Peer.Verify.Integrity

/-!
# Position packets

CMD_INSERT_CHAR and CMD_DELETE_CHAR name no position: the peer makes the edit at
the last cursor it was sent, moved on by the edits since. `Sender` runs a process
together with that implied position. The two part when the cursor moves in
silence: by a drag, by Ctrl+V over a selection with nothing to paste, when a file
is opened; and when a click in the row of the remote cursor is refused, or a
position does not fit into its two words, the position that is sent is not the
cursor's.
-/

namespace LCode

open Serial Commands

/-! ## The implied position -/

/-- The packets in the bytes sent, as a decoder reads them. -/
def sentEvents (bytes : List UInt8) : List SerialEvent :=
  ((Machine.run decoder .start (bytes.map fun b => (b, fun _ => 0))).map Prod.snd).getD []

/-- A packet sets the implied position, or moves it as `editor_insert_char` and
`editor_delete_char` move the cursor of `ed`. -/
def follow (ed : Editor) (told : Option (Int × Int)) (se : SerialEvent) : Option (Int × Int) :=
  if se.cmd = SerialCommand.moveCursor.code then do
    return (← payloadWord se 0, ← payloadWord se 2)
  else if se.cmd = SerialCommand.insertChar.code then do
    let (row, col) ← told
    return if (← payload se 0) = newline then (row + 1, 0) else (row, col + 1)
  else if se.cmd = SerialCommand.deleteChar.code then do
    let (row, col) ← told
    if 0 < col then return (row, col - 1)
    else if 0 < row then return (row - 1, ← ed.getLineLen (row - 1))
    else return (row, col)
  else told

/-! ## Where cursor and implied position part -/

namespace App

def cursor (app : App) : Int × Int := (app.editor.cursorRow, app.editor.cursorCol)

/-- The cursor fits into the payload of CMD_MOVE_CURSOR. -/
def Fits (app : App) : Prop := app.editor.cursorRow < 65536 ∧ app.editor.cursorCol < 65536

/-- A click in the row of the remote cursor, away from the local one. -/
def Refuses (app : App) : Input → Prop
  | .mouse me => me.leftClicked = true ∧ ∃ q ∈ app.textHit me,
      app.editor.remoteCursorRow = q.1 ∧ q ≠ app.cursor
  | _ => False

/-- The cursor moves and nothing is sent. -/
def Strays (app : App) : Input → Prop
  | .mouse me => app.MayOpen (.mouse me) ∨ (me.leftClicked = false ∧ me.leftHolding = true ∧
      ∃ q ∈ app.textHit me, app.editor.remoteCursorRow ≠ q.1 ∧ q ≠ app.cursor)
  | .key ev => app.MayOpen (.key ev) ∨ (app.Pastes ev ∧ app.editor.selActive = true ∧
      app.editor.clipboard = none ∧
      (app.editor.selGetRange.1, app.editor.selGetRange.2.1) ≠ app.cursor)
  | .render => False

instance (app : App) : Decidable app.Fits := inferInstanceAs (Decidable (_ ∧ _))

instance (app : App) (ev : KeyEvent) : Decidable (app.Pastes ev) :=
  inferInstanceAs (Decidable (_ ∧ _))

instance (app : App) (i : Input) : Decidable (app.MayOpen i) := by
  unfold MayOpen
  cases i <;> infer_instance

instance (app : App) (i : Input) : Decidable (app.Refuses i) := by
  unfold Refuses
  cases i <;> infer_instance

instance (app : App) (i : Input) : Decidable (app.Strays i) := by
  unfold Strays
  cases i <;> infer_instance

end App

/-- A process and what it has sent of its cursor: the implied position, and
whether the cursor has strayed since. -/
structure Sender where
  app : App
  told : Option (Int × Int)
  stale : Bool

namespace Sender

/-- The packets of one input. -/
def packets (s : Sender) (i : Input) : List SerialEvent :=
  ((s.app.flush.handle i).map fun app => sentEvents app.sent).getD []

/-- A CMD_INSERT_CHAR or CMD_DELETE_CHAR is among the packets. -/
def Edits (s : Sender) (i : Input) : Prop :=
  ∃ se ∈ s.packets i, se.cmd = SerialCommand.insertChar.code ∨
    se.cmd = SerialCommand.deleteChar.code

/-- The input sends the cursor. -/
def Moves (s : Sender) (i : Input) : Prop :=
  ∃ se ∈ s.packets i, se.cmd = SerialCommand.moveCursor.code

instance (s : Sender) (i : Input) : Decidable (s.Edits i) := List.decidableBEx _ _

instance (s : Sender) (i : Input) : Decidable (s.Moves i) := List.decidableBEx _ _

/-- One local input. -/
def step (s : Sender) (i : Input) : Option Sender := do
  let app ← s.app.flush.handle i
  return {
    app
    told := (s.packets i).foldl (follow s.app.editor) s.told
    stale := decide
      (if s.Moves i then s.app.Refuses i ∨ ¬ app.Fits else s.stale ∨ s.app.Strays i) }

/-- A process whose peer has just been told the cursor. -/
def start (app : App) : Sender := ⟨app, some app.cursor, false⟩

end Sender

/-! ## What packets do to the implied position -/

section Packets

variable {ed : Editor} {told : Option (Int × Int)} {se : SerialEvent} {p : Pos}

theorem sentEvents_stream {ms : List Message} (hlen : ∀ m ∈ ms, m.body.length < 256) :
    List.Forall₂ Message.Event ms (sentEvents (stream ms)) := by
  have idle : Idle Decoder.start := ⟨rfl, List.length_replicate⟩
  have hins : ((stream ms).map fun b => (b, (fun _ => 0 : Stack))).map Prod.fst = stream ms := by
    rw [List.map_map]
    exact List.map_id _
  obtain ⟨dec, evs, hrun, -, hevs⟩ := run_messages idle hlen hins
  simpa only [sentEvents, hrun, Option.map_some, Option.getD_some] using hevs

theorem follow_move (hse : (moveMessage p).Event se) :
    follow ed told se = some ((p.row : Int) % 65536, (p.col : Int) % 65536) := by
  have hr := payloadWord_eq (a := []) (i := 0) hse rfl rfl
  have hc := payloadWord_eq (a := [hiByte p.row, loByte p.row]) (i := 2) hse rfl rfl
  rw [word_bytes] at hr hc
  simp only [follow, show se.cmd = SerialCommand.moveCursor.code from hse.cmd_eq, if_true, hr, hc]
  rfl

theorem follow_insert {c : UInt8} (hse : Message.Event ⟨.insertChar, [c]⟩ se) :
    follow ed (some p.ints) se = some (Text.afterInsert newline p c).ints := by
  have hpay := payload_eq (a := []) (i := 0) hse rfl rfl
  have hcmd : se.cmd = SerialCommand.insertChar.code := hse.cmd_eq
  have hne : ¬ SerialCommand.insertChar.code = SerialCommand.moveCursor.code := by decide
  simp only [follow, hcmd, hne, if_true, if_false, hpay, Text.afterInsert, Pos.ints]
  by_cases hc : c = newline
  · simp [hc]
  · simp [hc]

theorem follow_erase {T : Prop} {t : List (List UInt8)} (h : ed.At T t p)
    (hse : Message.Event ⟨.deleteChar, []⟩ se) :
    follow ed (some p.ints) se = some (Text.afterBackspace t p).ints := by
  have hcmd : se.cmd = SerialCommand.deleteChar.code := hse.cmd_eq
  have h₁ : ¬ SerialCommand.deleteChar.code = SerialCommand.moveCursor.code := by decide
  have h₂ : ¬ SerialCommand.deleteChar.code = SerialCommand.insertChar.code := by decide
  simp only [follow, hcmd, h₁, h₂, if_true, if_false, Text.afterBackspace, Pos.ints,
    Option.bind_eq_bind, Option.bind_some]
  by_cases hcol : 0 < p.col
  · have hpred : (p.col : Int) - 1 = (p.col - 1 : Nat) := by omega
    rw [if_pos (by omega), if_pos hcol, hpred]
    rfl
  · rw [if_neg (by omega), if_neg hcol]
    by_cases hrow : 0 < p.row
    · have hpred : (p.row : Int) - 1 = (p.row - 1 : Nat) := by omega
      have hlt : p.row - 1 < t.length := Nat.lt_of_le_of_lt (Nat.sub_le _ _) h.valid.1
      rw [if_pos (by omega), if_pos hrow, hpred, Editor.getLineLen_row h.holds.shows]
      rfl
    · rw [if_neg (by omega), if_neg hrow]
      rfl

/-- Packets that end with the cursor. -/
theorem follow_moved {ms : List Message} {evs : List SerialEvent}
    (h : List.Forall₂ Message.Event (ms ++ [moveMessage p]) evs) :
    (∃ se ∈ evs, se.cmd = SerialCommand.moveCursor.code) ∧
      evs.foldl (follow ed) told = some ((p.row : Int) % 65536, (p.col : Int) % 65536) := by
  obtain ⟨evs₁, evs₂, rfl, -, h₂⟩ := events_append h
  obtain ⟨se, rfl, hse⟩ := events_one h₂
  refine ⟨⟨se, by simp, hse.cmd_eq⟩, ?_⟩
  rw [List.foldl_append]
  exact follow_move hse

end Packets

/-! ## One input and a run -/

namespace Sender

variable {T : Prop} {s s' : Sender} {t : List (List UInt8)} {p : Pos} {i : Input}

/-- The process is good; unless the cursor has strayed, its peer would edit there. -/
structure Aligned (T : Prop) (s : Sender) (t : List (List UInt8)) (p : Pos) : Prop where
  good : s.app.Good T t p
  told : s.app.remote = true → s.stale = false → s.told = some p.ints

theorem flush_good (h : s.app.Good T t p) : s.app.flush.Good T t p :=
  ⟨h.sound, h.nul, h.tree, h.res, h.window⟩

/-- What a step that leaves the implied position fresh has been. -/
structure Fresh (s : Sender) (i : Input) (app : App) : Prop where
  moves : s.Moves i → ¬ s.app.Refuses i ∧ app.Fits
  silent : ¬ s.Moves i → s.stale = false ∧ ¬ s.app.Strays i

theorem step_eq (h : s.step i = some s') : s.app.flush.handle i = some s'.app ∧
    s.packets i = sentEvents s'.app.sent ∧
    s'.told = (s.packets i).foldl (follow s.app.editor) s.told ∧
    (s'.stale = false → s.Fresh i s'.app) := by
  obtain ⟨app, hhandle, h⟩ := Option.bind_eq_some_iff.1 h
  obtain rfl := Option.some.inj h
  refine ⟨hhandle, by rw [packets, hhandle]; rfl, rfl, fun hfresh => ?_⟩
  rw [decide_eq_false_iff_not] at hfresh
  by_cases hmoves : s.Moves i
  · rw [if_pos hmoves, not_or, not_not] at hfresh
    exact ⟨fun _ => hfresh, fun hnot => absurd hmoves hnot⟩
  · rw [if_neg hmoves, not_or, Bool.not_eq_true] at hfresh
    exact ⟨fun hyes => absurd hyes hmoves, fun _ => hfresh⟩

theorem moveMessage_short {r : Pos} : ∀ m ∈ [] ++ [moveMessage r], m.body.length < 256 := by
  simp [moveMessage, position]

/-- An input that sends nothing and moves the cursor only if it strays. -/
theorem Aligned.silent {t' : List (List UInt8)} {q : Pos} (h : s.Aligned T t p)
    (hstep : s.step i = some s') (hdid : Did T s.app.flush s'.app t' q [])
    (hmove : ¬ s.app.Strays i → q = p) : s'.Aligned T t' q := by
  obtain ⟨-, hpackets, htold, hstale⟩ := step_eq hstep
  have hsent : s'.app.sent = [] := hdid.sent_eq
  have hnone : s.packets i = [] := by rw [hpackets, hsent]; rfl
  have hmoves : ¬ s.Moves i := by simp [Moves, hnone]
  refine ⟨hdid.good, fun hremote hfresh => ?_⟩
  obtain ⟨hold, hstays⟩ := (hstale hfresh).silent hmoves
  rw [htold, hnone, hmove hstays]
  exact h.told (hdid.remote ▸ hremote) hold

/-- An input that sends the position `r` last. -/
theorem Aligned.moved {app : App} {t' : List (List UInt8)} {q r : Pos} {ms : List Message}
    (hstep : s.step i = some s') (hdid : Did T app s'.app t' q (ms ++ [moveMessage r]))
    (hsent : app.sent = []) (hlen : ∀ m ∈ ms ++ [moveMessage r], m.body.length < 256)
    (hmove : ¬ s.app.Refuses i → r = q) : s'.Aligned T t' q := by
  obtain ⟨-, hpackets, htold, hstale⟩ := step_eq hstep
  refine ⟨hdid.good, fun hremote hfresh => ?_⟩
  have hstream : s'.app.sent = stream (ms ++ [moveMessage r]) := by
    rw [hdid.sent, hsent, if_pos (hdid.remote ▸ hremote), List.nil_append]
  have hevs := sentEvents_stream hlen
  rw [← hstream, ← hpackets] at hevs
  obtain ⟨hmoves, hfollow⟩ := follow_moved hevs
  obtain ⟨htaken, hfits⟩ := (hstale hfresh).moves hmoves
  obtain rfl := hmove htaken
  have hrow := hdid.good.sound.at'.row
  have hcol := hdid.good.sound.at'.col
  rw [App.Fits, hrow, hcol] at hfits
  rw [htold, hfollow, Int.emod_eq_of_lt (by omega) hfits.1, Int.emod_eq_of_lt (by omega) hfits.2]
  rfl

/-- An input that sends the edit `m` only. -/
theorem Aligned.edited {t' : List (List UInt8)} {q : Pos} {m : Message} (h : s.Aligned T t p)
    (hstep : s.step i = some s') (hdid : Did T s.app.flush s'.app t' q [m])
    (hlen : m.body.length < 256) (hcmd : m.cmd.code ≠ SerialCommand.moveCursor.code)
    (hfollow : ∀ se, m.Event se → follow s.app.editor (some p.ints) se = some q.ints) :
    s'.Aligned T t' q := by
  obtain ⟨-, hpackets, htold, hstale⟩ := step_eq hstep
  refine ⟨hdid.good, fun hremote hfresh => ?_⟩
  have hold : s.app.remote = true := hdid.remote ▸ hremote
  have hstream : s'.app.sent = stream [m] := by
    rw [hdid.sent, if_pos (show s.app.flush.remote = true from hold)]
    rfl
  have hlen' : ∀ m' ∈ [m], m'.body.length < 256 := by simpa using hlen
  have hevs := sentEvents_stream hlen'
  rw [← hstream, ← hpackets] at hevs
  obtain ⟨se, hone, hse⟩ := events_one hevs
  have hmoves : ¬ s.Moves i := by
    rintro ⟨se', hmem, hse'⟩
    rw [hone, List.mem_singleton] at hmem
    rw [hmem, hse.cmd_eq] at hse'
    exact hcmd hse'
  rw [htold, hone, h.told hold ((hstale hfresh).silent hmoves).1]
  exact hfollow se hse

/-- One input keeps the implied position as good as its flag says. -/
theorem Aligned.step (h : s.Aligned T t p) (hstep : s.step i = some s') :
    ∃ t' q, s'.Aligned T t' q := by
  have hgood := flush_good h.good
  have hhandle := (step_eq hstep).1
  have hcursor : s.app.cursor = p.ints :=
    Prod.ext h.good.sound.at'.row h.good.sound.at'.col
  have hints {q : Pos} (heq : q.ints = p.ints) : q = p := by
    obtain ⟨hrow, hcol⟩ := Prod.mk.inj heq
    exact Pos.ext (Int.natCast_inj.1 hrow) (Int.natCast_inj.1 hcol)
  have hflush (me : MouseEvent) : s.app.flush.textHit me = s.app.textHit me :=
    textHit_congr rfl rfl rfl
  obtain ⟨app', happ, hacts⟩ : ∃ app', s.app.flush.handle i = some app' ∧
      Acts T s.app.flush t p i app' := by
    rcases handle_acts hgood i with hyes | ⟨-, hnone⟩
    · exact hyes
    · rw [hhandle] at hnone
      nomatch hnone
  rw [hhandle, Option.some.injEq] at happ
  subst happ
  cases hacts with
  | quiet did => exact ⟨_, _, h.silent hstep did fun _ => rfl⟩
  | insert _ _ did =>
    exact ⟨_, _, h.edited hstep did (by simp) (show SerialCommand.insertChar.code ≠ _ by decide)
      fun se => follow_insert⟩
  | erase _ did =>
    exact ⟨_, _, h.edited hstep did (by simp) (by decide) fun se => follow_erase h.good.sound.at'⟩
  | move did => exact ⟨_, _, .moved hstep did rfl moveMessage_short fun _ => rfl⟩
  | click _ _ _ did => exact ⟨_, _, .moved hstep did rfl moveMessage_short fun _ => rfl⟩
  | @refuse me _ q clicked hit row did =>
    refine ⟨_, _, .moved hstep did rfl moveMessage_short fun hnot => ?_⟩
    refine hints (not_not.1 fun hne => hnot ⟨clicked, q.ints, hflush me ▸ hit, row, ?_⟩)
    rwa [hcursor]
  | @drag me _ q clicked holding hit row did =>
    refine ⟨_, _, h.silent hstep did fun hnot => ?_⟩
    refine hints (not_not.1 fun hne => hnot (.inr ⟨clicked, holding, q.ints, hflush me ▸ hit, row, ?_⟩))
    rwa [hcursor]
  | block _ _ _ did =>
    exact ⟨_, _, .moved hstep did rfl (fun m hm => blockMessages_length hm) fun _ => rfl⟩
  | above _ _ did =>
    exact ⟨_, _, .moved hstep did rfl (fun m hm => blockMessages_length hm) fun _ => rfl⟩
  | @drop ev _ _ q key active clip start did =>
    refine ⟨_, _, h.silent hstep did fun hnot => ?_⟩
    refine hints (not_not.1 fun hne => hnot (.inr ⟨key, active, clip, ?_⟩))
    rw [hcursor]
    exact fun heq => hne ((Prod.ext start.1 start.2).symm.trans heq)
  | load opens did =>
    refine ⟨_, _, h.silent hstep did fun hnot => absurd ?_ hnot⟩
    cases i with
    | key ev => exact .inl opens
    | mouse me => exact .inl opens
    | render => exact opens
  | share did =>
    exact ⟨_, _, .moved hstep did rfl (fun m hm => fileMessages_length hm) fun _ => rfl⟩

/-- No packet of `execute_sync` is an edit. -/
theorem fileMessages_edits {name : List UInt8} {evs : List SerialEvent}
    (h : List.Forall₂ Message.Event (fileMessages name t p) evs) {se : SerialEvent}
    (hse : se ∈ evs) : se.cmd ≠ SerialCommand.insertChar.code ∧
      se.cmd ≠ SerialCommand.deleteChar.code := by
  obtain ⟨m, hm, hevent⟩ : ∃ m ∈ fileMessages name t p, m.Event se := by
    obtain ⟨k, hk, rfl⟩ := List.getElem_of_mem hse
    have hlen := h.length_eq
    exact ⟨_, List.getElem_mem (by omega), h.get (by omega) hk⟩
  rw [hevent.cmd_eq]
  rcases List.mem_append.1 hm with hm | hm
  · rcases List.mem_cons.1 hm with rfl | hm
    · exact ⟨show SerialCommand.fileStart.code ≠ _ by decide,
        show SerialCommand.fileStart.code ≠ _ by decide⟩
    · obtain ⟨x, -, rfl⟩ := List.mem_map.1 hm
      exact ⟨show SerialCommand.fileLine.code ≠ _ by decide,
        show SerialCommand.fileLine.code ≠ _ by decide⟩
  · rw [List.mem_singleton.1 hm]
    exact ⟨show SerialCommand.moveCursor.code ≠ _ by decide,
      show SerialCommand.moveCursor.code ≠ _ by decide⟩

/-- Edits are sent while the text is shared only. -/
theorem Aligned.edits_remote (h : s.Aligned T t p) (hedits : s.Edits i) : s.app.remote = true := by
  obtain ⟨se, hse, hcmd⟩ := hedits
  rcases handle_acts (flush_good h.good) i with ⟨app, hhandle, hacts⟩ | ⟨-, hnone⟩
  · rw [packets, hhandle, Option.map_some, Option.getD_some] at hse
    by_contra hremote
    -- what is told of an unshared text is told to nobody
    have hquiet {t' : List (List UInt8)} {q : Pos} {ms : List Message}
        (hdid : Did T s.app.flush app t' q ms) : False := by
      rw [hdid.sent, if_neg (show ¬ s.app.flush.remote = true from hremote)] at hse
      nomatch hse
    cases hacts with
    | quiet did | insert _ _ did | erase _ did | move did | click _ _ _ did | refuse _ _ _ did
    | drag _ _ _ _ did | block _ _ _ did | above _ _ did | drop _ _ _ _ did | load _ did =>
      exact hquiet did
    | share did =>
      have hlen : ∀ m ∈ fileMessages s.app.flush.bar.filename t p, m.body.length < 256 :=
        fun _ => fileMessages_length
      have hevs := sentEvents_stream hlen
      have hsent : app.sent = stream (fileMessages s.app.flush.bar.filename t p) := did.sent
      rw [← hsent] at hevs
      obtain ⟨hins, hdel⟩ := fileMessages_edits hevs hse
      exact hcmd.elim hins hdel
  · rw [packets, hnone] at hse
    nomatch hse

end Sender

/-- In a run in which no edit is sent after the cursor has strayed, the implied
position is the cursor whenever an edit is sent. -/
theorem position_packets_align {T : Prop} {app : App} {t : List (List UInt8)} {p : Pos}
    (good : app.Good T t p) {inputs : List Input}
    (hclear : Along Sender.step (fun s i => s.Edits i → s.stale = false) (.start app) inputs) :
    Along Sender.step (fun s i => s.Edits i → s.told = some s.app.cursor) (.start app) inputs := by
  refine hclear.of_invariant (I := fun s => ∃ t p, s.Aligned T t p) ?_ ?_ ⟨t, p, good, ?_⟩
  · rintro s i s' ⟨t, p, h⟩ - hstep
    exact h.step hstep
  · rintro s i ⟨t, p, h⟩ hfresh hedits
    rw [h.told (h.edits_remote hedits) (hfresh hedits)]
    exact congrArg some (Prod.ext h.good.sound.at'.row h.good.sound.at'.col).symm
  · intro _ _
    exact congrArg some (Prod.ext good.sound.at'.row good.sound.at'.col)

/-- `:sync`, a character, a drag, and the rest of the keys. -/
def dragged (keys : List KeyEvent) : List Input :=
  (ascii ":sync").map (fun c => .key { KeyEvent.none with c }) ++
    [.key { KeyEvent.none with enter := true },
      .key { KeyEvent.none with c := 'a'.toUInt8 },
      .mouse ⟨true, true, 200, 10, 0⟩, .mouse ⟨false, true, 208, 10, 0⟩,
      .mouse ⟨false, false, 208, 10, 0⟩] ++ keys.map .key

/-- After the drag Home sends the cursor, and the next character goes where it is. -/
theorem position_packets_align_home : ∃ app,
    App.start emptyDisk .zeros (ascii "a.c") = some app ∧
    Along Sender.step (fun s i => s.Edits i → s.told = some s.app.cursor) (.start app)
      (dragged [{ KeyEvent.none with dir := .home }, { KeyEvent.none with c := 'x'.toUInt8 }]) := by
  obtain ⟨app, hstart, good⟩ := start_good True emptyDisk Heap.zeros_ample (ascii "a.c")
  refine ⟨app, hstart, position_packets_align good ?_⟩
  have hclear : (App.start emptyDisk .zeros (ascii "a.c")).map (fun app => decide
      (Along Sender.step (fun s i => s.Edits i → s.stale = false) (.start app)
        (dragged [{ KeyEvent.none with dir := .home },
          { KeyEvent.none with c := 'x'.toUInt8 }]))) = some true := by
    decide +kernel
  rw [hstart, Option.map_some, Option.some.injEq] at hclear
  exact of_decide_eq_true hclear

/-- A character typed where a drag has left the cursor. -/
theorem drag_not_sent : ∃ app, App.start emptyDisk .zeros (ascii "a.c") = some app ∧
    ¬ Along Sender.step (fun s i => s.Edits i → s.told = some s.app.cursor) (.start app)
      (dragged [{ KeyEvent.none with c := 'x'.toUInt8 }]) := by
  have hrun : (App.start emptyDisk .zeros (ascii "a.c")).map (fun app => decide
      (Along Sender.step (fun s i => s.Edits i → s.told = some s.app.cursor) (.start app)
        (dragged [{ KeyEvent.none with c := 'x'.toUInt8 }]))) = some false := by
    decide +kernel
  obtain ⟨app, hstart, hrun⟩ := Option.map_eq_some_iff.1 hrun
  exact ⟨app, hstart, of_decide_eq_false hrun⟩

end LCode
