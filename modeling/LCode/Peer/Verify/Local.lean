import LCode.App.Verify.FileTree
import LCode.App.Verify.Layout
import LCode.Commands.Verify.Blocks
import LCode.Commands.Verify.Files
import LCode.Peer.Basic

/-!
# Local inputs

What a key or a mouse event does to a process: to its text and cursor, and what it
sends while the text is shared. Every input is handled and leaves a good state; of
a text whose rows need not be terminated this excepts saving.
-/

namespace LCode

open Serial Commands

/-- The state of a process between two inputs. -/
structure App.Good (T : Prop) (app : App) (t : List (List UInt8)) (p : Pos) : Prop where
  sound : app.editor.Sound T t p
  nul : Text.All (· ≠ 0) t
  tree : app.tree.InRange
  res : app.scene.vRes = 864
  window : 0 < app.scene.visRows

/-- The input has made `t` of the text, taken the cursor to `p`, and sent `ms` while
the text is shared. -/
structure Did (T : Prop) (app app' : App) (t : List (List UInt8)) (p : Pos)
    (ms : List Message) : Prop where
  good : app'.Good T t p
  remoteRow : app'.editor.remoteCursorRow = app.editor.remoteCursorRow
  remoteCol : app'.editor.remoteCursorCol = app.editor.remoteCursorCol
  remote : app'.remote = app.remote
  fileNumLines : app'.fileNumLines = app.fileNumLines
  sent : app'.sent = app.sent ++ stream (if app.remote then ms else [])
  scrolled : app.editor.Scrolled → app'.editor.Scrolled

/-! ## Which branch an event takes -/

def Pos.ints (q : Pos) : Int × Int := (q.row, q.col)

namespace App

/-- The position of the text that a mouse event hits. -/
def textHit (app : App) (me : MouseEvent) : Option (Int × Int) :=
  if me.scroll ≠ 0 then none
  else if (app.clickScrollbar me.clickX me.clickY).1 then none
  else if (app.scene.pxToFiletree app.tree me.clickX me.clickY).isSome then none
  else (app.scene.pxToText app.editor me.clickX me.clickY).join

/-- The key is Ctrl+V, and the editor gets it. -/
def Pastes (app : App) (ev : KeyEvent) : Prop :=
  app.tree.focused = false ∧ app.bar.mode ≠ .command ∧ ev.escape = false ∧
    ev.backspace = false ∧ ev.dir = .none ∧ ev.ctrl = true ∧ ev.c = 'v'.toUInt8

/-- The input reaches `execute_open`, or the entry of the file tree it would open. -/
def MayOpen (app : App) : Input → Prop
  | .key ev => ev.escape = false ∧ ev.enter = true ∧ (app.tree.focused = true ∨
      app.bar.mode = .command ∧ app.bar.input.takeWhile (· ≠ space) = ascii "open")
  | .mouse me => me.scroll = 0 ∧
      app.scene.pxToFiletree app.tree me.clickX me.clickY = some app.tree.cursor
  | .render => False

end App

/-- A result with `P`; without terminators there may be none. -/
def Yields {α : Type} (T : Prop) (o : Option α) (P : α → Prop) : Prop :=
  (∃ a, o = some a ∧ P a) ∨ (¬ T ∧ o = none)

section Yields

variable {α β : Type} {T : Prop} {o : Option α} {P Q : α → Prop}

theorem yields {a : α} (h : P a) : Yields T (some a) P := Or.inl ⟨a, rfl, h⟩

theorem yields_of {a : α} (ho : o = some a) (h : P a) : Yields T o P := Or.inl ⟨a, ho, h⟩

theorem Yields.imp (h : Yields T o P) (hPQ : ∀ a, P a → Q a) : Yields T o Q :=
  Or.imp (fun ⟨a, ho, ha⟩ => ⟨a, ho, hPQ a ha⟩) id h

theorem Yields.bind {f : α → Option β} {Q : β → Prop} (h : Yields T o P)
    (hf : ∀ a, P a → Yields T (f a) Q) : Yields T (o.bind f) Q := by
  rcases h with ⟨a, rfl, ha⟩ | ⟨hT, rfl⟩
  · exact hf a ha
  · exact Or.inr ⟨hT, rfl⟩

theorem Yields.ite {c : Prop} [Decidable c] {x y : Option α} (hx : c → Yields T x P)
    (hy : ¬ c → Yields T y P) : Yields T (if c then x else y) P := by
  by_cases hc : c
  · rw [if_pos hc]
    exact hx hc
  · rw [if_neg hc]
    exact hy hc

end Yields

/-! ## What an input does -/

/-- The kinds of input, by what they do to the text and what they send. -/
inductive Acts (T : Prop) (app : App) (t : List (List UInt8)) (p : Pos) : Input → App → Prop
  | quiet {i app'} (did : Did T app app' t p []) : Acts T app t p i app'
  | insert {ev app' c} (inactive : app.editor.selActive = false) (char : c ≠ 0)
      (did : Did T app app' (Text.insert newline t p c) (Text.afterInsert newline p c)
        [⟨.insertChar, [c]⟩]) : Acts T app t p (.key ev) app'
  | erase {ev app'} (inactive : app.editor.selActive = false)
      (did : Did T app app' (Text.backspace t p) (Text.afterBackspace t p) [⟨.deleteChar, []⟩]) :
      Acts T app t p (.key ev) app'
  | move {ev app' q} (did : Did T app app' t q [moveMessage q]) : Acts T app t p (.key ev) app'
  | click {me app' q} (clicked : me.leftClicked = true)
      (hit : app.textHit me = some (Pos.ints q))
      (row : app.editor.remoteCursorRow ≠ q.row)
      (did : Did T app app' t q [moveMessage q]) : Acts T app t p (.mouse me) app'
  | refuse {me app' q} (clicked : me.leftClicked = true)
      (hit : app.textHit me = some (Pos.ints q))
      (row : app.editor.remoteCursorRow = q.row)
      (did : Did T app app' t p [moveMessage q]) : Acts T app t p (.mouse me) app'
  | drag {me app' q} (clicked : me.leftClicked = false) (holding : me.leftHolding = true)
      (hit : app.textHit me = some (Pos.ints q))
      (row : app.editor.remoteCursorRow ≠ q.row)
      (did : Did T app app' t q []) : Acts T app t p (.mouse me) app'
  | block {ev app' t' q w i d n} (text : t' = splice t i d w) (inside : i + d ≤ t.length)
      (rows : n = w.length ∨ ev.c = newline)
      (did : Did T app app' t' q (blockMessages t' q i d n)) : Acts T app t p (.key ev) app'
  | above {ev app'} (row : p.row = 0) (col : p.col = 0)
      (did : Did T app app' t p (blockMessages t p (-1) 2 1)) : Acts T app t p (.key ev) app'
  | drop {ev app' t' q} (key : app.Pastes ev) (active : app.editor.selActive = true)
      (clip : app.editor.clipboard = none)
      (start : app.editor.selGetRange.1 = (q : Pos).row ∧ app.editor.selGetRange.2.1 = q.col)
      (did : Did T app app' t' q []) : Acts T app t p (.key ev) app'
  | load {i app' t'} (opens : app.MayOpen i) (did : Did T app app' t' ⟨0, 0⟩ []) :
      Acts T app t p i app'
  | share {ev app'}
      (did : Did T { app with remote := true } app' t p (fileMessages app.bar.filename t p)) :
      Acts T app t p (.key ev) app'

section Handlers

variable {T : Prop} {app app' app'' : App} {t t' : List (List UInt8)} {p q : Pos}
  {ms : List Message} {ev : KeyEvent} {me : MouseEvent}

/-! ## Building blocks -/

theorem Did.of_edited (h : app.Good T t p) (hall : Text.All (· ≠ 0) t')
    (hed : Edited T app app' t' q ms) : Did T app app' t' q ms where
  good :=
    { sound :=
        { at' := hed.at'
          selected := fun hactive => absurd (hed.inactive.symm.trans hactive) (by decide)
          clip := fun clip hclip => h.sound.clip clip (hed.clipboard ▸ hclip) }
      nul := hall
      tree := hed.tree ▸ h.tree
      res := hed.scene ▸ h.res
      window := hed.scene ▸ h.window }
  remoteRow := hed.remoteRow
  remoteCol := hed.remoteCol
  remote := hed.remote
  fileNumLines := hed.fileNumLines
  sent := hed.sent
  scrolled := hed.scrolled

/-- The editor is left alone. -/
theorem Did.of_editor (h : app.Good T t p) (hed : app'.editor = app.editor)
    (htree : app'.tree.InRange) (hscene : app'.scene = app.scene)
    (hremote : app'.remote = app.remote) (hlines : app'.fileNumLines = app.fileNumLines)
    (hsent : app'.sent = app.sent) : Did T app app' t p [] where
  good := ⟨hed ▸ h.sound, h.nul, htree, hscene ▸ h.res, hscene ▸ h.window⟩
  remoteRow := by rw [hed]
  remoteCol := by rw [hed]
  remote := hremote
  fileNumLines := hlines
  sent := by rw [hsent]; split <;> simp [stream]
  scrolled := hed ▸ id

theorem Did.refl (h : app.Good T t p) : Did T app app t p [] :=
  .of_editor h rfl h.tree rfl rfl rfl rfl

theorem Did.setRender (h : Did T app app' t p ms) (mode : RenderMode) :
    Did T app (app'.setRender mode) t p ms :=
  ⟨⟨h.good.sound, h.good.nul, h.good.tree, h.good.res, h.good.window⟩, h.remoteRow, h.remoteCol,
    h.remote, h.fileNumLines, h.sent, h.scrolled⟩

/-! ## Keys in the editor -/

theorem backspaceKey_acts (h : app.Good T t p) (ev : KeyEvent) :
    ∃ app', backspaceKey app ev = some app' ∧ Acts T app t p (.key ev) app' := by
  have hat := h.sound.at'
  unfold backspaceKey
  cases hactive : app.editor.selActive with
  | true =>
    obtain ⟨s, hs⟩ := h.sound.selected hactive
    obtain ⟨t', q, d, app', hm, hkey, hed⟩ := deleteSelectionKey_eq hat hs
    obtain ⟨x, hx⟩ := hm.merged
    exact ⟨app', by simp [hkey], .block (w := [x]) hx hm.inside (.inl rfl)
      (.of_edited h (hm.all _ h.nul) hed)⟩
  | false =>
    cases hctrl : ev.ctrl with
    | false =>
      obtain ⟨app', hkey, hed⟩ := deleteCharKey_eq hat hactive
      exact ⟨app', by simp [hkey], .erase hactive (.of_edited h (h.nul.backspace p) hed)⟩
    | true =>
      by_cases hc : p.col = 0
      · obtain ⟨app', hkey, hed⟩ := deleteWordKey_start hat hactive hc
        refine ⟨app', by simp [hkey], ?_⟩
        by_cases hr : p.row = 0
        · have hback : Text.backspace t p = t := by simp [Text.backspace, hc, hr]
          have hafter : Text.afterBackspace t p = p := by simp [Text.afterBackspace, hc, hr]
          rw [hback, hafter, hr] at hed
          exact .above hr hc (.of_edited h h.nul hed)
        · have hm := Text.merges_backspace hat.valid hc (by omega)
          obtain ⟨x, hx⟩ := hm.merged
          have hpred : (p.row : Int) - 1 = (p.row - 1 : Nat) := by omega
          rw [hpred] at hed
          exact .block (w := [x]) hx hm.inside (.inl rfl) (.of_edited h (hm.all _ h.nul) hed)
      · obtain ⟨t', q, app', hm, hkey, hed⟩ := deleteWordKey_eq hat hactive (by omega)
        obtain ⟨x, hx⟩ := hm.merged
        exact ⟨app', by simp [hkey], .block (w := [x]) hx hm.inside (.inl rfl)
          (.of_edited h (hm.all _ h.nul) hed)⟩

theorem directionKey_acts (h : app.Good T t p) (ev : KeyEvent) :
    ∃ app', directionKey app ev = some app' ∧ Acts T app t p (.key ev) app' := by
  obtain ⟨app', q, hkey, -, hat, htells, -, hanchor⟩ := directionKey_eq h.sound.at' ev
  refine ⟨app', hkey, .move (q := q) ⟨⟨⟨hat, fun hactive => ?_, ?_⟩, h.nul, htells.tree ▸ h.tree,
    htells.scene ▸ h.res, htells.scene ▸ h.window⟩, htells.remoteRow, htells.remoteCol,
    htells.remote, htells.fileNumLines, htells.sent, htells.scrolled⟩⟩
  · rcases hanchor hactive with ⟨hrow, hcol⟩ | ⟨hold, hrow, hcol⟩
    · exact ⟨p, hactive, hrow, hcol, h.sound.at'.valid⟩
    · obtain ⟨s, hs⟩ := h.sound.selected hold
      exact ⟨s, hactive, hrow.trans hs.row, hcol.trans hs.col, hs.valid⟩
  · exact fun clip hclip => h.sound.clip clip (htells.clipboard ▸ hclip)

/-- The text that is copied ends at its terminator. -/
theorem copied_clip (h : Text.All (· ≠ 0) t) (b e : Pos) (clip : List UInt8)
    (hclip : some (Text.copy newline t b e ++ [0]) = some clip) :
    ∃ x rest, clip = x ++ 0 :: rest ∧ 0 ∉ x :=
  ⟨_, [], (Option.some.inj hclip).symm, fun h0 => h.copy (by decide) b e 0 h0 rfl⟩

/-- `editor_copy_selection`. -/
theorem copySelection_good (h : app.Good T t p) :
    ∃ ed, app.editor.copySelection = some ed ∧ Did T app { app with editor := ed } t p [] ∧
      ed.selActive = app.editor.selActive := by
  cases hactive : app.editor.selActive with
  | false =>
    exact ⟨_, Editor.copySelection_inactive hactive, .refl h, hactive⟩
  | true =>
    obtain ⟨s, hs⟩ := h.sound.selected hactive
    obtain ⟨b, e, heap, -, ample, hcopy⟩ := h.sound.at'.copySelection hs
    have hat := h.sound.at'
    refine ⟨_, hcopy, ⟨⟨⟨⟨hat.holds.withHeap heap, ample, hat.row, hat.col, hat.valid⟩,
      fun _ => ⟨s, hs.active, hs.row, hs.col, hs.valid⟩, copied_clip h.nul b e⟩, h.nul, h.tree,
      h.res, h.window⟩, rfl, rfl, rfl, rfl, ?_, fun hs => ⟨hs.row, hs.col⟩⟩, hactive⟩
    split <;> simp [stream]

theorem cutKey_acts (h : app.Good T t p) (ev : KeyEvent) :
    ∃ app', cutKey app = some app' ∧ Acts T app t p (.key ev) app' := by
  cases hactive : app.editor.selActive with
  | false =>
    obtain ⟨ed, hcopy, hdid, hsel⟩ := copySelection_good h
    refine ⟨{ app with editor := ed }, ?_, .quiet hdid⟩
    simp [cutKey, hcopy, hsel, hactive]
  | true =>
    obtain ⟨s, hs⟩ := h.sound.selected hactive
    obtain ⟨b, e, heap, t', q, d, app', hm, hkey, hed⟩ := cutKey_eq h.sound.at' hs
    obtain ⟨x, hx⟩ := hm.merged
    refine ⟨app', hkey, .block (w := [x]) hx hm.inside (.inl rfl) ⟨⟨⟨hed.at', fun hactive =>
      absurd (hed.inactive.symm.trans hactive) (by decide), fun clip hclip => ?_⟩,
      hm.all _ h.nul, hed.tree ▸ h.tree, hed.scene ▸ h.res, hed.scene ▸ h.window⟩,
      hed.remoteRow, hed.remoteCol, hed.remote, hed.fileNumLines, hed.sent,
      fun hs => hed.scrolled ⟨hs.row, hs.col⟩⟩⟩
    exact copied_clip h.nul b e clip (hed.clipboard.symm.trans hclip)

theorem pasteKey_acts (h : app.Good T t p) {ev : KeyEvent} (hkey : app.Pastes ev) :
    ∃ app', pasteKey app = some app' ∧ Acts T app t p (.key ev) app' := by
  have hat := h.sound.at'
  cases hclip : app.editor.clipboard with
  | some clip =>
    obtain ⟨x, rest, rfl, hx⟩ := h.sound.clip clip hclip
    obtain ⟨t', b, d, app', hm, hkey, hed⟩ := pasteKey_eq hat h.sound.selected hclip hx
    obtain ⟨w, hw, hlen⟩ := hm.paste newline x
    rw [← hlen] at hed
    refine ⟨app', hkey, .block hw hm.inside (.inl rfl) (.of_edited h ?_ hed)⟩
    exact (hm.all _ h.nul).paste newline b fun c hc h0 => hx (h0 ▸ hc)
  | none =>
    -- nothing is pasted, but a selection has gone
    cases hactive : app.editor.selActive with
    | false =>
      refine ⟨(app.setStatus "Nothing to paste").setRender .status, ?_, .quiet
        (.of_editor h rfl h.tree rfl rfl rfl rfl)⟩
      simp [pasteKey, hactive, Editor.paste, hclip]
    | true =>
      obtain ⟨s, hs⟩ := h.sound.selected hactive
      obtain ⟨ed, t', b, d, hdel, hrows, hc⟩ := cleared hat hs
      obtain ⟨b', _, _, hrange, -, -, hdel', -⟩ := hat.deleteSelection hs
      have hstart : app.editor.selGetRange.1 = b.row ∧ app.editor.selGetRange.2.1 = b.col := by
        rw [hdel, Option.some.injEq, Prod.mk.injEq] at hdel'
        have hrow := hc.at'.row
        have hcol := hc.at'.col
        rw [hdel'.2, Editor.goto_cursorRow] at hrow
        rw [hdel'.2, Editor.goto_cursorCol] at hcol
        rw [hrange]
        exact ⟨hrow, hcol⟩
      refine ⟨({ app with editor := ed }.setStatus "Nothing to paste").setRender .status, ?_,
        .drop hkey hactive hclip hstart ⟨⟨⟨hc.at', fun hactive =>
          absurd (hc.inactive.symm.trans hactive) (by decide), fun clip hclip' => ?_⟩,
          hc.merges.all _ h.nul, h.tree, h.res, h.window⟩, hc.remoteRow, hc.remoteCol, rfl, rfl,
          ?_, hc.scrolled⟩⟩
      · simp [pasteKey, hactive, hdel, Editor.paste, hc.clipboard, hclip, hrows]
      · exact h.sound.clip clip (hc.clipboard ▸ hclip')
      · split <;> simp [stream, App.setStatus, App.setRender]

/-- A character over a selection. -/
theorem insertOverSelection_acts (h : app.Good T t p) (ev : KeyEvent)
    (hactive : app.editor.selActive = true) {c : UInt8} (hc : c ≠ 0) {n : Nat}
    (hn : n = [c].count newline + 1 ∨ ev.c = newline) :
    ∃ app', insertOverSelection app c n = some app' ∧ Acts T app t p (.key ev) app' := by
  obtain ⟨s, hs⟩ := h.sound.selected hactive
  obtain ⟨t', b, d, app', hm, hkey, hed⟩ := insertOverSelection_eq h.sound.at' hs c n
  obtain ⟨w, hw, hlen⟩ := hm.paste newline [c]
  rw [← Text.insert_eq_paste] at hw
  rw [← hlen] at hn
  exact ⟨app', hkey, .block hw hm.inside hn
    (.of_edited h ((hm.all _ h.nul).insert newline b hc) hed)⟩

theorem enterKey_acts (h : app.Good T t p) (ev : KeyEvent) :
    ∃ app', enterKey app = some app' ∧ Acts T app t p (.key ev) app' := by
  cases hactive : app.editor.selActive with
  | true =>
    obtain ⟨app', hkey, hacts⟩ := insertOverSelection_acts h ev hactive (c := newline) (by decide)
      (n := 2) (.inl (by decide))
    exact ⟨app', by simpa [enterKey, hactive] using hkey, hacts⟩
  | false =>
    obtain ⟨app', hkey, hed⟩ := enterKey_eq h.sound.at' hactive
    exact ⟨app', hkey, .insert hactive (by decide)
      (.of_edited h (h.nul.insert newline p (by decide)) hed)⟩

theorem charKey_acts (h : app.Good T t p) (ev : KeyEvent) (hc : ev.c ≠ 0) :
    ∃ app', charKey app ev.c = some app' ∧ Acts T app t p (.key ev) app' := by
  cases hactive : app.editor.selActive with
  | true =>
    have hn : 1 = [ev.c].count newline + 1 ∨ ev.c = newline := by
      by_cases hnl : ev.c = newline
      · exact .inr hnl
      · exact .inl (by rw [List.count_singleton, if_neg (by simpa using hnl)])
    obtain ⟨app', hkey, hacts⟩ := insertOverSelection_acts h ev hactive hc hn
    exact ⟨app', by simpa [charKey, hactive] using hkey, hacts⟩
  | false =>
    obtain ⟨app', hkey, hed⟩ := charKey_eq h.sound.at' hactive ev.c
    exact ⟨app', hkey, .insert hactive hc (.of_edited h (h.nul.insert newline p hc) hed)⟩

/-! ## Files -/

/-- A file may have been opened. -/
def Opens (T : Prop) (app app' : App) (t : List (List UInt8)) (p : Pos) : Prop :=
  Did T app app' t p [] ∨ ∃ t', Did T app app' t' ⟨0, 0⟩ []

theorem Opens.acts (h : Opens T app app' t p) {i : Input} (hi : app.MayOpen i) :
    Acts T app t p i app' := by
  rcases h with hdid | ⟨t', hdid⟩
  · exact .quiet hdid
  · exact .load hi hdid

theorem executeOpen_opens (h : app.Good T t p) (name : List UInt8) :
    ∃ app', executeOpen app name = some app' ∧ Opens T app app' t p := by
  by_cases hname : name = []
  · exact ⟨app, by simp [executeOpen, hname], .inl (.refl h)⟩
  · cases hread : app.files.read name with
    | none => exact ⟨app, by simp [executeOpen, hname, hread], .inl (.refl h)⟩
    | some s =>
      obtain ⟨doc, hopen, hdoc, ample⟩ := executeOpen_eq h.sound.at'.holds.shows.freeable
        h.sound.at'.ample hname hread
      have hne := opened_ne_nil s
      refine ⟨_, hopen, .inr ⟨opened s, ⟨⟨⟨hdoc.imp fun _ _ hx => hx.mono fun _ => trivial,
        ample, rfl, rfl, List.length_pos_iff.2 hne, Nat.zero_le _⟩, ?_, ?_⟩, opened_all s, h.tree,
        h.res, h.window⟩, rfl, rfl, rfl, rfl, ?_, fun _ => ⟨Int.le_refl 0, Int.le_refl 0⟩⟩⟩
      · intro hactive
        cases hactive
      · intro _ hclip
        cases hclip
      · split <;> simp [stream, App.setFile]

/-- Saving reads every row up to its terminator. -/
theorem executeSave_did (h : app.Good T t p) (name : List UInt8) :
    Yields T (executeSave app name) fun app' => Did T app app' t p [] := by
  unfold executeSave
  split
  · exact yields (.refl h)
  · split
    · exact yields (.refl h)
    · have hsave (contents : List UInt8) : Did T app
          ({ app with files := app.files.write name contents }.setFile name) t p [] :=
        .of_editor h rfl h.tree rfl rfl rfl rfl
      by_cases hT : T
      · have hrows := saveRows_eq (h.sound.at'.holds.imp fun _ _ hx => hx.mono fun _ => hT) h.nul
        rw [h.sound.at'.rowCount_eq, Int.toNat_natCast, hrows]
        exact yields (hsave _)
      · cases hrows : saveRows app.editor 0 app.editor.doc.rowCount.toNat with
        | none => exact Or.inr ⟨hT, rfl⟩
        | some contents => exact yields (hsave contents)

/-- `execute_sync` after `remote` was set. -/
theorem executeSync_did (h : app.Good T t p) :
    ∃ app', executeSync { app with remote := true } = some app' ∧
      Did T { app with remote := true } app' t p (fileMessages app.bar.filename t p) :=
  ⟨_, executeSync_eq (a := { app with remote := true }) h.sound.at',
    ⟨h.sound, h.nul, h.tree, h.res, h.window⟩, rfl, rfl, rfl, rfl, rfl, id⟩

/-! ## The command bar -/

theorem Did.setBar (h : Did T app app' t p ms) (bar : CommandBar) :
    Did T app { app' with bar } t p ms :=
  ⟨⟨h.good.sound, h.good.nul, h.good.tree, h.good.res, h.good.window⟩, h.remoteRow, h.remoteCol,
    h.remote, h.fileNumLines, h.sent, h.scrolled⟩

/-- The change is one of `b`, from which `app` differs in nothing it tells. -/
theorem Did.of_base (h : Did T app app' t p ms) (b : App)
    (hrow : app.editor.remoteCursorRow = b.editor.remoteCursorRow)
    (hcol : app.editor.remoteCursorCol = b.editor.remoteCursorCol)
    (hremote : app.remote = b.remote) (hlines : app.fileNumLines = b.fileNumLines)
    (hsent : app.sent = b.sent) (hscroll : b.editor.Scrolled → app.editor.Scrolled) :
    Did T b app' t p ms :=
  ⟨h.good, h.remoteRow.trans hrow, h.remoteCol.trans hcol, h.remote.trans hremote,
    h.fileNumLines.trans hlines, by rw [h.sent, hsent, hremote],
    fun hs => h.scrolled (hscroll hs)⟩

theorem Opens.of_base (h : Opens T app app' t p) (b : App)
    (hrow : app.editor.remoteCursorRow = b.editor.remoteCursorRow)
    (hcol : app.editor.remoteCursorCol = b.editor.remoteCursorCol)
    (hremote : app.remote = b.remote) (hlines : app.fileNumLines = b.fileNumLines)
    (hsent : app.sent = b.sent) (hscroll : b.editor.Scrolled → app.editor.Scrolled) :
    Opens T b app' t p :=
  h.imp (·.of_base b hrow hcol hremote hlines hsent hscroll)
    fun ⟨t', hdid⟩ => ⟨t', hdid.of_base b hrow hcol hremote hlines hsent hscroll⟩

theorem Opens.setRender (h : Opens T app app' t p) (mode : RenderMode) :
    Opens T app (app'.setRender mode) t p :=
  h.imp (·.setRender mode) fun ⟨t', hdid⟩ => ⟨t', hdid.setRender mode⟩

/-- A name of four bytes has not been cut. -/
theorem command_name {raw : List UInt8}
    (h : raw.take (min (raw.takeWhile (· ≠ space)).length (cmdBufSize - 1)) = ascii "open") :
    raw.takeWhile (· ≠ space) = ascii "open" := by
  have hlen := congrArg List.length h
  have hle : (raw.takeWhile (· ≠ space)).length ≤ raw.length :=
    (List.takeWhile_sublist _).length_le
  rw [List.length_take, show (ascii "open").length = 4 by decide, cmdBufSize] at hlen
  rw [Nat.min_eq_left (show (raw.takeWhile (· ≠ space)).length ≤ cmdBufSize - 1 by
    rw [cmdBufSize]; omega)] at h
  rw [← h]
  exact (List.prefix_iff_eq_take.1 (List.takeWhile_prefix _))

/-- A command of the command bar. -/
theorem executeCommand_acts (h : app.Good T t p) {ev : KeyEvent} {raw : List UInt8}
    (hopen : raw.takeWhile (· ≠ space) = ascii "open" → app.MayOpen (.key ev)) :
    Yields T (executeCommand { app with bar := app.bar.commit.2 } raw) fun app' =>
      ∀ mode, Acts T app t p (.key ev) (app'.setRender mode) := by
  have h' : App.Good T { app with bar := app.bar.commit.2 } t p :=
    ⟨h.sound, h.nul, h.tree, h.res, h.window⟩
  have hquiet {app' : App} (hdid : Did T { app with bar := app.bar.commit.2 } app' t p [])
      (mode : RenderMode) : Acts T app t p (.key ev) (app'.setRender mode) :=
    .quiet ((hdid.of_base app rfl rfl rfl rfl rfl id).setRender mode)
  unfold executeCommand
  dsimp only
  split
  · exact (executeSave_did h' _).imp fun app' hdid => hquiet hdid
  · split
    · next hname =>
      obtain ⟨app', hdone, hopens⟩ := executeOpen_opens h'
        (if raw[min (raw.takeWhile (· ≠ space)).length (cmdBufSize - 1)]? = some space then
          raw.drop (min (raw.takeWhile (· ≠ space)).length (cmdBufSize - 1) + 1) else [])
      exact yields_of hdone fun mode =>
        ((hopens.of_base app rfl rfl rfl rfl rfl id).setRender mode).acts (hopen (command_name hname))
    · split
      · exact yields (hquiet (.of_editor h' rfl h.tree rfl rfl rfl rfl))
      · split
        · obtain ⟨app', hsync, hdid⟩ := executeSync_did h'
          refine yields_of (by simp only [cmdSync, hsync]; rfl) fun mode => .share ?_
          exact ((hdid.of_base { app with remote := true } rfl rfl rfl rfl rfl id).setBar _).setRender mode
        · exact yields (hquiet (.refl h'))

theorem dispatchCommandMode_acts (h : app.Good T t p) (ev : KeyEvent)
    (hmode : app.bar.mode = .command) :
    Yields T (dispatchCommandMode app ev) (Acts T app t p (.key ev)) := by
  have hbar (bar : CommandBar) (mode : RenderMode) :
      Acts T app t p (.key ev) ({ app with bar }.setRender mode) :=
    .quiet (((Did.refl h).setBar bar).setRender mode)
  unfold dispatchCommandMode
  split
  · exact yields (hbar _ _)
  · next hescape =>
    split
    · next henter =>
      have hopen (hname : app.bar.input.takeWhile (· ≠ space) = ascii "open") :
          app.MayOpen (.key ev) := ⟨by simpa using hescape, henter, .inr ⟨hmode, hname⟩⟩
      exact (executeCommand_acts h hopen).bind fun app' hacts => yields (hacts _)
    · split
      · exact yields (hbar _ _)
      · split
        · exact yields (hbar _ _)
        · exact yields (.quiet (.refl h))

/-! ## The file tree -/

theorem Opens.setTree (h : Opens T app app' t p) {tree : FileTree} (htree : tree.InRange) :
    Opens T app { app' with tree } t p := by
  rcases h with hdid | ⟨t', hdid⟩
  · exact .inl ⟨⟨hdid.good.sound, hdid.good.nul, htree, hdid.good.res, hdid.good.window⟩,
      hdid.remoteRow, hdid.remoteCol, hdid.remote, hdid.fileNumLines, hdid.sent, hdid.scrolled⟩
  · exact .inr ⟨t', ⟨hdid.good.sound, hdid.good.nul, htree, hdid.good.res, hdid.good.window⟩,
      hdid.remoteRow, hdid.remoteCol, hdid.remote, hdid.fileNumLines, hdid.sent, hdid.scrolled⟩

theorem Opens.tree (h : Opens T app app' t p) : app'.tree.InRange := by
  rcases h with hdid | ⟨t', hdid⟩
  · exact hdid.good.tree
  · exact hdid.good.tree

theorem showFiletreeError_did (h : app.Good T t p) : Did T app (showFiletreeError app) t p [] := by
  unfold showFiletreeError
  split
  · exact .refl h
  · exact (Did.refl h).setBar _

theorem openFiletreeFile_opens (h : app.Good T t p) :
    ∃ app', openFiletreeFile app = some app' ∧ Opens T app app' t p := by
  obtain ⟨r, tree, henter, htree⟩ := h.tree.enterSelected app.files
  have h' : App.Good T { app with tree } t p := ⟨h.sound, h.nul, htree, h.res, h.window⟩
  simp only [openFiletreeFile, henter, Option.bind_eq_bind, Option.bind_some]
  cases r with
  | ok => exact ⟨_, rfl, .inl (((Did.refl h').of_base app rfl rfl rfl rfl rfl id).setRender _)⟩
  | err =>
    exact ⟨_, rfl, .inl
      (((showFiletreeError_did h').of_base app rfl rfl rfl rfl rfl id).setRender _)⟩
  | file =>
    obtain ⟨path, hpath⟩ := htree.getSelectedPath pathMax
    obtain ⟨app', hopen, hopens⟩ := executeOpen_opens h' path
    simp only [hpath, hopen, Option.bind_some]
    exact ⟨_, rfl, ((hopens.setTree (hopens.tree.setFocus false)).of_base app rfl rfl rfl rfl
      rfl id).setRender _⟩

/-- Only the file tree changes. -/
theorem Did.of_tree (h : app.Good T t p) {tree : FileTree} (htree : tree.InRange)
    (mode : RenderMode) : Did T app ({ app with tree }.setRender mode) t p [] := by
  have hdid : Did T app { app with tree } t p [] := .of_editor h rfl htree rfl rfl rfl rfl
  exact hdid.setRender mode

theorem dispatchFiletreeMode_acts (h : app.Good T t p) (ev : KeyEvent)
    (hfocus : app.tree.focused = true) :
    ∃ app', dispatchFiletreeMode app ev = some app' ∧ Acts T app t p (.key ev) app' := by
  unfold dispatchFiletreeMode
  split
  · exact ⟨_, rfl, .quiet (.of_tree h (h.tree.setFocus false) _)⟩
  · next hescape =>
    split
    · exact ⟨_, rfl, .quiet (.of_tree h (h.tree.moveUp h.window) _)⟩
    · split
      · exact ⟨_, rfl, .quiet (.of_tree h (h.tree.moveDown h.window) _)⟩
      · split
        · have htree := h.tree.goParent app.files
          have h' : App.Good T { app with tree := (app.tree.goParent app.files).2 } t p :=
            ⟨h.sound, h.nul, htree, h.res, h.window⟩
          refine ⟨_, rfl, .quiet (Did.setRender ?_ _)⟩
          split
          · exact (showFiletreeError_did h').of_base app rfl rfl rfl rfl rfl id
          · exact .of_editor h rfl htree rfl rfl rfl rfl
        · split
          · next henter =>
            obtain ⟨app', hopen, hopens⟩ := openFiletreeFile_opens h
            exact ⟨app', hopen, hopens.acts ⟨by simpa using hescape, henter, .inl hfocus⟩⟩
          · exact ⟨_, rfl, .quiet (.refl h)⟩

/-! ## Keys -/

theorem saveKey_did (h : app.Good T t p) :
    Yields T (saveKey app) fun app' => Did T app app' t p [] := by
  unfold saveKey
  split
  · exact yields (((Did.refl h).setBar _).setRender _)
  · exact (executeSave_did h _).bind fun app' hdid => yields (hdid.setRender _)

theorem editorKey_acts (h : app.Good T t p) (ev : KeyEvent) (hfocus : app.tree.focused = false)
    (hmode : app.bar.mode ≠ .command) :
    Yields T (editorKey app ev) (Acts T app t p (.key ev)) := by
  have hacts {o : Option App} (hex : ∃ app', o = some app' ∧ Acts T app t p (.key ev) app') :
      Yields T o (Acts T app t p (.key ev)) := .inl hex
  have hbar (bar : CommandBar) (mode : RenderMode) :
      Acts T app t p (.key ev) ({ app with bar }.setRender mode) :=
    .quiet (((Did.refl h).setBar bar).setRender mode)
  unfold editorKey
  refine .ite (fun _ => ?_) fun hquit => ?_
  · exact yields (.quiet (.of_editor h rfl h.tree rfl rfl rfl rfl))
  refine .ite (fun _ => hacts (backspaceKey_acts h ev)) fun hback => ?_
  refine .ite (fun _ => hacts (directionKey_acts h ev)) fun hdir => ?_
  refine .ite (fun _ => ?_) fun _ => ?_
  · obtain ⟨ed, hcopy, hdid, -⟩ := copySelection_good h
    exact yields_of (by rw [hcopy]; rfl) (.quiet hdid)
  refine .ite (fun _ => hacts (cutKey_acts h ev)) fun _ => ?_
  refine .ite (fun hpaste => hacts (pasteKey_acts h ?_)) fun _ => ?_
  · simp only [Bool.or_eq_true, Bool.and_eq_true, beq_iff_eq, not_or, Bool.not_eq_true,
      not_not] at hquit hback hdir hpaste
    exact ⟨hfocus, hmode, hquit.1, hback, hdir, hpaste.1, hpaste.2⟩
  refine .ite (fun _ => (saveKey_did h).imp fun _ => .quiet) fun _ => ?_
  refine .ite (fun _ => yields (hbar _ _)) fun _ => ?_
  refine .ite (fun _ => yields (.quiet (.refl h))) fun _ => ?_
  refine .ite (fun _ => yields (hbar _ _)) fun _ => ?_
  refine .ite (fun _ => hacts (enterKey_acts h ev)) fun _ => ?_
  refine .ite (fun hc => hacts (charKey_acts h ev hc)) fun _ => ?_
  exact yields (.quiet (.refl h))

/-- `commands_dispatch`. -/
theorem dispatch_acts (h : app.Good T t p) (ev : KeyEvent) :
    Yields T (dispatch app ev) (Acts T app t p (.key ev)) := by
  unfold dispatch filetreeCommandsTry
  split
  · exact yields (.quiet (.of_tree h ((h.tree.setFocus (!app.tree.visible)).setVisible
      (!app.tree.visible)) _))
  split
  · next hfocus =>
    obtain ⟨app', hmode, hacts⟩ := dispatchFiletreeMode_acts h ev hfocus
    exact yields_of (by rw [hmode]; rfl) hacts
  · next hfocus =>
    exact .ite (dispatchCommandMode_acts h ev) (editorKey_acts h ev (by simpa using hfocus))

/-! ## The mouse -/

/-- The editor differs in view and selection only, and what is selected is still
part of the text. -/
theorem Did.of_view (h : app.Good T t p) {ed : Editor} (hdoc : ed.doc = app.editor.doc)
    (hrow : ed.cursorRow = app.editor.cursorRow) (hcol : ed.cursorCol = app.editor.cursorCol)
    (hremoteRow : ed.remoteCursorRow = app.editor.remoteCursorRow)
    (hremoteCol : ed.remoteCursorCol = app.editor.remoteCursorCol)
    (hclip : ed.clipboard = app.editor.clipboard)
    (hscroll : app.editor.Scrolled → ed.Scrolled)
    (hsel : ed.selActive = true → ∃ s, ed.Selected t s) :
    Did T app { app with editor := ed } t p [] := by
  have hat := h.sound.at'
  refine ⟨⟨⟨⟨hdoc ▸ hat.holds, hdoc ▸ hat.ample, hrow.trans hat.row, hcol.trans hat.col,
    hat.valid⟩, hsel, hclip ▸ h.sound.clip⟩, h.nul, h.tree, h.res, h.window⟩, hremoteRow,
    hremoteCol, rfl, rfl, ?_, hscroll⟩
  split <;> simp [stream]

theorem selClear_did (h : app.Good T t p) :
    Did T app { app with editor := app.editor.selClear } t p [] :=
  .of_view h rfl rfl rfl rfl rfl rfl (fun hs => ⟨hs.row, hs.col⟩) fun hactive => nomatch hactive

theorem scrollBy_did (h : app.Good T t p) (drow dcol : Int) :
    Did T app { app with editor := app.editor.scrollBy drow dcol } t p [] := by
  obtain ⟨scrollRow, scrollCol, scrollDirty, heq⟩ := app.editor.scrollBy_eq drow dcol
  rw [heq]
  refine .of_view h rfl rfl rfl rfl rfl rfl (fun hs => ?_) fun hactive => ?_
  · exact heq ▸ hs.scrollBy (by rw [h.sound.at'.rowCount_eq]; have := h.sound.at'.valid.1; omega) _ _
  obtain ⟨s, hs⟩ := h.sound.selected hactive
  exact ⟨s, hs.active, hs.row, hs.col, hs.valid⟩

theorem consumeScrollDirty_did (h : Did T app app' t p ms) :
    Did T app { app' with editor := app'.editor.consumeScrollDirty.2 } t p ms := by
  have hat := h.good.sound.at'
  refine ⟨⟨⟨⟨hat.holds, hat.ample, hat.row, hat.col, hat.valid⟩, fun hactive => ?_,
    h.good.sound.clip⟩, h.good.nul, h.good.tree, h.good.res, h.good.window⟩, h.remoteRow,
    h.remoteCol, h.remote, h.fileNumLines, h.sent,
    fun hs => ⟨(h.scrolled hs).row, (h.scrolled hs).col⟩⟩
  obtain ⟨s, hs⟩ := h.good.sound.selected hactive
  exact ⟨s, hs.active, hs.row, hs.col, hs.valid⟩

theorem clickScrollbar_did (h : app.Good T t p) (px py : Int) :
    Did T app (app.clickScrollbar px py).2 t p [] := by
  unfold App.clickScrollbar
  extract_lets bar rowCount maxScroll target
  split
  · exact .refl h
  split
  · exact .refl h
  · have hdid := consumeScrollDirty_did (scrollBy_did h (target - app.editor.scrollRow) 0)
    dsimp only [Editor.consumeScrollDirty] at hdid ⊢
    split
    · exact hdid.setRender _
    · exact hdid

/-- In the file tree the second click on an entry opens it. -/
theorem filetreeCommandsMouse_acts (h : app.Good T t p) {idx : Int}
    (hidx : app.scene.pxToFiletree app.tree me.clickX me.clickY = some idx) :
    ∃ app', filetreeCommandsMouse app me = some (true, app') ∧ Acts T app t p (.mouse me) app' := by
  unfold filetreeCommandsMouse
  dsimp only
  rw [show app.scene.pxToFiletree { app.tree with focused := false } me.clickX me.clickY =
    some idx from hidx]
  dsimp only
  split
  · exact ⟨_, rfl, .quiet (.of_tree h
      (((h.tree.setFocus false).scrollBy me.scroll h.window).setFocus true) _)⟩
  · next hscroll =>
    split
    · exact ⟨_, rfl, .quiet (.of_tree h (h.tree.setFocus true) _)⟩
    · have htree := (h.tree.setFocus true).setCursor idx h.window
      have h' : App.Good T { app with tree :=
          { app.tree with focused := true }.setCursor idx app.scene.visRows } t p :=
        ⟨h.sound, h.nul, htree, h.res, h.window⟩
      split
      · next hsame =>
        obtain ⟨app', hopen, hopens⟩ := openFiletreeFile_opens h'
        have hmay : app.MayOpen (.mouse me) :=
          ⟨not_not.1 hscroll, hidx.trans (congrArg some hsame)⟩
        refine ⟨app'.setRender .full, ?_,
          ((hopens.of_base app rfl rfl rfl rfl rfl id).setRender _).acts hmay⟩
        simp only [hopen]
        rfl
      · exact ⟨_, rfl, .quiet (.of_tree h htree _)⟩

/-- After a click the selection starts at the cursor. -/
theorem anchor_did (h : app.Good T t p) {ed : Editor} (hat : ed.At T t q)
    (hinactive : ed.selActive = false) (hrow : ed.remoteCursorRow = app.editor.remoteCursorRow)
    (hcol : ed.remoteCursorCol = app.editor.remoteCursorCol)
    (hclip : ed.clipboard = app.editor.clipboard)
    (hscroll : app.editor.Scrolled → ed.Scrolled) (mode : RenderMode) :
    Did T app (let app' := (Commands.tell { app with editor := ed } (if app.remote then ms else
        [])).setRenderEx mode
      if app'.editor.selActive then app' else { app' with editor := app'.editor.selSetAnchor })
      t q ms := by
  obtain ⟨scrollDirty, selDirty, renderMode, heq⟩ := (Commands.tell { app with editor := ed }
    (if app.remote then ms else [])).setRenderEx_eq mode
  dsimp only
  rw [heq]
  simp only [Commands.tell, hinactive, Bool.false_eq_true, if_false, Editor.selSetAnchor]
  exact ⟨⟨⟨⟨hat.holds, hat.ample, hat.row, hat.col, hat.valid⟩,
    fun _ => ⟨q, rfl, hat.row, hat.col, hat.valid⟩, hclip ▸ h.sound.clip⟩, h.nul, h.tree, h.res,
    h.window⟩, hrow, hcol, rfl, rfl, rfl, fun hs => ⟨(hscroll hs).row, (hscroll hs).col⟩⟩

/-- A click sends the position it hits; the cursor goes there unless it is in the
row of the remote cursor. -/
theorem textMouse_acts (h : app.Good T t p) (me : MouseEvent)
    (hhit : app.textHit me = (app.scene.pxToText app.editor me.clickX me.clickY).join) :
    ∃ app', textMouse app me = some app' ∧ Acts T app t p (.mouse me) app' := by
  have hat := h.sound.at'
  have hne : 0 < t.length := Nat.lt_of_le_of_lt (Nat.zero_le _) hat.valid.1
  obtain ⟨q, hpx, hvalid⟩ := Scene.pxToText_valid hat.holds.shows hne app.scene me.clickX me.clickY
  rw [hpx, Option.join_some] at hhit
  unfold textMouse
  rw [hpx]
  cases q with
  | none => exact ⟨app, rfl, .quiet (.refl h)⟩
  | some q =>
    have hq := hvalid q rfl
    simp only [Option.map_some, Option.bind_eq_bind, Option.bind_some]
    cases hclicked : me.leftClicked with
    | true =>
      have hclear : app.editor.selClear.At T t p :=
        ⟨hat.holds, hat.ample, hat.row, hat.col, hat.valid⟩
      have hsend (a : App) : sendPacket a .moveCursor (positionPayload q.row q.col) 4 0 =
          some (Commands.tell a [moveMessage q]) := sendPacket_eq (m := moveMessage q) rfl
      rw [if_pos rfl, hclear.pointed.setCursor hq, Option.bind_some]
      by_cases hrow : app.editor.remoteCursorRow = q.row
      · rw [if_pos (show app.editor.selClear.remoteCursorRow = q.row from hrow)]
        exact ⟨_, share_bind (a := { app with editor := app.editor.selClear })
          (fun _ => hsend _) _, .refuse hclicked hhit hrow (anchor_did h hclear rfl rfl rfl rfl
            (fun hs => ⟨hs.row, hs.col⟩) .char)⟩
      · rw [if_neg (show ¬ app.editor.selClear.remoteCursorRow = q.row from hrow)]
        have hgoto : (app.editor.selClear.goto app.editor.selClear.doc q).At T t q :=
          .goto _ hat.holds hat.ample hq
        exact ⟨_, share_bind
          (a := { app with editor := app.editor.selClear.goto app.editor.selClear.doc q })
          (fun _ => hsend _) _, .click hclicked hhit hrow (anchor_did h hgoto (by simp [Editor.selClear])
            (by simp [Editor.selClear]) (by simp [Editor.selClear]) (by simp [Editor.selClear])
            (fun hs => (show app.editor.selClear.Scrolled from ⟨hs.row, hs.col⟩).goto _ _) .char)⟩
    | false =>
      rw [if_neg (by decide)]
      cases hholding : me.leftHolding with
      | false => exact ⟨app, rfl, .quiet (.refl h)⟩
      | true =>
        rw [if_pos rfl, hat.pointed.setCursor hq, Option.bind_some]
        refine ⟨_, rfl, ?_⟩
        by_cases hrow : app.editor.remoteCursorRow = q.row
        · rw [if_pos hrow]
          exact .quiet (.refl h)
        · rw [if_neg hrow]
          refine .drag hclicked hholding hhit hrow ⟨⟨⟨.goto _ hat.holds hat.ample hq, fun hactive => ?_,
            fun clip hclip => h.sound.clip clip (by simpa using hclip)⟩, h.nul, h.tree, h.res,
            h.window⟩, by simp, by simp, rfl, rfl, ?_, fun hs => hs.goto _ _⟩
          · obtain ⟨s, hs⟩ := h.sound.selected (by simpa using hactive)
            exact ⟨s, hactive, by simpa using hs.row, by simpa using hs.col, hs.valid⟩
          · split <;> simp [stream]

theorem Did.sent_eq (h : Did T app app' t p []) : app'.sent = app.sent := by
  rw [h.sent]
  split <;> simp [stream]

/-- The scrollbar is where the scene has it. -/
theorem clickScrollbar_fst (hscene : app'.scene = app.scene) (px py : Int) :
    (app'.clickScrollbar px py).1 = (app.clickScrollbar px py).1 := by
  unfold App.clickScrollbar
  rw [hscene]
  dsimp only
  split
  · rfl
  · split
    · rfl
    · rfl

theorem textHit_congr (hscene : app'.scene = app.scene)
    (htree : app.scene.pxToFiletree app'.tree me.clickX me.clickY =
      app.scene.pxToFiletree app.tree me.clickX me.clickY)
    (htext : app.scene.pxToText app'.editor me.clickX me.clickY =
      app.scene.pxToText app.editor me.clickX me.clickY) : app'.textHit me = app.textHit me := by
  unfold App.textHit
  rw [clickScrollbar_fst hscene, hscene, htree, htext]

/-- The mouse acts after a change that tells nothing and hides no text. -/
theorem Did.mouse (h : Did T app app' t p []) (hacts : Acts T app' t p (.mouse me) app'')
    (hhit : app'.textHit me = app.textHit me)
    (hopen : app'.MayOpen (.mouse me) → app.MayOpen (.mouse me)) :
    Acts T app t p (.mouse me) app'' := by
  have hsent := h.sent_eq
  have hscroll := h.scrolled
  obtain ⟨-, hrow, hcol, hremote, hlines, -, -⟩ := h
  cases hacts with
  | quiet did => exact .quiet (did.of_base app hrow hcol hremote hlines hsent hscroll)
  | click clicked hit row did =>
    exact .click clicked (hhit ▸ hit) (hrow ▸ row) (did.of_base app hrow hcol hremote hlines hsent hscroll)
  | refuse clicked hit row did =>
    exact .refuse clicked (hhit ▸ hit) (hrow ▸ row) (did.of_base app hrow hcol hremote hlines hsent hscroll)
  | drag clicked holding hit row did =>
    exact .drag clicked holding (hhit ▸ hit) (hrow ▸ row)
      (did.of_base app hrow hcol hremote hlines hsent hscroll)
  | load opens did =>
    exact .load (hopen opens) (did.of_base app hrow hcol hremote hlines hsent hscroll)

/-- The editor half of `commands_dispatch_mouse`: neither the scrollbar nor the
file tree is hit. -/
theorem editorMouse_acts (h : app.Good T t p) (me : MouseEvent)
    (hbar : (app.clickScrollbar me.clickX me.clickY).1 = false)
    (htree : app.scene.pxToFiletree app.tree me.clickX me.clickY = none) :
    ∃ app', (if me.scroll ≠ 0 then some ({ app with
        editor := app.editor.scrollBy (me.scroll * scrollSpeedMultiplier) 0 }.setRender .full)
      else textMouse app me) = some app' ∧ Acts T app t p (.mouse me) app' := by
  split
  · exact ⟨_, rfl, .quiet ((scrollBy_did h _ 0).setRender _)⟩
  · next hscroll =>
    refine textMouse_acts h me ?_
    simp only [App.textHit, hscroll, hbar, htree, if_false, Option.isSome_none, Bool.false_eq_true]

/-- `commands_dispatch_mouse`. -/
theorem dispatchMouse_acts (h : app.Good T t p) (me : MouseEvent) :
    ∃ app', dispatchMouse app me = some app' ∧ Acts T app t p (.mouse me) app' := by
  obtain ⟨a, ha, hbase, hhit, hopen⟩ : ∃ a, (if me.leftHolding then app else
      { app with editor := app.editor.selClear }) = a ∧ Did T app a t p [] ∧
      a.textHit me = app.textHit me ∧ (a.MayOpen (.mouse me) → app.MayOpen (.mouse me)) := by
    split
    · exact ⟨_, rfl, .refl h, rfl, id⟩
    · exact ⟨_, rfl, selClear_did h, textHit_congr rfl rfl rfl, id⟩
  unfold dispatchMouse
  dsimp only
  rw [ha]
  split
  · exact ⟨a, rfl, .quiet hbase⟩
  have hbar := clickScrollbar_did hbase.good me.clickX me.clickY
  cases hclicked : (a.clickScrollbar me.clickX me.clickY).1 with
  | true =>
    exact ⟨_, rfl, hbase.mouse (.quiet hbar) hhit hopen⟩
  | false =>
    rw [if_neg (by decide), clickScrollbar_beside hclicked]
    cases htree : a.scene.pxToFiletree a.tree me.clickX me.clickY with
    | some idx =>
      obtain ⟨app', hdone, hacts⟩ := filetreeCommandsMouse_acts hbase.good htree
      refine ⟨app', ?_, hbase.mouse hacts hhit hopen⟩
      rw [hdone]
      rfl
    | none =>
      have hunfocus := Did.of_tree hbase.good (hbase.good.tree.setFocus false) .full
      have hbar' : (({ a with tree := { a.tree with focused := false } }.setRender
          .full).clickScrollbar me.clickX me.clickY).1 = false :=
        (clickScrollbar_fst (by rfl) _ _).trans hclicked
      have hhit' : ({ a with tree := { a.tree with focused := false } }.setRender .full).textHit
          me = a.textHit me := textHit_congr rfl rfl rfl
      obtain ⟨app', hdone, hacts⟩ := editorMouse_acts hunfocus.good me hbar' htree
      refine ⟨app', ?_, hbase.mouse (hunfocus.mouse hacts hhit' id) hhit hopen⟩
      rw [filetreeCommandsMouse_beside htree]
      exact hdone

/-- `view_render` leaves a window with rows. -/
theorem viewRender_did (h : app.Good T t p) : Did T app app.viewRender t p [] := by
  unfold App.viewRender
  split
  · have hat := h.sound.at'
    refine ⟨⟨⟨⟨hat.holds, hat.ample, hat.row, hat.col, hat.valid⟩, fun hactive => ?_,
      h.sound.clip⟩, h.nul, h.tree, h.res, ?_⟩, rfl, rfl, rfl, rfl, ?_,
      fun hs => ⟨hs.row, hs.col⟩⟩
    · obtain ⟨s, hs⟩ := h.sound.selected hactive
      exact ⟨s, hs.active, hs.row, hs.col, hs.valid⟩
    · simp [Scene.updateLayout, h.res, Scene.editorY, Scene.fontH]
    · split <;> simp [stream]
  · exact .of_editor h rfl h.tree rfl rfl rfl rfl

/-- Every local input is handled. -/
theorem handle_acts (h : app.Good T t p) (i : Input) :
    Yields T (app.handle i) (Acts T app t p i) := by
  cases i with
  | key ev => exact dispatch_acts h ev
  | mouse me => exact .inl (dispatchMouse_acts h me)
  | render => exact yields (.quiet (viewRender_did h))

theorem Acts.good {i : Input} (h : Acts T app t p i app') : ∃ t' q, app'.Good T t' q := by
  cases h with
  | quiet did | insert _ _ did | erase _ did | move did | click _ _ _ did | refuse _ _ _ did
  | drag _ _ _ _ did | block _ _ _ did | above _ _ did | drop _ _ _ _ did | load _ did
  | share did => exact ⟨_, _, did.good⟩

theorem Acts.scrolled {i : Input} (h : Acts T app t p i app') (hscroll : app.editor.Scrolled) :
    ∃ t' q, app'.Good T t' q ∧ app'.editor.Scrolled := by
  cases h with
  | quiet did | insert _ _ did | erase _ did | move did | click _ _ _ did | refuse _ _ _ did
  | drag _ _ _ _ did | block _ _ _ did | above _ _ did | drop _ _ _ _ did | load _ did
  | share did => exact ⟨_, _, did.good, did.scrolled hscroll⟩

end Handlers

end LCode
