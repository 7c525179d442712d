import LCode.App.Verify.Events
import LCode.App.Verify.Layout
import LCode.Commands.Verify.Keys
import LCode.Lib.Along

/-!
# The wheel and the button

A mouse packet becomes an event for the button and an event for the wheel. The event
for the button carries the wheel, too, and `commands_dispatch_mouse` looks at the wheel
first: a packet with both scrolls twice and its click is lost. Every other packet does
what it says.
-/

namespace LCode

/-! ## Calls -/

/-- A call that moves the view or the cursor. -/
inductive EditorCall where
  | scrollBy (drow dcol : Int)
  | setCursor (row col : Int)
  deriving DecidableEq, Repr

/-- The call is `editor_scroll_by`. -/
def EditorCall.isScroll : EditorCall → Bool
  | .scrollBy _ _ => true
  | .setCursor _ _ => false

namespace Commands

/-- The call of `scene_click_scrollbar`. -/
def scrollbarCall (app : App) (py : Int) : EditorCall :=
  let bar := app.scene.scrollbar
  let rowCount := app.editor.doc.rowCount
  let maxScroll := if app.scene.visRows < rowCount then rowCount - app.scene.visRows else 0
  let target := if 0 < maxScroll then ((py - bar.y) * maxScroll).tdiv bar.h else 0
  .scrollBy (target - app.editor.scrollRow) 0

/-- The calls of a click or a drag in the text area. -/
def textMouseCalls (app : App) (me : MouseEvent) : Option (List EditorCall) := do
  match ← app.scene.pxToText app.editor me.clickX me.clickY with
  | none => return []
  | some (row, col) => return if me.leftClicked || me.leftHolding then [.setCursor row col] else []

/-- `commands_dispatch_mouse` with its calls. -/
def dispatchMouseCalls (app : App) (me : MouseEvent) : Option (App × List EditorCall) := do
  let app := if me.leftHolding then app else { app with editor := app.editor.selClear }
  if !me.leftClicked && me.scroll == 0 && !me.leftHolding then return (app, [])
  let call := scrollbarCall app me.clickY
  let (clicked, app) := app.clickScrollbar me.clickX me.clickY
  if clicked then return (app, [call])
  let (consumed, app) ← filetreeCommandsMouse app me
  if consumed then return (app, [])
  if me.scroll ≠ 0 then
    return ({ app with
      editor := app.editor.scrollBy (me.scroll * scrollSpeedMultiplier) 0 }.setRender .full,
      [.scrollBy (me.scroll * scrollSpeedMultiplier) 0])
  return (← textMouse app me, ← textMouseCalls app me)

theorem textMouseCalls_eq {app app' : App} {me : MouseEvent} (h : textMouse app me = some app') :
    ∃ calls, textMouseCalls app me = some calls := by
  obtain ⟨hit, hhit, -⟩ := Option.bind_eq_some_iff.1 h
  cases hit with
  | none => exact ⟨[], by simp [textMouseCalls, hhit]⟩
  | some q =>
    simp only [textMouseCalls, hhit, Option.bind_eq_bind, Option.bind_some]
    exact ⟨_, rfl⟩

/-- The calls are a record beside what is done. -/
theorem map_fst_dispatchMouseCalls (app : App) (me : MouseEvent) :
    (dispatchMouseCalls app me).map Prod.fst = dispatchMouse app me := by
  unfold dispatchMouseCalls dispatchMouse
  generalize (if me.leftHolding = true then app
    else { app with editor := app.editor.selClear }) = app
  split
  · rfl
  · dsimp only
    split
    · rfl
    · cases htree : filetreeCommandsMouse (app.clickScrollbar me.clickX me.clickY).2 me with
      | none => rfl
      | some r =>
        obtain ⟨consumed, app⟩ := r
        simp only [Option.bind_eq_bind, Option.bind_some]
        split
        · rfl
        · split
          · rfl
          · cases htext : textMouse app me with
            | none => rfl
            | some app' =>
              obtain ⟨calls, hcalls⟩ := textMouseCalls_eq htext
              simp [hcalls]

end Commands

/-! ## Events over the text -/

/-- The pixel is in the text area. -/
def Scene.OverText (s : Scene) (x y : Int) : Prop :=
  s.editor.x ≤ x ∧ x < s.scrollbar.x ∧ s.editor.y ≤ y ∧ y < s.statusBar.y

instance (s : Scene) (x y : Int) : Decidable (s.OverText x y) :=
  inferInstanceAs (Decidable (_ ∧ _))

section Over

open Commands

variable {T : Prop} {app : App} {t : List (List UInt8)} {p q : Pos} {me : MouseEvent}

theorem Editor.Pointed.congr {ed ed' : Editor} (h : ed.Pointed T t p) (hdoc : ed'.doc = ed.doc)
    (hrow : ed'.cursorRow = ed.cursorRow) (hcol : ed'.cursorCol = ed.cursorCol) :
    ed'.Pointed T t p :=
  ⟨hdoc ▸ h.shows, hrow.trans h.row, hcol.trans h.col, h.valid⟩

/-- The text area is hit at a position of the text. -/
theorem Scene.OverText.pxToText {s : Scene} {x y : Int} (hover : s.OverText x y)
    (h : app.editor.doc.Shows T t) (hne : 0 < t.length) :
    ∃ q : Pos, s.pxToText app.editor x y = some (some ((q.row : Int), (q.col : Int))) ∧
      Text.Valid t q := by
  obtain ⟨hx, hx', hy, hy'⟩ := hover
  obtain ⟨hit, hhit, hvalid⟩ := Scene.pxToText_valid h hne s x y
  cases hit with
  | some q => exact ⟨q, hhit, hvalid q rfl⟩
  | none =>
    unfold Scene.pxToText at hhit
    rw [if_neg (by omega), if_neg (by omega)] at hhit
    obtain ⟨len, -, heq⟩ := Option.bind_eq_some_iff.1 hhit
    exact nomatch heq

/-- Neither the scrollbar nor the file tree is there. -/
theorem Scene.OverText.beside (app : App) (hover : app.scene.OverText me.clickX me.clickY)
    (harr : app.scene.Arranged) : app.clickScrollbar me.clickX me.clickY = (false, app) ∧
      app.scene.pxToFiletree app.tree me.clickX me.clickY = none := by
  obtain ⟨hx, hx', -, -⟩ := hover
  have hpanel := harr.panel_le
  refine ⟨?_, ?_⟩
  · unfold App.clickScrollbar
    exact if_pos (Or.inl hx')
  · unfold Scene.pxToFiletree
    split
    · rfl
    · rw [if_pos (by omega)]

/-- Where `editor_set_cursor` leaves the cursor. -/
theorem Editor.Pointed.setCursor_pointed {ed : Editor} (h : ed.Pointed T t p)
    (hq : Text.Valid t q) : ∃ ed', ed.setCursor q.row q.col = some ed' ∧
      ed'.Pointed T t (if ed.remoteCursorRow = q.row then p else q) := by
  refine ⟨_, h.setCursor hq, ?_⟩
  split
  · exact h
  · exact h.goto hq

/-- The redraw and the anchor after a click leave the cursor. -/
theorem anchor_pointed {a : App} (h : a.editor.Pointed T t p) (mode : RenderMode) :
    (if (a.setRenderEx mode).editor.selActive then a.setRenderEx mode
      else { a.setRenderEx mode with
        editor := (a.setRenderEx mode).editor.selSetAnchor }).scene = a.scene ∧
    (if (a.setRenderEx mode).editor.selActive then a.setRenderEx mode
      else { a.setRenderEx mode with
        editor := (a.setRenderEx mode).editor.selSetAnchor }).editor.Pointed T t p := by
  obtain ⟨_, _, _, hrender⟩ := a.setRenderEx_eq mode
  split
  · rw [hrender]
    exact ⟨rfl, h.congr rfl rfl rfl⟩
  · rw [hrender]
    exact ⟨rfl, h.congr rfl rfl rfl⟩

/-- A click or a drag goes to the position that is hit. -/
theorem textMouse_over (app : App) (h : app.editor.Pointed T t p) (hq : Text.Valid t q)
    (hhit : app.scene.pxToText app.editor me.clickX me.clickY =
      some (some ((q.row : Int), (q.col : Int))))
    (hbutton : me.leftClicked = true ∨ me.leftHolding = true) :
    textMouseCalls app me = some [.setCursor q.row q.col] ∧
      ∃ app', textMouse app me = some app' ∧ app'.scene = app.scene ∧
        app'.editor.Pointed T t (if app.editor.remoteCursorRow = q.row then p else q) := by
  refine ⟨?_, ?_⟩
  · simp only [textMouseCalls, hhit, Option.bind_eq_bind, Option.bind_some, Option.pure_def]
    rw [if_pos (by simpa using hbutton)]
  · unfold textMouse
    rw [hhit]
    simp only [Option.bind_eq_bind, Option.bind_some]
    cases hclicked : me.leftClicked with
    | true =>
      have hclear : app.editor.selClear.Pointed T t p := h.congr rfl rfl rfl
      obtain ⟨ed', hset, hed'⟩ := hclear.setCursor_pointed hq
      have hsend (a : App) : sendPacket a .moveCursor (positionPayload q.row q.col) 4 0 =
          some (tell a [moveMessage q]) := sendPacket_eq (m := moveMessage q) rfl
      rw [if_pos rfl, hset, Option.bind_some]
      refine ⟨_, share_bind (a := { app with editor := ed' }) (fun _ => hsend _) _, ?_⟩
      exact anchor_pointed (a := tell { app with editor := ed' } _) hed' .char
    | false =>
      obtain ⟨ed', hset, hed'⟩ := h.setCursor_pointed hq
      have hholding : me.leftHolding = true := hbutton.resolve_left (by simp [hclicked])
      rw [if_neg (by decide), if_pos hholding, hset]
      exact ⟨_, rfl, rfl, hed'⟩

/-- What an event over the text calls: the wheel goes before the button. -/
theorem dispatchMouse_over (me : MouseEvent) (h : app.editor.Pointed T t p)
    (harr : app.scene.Arranged) (hover : app.scene.OverText me.clickX me.clickY)
    (hme : me.leftClicked = true ∨ me.leftHolding = true ∨ me.scroll ≠ 0) :
    ∃ q p' app', app.scene.pxToText app.editor me.clickX me.clickY =
        some (some ((q.row : Int), (q.col : Int))) ∧
      dispatchMouseCalls app me = some (app', [if me.scroll ≠ 0 then
        .scrollBy (me.scroll * scrollSpeedMultiplier) 0 else .setCursor q.row q.col]) ∧
      app'.scene = app.scene ∧ app'.editor.Pointed T t p' ∧
      (me.scroll = 0 → p' = if app.editor.remoteCursorRow = q.row then p else q) := by
  obtain ⟨q, hhit, hq⟩ := hover.pxToText h.shows (Nat.lt_of_le_of_lt (Nat.zero_le _) h.valid.1)
  obtain ⟨a, ha, hscene, hpointed, htext, hremote⟩ : ∃ a, (if me.leftHolding then app else
      { app with editor := app.editor.selClear }) = a ∧ a.scene = app.scene ∧
      a.editor.Pointed T t p ∧ app.scene.pxToText a.editor me.clickX me.clickY =
        some (some ((q.row : Int), (q.col : Int))) ∧
      a.editor.remoteCursorRow = app.editor.remoteCursorRow := by
    split
    · exact ⟨app, rfl, rfl, h, hhit, rfl⟩
    · exact ⟨_, rfl, rfl, h.congr rfl rfl rfl, hhit, rfl⟩
  obtain ⟨hbar, htree⟩ := Scene.OverText.beside a (hscene ▸ hover) (hscene ▸ harr)
  have hacts : (!me.leftClicked && me.scroll == 0 && !me.leftHolding) = false := by
    rcases hme with hclicked | hholding | hscroll
    · simp [hclicked]
    · simp [hholding]
    · simp [hscroll]
  unfold dispatchMouseCalls
  dsimp only
  rw [ha, hacts, if_neg (by decide), hbar]
  simp only [Bool.false_eq_true, if_false, filetreeCommandsMouse_beside htree,
    Option.bind_eq_bind, Option.bind_some]
  split
  · next hscroll =>
    obtain ⟨_, _, _, heq⟩ := a.editor.scrollBy_eq (me.scroll * scrollSpeedMultiplier) 0
    refine ⟨q, p, _, hhit, rfl, hscene, ?_, fun h0 => absurd h0 hscroll⟩
    simp only [App.setRender, heq]
    exact hpointed.congr rfl rfl rfl
  · next hscroll =>
    have hbutton : me.leftClicked = true ∨ me.leftHolding = true := by
      rcases hme with hclicked | hholding | hscroll'
      · exact Or.inl hclicked
      · exact Or.inr hholding
      · exact absurd hscroll' hscroll
    obtain ⟨hcalls, app', htextMouse, hscene', hpointed'⟩ := textMouse_over
      ({ a with tree := { a.tree with focused := false } }.setRender .full) hpointed hq
      (by rw [← hscene] at htext; exact htext) hbutton
    refine ⟨q, _, app', hhit, ?_, hscene'.trans hscene, hpointed', fun _ => ?_⟩
    · rw [htextMouse, hcalls]
      rfl
    · rw [← hremote]
      rfl

end Over

/-! ## Packets -/

/-- The event for the button and the event for the wheel, with the pointer at `x` and `y`. -/
def MousePacket.events (pp : MousePacket) (prevLb : Bool) (x y : Int) : List MouseEvent :=
  (if pp.lb then [⟨!prevLb, prevLb, x, y, pp.deltaZ⟩] else []) ++
    (if pp.deltaZ ≠ 0 then [⟨false, false, x, y, pp.deltaZ⟩] else [])

/-- What they call, if the position `q` is under the pointer. -/
def MousePacket.calls (pp : MousePacket) (q : Pos) : List EditorCall :=
  (if pp.lb then
    [if pp.deltaZ ≠ 0 then .scrollBy (pp.deltaZ * Commands.scrollSpeedMultiplier) 0
      else .setCursor q.row q.col] else []) ++
    (if pp.deltaZ ≠ 0 then [.scrollBy (pp.deltaZ * Commands.scrollSpeedMultiplier) 0] else [])

/-- One scroll for the wheel and none without it, unless the button is down, too. -/
theorem MousePacket.scrolls_iff {pp : MousePacket} {q : Pos} :
    (pp.calls q).filter EditorCall.isScroll = (if pp.deltaZ ≠ 0 then
      [.scrollBy (pp.deltaZ * Commands.scrollSpeedMultiplier) 0] else []) ↔
    (pp.lb = true → pp.deltaZ = 0) := by
  unfold MousePacket.calls
  cases pp.lb with
  | false =>
    refine iff_of_true ?_ (by simp)
    rw [if_neg Bool.false_ne_true, List.nil_append]
    split <;> rfl
  | true =>
    by_cases hwheel : pp.deltaZ = 0
    · exact iff_of_true (by simp [hwheel, EditorCall.isScroll]) fun _ => hwheel
    · refine iff_of_false (fun heq => ?_) fun himp => hwheel (himp rfl)
      have hlen := congrArg List.length heq
      simp [hwheel, List.filter_cons, EditorCall.isScroll] at hlen

theorem Pointer.mouseProcess_events (m : Pointer) (hRes vRes : Int) (pp : MousePacket) :
    (m.mouseProcess hRes vRes pp).2.2 = pp.events m.prevLb (m.mouseProcess hRes vRes pp).1.x
      (m.mouseProcess hRes vRes pp).1.y := by
  have hprev : (if m.initialized then m else
      { m with x := hRes.tdiv 2, y := vRes.tdiv 2, initialized := true }).prevLb = m.prevLb := by
    split <;> rfl
  unfold mouseProcess
  dsimp only
  rw [hprev]
  unfold MousePacket.events
  congr 1
  cases pp.lb <;> cases m.prevLb <;> rfl

namespace Proj

/-- The calls of an event of the queue, as far as the mouse makes them. -/
def eventCalls (app : App) : InputEvent → Option (App × List EditorCall)
  | .mouse me => Commands.dispatchMouseCalls app me
  | ev => (dispatchEvent app ev).map (·, [])

/-- `input_dispatch` with its calls. -/
def inputDispatchCalls (s : Proj) : Option (App × List EditorCall) :=
  Machine.run eventCalls s.app s.events.contents

theorem map_fst_inputDispatchCalls {s : Proj} (h : s.events.Wf) :
    s.inputDispatchCalls.map Prod.fst = s.inputDispatch.map Proj.app := by
  obtain ⟨q', -, -, hloop⟩ := dispatchLoop_eq h (Nat.lt_succ_self _) s.app
  rw [inputDispatchCalls, Machine.map_fst_run dispatchEvent fun app ev => ?_]
  · simp only [Proj.inputDispatch, hloop, Option.bind_eq_bind, Option.map_bind]
    cases s.events.contents.foldlM dispatchEvent s.app <;> rfl
  · cases ev with
    | mouse me => exact Commands.map_fst_dispatchMouseCalls app me
    | key ev => cases h : dispatchEvent app (.key ev) <;> simp [eventCalls, h]
    | serial se => cases h : dispatchEvent app (.serial se) <;> simp [eventCalls, h]

/-- `mouse_process` for a packet, with its pushes. -/
def mousePacket (s : Proj) (pp : MousePacket) : Proj :=
  let (pointer, moved, evs) := s.pointer.mouseProcess s.app.scene.hRes s.app.scene.vRes pp
  { s with
    app := if moved then s.app.setRender .mouse else s.app
    pointer
    events := s.events.pushAll (evs.map .mouse) }

/-- The last byte of a packet. -/
theorem onIrq_mouse {s : Proj} {port : KbcPort} {mask : UInt32} {d : MouseDriver} {pp : MousePacket}
    (hmask : mask &&& irqMouse ≠ 0) (hih : s.mouse.mouseIh port = some d)
    (hready : d.packetReady = true) (hpp : d.mouseParsePacket = some pp) :
    (onIrq irqMouse mask (mouseHandler · port) s).map Prod.fst =
      some { s.mousePacket pp with mouse := { d with packetReady := false } } := by
  simp only [onIrq, if_neg hmask, mouseHandler, hih, hready, hpp, Option.bind_eq_bind,
    Option.bind_some]
  rfl

/-- A packet comes, `input_dispatch` handles its events, and the screen is drawn. -/
def packetStep (s : Proj) (pp : MousePacket) : Option Proj := do
  return (← (s.mousePacket pp).inputDispatch).render

/-- The packet leaves the pointer over the text area. -/
def OverText (s : Proj) (pp : MousePacket) : Prop :=
  s.app.scene.OverText (s.mousePacket pp).pointer.x (s.mousePacket pp).pointer.y

instance (s : Proj) (pp : MousePacket) : Decidable (s.OverText pp) :=
  inferInstanceAs (Decidable (Scene.OverText _ _ _))

/-- The button goes down with the packet. -/
def Rising (s : Proj) (pp : MousePacket) : Prop := pp.lb = true ∧ s.pointer.prevLb = false

/-- What `scene_px_to_text` finds under the pointer. -/
def hit (s : Proj) (pp : MousePacket) : Option (Option (Int × Int)) :=
  s.app.scene.pxToText s.app.editor (s.mousePacket pp).pointer.x (s.mousePacket pp).pointer.y

/-- The packet scrolls once if it has a turn of the wheel, and else not, and the cursor
is where the button went down. -/
def Obeys (s : Proj) (pp : MousePacket) : Prop :=
  ∃ app calls, (s.mousePacket pp).inputDispatchCalls = some (app, calls) ∧
    calls.filter EditorCall.isScroll = (if pp.deltaZ ≠ 0 then
      [.scrollBy (pp.deltaZ * Commands.scrollSpeedMultiplier) 0] else []) ∧
    (s.Rising pp → s.hit pp = some (some (app.editor.cursorRow, app.editor.cursorCol)))

/-- The button is up while the wheel turns, and the row that is clicked is not refused
because the peer is in it. -/
def Meets (s : Proj) (pp : MousePacket) : Prop :=
  (pp.lb = true → pp.deltaZ = 0) ∧ (s.Rising pp → ∀ row col, s.hit pp = some (some (row, col)) →
    s.app.editor.remoteCursorRow ≠ row ∨
      (s.app.editor.cursorRow = row ∧ s.app.editor.cursorCol = col))

/-- Between two packets the queue is empty, and the cursor is in a text in view. -/
structure Idle (T : Prop) (t : List (List UInt8)) (s : Proj) : Prop where
  events : s.events.Wf
  empty : s.events.count = 0
  pointed : ∃ p, s.app.editor.Pointed T t p
  arranged : s.app.scene.Arranged

section Packets

variable {T : Prop} {t : List (List UInt8)} {s s' : Proj} {pp : MousePacket}

/-- What `input_dispatch` finds in the queue after a packet. -/
theorem Idle.contents (h : s.Idle T t) (pp : MousePacket) : (s.mousePacket pp).events.Wf ∧
    (s.mousePacket pp).events.contents = (pp.events s.pointer.prevLb (s.mousePacket pp).pointer.x
      (s.mousePacket pp).pointer.y).map .mouse := by
  have hroom : s.events.count + ((s.pointer.mouseProcess s.app.scene.hRes s.app.scene.vRes
      pp).2.2.map InputEvent.mouse).length ≤ inputEventQueueSize := by
    rw [h.empty, List.length_map, Nat.zero_add]
    exact Nat.le_trans (s.pointer.length_mouseProcess _ _ pp) (by decide)
  obtain ⟨hwf, hcontents⟩ := h.events.pushAll hroom
  refine ⟨hwf, hcontents.trans ?_⟩
  rw [EventQueue.contents_nil h.empty, List.nil_append, Pointer.mouseProcess_events]
  rfl

theorem run_mouse {app app' : App} {me : MouseEvent} {calls : List EditorCall}
    (h : Commands.dispatchMouseCalls app me = some (app', calls)) :
    Machine.run eventCalls app [.mouse me] = some (app', calls) := by
  simp [Machine.run, eventCalls, h]

/-- What the events of a packet call, over the text. -/
theorem run_events (app : App) {p : Pos} (h : app.editor.Pointed T t p)
    (harr : app.scene.Arranged) {x y : Int} (hover : app.scene.OverText x y) (pp : MousePacket)
    (prevLb : Bool) : ∃ q p' app', app.scene.pxToText app.editor x y =
        some (some ((q.row : Int), (q.col : Int))) ∧
      Machine.run eventCalls app ((pp.events prevLb x y).map .mouse) = some (app', pp.calls q) ∧
      app'.scene = app.scene ∧ app'.editor.Pointed T t p' ∧ (pp.lb = true → pp.deltaZ = 0 →
        p' = if app.editor.remoteCursorRow = q.row then p else q) := by
  obtain ⟨q, hhit, hq⟩ := hover.pxToText h.shows (Nat.lt_of_le_of_lt (Nat.zero_le _) h.valid.1)
  obtain ⟨app₁, p₁, hrun₁, hscene₁, hp₁, hmove⟩ : ∃ app₁ p₁, Machine.run eventCalls app
      ((if pp.lb then [⟨!prevLb, prevLb, x, y, pp.deltaZ⟩] else []).map .mouse) =
        some (app₁, if pp.lb then [if pp.deltaZ ≠ 0 then
          .scrollBy (pp.deltaZ * Commands.scrollSpeedMultiplier) 0
          else .setCursor q.row q.col] else []) ∧
      app₁.scene = app.scene ∧ app₁.editor.Pointed T t p₁ ∧ (pp.lb = true → pp.deltaZ = 0 →
        p₁ = if app.editor.remoteCursorRow = q.row then p else q) := by
    cases hlb : pp.lb with
    | false => exact ⟨app, p, rfl, rfl, h, nofun⟩
    | true =>
      obtain ⟨q', p₁, app₁, hhit', hcalls, hscene₁, hp₁, hmove⟩ := dispatchMouse_over
        ⟨!prevLb, prevLb, x, y, pp.deltaZ⟩ h harr hover (by cases prevLb <;> simp)
      obtain rfl : q' = q := by
        have heq := Option.some.inj (Option.some.inj (hhit'.symm.trans hhit))
        obtain ⟨hrow, hcol⟩ := Prod.mk.inj heq
        exact Pos.ext (Int.ofNat.inj hrow) (Int.ofNat.inj hcol)
      exact ⟨app₁, p₁, run_mouse hcalls, hscene₁, hp₁, fun _ => hmove⟩
  by_cases hwheel : pp.deltaZ = 0
  · refine ⟨q, p₁, app₁, hhit, ?_, hscene₁, hp₁, hmove⟩
    simp only [MousePacket.events, MousePacket.calls, hwheel, ne_eq, not_true, if_false,
      List.append_nil] at hrun₁ ⊢
    exact hrun₁
  · obtain ⟨q', p₂, app₂, -, hcalls, hscene₂, hp₂, -⟩ := dispatchMouse_over
      ⟨false, false, x, y, pp.deltaZ⟩ hp₁ (hscene₁ ▸ harr) (hscene₁ ▸ hover)
      (Or.inr (Or.inr hwheel))
    refine ⟨q, p₂, app₂, hhit, ?_, hscene₂.trans hscene₁, hp₂, fun _ h0 => absurd h0 hwheel⟩
    have hrun₂ : Machine.run eventCalls app₁ [.mouse ⟨false, false, x, y, pp.deltaZ⟩] =
        some (app₂, [.scrollBy (pp.deltaZ * Commands.scrollSpeedMultiplier) 0]) := by
      rw [if_pos hwheel] at hcalls
      exact run_mouse hcalls
    have hrun := Machine.run_append hrun₁ hrun₂
    simp only [MousePacket.events, MousePacket.calls, if_pos hwheel, List.map_append] at hrun ⊢
    exact hrun

/-- What a packet over the text calls. -/
theorem Idle.dispatch (h : s.Idle T t) (hover : s.OverText pp) {p : Pos}
    (hp : s.app.editor.Pointed T t p) : ∃ q p' app, s.hit pp =
        some (some ((q.row : Int), (q.col : Int))) ∧
      (s.mousePacket pp).inputDispatchCalls = some (app, pp.calls q) ∧
      app.scene = s.app.scene ∧ app.editor.Pointed T t p' ∧ (pp.lb = true → pp.deltaZ = 0 →
        p' = if s.app.editor.remoteCursorRow = q.row then p else q) := by
  have hsame : (s.mousePacket pp).app.editor = s.app.editor ∧
      (s.mousePacket pp).app.scene = s.app.scene := by
    unfold mousePacket
    dsimp only
    split <;> exact ⟨rfl, rfl⟩
  obtain ⟨heditor, hscene⟩ := hsame
  unfold OverText at hover
  obtain ⟨q, p', app, hhit, hrun, hscene', hp', hmove⟩ := run_events
    (s.mousePacket pp).app (heditor.symm ▸ hp) (hscene.symm ▸ h.arranged)
    (hscene.symm ▸ hover) pp s.pointer.prevLb
  refine ⟨q, p', app, ?_, ?_, hscene'.trans hscene, hp', ?_⟩
  · rw [hit, ← hscene, ← heditor]
    exact hhit
  · rw [inputDispatchCalls, (h.contents pp).2]
    exact hrun
  · rw [← heditor]
    exact hmove

/-- A packet does what it says exactly if it meets the condition. -/
theorem Idle.obeys_iff (h : s.Idle T t) (hover : s.OverText pp) : s.Obeys pp ↔ s.Meets pp := by
  obtain ⟨p, hp⟩ := h.pointed
  obtain ⟨q, p', app, hhit, hcalls, -, hp', hmove⟩ := h.dispatch hover hp
  have hat : (s.hit pp = some (some (app.editor.cursorRow, app.editor.cursorCol))) ↔ p' = q := by
    rw [hhit, hp'.row, hp'.col]
    simp only [Option.some.injEq, Prod.mk.injEq, Int.natCast_inj, Pos.ext_iff, eq_comm]
  have hobeys : s.Obeys pp ↔ (pp.calls q).filter EditorCall.isScroll = (if pp.deltaZ ≠ 0 then
      [.scrollBy (pp.deltaZ * Commands.scrollSpeedMultiplier) 0] else []) ∧
      (s.Rising pp → p' = q) := by
    unfold Obeys
    rw [← hat, hcalls]
    constructor
    · rintro ⟨app₁, calls, heq, hscrolls, hcursor⟩
      obtain ⟨rfl, rfl⟩ := Prod.mk.inj (Option.some.inj heq)
      exact ⟨hscrolls, hcursor⟩
    · rintro ⟨hscrolls, hcursor⟩
      exact ⟨app, _, rfl, hscrolls, hcursor⟩
  have hmeets : s.Meets pp ↔ (pp.lb = true → pp.deltaZ = 0) ∧
      (s.Rising pp → s.app.editor.remoteCursorRow ≠ q.row ∨ p = q) := by
    unfold Meets
    rw [hhit, hp.row, hp.col]
    refine and_congr Iff.rfl (imp_congr_right fun _ => ⟨fun hrow => ?_, ?_⟩)
    · refine (hrow q.row q.col rfl).imp_right fun heq => ?_
      exact Pos.ext (Int.ofNat.inj heq.1) (Int.ofNat.inj heq.2)
    · rintro hrow row col heq
      obtain ⟨rfl, rfl⟩ := Prod.mk.inj (Option.some.inj (Option.some.inj heq))
      refine hrow.imp_right ?_
      rintro rfl
      exact ⟨rfl, rfl⟩
  rw [hobeys, hmeets, MousePacket.scrolls_iff]
  refine and_congr_right fun hwheel => imp_congr_right fun hrising => ?_
  rw [hmove hrising.1 (hwheel hrising.1)]
  split
  · next hrow => simp [hrow]
  · next hrow => simp [hrow]

/-- After a packet the queue is empty again. -/
theorem Idle.packetStep (h : s.Idle T t) (hover : s.OverText pp)
    (hstep : s.packetStep pp = some s') : s'.Idle T t := by
  obtain ⟨p, hp⟩ := h.pointed
  obtain ⟨q, p', app, -, hcalls, hscene, hp', -⟩ := h.dispatch hover hp
  obtain ⟨events, hwf, hempty, hloop⟩ :=
    dispatchLoop_eq (h.contents pp).1 (Nat.lt_succ_self _) (s.mousePacket pp).app
  have herase := map_fst_inputDispatchCalls (h.contents pp).1
  obtain ⟨s₁, hdispatch, heq⟩ := Option.bind_eq_some_iff.1 hstep
  obtain rfl := Option.some.inj heq
  rw [hcalls, hdispatch] at herase
  obtain rfl : app = s₁.app := Option.some.inj herase
  obtain rfl : s₁.events = events := by
    obtain ⟨r, hr, heq⟩ := Option.bind_eq_some_iff.1 hdispatch
    rw [hloop] at hr
    obtain ⟨a, -, rfl⟩ := Option.map_eq_some_iff.1 hr
    exact congrArg Proj.events (Option.some.inj heq).symm
  unfold render
  split
  · exact ⟨hwf, hempty, ⟨p', hp'⟩, hscene ▸ h.arranged⟩
  · unfold App.viewRender
    split
    · exact ⟨hwf, hempty, ⟨p', hp'.congr rfl rfl rfl⟩, Scene.arranged_updateLayout _ _ _⟩
    · exact ⟨hwf, hempty, ⟨p', hp'⟩, hscene ▸ h.arranged⟩

end Packets

/-- Over the text area each packet scrolls once for a turn of the wheel and each press of
the button moves the cursor there, exactly if no packet has the button down while the
wheel turns and no press is in the row of the peer's cursor. -/
theorem mouse_packets_iff {T : Prop} {t : List (List UInt8)} {s : Proj} (h : s.Idle T t)
    (pps : List MousePacket) (hover : Along packetStep OverText s pps) :
    Along packetStep Obeys s pps ↔ Along packetStep Meets s pps :=
  Along.iff_of_invariant (fun _ _ _ hs hd hstep => hs.packetStep hd hstep)
    (fun _ _ hs hd => hs.obeys_iff hd) h hover

/-- Two rows, and the pointer not yet placed. -/
def twoRows : Proj :=
  .start { Commands.holding [ascii "ab", ascii "c"] with
    scene := Scene.static.updateLayout true 2 } 4

theorem twoRows_idle : twoRows.Idle True [ascii "ab", ascii "c"] where
  events := ⟨rfl, Nat.zero_le _⟩
  empty := rfl
  pointed := ⟨⟨0, 0⟩, (Commands.holding_holds _).shows, rfl, rfl, by decide⟩
  arranged := Scene.arranged_updateLayout _ _ _

/-- A click below the text, and then the wheel. -/
theorem mouse_packets_two_rows :
    Along packetStep Obeys twoRows [⟨true, 0, 0, 0⟩, ⟨false, 0, 0, 1⟩] := by
  have hhit : twoRows.hit ⟨true, 0, 0, 0⟩ = some (some (1, 1)) := by decide
  refine (mouse_packets_iff twoRows_idle _ (by decide +kernel)).2
    ⟨⟨fun _ => rfl, fun _ row col heq => Or.inl ?_⟩,
      fun s' _ => ⟨⟨nofun, nofun⟩, fun _ _ => trivial⟩⟩
  rw [hhit] at heq
  obtain ⟨rfl, rfl⟩ := Prod.mk.inj (Option.some.inj (Option.some.inj heq))
  decide

/-- A press of the button with a turn of the wheel scrolls twice, and the cursor stays. -/
theorem press_with_wheel_scrolls_twice : twoRows.OverText ⟨true, 0, 0, 1⟩ ∧
    (∃ app, (twoRows.mousePacket ⟨true, 0, 0, 1⟩).inputDispatchCalls =
      some (app, [.scrollBy 3 0, .scrollBy 3 0]) ∧ app.editor.cursorRow = 0) ∧
    twoRows.hit ⟨true, 0, 0, 1⟩ = some (some (1, 1)) ∧ ¬ twoRows.Obeys ⟨true, 0, 0, 1⟩ := by
  refine ⟨by decide, ⟨_, rfl, by decide +kernel⟩, by decide, fun hobeys => ?_⟩
  exact absurd ((twoRows_idle.obeys_iff (by decide)).1 hobeys).1 (by decide)

end Proj

end LCode
