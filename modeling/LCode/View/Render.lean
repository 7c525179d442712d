import LCode.Lib.Machine
import LCode.Peer.Basic
import LCode.View.HighlightCache

/-!
# Rendering the editor

`render_editor_ui` and `view_render` of `scene.c`, with the highlight cache they
keep. Of the drawing only the reads of the colours are followed: each use of
`highlight_cache_get_line` is a fetch, with the array it returned and the columns
at which the array is then read.
-/

namespace LCode

/-- `colors[c]` is read for `first ≤ c < last`; `cap` is what the cache says of the
size of the array. -/
structure Fetch where
  row : Int
  colors : List UInt32
  cap : Int
  first : Int
  last : Int
  deriving DecidableEq, Repr

/-- The process with its highlight cache; `prevRow` and `prevCol` are where the
cursor was drawn. -/
structure Desk where
  app : App
  cache : HighlightCache
  prevRow : Int
  prevCol : Int

/-- The cache allocates from `heap`. -/
def HighlightCache.withHeap (c : HighlightCache) (heap : Heap) : HighlightCache :=
  { c with heap }

/-- The editor goes on with what is left of the heap. -/
def App.withHeap (app : App) (heap : Heap) : App :=
  { app with editor := { app.editor with doc := { app.editor.doc with heap } } }

namespace Desk

/-- `highlight_cache_get_line` where the columns from `first` to before `last` are
drawn: NULL is skipped. -/
def fetch (ed : Editor) (c : HighlightCache) (row first last : Int) :
    Option (List Fetch × HighlightCache) := do
  let (colors, c) ← c.getLine ed row
  match colors with
  | none => return ([], c)
  | some colors => return ([⟨row, colors, (← c.row row).cap, first, last⟩], c)

/-- `draw_text_lines` over `n` rows from `row` on. -/
def drawTextLines (ed : Editor) (scrollCol : Int) : Nat → Int → HighlightCache →
    Option (List Fetch × HighlightCache)
  | 0, _, c => some ([], c)
  | n + 1, row, c => do
    let len ← ed.getLineLen row
    if len ≤ scrollCol then drawTextLines ed scrollCol n (row + 1) c
    else
      let (fs, c) ← fetch ed c row scrollCol len
      let (fs', c) ← drawTextLines ed scrollCol n (row + 1) c
      return (fs ++ fs', c)

/-- RENDER_FULL, where the layout computed anew shows `visRows` rows. -/
def renderFull (ed : Editor) (visRows : Int) (c : HighlightCache) :
    Option (List Fetch × HighlightCache) := do
  let c ← c.sync ed.doc.rowCount ed.cursorRow
  let endR := ed.scrollRow + visRows
  let endR := if ed.doc.rowCount < endR then ed.doc.rowCount else endR
  drawTextLines ed ed.scrollCol (endR - ed.scrollRow).toNat ed.scrollRow c

/-- RENDER_LINE. -/
def renderLine (ed : Editor) (c : HighlightCache) : Option (List Fetch × HighlightCache) := do
  let row := ed.cursorRow
  let c ← c.freeRow row
  let c ← c.rebuildFrom ed row
  let len ← ed.getLineLen row
  if ed.scrollCol < len then fetch ed c row ed.scrollCol len else return ([], c)

/-- RENDER_WORD. -/
def renderWord (ed : Editor) (prevRow prevCol : Int) (c : HighlightCache) :
    Option (List Fetch × HighlightCache) := do
  let c ← c.rebuildFrom ed prevRow
  let len ← ed.getLineLen prevRow
  fetch ed c prevRow ed.cursorCol (if prevCol < len then prevCol + 1 else len)

/-- RENDER_CHAR: the character at the old position of the cursor, if it is in view. -/
def renderChar (ed : Editor) (scene : Scene) (prevRow prevCol : Int) (c : HighlightCache) :
    Option (List Fetch × HighlightCache) :=
  if ed.scrollRow ≤ prevRow ∧ prevRow < ed.scrollRow + scene.visRows ∧
      ed.scrollCol ≤ prevCol ∧ prevCol < ed.scrollCol + scene.visCols then do
    let c ← c.rebuildFrom ed prevRow
    let len ← ed.getLineLen prevRow
    if prevCol < len then fetch ed c prevRow prevCol (prevCol + 1) else return ([], c)
  else some ([], c)

/-- `render_editor_ui`. -/
def renderEditorUi (s : Desk) (c : HighlightCache) : Option (List Fetch × HighlightCache) :=
  match s.app.renderMode with
  | .full => renderFull s.app.editor s.app.viewRender.scene.visRows c
  | .line => renderLine s.app.editor c
  | .word => renderWord s.app.editor s.prevRow s.prevCol c
  | .char => renderChar s.app.editor s.app.scene s.prevRow s.prevCol c
  -- without colours: the status bar, the pointer and the line of the remote cursor
  | .remoteLine | .status | .mouse | .none => some ([], c)

/-- `view_render`. -/
def viewRender (s : Desk) : Option (Desk × List Fetch) := do
  let (fetches, cache) ← s.renderEditorUi (s.cache.withHeap s.app.editor.doc.heap)
  let app := s.app.viewRender.withHeap cache.heap
  if s.app.renderMode ≠ .mouse ∧ s.app.renderMode ≠ .status then
    return ({ app, cache, prevRow := s.app.editor.cursorRow, prevCol := s.app.editor.cursorCol },
      fetches)
  else return ({ s with app, cache }, fetches)

/-! ## Rounds of the main loop -/

/-- `scene_set_language`, where a handler called it. -/
def setLanguage (s : Desk) : Option Desk :=
  if !s.app.languageSet then some s
  else do
    let cache ← (s.cache.withHeap s.app.editor.doc.heap).setLanguage s.app.editor s.app.language
    return { s with app := { s.app.withHeap cache.heap with languageSet := false }, cache }

/-- The desk before the first round of the main loop. -/
def start (app : App) : Option Desk :=
  setLanguage ⟨app, .static app.editor.doc.heap, 0, 0⟩

/-- `execute_open`. -/
def executeOpen (s : Desk) (name : List UInt8) : Option Desk := do
  setLanguage { s with app := ← Commands.executeOpen s.app name }

/-- A key, a mouse event, or the pointer moving; a mouse event comes with or without
a move. -/
inductive Event where
  | key (ev : KeyEvent)
  | mouse (me : MouseEvent) (moved : Bool)
  | pointer
  deriving DecidableEq, Repr

/-- The event handlers, `mouse_process` included. -/
def handle (s : Desk) : Event → Option Desk
  | .key ev => do setLanguage { s with app := ← s.app.handle (.key ev) }
  | .mouse me moved => do
    let app := if moved then s.app.setRender .mouse else s.app
    setLanguage { s with app := ← app.handle (.mouse me) }
  | .pointer => some { s with app := s.app.setRender .mouse }

/-- An event, and whether `view_render` is called even if nothing is scheduled. -/
structure Round where
  event : Event
  always : Bool
  deriving DecidableEq, Repr

/-- A round of the main loop. -/
def round (s : Desk) (r : Round) : Option (Desk × List Fetch) := do
  let s ← s.handle r.event
  if s.app.renderMode = .none ∧ r.always = false then return (s, []) else s.viewRender

/-- The desk after a round. -/
def next (s : Desk) (r : Round) : Option Desk := (s.round r).map Prod.fst

end Desk

end LCode
