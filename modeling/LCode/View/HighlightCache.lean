import LCode.Editor.Basic
import LCode.View.Syntax

/-!
# The highlight cache

`highlight_cache.c`. The parallel arrays `line_colors_cache` and
`line_colors_cache_cap` are one list of rows, each an array with the size it was
allocated with; the capacities of the outer arrays are the lengths of the lists.
The cache allocates from the heap of the editor, which the caller hands over.
-/

namespace LCode

/-- `malloc(n * sizeof(uint32_t))`. -/
def Heap.mallocColors (h : Heap) (n : Int) : Option (List UInt32) :=
  (h.outcome 0).map fun junk => (List.range n.toNat).map fun k =>
    (junk (4 * k)).toUInt32 ||| ((junk (4 * k + 1)).toUInt32 <<< (8 : UInt32)) |||
      ((junk (4 * k + 2)).toUInt32 <<< (16 : UInt32)) |||
      ((junk (4 * k + 3)).toUInt32 <<< (24 : UInt32))

/-- An entry of `line_colors_cache` and of `line_colors_cache_cap`. -/
structure RowColors where
  colors : Option (List UInt32)
  cap : Int
  sized : cap = ((colors.getD []).length : Int)

/-- No colours, "not yet computed". -/
def RowColors.null : RowColors := ⟨none, 0, rfl⟩

def RowColors.block (colors : List UInt32) : RowColors := ⟨some colors, colors.length, rfl⟩

/-- The static state of `highlight_cache.c`. -/
structure HighlightCache where
  currentLang : SyntaxLanguage
  blockCommentOpen : List Bool
  lineColors : List RowColors
  lastRowCount : Int
  heap : Heap

def cacheInitCap : Int := 64

/-- The size `block_comment_open_grow` and `line_colors_cache_grow` go to. -/
def cacheCap (cap : Nat) (needed : Int) : Int :=
  growCap (needed - 1) needed.toNat (if cap ≠ 0 then (cap : Int) * 2 else cacheInitCap)

namespace HighlightCache

def static (heap : Heap) : HighlightCache := ⟨.none, [], [], 0, heap⟩

/-! ## Block comments -/

/-- `block_comment_open_grow`: whether it succeeded. -/
def growFlags (c : HighlightCache) (needed : Int) : Bool × HighlightCache :=
  if needed ≤ c.blockCommentOpen.length then (true, c)
  else match c.heap.outcome 0 with
    | none => (false, { c with heap := c.heap.next })
    | some _ =>
      let slots := (cacheCap c.blockCommentOpen.length needed).toNat - c.blockCommentOpen.length
      (true, { c with
        blockCommentOpen := c.blockCommentOpen ++ List.replicate slots false
        heap := c.heap.next })

/-- `block_comment_open_at`. -/
def blockCommentOpenAt (c : HighlightCache) (row : Int) : Bool :=
  if row < 0 ∨ c.blockCommentOpen.length ≤ row then false
  else c.blockCommentOpen[row.toNat]?.getD false

/-- `block_comment_open[row] = flag`. -/
def setFlag (c : HighlightCache) (row : Int) (flag : Bool) : Option HighlightCache := do
  return { c with blockCommentOpen := ← Block.store c.blockCommentOpen row [flag] }

/-- The text of a row, as `syntax_highlight_line` reads it. -/
def lineText (ed : Editor) (row : Int) : Option (List UInt8) := do
  (← ed.getLine row).slice 0 (← ed.getLineLen row)

/-- The loop of `rebuild_block_comment_open_full` over `n` rows from `row` on. -/
def rebuildFullLoop (ed : Editor) : Nat → Int → Bool → HighlightCache → Option HighlightCache
  | 0, _, _, c => some c
  | n + 1, row, inBlockComment, c => do
    let c ← c.setFlag row inBlockComment
    let (_, outBlockComment) :=
      Syntax.highlightLine c.currentLang inBlockComment (← lineText ed row)
    rebuildFullLoop ed n (row + 1) outBlockComment c

/-- `rebuild_block_comment_open_full`. -/
def rebuildFull (c : HighlightCache) (ed : Editor) : Option HighlightCache :=
  let total := ed.doc.rowCount
  -- one more, in case the last line is inside a comment block
  let (ok, c) := c.growFlags (total + 1)
  if !ok then some c else rebuildFullLoop ed total.toNat 0 false c

/-! ## Colours -/

/-- `line_colors_cache_grow`: whether it succeeded. -/
def growRows (c : HighlightCache) (needed : Int) : Bool × HighlightCache :=
  if needed ≤ c.lineColors.length then (true, c)
  else match c.heap.outcome 0 with
    | none => (false, { c with heap := c.heap.next })
    | some _ =>
      match c.heap.next.outcome 0 with
      | none => (false, { c with heap := c.heap.next.next })
      | some _ =>
        let slots := (cacheCap c.lineColors.length needed).toNat - c.lineColors.length
        (true, { c with
          lineColors := c.lineColors ++ List.replicate slots .null
          heap := c.heap.next.next })

/-- `line_colors_cache[row]` and `line_colors_cache_cap[row]`. -/
def row (c : HighlightCache) (row : Int) : Option RowColors := Block.read c.lineColors row

def setRow (c : HighlightCache) (row : Int) (e : RowColors) : Option HighlightCache := do
  return { c with lineColors := ← Block.store c.lineColors row [e] }

/-- `memmove` in both arrays. -/
def moveRows (c : HighlightCache) (dst src n : Int) : Option HighlightCache := do
  return { c with lineColors := ← Block.move c.lineColors dst src n }

/-- `highlight_cache_free_row`. -/
def freeRow (c : HighlightCache) (row : Int) : Option HighlightCache :=
  if row < 0 ∨ c.lineColors.length ≤ row then some c else c.setRow row .null

/-- `line_colors_cache_invalidate_all`. -/
def invalidateAll (c : HighlightCache) : HighlightCache :=
  { c with lineColors := c.lineColors.map fun _ => .null, lastRowCount := 0 }

/-- `ensure_row_cap`: whether the row has an array, now of at least `len` colours. -/
def ensureRowCap (c : HighlightCache) (row len : Int) : Option (Bool × HighlightCache) :=
  if len ≤ 0 then some (false, c)
  else do
    let (ok, c) := c.growRows (row + 1)
    if !ok then return (false, c)
    let e ← c.row row
    if e.cap < len then
      match c.heap.mallocColors len with
      | none => return (false, { c with heap := c.heap.next })
      | some p => return (true, ← { c with heap := c.heap.next }.setRow row (.block p))
    else return (e.colors.isSome, c)

/-- The stores of `syntax_highlight_line` to the array of a row. -/
def writeColors (c : HighlightCache) (row : Int) (colors : List UInt32) :
    Option HighlightCache := do
  let e ← c.row row
  c.setRow row (.block (← Block.store (← e.colors) 0 colors))

/-- `ensure_row_cap` and `syntax_highlight_line` for a row: whether it has an array,
and whether it ends inside a block comment. -/
def highlightRow (c : HighlightCache) (ed : Editor) (row : Int) (inBlockComment : Bool) :
    Option (Bool × Bool × HighlightCache) := do
  let (dst, c) ← c.ensureRowCap row (← ed.getLineLen row)
  let (colors, outBlockComment) :=
    Syntax.highlightLine c.currentLang inBlockComment (← lineText ed row)
  let c ← if dst then c.writeColors row colors else some c
  return (dst, outBlockComment, c)

/-! ## The interface -/

/-- One row more: both halves of the row that was split have changed. -/
def syncInserted (c : HighlightCache) (newCount cursorRow oldCount : Int) :
    Option HighlightCache := do
  let splitRow := cursorRow - 1
  if splitRow < 0 then return c
  let (ok, c) := c.growRows newCount
  if !ok then return c
  let shift := oldCount - splitRow - 1
  let c ← if 0 < shift then c.moveRows (splitRow + 2) (splitRow + 1) shift else some c
  let c ← c.freeRow splitRow
  c.setRow (splitRow + 1) .null

/-- One row less: it was merged into the cursor row. -/
def syncDeleted (c : HighlightCache) (cursorRow oldCount : Int) : Option HighlightCache := do
  let effOld := if oldCount < c.lineColors.length then oldCount else c.lineColors.length
  if cursorRow < 0 ∨ effOld ≤ cursorRow then return c
  let c ← c.freeRow cursorRow
  let c ← c.freeRow (cursorRow + 1)
  let shift := effOld - cursorRow - 2
  let c ← if 0 < shift then c.moveRows (cursorRow + 1) (cursorRow + 2) shift else some c
  let vacated := effOld - 1
  if 0 ≤ vacated ∧ vacated < c.lineColors.length then c.setRow vacated .null else return c

/-- `highlight_cache_sync`. -/
def sync (c : HighlightCache) (newCount cursorRow : Int) : Option HighlightCache :=
  let oldCount := c.lastRowCount
  if newCount = oldCount then some c
  else if oldCount = 0 then some { c with lastRowCount := newCount }
  else do
    let c ←
      if newCount = oldCount + 1 then c.syncInserted newCount cursorRow oldCount
      else if newCount = oldCount - 1 then c.syncDeleted cursorRow oldCount
      else some c.invalidateAll
    return { c with lastRowCount := newCount }

/-- `highlight_cache_get_line`. -/
def getLine (c : HighlightCache) (ed : Editor) (row : Int) :
    Option (Option (List UInt32) × HighlightCache) := do
  let (ok, c) := c.growRows (row + 1)
  if !ok then return (none, c)
  let e ← c.row row
  if e.colors.isSome then return (e.colors, c)
  let (dst, _, c) ← c.highlightRow ed row (c.blockCommentOpenAt row)
  if !dst then return (none, c)
  return ((← c.row row).colors, c)

/-- `highlight_cache_set_language`. -/
def setLanguage (c : HighlightCache) (ed : Editor) (lang : SyntaxLanguage) :
    Option HighlightCache :=
  { c with currentLang := lang }.invalidateAll.rebuildFull ed

/-- The loop of `highlight_cache_rebuild_from` over `n` rows from `row` on. -/
def rebuildLoop (ed : Editor) : Nat → Int → Bool → HighlightCache → Option HighlightCache
  | 0, _, _, c => some c
  | n + 1, row, inBlockComment, c => do
    let (_, outBlockComment, c) ← c.highlightRow ed row inBlockComment
    if row + 1 < c.blockCommentOpen.length then
      -- the next row's state is already right, so all following rows are
      if (← Block.read c.blockCommentOpen (row + 1)) = outBlockComment then return c
      let c ← c.freeRow (row + 1)
      let c ← c.setFlag (row + 1) outBlockComment
      rebuildLoop ed n (row + 1) outBlockComment c
    else rebuildLoop ed n (row + 1) outBlockComment c

/-- `highlight_cache_rebuild_from`. -/
def rebuildFrom (c : HighlightCache) (ed : Editor) (row : Int) : Option HighlightCache :=
  let total := ed.doc.rowCount
  if row < 0 ∨ total ≤ row then some c
  else do
    let (ok, c) := c.growFlags (total + 1)
    if !ok then return c
    rebuildLoop ed (total - row).toNat row (← Block.read c.blockCommentOpen row) c

/-- `highlight_cache_cleanup`. -/
def cleanup (c : HighlightCache) : HighlightCache :=
  { c.invalidateAll with lineColors := [], blockCommentOpen := [] }

/-- A call of the interface; `ed` is the editor at its time. -/
inductive Call where
  | sync (newCount cursorRow : Int)
  | freeRow (row : Int)
  | getLine (ed : Editor) (row : Int)
  | setLanguage (ed : Editor) (lang : SyntaxLanguage)
  | rebuildFrom (ed : Editor) (row : Int)
  | cleanup

/-- The cache after a call. -/
def call (c : HighlightCache) : Call → Option HighlightCache
  | .sync newCount cursorRow => c.sync newCount cursorRow
  | .freeRow row => c.freeRow row
  | .getLine ed row => (c.getLine ed row).map Prod.snd
  | .setLanguage ed lang => c.setLanguage ed lang
  | .rebuildFrom ed row => c.rebuildFrom ed row
  | .cleanup => some c.cleanup

end HighlightCache

end LCode
