import LCode.Lib.Arena
import LCode.Lib.Sat
import LCode.View.HighlightCache

/-!
# The highlight cache and its pointers

`highlight_cache.c` once more, with the arrays of colours in memory. An entry of
`line_colors_cache` is the pointer `malloc` gave, or NULL, and `line_colors_cache_cap`
is an array of its own; `free` ends the life of what a pointer points to. The outer
arrays have one size, the length of `lineColors`.
-/

namespace LCode

/-- Why a call of the cache may fault. -/
inductive CacheFault where
  /-- An access outside an array. -/
  | outside
  /-- An array freed, or written to, that had been freed before. -/
  | freed
  /-- The editor faulted when it was asked for a row. -/
  | editor
  deriving DecidableEq, Repr

/-- The static state of `highlight_cache.c` and the arrays of colours. -/
structure PointerCache where
  currentLang : SyntaxLanguage
  blockCommentOpen : List Bool
  lineColors : List (Option Nat)
  lineColorsCap : List Int
  lastRowCount : Int
  arrays : Arena (List UInt32)
  heap : Heap

namespace PointerCache

def static (heap : Heap) : PointerCache := ⟨.none, [], [], [], 0, [], heap⟩

/-! ## Block comments -/

/-- `block_comment_open_grow`: whether it succeeded. -/
def growFlags (b : PointerCache) (needed : Int) : Bool × PointerCache :=
  if needed ≤ b.blockCommentOpen.length then (true, b)
  else match b.heap.outcome 0 with
    | none => (false, { b with heap := b.heap.next })
    | some _ =>
      let slots := (cacheCap b.blockCommentOpen.length needed).toNat - b.blockCommentOpen.length
      (true, { b with
        blockCommentOpen := b.blockCommentOpen ++ List.replicate slots false
        heap := b.heap.next })

/-- `block_comment_open_at`. -/
def blockCommentOpenAt (b : PointerCache) (row : Int) : Bool :=
  if row < 0 ∨ b.blockCommentOpen.length ≤ row then false
  else b.blockCommentOpen[row.toNat]?.getD false

/-- `block_comment_open[row] = flag`. -/
def setFlag (b : PointerCache) (row : Int) (flag : Bool) : Except CacheFault PointerCache := do
  return { b with
    blockCommentOpen := ← orFault .outside (Block.store b.blockCommentOpen row [flag]) }

/-- The loop of `rebuild_block_comment_open_full` over `n` rows from `row` on. -/
def rebuildFullLoop (ed : Editor) :
    Nat → Int → Bool → PointerCache → Except CacheFault PointerCache
  | 0, _, _, b => .ok b
  | n + 1, row, inBlockComment, b => do
    let b ← b.setFlag row inBlockComment
    let (_, outBlockComment) := Syntax.highlightLine b.currentLang inBlockComment
      (← orFault .editor (HighlightCache.lineText ed row))
    rebuildFullLoop ed n (row + 1) outBlockComment b

/-- `rebuild_block_comment_open_full`. -/
def rebuildFull (b : PointerCache) (ed : Editor) : Except CacheFault PointerCache :=
  let total := ed.doc.rowCount
  let (ok, b) := b.growFlags (total + 1)
  if !ok then .ok b else rebuildFullLoop ed total.toNat 0 false b

/-! ## Colours -/

/-- `line_colors_cache_grow`: whether it succeeded. -/
def growRows (b : PointerCache) (needed : Int) : Bool × PointerCache :=
  if needed ≤ b.lineColors.length then (true, b)
  else match b.heap.outcome 0 with
    | none => (false, { b with heap := b.heap.next })
    | some _ =>
      match b.heap.next.outcome 0 with
      | none => (false, { b with heap := b.heap.next.next })
      | some _ =>
        let slots := (cacheCap b.lineColors.length needed).toNat - b.lineColors.length
        (true, { b with
          lineColors := b.lineColors ++ List.replicate slots none
          lineColorsCap := b.lineColorsCap ++ List.replicate slots 0
          heap := b.heap.next.next })

/-- `line_colors_cache[row]`. -/
def pointer (b : PointerCache) (row : Int) : Except CacheFault (Option Nat) :=
  orFault .outside (Block.read b.lineColors row)

/-- The stores to both arrays. -/
def setRow (b : PointerCache) (row : Int) (colors : Option Nat) (cap : Int) :
    Except CacheFault PointerCache := do
  return { b with
    lineColors := ← orFault .outside (Block.store b.lineColors row [colors])
    lineColorsCap := ← orFault .outside (Block.store b.lineColorsCap row [cap]) }

/-- `memmove` in both arrays. -/
def moveRows (b : PointerCache) (dst src n : Int) : Except CacheFault PointerCache := do
  return { b with
    lineColors := ← orFault .outside (Block.move b.lineColors dst src n)
    lineColorsCap := ← orFault .outside (Block.move b.lineColorsCap dst src n) }

/-- `free`. -/
def free (b : PointerCache) (colors : Option Nat) : Except CacheFault PointerCache := do
  return { b with arrays := ← orFault .freed (b.arrays.free colors) }

/-- `highlight_cache_free_row`. -/
def freeRow (b : PointerCache) (row : Int) : Except CacheFault PointerCache :=
  if row < 0 ∨ b.lineColors.length ≤ row then .ok b
  else do
    let b ← b.free (← b.pointer row)
    b.setRow row none 0

/-- `line_colors_cache_invalidate_all`. -/
def invalidateAll (b : PointerCache) : Except CacheFault PointerCache := do
  let b ← (List.range b.lineColors.length).foldlM (fun b (row : Nat) => b.freeRow row) b
  return { b with lastRowCount := 0 }

/-- `ensure_row_cap`: the pointer it returns. -/
def ensureRowCap (b : PointerCache) (row len : Int) :
    Except CacheFault (Option Nat × PointerCache) :=
  if len ≤ 0 then .ok (none, b)
  else do
    let (ok, b) := b.growRows (row + 1)
    if !ok then return (none, b)
    let cap ← orFault .outside (Block.read b.lineColorsCap row)
    if cap < len then
      match b.heap.mallocColors len with
      | none => return (none, { b with heap := b.heap.next })
      | some colors =>
        let (p, arrays) := b.arrays.alloc colors
        let b ← { b with arrays, heap := b.heap.next }.free (← b.pointer row)
        return (some p, ← b.setRow row (some p) len)
    else return (← b.pointer row, b)

/-- The stores of `syntax_highlight_line` to its `colors`. -/
def writeColors (b : PointerCache) (p : Nat) (colors : List UInt32) :
    Except CacheFault PointerCache := do
  let block ← orFault .freed (b.arrays.get p)
  let block ← orFault .outside (Block.store block 0 colors)
  return { b with arrays := ← orFault .freed (b.arrays.write p block) }

/-- `ensure_row_cap` and `syntax_highlight_line` for a row: the array it has, and
whether it ends inside a block comment. -/
def highlightRow (b : PointerCache) (ed : Editor) (row : Int) (inBlockComment : Bool) :
    Except CacheFault (Option Nat × Bool × PointerCache) := do
  let (dst, b) ← b.ensureRowCap row (← orFault .editor (ed.getLineLen row))
  let (colors, outBlockComment) := Syntax.highlightLine b.currentLang inBlockComment
    (← orFault .editor (HighlightCache.lineText ed row))
  match dst with
  | none => return (none, outBlockComment, b)
  | some p => return (some p, outBlockComment, ← b.writeColors p colors)

/-! ## The interface -/

/-- One row more: both halves of the row that was split have changed. -/
def syncInserted (b : PointerCache) (newCount cursorRow oldCount : Int) :
    Except CacheFault PointerCache := do
  let splitRow := cursorRow - 1
  if splitRow < 0 then return b
  let (ok, b) := b.growRows newCount
  if !ok then return b
  let shift := oldCount - splitRow - 1
  let b ← if 0 < shift then b.moveRows (splitRow + 2) (splitRow + 1) shift else .ok b
  let b ← b.freeRow splitRow
  b.setRow (splitRow + 1) none 0

/-- One row less: it was merged into the cursor row. -/
def syncDeleted (b : PointerCache) (cursorRow oldCount : Int) :
    Except CacheFault PointerCache := do
  let effOld := if oldCount < b.lineColors.length then oldCount else b.lineColors.length
  if cursorRow < 0 ∨ effOld ≤ cursorRow then return b
  let b ← b.freeRow cursorRow
  let b ← b.freeRow (cursorRow + 1)
  let shift := effOld - cursorRow - 2
  let b ← if 0 < shift then b.moveRows (cursorRow + 1) (cursorRow + 2) shift else .ok b
  -- what stood last now stands in two rows
  let vacated := effOld - 1
  if 0 ≤ vacated ∧ vacated < b.lineColors.length then b.setRow vacated none 0 else return b

/-- `highlight_cache_sync`. -/
def sync (b : PointerCache) (newCount cursorRow : Int) : Except CacheFault PointerCache :=
  let oldCount := b.lastRowCount
  if newCount = oldCount then .ok b
  else if oldCount = 0 then .ok { b with lastRowCount := newCount }
  else do
    let b ←
      if newCount = oldCount + 1 then b.syncInserted newCount cursorRow oldCount
      else if newCount = oldCount - 1 then b.syncDeleted cursorRow oldCount
      else b.invalidateAll
    return { b with lastRowCount := newCount }

/-- `highlight_cache_get_line`. -/
def getLine (b : PointerCache) (ed : Editor) (row : Int) :
    Except CacheFault (Option Nat × PointerCache) := do
  let (ok, b) := b.growRows (row + 1)
  if !ok then return (none, b)
  let colors ← b.pointer row
  if colors.isSome then return (colors, b)
  let (dst, b) ← b.ensureRowCap row (← orFault .editor (ed.getLineLen row))
  match dst with
  | none => return (none, b)
  | some p =>
    let (colors, _) := Syntax.highlightLine b.currentLang (b.blockCommentOpenAt row)
      (← orFault .editor (HighlightCache.lineText ed row))
    return (some p, ← b.writeColors p colors)

/-- `highlight_cache_set_language`. -/
def setLanguage (b : PointerCache) (ed : Editor) (lang : SyntaxLanguage) :
    Except CacheFault PointerCache := do
  let b ← { b with currentLang := lang }.invalidateAll
  b.rebuildFull ed

/-- The loop of `highlight_cache_rebuild_from` over `n` rows from `row` on. -/
def rebuildLoop (ed : Editor) : Nat → Int → Bool → PointerCache → Except CacheFault PointerCache
  | 0, _, _, b => .ok b
  | n + 1, row, inBlockComment, b => do
    let (_, outBlockComment, b) ← b.highlightRow ed row inBlockComment
    if row + 1 < b.blockCommentOpen.length then
      let next ← orFault .outside (Block.read b.blockCommentOpen (row + 1))
      if next = outBlockComment then return b
      let b ← b.freeRow (row + 1)
      let b ← b.setFlag (row + 1) outBlockComment
      rebuildLoop ed n (row + 1) outBlockComment b
    else rebuildLoop ed n (row + 1) outBlockComment b

/-- `highlight_cache_rebuild_from`. -/
def rebuildFrom (b : PointerCache) (ed : Editor) (row : Int) : Except CacheFault PointerCache :=
  let total := ed.doc.rowCount
  if row < 0 ∨ total ≤ row then .ok b
  else do
    let (ok, b) := b.growFlags (total + 1)
    if !ok then return b
    let inBlockComment ← orFault .outside (Block.read b.blockCommentOpen row)
    rebuildLoop ed (total - row).toNat row inBlockComment b

/-- `highlight_cache_cleanup`. -/
def cleanup (b : PointerCache) : Except CacheFault PointerCache := do
  let b ← b.invalidateAll
  return { b with lineColors := [], lineColorsCap := [], blockCommentOpen := [] }

/-- The cache after a call of its interface. -/
def call (b : PointerCache) : HighlightCache.Call → Except CacheFault PointerCache
  | .sync newCount cursorRow => b.sync newCount cursorRow
  | .freeRow row => b.freeRow row
  | .getLine ed row => (b.getLine ed row).map Prod.snd
  | .setLanguage ed lang => b.setLanguage ed lang
  | .rebuildFrom ed row => b.rebuildFrom ed row
  | .cleanup => b.cleanup

end PointerCache

end LCode
