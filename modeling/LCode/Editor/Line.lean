import LCode.Lib.Block

/-!
# Rows and their buffers

The `Line` of `editor.h` with its growable buffer, and the two capacity
functions of `editor.c`. A buffer is NULL, a live block, or a dangling pointer;
every access to anything but a live block is a fault, modelled as no result.

`malloc` takes its outcomes from an arbitrary stream: NULL, or a block holding
whatever bytes the stream gives. C's `int` is `Int`: a row or a document that
outgrows `int` would not fit the 32-bit address space.
-/

namespace LCode

/-- The outcome of each coming `malloc`: NULL, or the bytes its block holds. -/
structure Heap where
  outcome : Nat → Option (Nat → UInt8)

namespace Heap

/-- The heap after one `malloc`. -/
def next (h : Heap) : Heap := ⟨fun k => h.outcome (k + 1)⟩

/-- `malloc(n)` for `n` bytes. -/
def malloc (h : Heap) (n : Int) : Option (List UInt8) :=
  (h.outcome 0).map fun junk => (List.range n.toNat).map junk

/-- Every allocation succeeds. -/
def Ample (h : Heap) : Prop := ∀ k, (h.outcome k).isSome

end Heap

/-- `char *buf` of a line. -/
inductive Buf where
  | null
  | dangling
  | block (bytes : List UInt8)
  deriving DecidableEq, Repr

namespace Buf

/-- The `n` bytes at `buf + i`, as `memcpy` reads them. -/
def slice (buf : Buf) (i n : Int) : Option (List UInt8) :=
  if n = 0 then some []
  else match buf with
    | .block bytes => Block.slice bytes i n
    | _ => none

/-- `memcpy(buf + i, xs, n)`. -/
def store (buf : Buf) (i : Int) (xs : List UInt8) : Option Buf :=
  if xs.length = 0 then some buf
  else match buf with
    | .block bytes => (Block.store bytes i xs).map .block
    | _ => none

/-- `buf[i]`. -/
def read (buf : Buf) (i : Int) : Option UInt8 :=
  match buf with
  | .block bytes => Block.read bytes i
  | _ => none

/-- `memmove(buf + dst, buf + src, n)`. -/
def move (buf : Buf) (dst src n : Int) : Option Buf := do
  buf.store dst (← buf.slice src n)

end Buf

/-- A single line of text with a growable buffer. -/
structure Line where
  buf : Buf
  len : Int
  cap : Int
  deriving DecidableEq, Repr

def lineBufInitCap : Int := 32

def linesInitCap : Int := 16

namespace Line

/-- `(Line){NULL, 0, 0}`. -/
def zero : Line := ⟨.null, 0, 0⟩

/-- A slot of a fresh line array. -/
def uninit : Line := ⟨.dangling, 0, 0⟩

/-- `free(ln->buf)`: the slot keeps a dangling pointer. -/
def free (ln : Line) : Option Line :=
  match ln.buf with
  | .dangling => none
  | .null => some ln
  | .block _ => some { ln with buf := .dangling }

end Line

/-- `while (new_cap <= needed) new_cap *= 2;` with a bound on its rounds. -/
def growCap (needed : Int) : Nat → Int → Int
  | 0, cap => cap
  | fuel + 1, cap => if cap ≤ needed then growCap needed fuel (cap * 2) else cap

/-- `line_ensure_cap`: whether it succeeded, the line and the heap. -/
def Line.ensureCap (ln : Line) (needed : Int) (heap : Heap) : Option (Bool × Line × Heap) :=
  if needed < ln.cap then some (true, ln, heap)
  else
    let newCap := growCap needed (needed.toNat + 1)
      (if ln.cap ≠ 0 then ln.cap * 2 else lineBufInitCap)
    match heap.malloc newCap with
    | none => some (false, ln, heap.next)
    | some newBuf => do
      let newBuf ←
        if ln.buf ≠ .null then do
          -- one more byte: the terminator is copied with the text
          (Buf.block newBuf).store 0 (← ln.buf.slice 0 (ln.len + 1))
        else (Buf.block newBuf).store 0 [0]
      let _ ← ln.free
      some (true, { ln with buf := newBuf, cap := newCap }, heap.next)

/-- The text storage of `editor.c`: the line array with its capacity, the number
of rows in use, and the heap they come from. -/
structure Doc where
  lines : Option (List Line)
  rowCap : Int
  rowCount : Int
  heap : Heap

namespace Doc

/-- `lines[row]`. -/
def line (d : Doc) (row : Int) : Option Line := do
  Block.read (← d.lines) row

/-- `lines[row] = ln`. -/
def setLine (d : Doc) (row : Int) (ln : Line) : Option Doc := do
  return { d with lines := some (← Block.store (← d.lines) row [ln]) }

/-- `memmove(lines + dst, lines + src, n * sizeof(Line))`. -/
def moveLines (d : Doc) (dst src n : Int) : Option Doc := do
  return { d with lines := some (← Block.move (← d.lines) dst src n) }

/-- `line_ensure_cap(&lines[row], needed)`. -/
def lineEnsureCap (d : Doc) (row needed : Int) : Option (Bool × Doc) := do
  let (ok, ln, heap) ← (← d.line row).ensureCap needed d.heap
  let d ← d.setLine row ln
  return (ok, { d with heap })

/-- `lines_ensure_cap`. -/
def linesEnsureCap (d : Doc) (needed : Int) : Option (Bool × Doc) :=
  if needed < d.rowCap then some (true, d)
  else
    let newCap := growCap needed (needed.toNat + 1)
      (if d.rowCap ≠ 0 then d.rowCap * 2 else linesInitCap)
    match d.heap.outcome 0 with
    | none => some (false, { d with heap := d.heap.next })
    | some _ => do
      let newArr := List.replicate newCap.toNat Line.uninit
      let newArr ← match d.lines with
        | some lines => do Block.store newArr 0 (← Block.slice lines 0 d.rowCount)
        | none => some newArr
      some (true, { d with lines := some newArr, rowCap := newCap, heap := d.heap.next })

/-- `for (i = 0; i < n; i++) free(lines[row + i].buf);` -/
def freeLines (d : Doc) (row : Int) : Nat → Option Doc
  | 0 => some d
  | n + 1 => do
    let d ← d.setLine row (← (← d.line row).free)
    d.freeLines (row + 1) n

/-- `for (i = 0; i < n; i++) lines[row + i] = (Line){NULL, 0, 0};` -/
def zeroLines (d : Doc) (row : Int) (n : Nat) : Option Doc := do
  return { d with lines := some (← Block.store (← d.lines) row (List.replicate n Line.zero)) }

/-- The text of a line, as its buffer and length give it. -/
def lineText (ln : Line) : Option (List UInt8) := ln.buf.slice 0 ln.len

/-- The rows of the document, as `editor_get_line` and `editor_get_line_len`
show them. -/
def text (d : Doc) : Option (List (List UInt8)) := do
  (← Block.slice (← d.lines) 0 d.rowCount).mapM lineText

end Doc

end LCode
