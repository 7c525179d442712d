import LCode.Lib.Block
import LCode.View.Syntax

/-!
# The tokenizer over memory

`syntax_highlight_line` with its positions and its stores, as the source has them. A
line is its `len` bytes and a read beyond them is a fault; `colors` is NULL or an
array, in which a cell never written is `none` and a store outside of it a fault.
Every `while` has a bound on its rounds, and a loop that needs more is a fault too.
-/

namespace LCode

namespace Tokenizer

open Syntax

/-! ## The colour array -/

/-- `uint32_t *colors`. -/
abbrev Colors := Option (List (Option UInt32))

/-- `if (colors) colors[i] = color;` -/
def paint (colors : Colors) (i : Nat) (color : UInt32) : Option Colors :=
  match colors with
  | none => some none
  | some cells => if i < cells.length then some (some (cells.set i (some color))) else none

/-- `for (k = start; k < start + n; k++)` over such stores. -/
def paintRun (color : UInt32) : Nat → Nat → Colors → Option Colors
  | 0, _, colors => some colors
  | n + 1, start, colors => do paintRun color n (start + 1) (← paint colors start color)

/-! ## Loops in a line -/

/-- The character at `line + i`. -/
def char (text : List UInt8) (i : Nat) : Option UInt8 := text[i]?

section Loops

variable (line : List UInt8)

/-- `i < len && p(line[i]) && i + 1 < len && q(line[i + 1]) && …` -/
def looksAt : Nat → List (UInt8 → Bool) → Option Bool
  | _, [] => some true
  | i, p :: ps =>
    if i < line.length then do
      if p (← char line i) then looksAt (i + 1) ps else return false
    else some false

/-- `while (i < len && p(line[i])) i++;` -/
def advance (p : UInt8 → Bool) : Nat → Nat → Option Nat
  | 0, _ => none
  | fuel + 1, i =>
    if i < line.length then do
      if p (← char line i) then advance p fuel (i + 1) else return i
    else some i

/-- `skip_ws`. -/
def skipWs (i : Nat) : Option Nat :=
  advance line (fun c => c == ' '.toUInt8 || c == '\t'.toUInt8) (line.length + 1) i

/-- `while (i < len && p(line[i])) { if (colors) colors[i] = color; i++; }` -/
def paintWhile (p : UInt8 → Bool) (color : UInt32) : Nat → Nat → Colors → Option (Nat × Colors)
  | 0, _, _ => none
  | fuel + 1, i, colors =>
    if i < line.length then do
      if p (← char line i) then paintWhile p color fuel (i + 1) (← paint colors i color)
      else return (i, colors)
    else some (i, colors)

/-- The loop of a string or character literal. -/
def literalLoop (quote : UInt8) : Nat → Nat → Colors → Option (Nat × Colors)
  | 0, _, _ => none
  | fuel + 1, i, colors =>
    if i < line.length then do
      let c ← char line i
      if c = backslash ∧ i + 1 < line.length then
        let colors ← paint colors i colorEscape
        let colors ← paint colors (i + 1) colorEscape
        literalLoop quote fuel (i + 2) colors
      else if c = quote then return (i + 1, ← paint colors i colorString)
      else literalLoop quote fuel (i + 1) (← paint colors i colorString)
    else some (i, colors)

end Loops

/-! ## Lines -/

/-- `i`, `block_comment` and the array. -/
structure State where
  i : Nat
  blockComment : Bool
  colors : Colors

/-- The colour of an identifier. -/
def wordColor (word : List UInt8) (isCall : Bool) : UInt32 :=
  if keywords.contains word then colorKeyword
  else if types.contains word then colorType
  else if isCall then colorFunction
  else if isMacro word then colorMacro
  else colorDefault

/-- The member identifier after `.` or `->`. -/
def member (line : List UInt8) (i : Nat) (colors : Colors) : Option (Bool × State) := do
  let stop ← advance line isAlnum (line.length + 1) i
  let colors ← paintRun colorMember (stop - i) i colors
  return (true, ⟨stop, false, colors⟩)

/-- A round of `while (i < len)`: whether the loop goes on, and the state. -/
def round (line : List UInt8) (isPreproc : Bool) (s : State) : Option (Bool × State) := do
  let i := s.i
  if s.blockComment then
    let colors ← paint s.colors i colorComment
    if ← looksAt line i [(· == '*'.toUInt8), (· == '/'.toUInt8)] then
      let colors ← paint colors (i + 1) colorComment
      return (true, ⟨i + 2, false, colors⟩)
    else return (true, ⟨i + 1, true, colors⟩)
  else if ← looksAt line i [(· == '/'.toUInt8), (· == '/'.toUInt8)] then
    -- without an array `i` stays, and the loop is left all the same
    let colors ← paintRun colorComment (line.length - i) i s.colors
    return (false, ⟨if s.colors.isSome then line.length else i, false, colors⟩)
  else if ← looksAt line i [(· == '/'.toUInt8), (· == '*'.toUInt8)] then
    let colors ← paint s.colors i colorComment
    let colors ← paint colors (i + 1) colorComment
    return (true, ⟨i + 2, true, colors⟩)
  else if ← looksAt line i [(· == quotationMark)] then
    let colors ← paint s.colors i colorString
    let (i, colors) ← literalLoop line quotationMark (line.length + 1) (i + 1) colors
    return (true, ⟨i, false, colors⟩)
  else if ← looksAt line i [(· == apostrophe)] then
    let colors ← paint s.colors i colorString
    let (i, colors) ← literalLoop line apostrophe (line.length + 1) (i + 1) colors
    return (true, ⟨i, false, colors⟩)
  else if ← looksAt line i [isDigit] then
    let (i, colors) ← paintWhile line
      (fun c => isAlnum c || c == '.'.toUInt8 || c == '_'.toUInt8) colorNumber (line.length + 1) i
      s.colors
    return (true, ⟨i, false, colors⟩)
  else if ← looksAt line i [(· == '.'.toUInt8), isAlpha] then
    member line (i + 1) (← paint s.colors i colorOperator)
  else if ← looksAt line i [(· == '-'.toUInt8), (· == '>'.toUInt8), isAlpha] then
    let colors ← paint s.colors i colorOperator
    member line (i + 2) (← paint colors (i + 1) colorOperator)
  else if ← looksAt line i [(· == '-'.toUInt8)] then
    return (true, ⟨i + 1, false, ← paint s.colors i colorOperator⟩)
  else if ← looksAt line i [isOperator] then
    return (true, ⟨i + 1, false, ← paint s.colors i colorOperator⟩)
  else if isPreproc then
    return (true, ⟨i + 1, false, ← paint s.colors i colorPreproc⟩)
  else if ← looksAt line i [isAlpha] then
    let stop ← advance line isAlnum (line.length + 1) i
    let word ← Block.slice line i (stop - i)
    let isCall ← looksAt line (← skipWs line stop) [(· == '('.toUInt8)]
    let colors ← paintRun (wordColor word isCall) (stop - i) i s.colors
    return (true, ⟨stop, false, colors⟩)
  else return (true, ⟨i + 1, false, ← paint s.colors i colorDefault⟩)

/-- `while (i < len)`. -/
def loop (line : List UInt8) (isPreproc : Bool) : Nat → State → Option State
  | 0, _ => none
  | fuel + 1, s =>
    if s.i < line.length then do
      let (goesOn, s) ← round line isPreproc s
      if goesOn then loop line isPreproc fuel s else return s
    else some s

/-- `syntax_highlight_line`: the array and `*out_block_comment`. -/
def highlightLine (line : List UInt8) (inBlockComment : Bool) (lang : SyntaxLanguage)
    (colors : Colors) : Option (Colors × Bool) :=
  if lang ≠ .c then do return (← paintRun colorDefault line.length 0 colors, inBlockComment)
  else do
    let isPreproc ←
      if inBlockComment then some false
      else do looksAt line (← skipWs line 0) [(· == '#'.toUInt8)]
    let s ← loop line isPreproc (line.length + 1) ⟨0, inBlockComment, colors⟩
    return (s.colors, s.blockComment)

end Tokenizer

end LCode
