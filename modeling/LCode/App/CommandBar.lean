import LCode.Lib.Block

/-!
# Command bar and render state

`command_bar.c`, `render_state.c` and the file-name half of `syntax.c`. A C
string is the list of its bytes before the terminator.
-/

namespace LCode

/-- The bytes of an ASCII string literal. -/
def ascii (s : String) : List UInt8 := s.toList.map Char.toUInt8

/-- What `strncpy(dst, s, n)` leaves in a terminated buffer. -/
def strncpy (s : List UInt8) (n : Nat) : List UInt8 := (s.takeWhile (· ≠ 0)).take n

def cmdBufSize : Nat := 128

def timerHz : Nat := 60

inductive EditorMode where
  | editor
  | command
  deriving DecidableEq, Repr

structure CommandBar where
  mode : EditorMode
  filename : List UInt8
  input : List UInt8
  statusMsg : List UInt8
  statusTicks : Nat
  deriving DecidableEq, Repr

namespace CommandBar

/-- `command_bar_init`. -/
def init (name : List UInt8) : CommandBar :=
  ⟨.editor, strncpy name (cmdBufSize - 1), [], [], 0⟩

/-- `command_bar_set_filename`. -/
def setFilename (bar : CommandBar) (name : List UInt8) : CommandBar :=
  { bar with filename := strncpy name (cmdBufSize - 1) }

/-- `command_bar_start`. -/
def start (bar : CommandBar) : CommandBar := { bar with input := [], mode := .command }

/-- `command_bar_start_prefill`. -/
def startPrefill (bar : CommandBar) (text : List UInt8) : CommandBar :=
  { bar.start with input := text.take (cmdBufSize - 1) }

/-- `command_bar_cancel`. -/
def cancel (bar : CommandBar) : CommandBar := { bar with mode := .editor }

/-- `command_bar_insert`. -/
def insert (bar : CommandBar) (c : UInt8) : CommandBar :=
  if cmdBufSize - 1 ≤ bar.input.length then bar else { bar with input := bar.input ++ [c] }

/-- `command_bar_delete`. -/
def delete (bar : CommandBar) : CommandBar := { bar with input := bar.input.dropLast }

/-- `command_bar_commit`: the input stays in its buffer. -/
def commit (bar : CommandBar) : List UInt8 × CommandBar := (bar.input, { bar with mode := .editor })

/-- `command_bar_set_status`. -/
def setStatus (bar : CommandBar) (msg : List UInt8) : CommandBar :=
  { bar with statusMsg := strncpy msg (cmdBufSize - 1), statusTicks := timerHz }

end CommandBar

/-! ## Render modes -/

inductive RenderMode where
  | none
  | mouse
  | status
  | char
  | remoteLine
  | line
  | word
  | full
  deriving DecidableEq, Repr

/-- The value of the mode: larger redraws have larger values. -/
def RenderMode.rank : RenderMode → Nat
  | .none => 0
  | .mouse => 1
  | .status => 2
  | .char => 3
  | .remoteLine => 4
  | .line => 5
  | .word => 6
  | .full => 7

/-- `set_render`, from the mode scheduled so far. -/
def setRenderMode (scheduled mode : RenderMode) : RenderMode :=
  let scheduled :=
    if (scheduled = .line ∧ mode = .remoteLine) ∨ (scheduled = .remoteLine ∧ mode = .line) then
      .full
    else scheduled
  if scheduled.rank < mode.rank then mode else scheduled

/-! ## Languages -/

inductive SyntaxLanguage where
  | none
  | c
  deriving DecidableEq, Repr

/-- `syntax_detect_language`: the suffix from the last dot on. -/
def syntaxDetectLanguage (filename : List UInt8) : SyntaxLanguage :=
  let suffix := (filename.reverse.takeWhile (· ≠ '.'.toUInt8)).reverse
  if suffix.length < filename.length then
    if suffix = ascii "c" ∨ suffix = ascii "h" then .c else .none
  else .none

end LCode
