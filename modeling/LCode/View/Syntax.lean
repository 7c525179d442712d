import LCode.App.CommandBar

/-!
# The syntax tokenizer

`syntax_highlight_line` of `syntax.c`. The position `i` in a line is the list of
the characters from it on; a round of the loop gives the colours of the characters
it goes over. The comment state is the same whether colours are asked for or not.
-/

namespace LCode

namespace Syntax

/-! ## The palette -/

def colorDefault : UInt32 := 0xABB2BF
def colorKeyword : UInt32 := 0xC678DD
def colorType : UInt32 := 0x56B6C2
def colorPreproc : UInt32 := 0xE06C75
def colorString : UInt32 := 0x98C379
def colorComment : UInt32 := 0x5C6370
def colorNumber : UInt32 := 0xD19A66
def colorFunction : UInt32 := 0x61AFEF
def colorMacro : UInt32 := 0xD19A66
def colorEscape : UInt32 := 0x56B6C2
def colorMember : UInt32 := 0xE06C75
def colorOperator : UInt32 := 0xABB2BF

/-! ## Characters and words -/

def keywords : List (List UInt8) :=
  ["if", "else", "for", "while", "do", "switch", "case", "break", "continue", "return", "goto",
    "default", "sizeof", "typedef", "struct", "union", "enum", "static", "extern", "const",
    "volatile", "register", "auto", "inline", "void"].map ascii

def types : List (List UInt8) :=
  ["int", "char", "float", "double", "long", "short", "unsigned", "signed", "bool", "uint8_t",
    "uint16_t", "uint32_t", "uint64_t", "int8_t", "int16_t", "int32_t", "int64_t", "size_t",
    "ssize_t", "ptrdiff_t", "uintptr_t", "intptr_t", "true", "false", "NULL"].map ascii

def quotationMark : UInt8 := 34
def apostrophe : UInt8 := 39
def backslash : UInt8 := 92

def isLower (c : UInt8) : Bool := 'a'.toUInt8 ≤ c && c ≤ 'z'.toUInt8

def isUpper (c : UInt8) : Bool := 'A'.toUInt8 ≤ c && c ≤ 'Z'.toUInt8

/-- `is_alpha`. -/
def isAlpha (c : UInt8) : Bool := isLower c || isUpper c || c == '_'.toUInt8

/-- `is_digit`. -/
def isDigit (c : UInt8) : Bool := '0'.toUInt8 ≤ c && c ≤ '9'.toUInt8

/-- `is_alnum`. -/
def isAlnum (c : UInt8) : Bool := isAlpha c || isDigit c

/-- `is_macro`: capitals, digits and underscores, with at least one capital. -/
def isMacro (word : List UInt8) : Bool :=
  word.all (fun c => isUpper c || isDigit c || c == '_'.toUInt8) && word.any isUpper

/-- `is_operator`. -/
def isOperator (c : UInt8) : Bool := c ∈ ascii "+*%=!<>&|^~?"

/-- `skip_ws`: the characters after the blanks. -/
def skipWs (line : List UInt8) : List UInt8 :=
  line.dropWhile fun c => c == ' '.toUInt8 || c == '\t'.toUInt8

/-- The colour of an identifier; `after` is what follows it. -/
def wordColor (word after : List UInt8) : UInt32 :=
  if word ∈ keywords then colorKeyword
  else if word ∈ types then colorType
  else if (skipWs after).head? = some '('.toUInt8 then colorFunction
  else if isMacro word then colorMacro
  else colorDefault

/-! ## Lines -/

/-- The colours of a string or character literal after its opening quote, up to the
closing one. -/
def literalColors (quote : UInt8) : List UInt8 → List UInt32
  | [] => []
  | c :: rest =>
    if c = backslash then
      match rest with
      | [] => [colorString]
      | _ :: rest => colorEscape :: colorEscape :: literalColors quote rest
    else if c = quote then [colorString]
    else colorString :: literalColors quote rest

/-- The characters of `line` before the first that fails `p`, all in one colour. -/
def runColors (p : UInt8 → Bool) (color : UInt32) (line : List UInt8) : List UInt32 :=
  (line.takeWhile p).map fun _ => color

/-- A round of `while (i < len)`: the colours it writes, and `block_comment`. -/
def highlightRound (isPreproc blockComment : Bool) (c : UInt8) (rest : List UInt8) :
    List UInt32 × Bool :=
  let next := rest.head?
  if blockComment then
    if c = '*'.toUInt8 ∧ next = some '/'.toUInt8 then ([colorComment, colorComment], false)
    else ([colorComment], true)
  else if c = '/'.toUInt8 ∧ next = some '/'.toUInt8 then
    ((c :: rest).map fun _ => colorComment, false)
  else if c = '/'.toUInt8 ∧ next = some '*'.toUInt8 then ([colorComment, colorComment], true)
  else if c = quotationMark then (colorString :: literalColors quotationMark rest, false)
  else if c = apostrophe then (colorString :: literalColors apostrophe rest, false)
  else if isDigit c then
    (colorNumber :: runColors (fun c => isAlnum c || c == '.'.toUInt8 || c == '_'.toUInt8)
      colorNumber rest, false)
  else if c = '.'.toUInt8 ∧ next.any isAlpha then
    (colorOperator :: runColors isAlnum colorMember rest, false)
  else if c = '-'.toUInt8 ∧ next = some '>'.toUInt8 ∧ rest.tail.head?.any isAlpha then
    (colorOperator :: colorOperator :: runColors isAlnum colorMember rest.tail, false)
  else if c = '-'.toUInt8 then ([colorOperator], false)
  else if isOperator c then ([colorOperator], false)
  else if isPreproc then ([colorPreproc], false)
  else if isAlpha c then
    let word := c :: rest.takeWhile isAlnum
    (word.map fun _ => wordColor word (rest.dropWhile isAlnum), false)
  else ([colorDefault], false)

/-- `while (i < len)`, with a bound on its rounds. -/
def highlightLoop (isPreproc : Bool) : Nat → Bool → List UInt8 → List UInt32 × Bool
  | fuel + 1, blockComment, c :: rest =>
    let (colors, blockComment) := highlightRound isPreproc blockComment c rest
    let (colors', blockComment) :=
      highlightLoop isPreproc fuel blockComment ((c :: rest).drop colors.length)
    (colors ++ colors', blockComment)
  | _, blockComment, _ => ([], blockComment)

/-- `syntax_highlight_line`: a colour for each character, and whether the line ends
inside a block comment. -/
def highlightLine (lang : SyntaxLanguage) (inBlockComment : Bool) (line : List UInt8) :
    List UInt32 × Bool :=
  if lang ≠ .c then (line.map fun _ => colorDefault, inBlockComment)
  else
    let isPreproc := !inBlockComment && (skipWs line).head? == some '#'.toUInt8
    highlightLoop isPreproc line.length inBlockComment line

end Syntax

end LCode
