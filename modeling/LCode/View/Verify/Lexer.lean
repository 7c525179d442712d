import LCode.View.Verify.Tokenizer
import Mathlib.Data.List.TakeWhile

/-!
# Comments, one character at a time

The reference lexer reads a line character by character. The tokenizer advances by
tokens, with up to two characters of lookahead; where a round ends, the two agree on
what is to come: a slash or star just read counts for nothing, since a round that ends
behind it has seen that no comment opens or closes there.
-/

namespace LCode

namespace Syntax

/-! ## The reference lexer -/

inductive Lex where
  | code
  | slashSeen
  | string
  | stringEscape
  | charLiteral
  | charEscape
  | lineComment
  | blockComment
  | starSeen
  deriving DecidableEq, Repr

namespace Lex

/-- One character in code. -/
def codeStep (c : UInt8) : Lex :=
  if c = '/'.toUInt8 then slashSeen
  else if c = quotationMark then string
  else if c = apostrophe then charLiteral
  else code

/-- One character. -/
def step : Lex → UInt8 → Lex
  | code, c => codeStep c
  | slashSeen, c =>
    if c = '/'.toUInt8 then lineComment
    else if c = '*'.toUInt8 then blockComment
    else codeStep c
  | string, c =>
    if c = backslash then stringEscape else if c = quotationMark then code else string
  | stringEscape, _ => string
  | charLiteral, c =>
    if c = backslash then charEscape else if c = apostrophe then code else charLiteral
  | charEscape, _ => charLiteral
  | lineComment, _ => lineComment
  | blockComment, c => if c = '*'.toUInt8 then starSeen else blockComment
  | starSeen, c =>
    if c = '/'.toUInt8 then code else if c = '*'.toUInt8 then starSeen else blockComment

/-- The state a line begins in. -/
def start (inBlockComment : Bool) : Lex := if inBlockComment then blockComment else code

/-- Inside a block comment; everything else ends with the line. -/
def inComment : Lex → Bool
  | blockComment | starSeen => true
  | _ => false

/-- Whether a line read from the state on ends inside a block comment. -/
def endsInComment (s : Lex) (line : List UInt8) : Bool := (line.foldl step s).inComment

end Lex

open Syntax.Lex

section Lexer

variable {c : UInt8} {rest : List UInt8} {b : Bool}

@[simp] theorem endsInComment_nil (s : Lex) : endsInComment s [] = s.inComment := rfl

@[simp] theorem endsInComment_cons (s : Lex) (c : UInt8) (rest : List UInt8) :
    endsInComment s (c :: rest) = endsInComment (s.step c) rest := rfl

/-- A slash that opens no comment. -/
theorem endsInComment_slashSeen (h : rest.head? ≠ some '/'.toUInt8)
    (h' : rest.head? ≠ some '*'.toUInt8) : endsInComment slashSeen rest = endsInComment code rest := by
  cases rest with
  | nil => rfl
  | cons c rest =>
    have hne : c ≠ '/'.toUInt8 := fun heq => h (by rw [heq]; rfl)
    have hne' : c ≠ '*'.toUInt8 := fun heq => h' (by rw [heq]; rfl)
    simp only [endsInComment_cons, step, if_neg hne, if_neg hne']

/-- A star that closes no comment. -/
theorem endsInComment_starSeen (h : rest.head? ≠ some '/'.toUInt8) :
    endsInComment starSeen rest = endsInComment blockComment rest := by
  cases rest with
  | nil => rfl
  | cons c rest =>
    have hne : c ≠ '/'.toUInt8 := fun heq => h (by rw [heq]; rfl)
    simp only [endsInComment_cons, step, if_neg hne]

theorem endsInComment_lineComment (rest : List UInt8) : endsInComment lineComment rest = false := by
  induction rest with
  | nil => rfl
  | cons c rest ih => exact ih

/-- A character that is code and leaves it code. -/
def Plain (c : UInt8) : Prop := codeStep c = code

/-- Characters that leave code as it is are read over. -/
theorem endsInComment_plain {word : List UInt8} (h : ∀ c ∈ word, Plain c) :
    endsInComment code (word ++ rest) = endsInComment code rest := by
  induction word with
  | nil => rfl
  | cons c word ih =>
    have hc : step code c = code := h c (by simp)
    rw [List.cons_append, endsInComment_cons, hc, ih fun x hx => h x (by simp [hx])]

theorem plain_iff : Plain c ↔ c ≠ '/'.toUInt8 ∧ c ≠ quotationMark ∧ c ≠ apostrophe := by
  unfold Plain codeStep
  split
  · next h => simp [h]
  · next h =>
    split
    · next h' => simp [h']
    · next h' =>
      split
      · next h'' => simp [h'']
      · next h'' => simp [h, h', h'']

/-- Letters, digits and underscores, and the full stop. -/
theorem plain_of_alnum (h : (isAlnum c || c == '.'.toUInt8 || c == '_'.toUInt8) = true) :
    Plain c := by
  rw [plain_iff]
  refine ⟨?_, ?_, ?_⟩
  all_goals
    rintro rfl
    exact absurd h (by decide)

theorem plain_takeWhile {p : UInt8 → Bool}
    (hp : ∀ c, p c = true → (isAlnum c || c == '.'.toUInt8 || c == '_'.toUInt8) = true) :
    ∀ c ∈ rest.takeWhile p, Plain c :=
  fun c hc => plain_of_alnum (hp c (List.mem_takeWhile_imp hc))

/-- The run of characters that a round goes over. -/
theorem endsInComment_run {p : UInt8 → Bool} (rest : List UInt8) (color : UInt32)
    (hp : ∀ c, p c = true → (isAlnum c || c == '.'.toUInt8 || c == '_'.toUInt8) = true) :
    endsInComment code (rest.drop (runColors p color rest).length) = endsInComment code rest := by
  have hcut := @List.drop_left _ (rest.takeWhile p) (rest.dropWhile p)
  rw [List.takeWhile_append_dropWhile] at hcut
  rw [runColors, List.length_map, hcut]
  nth_rewrite 2 [← List.takeWhile_append_dropWhile (p := p) (l := rest)]
  rw [endsInComment_plain (plain_takeWhile hp)]

/-- A literal, up to its closing quote or the end of the line; `inside` and `escape` are
the states of the lexer in it. -/
theorem endsInComment_literal {quote : UInt8} (inside escape : Lex)
    (hinside : ∀ c, inside.step c =
      if c = backslash then escape else if c = quote then code else inside)
    (hescape : ∀ c, escape.step c = inside) (hends : inside.inComment = false)
    (hends' : escape.inComment = false) (rest : List UInt8) :
    endsInComment code (rest.drop (literalColors quote rest).length) =
      endsInComment inside rest := by
  induction rest using literalColors.induct quote with
  | case1 => exact hends.symm
  | case2 =>
    simp only [literalColors, if_true, List.length_singleton, List.drop_succ_cons, List.drop_zero,
      endsInComment_cons, endsInComment_nil, hinside, hends']
    rfl
  | case3 d rest ih =>
    simp only [literalColors, if_true, List.length_cons, List.drop_succ_cons, endsInComment_cons,
      hinside, hescape, ih]
  | case4 rest hne =>
    have hcolors : literalColors quote (quote :: rest) = [colorString] := by
      cases rest <;> simp [literalColors, hne]
    rw [hcolors, endsInComment_cons, hinside, if_neg hne, if_pos rfl]
    rfl
  | case5 c rest hne hquote ih =>
    have hcolors : literalColors quote (c :: rest) = colorString :: literalColors quote rest := by
      cases rest <;> simp [literalColors, hne, hquote]
    rw [hcolors, endsInComment_cons, hinside, if_neg hne, if_neg hquote, List.length_cons,
      List.drop_succ_cons, ih]

/-! ## Rounds -/

/-- What is left behind a round ends as the line does. -/
def Agrees (b : Bool) (line : List UInt8) (round : List UInt32 × Bool) : Prop :=
  endsInComment (start round.2) (line.drop round.1.length) = endsInComment (start b) line

theorem Agrees.ite {line : List UInt8} {p : Prop} [Decidable p] {x y : List UInt32 × Bool}
    (hx : p → Agrees b line x) (hy : ¬ p → Agrees b line y) :
    Agrees b line (if p then x else y) := by
  split
  · next hp => exact hx hp
  · next hp => exact hy hp

/-- A character that the lexer reads over in code. -/
theorem agrees_plain {color : UInt32} (h : Plain c) : Agrees false (c :: rest) ([color], false) := by
  have hc : step code c = code := h
  exact congrArg (endsInComment · rest) hc.symm

/-- A run of them behind its first characters. -/
theorem agrees_run {color : UInt32} {p : UInt8 → Bool} (h : Plain c)
    (hp : ∀ c, p c = true → (isAlnum c || c == '.'.toUInt8 || c == '_'.toUInt8) = true)
    (color' : UInt32) : Agrees false (c :: rest) (color :: runColors p color' rest, false) := by
  have hc : step code c = code := h
  have hrun := endsInComment_run rest color' hp
  rw [Agrees, List.length_cons, List.drop_succ_cons]
  exact hrun.trans (congrArg (endsInComment · rest) hc.symm)

/-- A character behind which no comment opens: a slash counts for nothing. -/
theorem agrees_single {color : UInt32}
    (hslash : c = '/'.toUInt8 → rest.head? ≠ some '/'.toUInt8 ∧ rest.head? ≠ some '*'.toUInt8)
    (hquote : c ≠ quotationMark) (hapostrophe : c ≠ apostrophe) :
    Agrees false (c :: rest) ([color], false) := by
  by_cases hc : c = '/'.toUInt8
  · obtain ⟨h, h'⟩ := hslash hc
    subst hc
    exact (endsInComment_slashSeen h h').symm
  · exact agrees_plain (plain_iff.2 ⟨hc, hquote, hapostrophe⟩)

/-- What the lexer knows behind a round of the tokenizer. -/
theorem highlightRound_agrees (isPreproc b : Bool) (c : UInt8) (rest : List UInt8) :
    Agrees b (c :: rest) (highlightRound isPreproc b c rest) := by
  unfold highlightRound
  cases b with
  | true =>
    rw [if_pos rfl]
    refine .ite (fun hclose => ?_) fun hopen => ?_
    · obtain ⟨rfl, hnext⟩ := hclose
      cases rest with
      | nil => cases hnext
      | cons d rest =>
        obtain rfl := Option.some.inj hnext
        rfl
    · by_cases hstar : c = '*'.toUInt8
      · subst hstar
        exact (endsInComment_starSeen fun hnext => hopen ⟨rfl, hnext⟩).symm
      · have hc : step blockComment c = blockComment := if_neg hstar
        exact congrArg (endsInComment · rest) hc.symm
  | false =>
    rw [if_neg Bool.false_ne_true]
    refine .ite (fun hline => ?_) fun hline => ?_
    · obtain ⟨rfl, hnext⟩ := hline
      rw [Agrees, List.length_map, List.drop_length]
      cases rest with
      | nil => cases hnext
      | cons d rest =>
        obtain rfl := Option.some.inj hnext
        exact (endsInComment_lineComment rest).symm
    refine .ite (fun hblock => ?_) fun hblock => ?_
    · obtain ⟨rfl, hnext⟩ := hblock
      cases rest with
      | nil => cases hnext
      | cons d rest =>
        obtain rfl := Option.some.inj hnext
        rfl
    refine .ite (fun hquote => ?_) fun hquote => ?_
    · subst hquote
      exact endsInComment_literal string stringEscape (fun _ => rfl) (fun _ => rfl) rfl rfl rest
    refine .ite (fun hapostrophe => ?_) fun hapostrophe => ?_
    · subst hapostrophe
      exact endsInComment_literal charLiteral charEscape (fun _ => rfl) (fun _ => rfl) rfl rfl rest
    have halnum (c : UInt8) (h : isAlnum c = true) :
        (isAlnum c || c == '.'.toUInt8 || c == '_'.toUInt8) = true := by rw [h]; rfl
    have hsingle (color : UInt32) : Agrees false (c :: rest) ([color], false) :=
      agrees_single (fun hc => ⟨fun h => hline ⟨hc, h⟩, fun h => hblock ⟨hc, h⟩⟩) hquote hapostrophe
    refine .ite (fun hdigit => ?_) fun _ => ?_
    · exact agrees_run (plain_of_alnum (halnum c (by rw [isAlnum, hdigit, Bool.or_true])))
        (fun _ h => h) _
    refine .ite (fun hmember => ?_) fun _ => ?_
    · exact agrees_run (plain_of_alnum (by rw [hmember.1]; rfl)) halnum _
    refine .ite (fun harrow => ?_) fun _ => ?_
    · cases rest with
      | nil => cases harrow.2.1
      | cons d rest =>
        obtain ⟨rfl, hnext, -⟩ := harrow
        obtain rfl := Option.some.inj hnext
        exact endsInComment_run rest colorMember halnum
    refine .ite (fun _ => hsingle _) fun _ => ?_
    refine .ite (fun _ => hsingle _) fun _ => ?_
    refine .ite (fun _ => hsingle _) fun _ => ?_
    refine .ite (fun halpha => ?_) fun _ => hsingle _
    have hplain : Plain c := plain_of_alnum (halnum c (by rw [isAlnum, halpha, Bool.true_or]))
    have hword : Agrees false (c :: rest)
        (colorMember :: runColors isAlnum colorMember rest, false) := agrees_run hplain halnum _
    simp only [Agrees, runColors, List.length_cons, List.length_map] at hword ⊢
    exact hword

theorem highlightLoop_agrees (isPreproc : Bool) {fuel : Nat} {line : List UInt8}
    (h : line.length ≤ fuel) (b : Bool) :
    (highlightLoop isPreproc fuel b line).2 = endsInComment (start b) line := by
  induction fuel generalizing line b with
  | zero =>
    obtain rfl := List.eq_nil_of_length_eq_zero (Nat.le_zero.1 h)
    cases b <;> rfl
  | succ fuel ih =>
    cases line with
    | nil => cases b <;> rfl
    | cons c rest =>
      obtain ⟨hpos, -⟩ := highlightRound_covers isPreproc b c rest
      have hrest : ((c :: rest).drop (highlightRound isPreproc b c rest).1.length).length =
          rest.length + 1 - (highlightRound isPreproc b c rest).1.length := List.length_drop
      rw [List.length_cons] at h
      simp only [highlightLoop]
      rw [ih (by omega)]
      exact highlightRound_agrees isPreproc b c rest

/-- The comment state behind a line of C is that of the lexer. -/
theorem commentAfter_eq (b : Bool) (line : List UInt8) :
    commentAfter .c b line = endsInComment (start b) line := by
  unfold commentAfter highlightLine
  rw [if_neg (by simp)]
  exact highlightLoop_agrees _ (Nat.le_refl _) b

end Lexer

end Syntax

namespace Tokenizer

open Syntax (Lex)

/-- With or without an array, `syntax_highlight_line` says that a line of C ends inside a
block comment just when the lexer does. -/
theorem out_block_comment_lexed (b : Bool) (line : List UInt8) {colors : Colors}
    (hroom : Room colors line.length) :
    (highlightLine line b .c colors).map Prod.snd =
      some ((line.foldl Lex.step (Lex.start b)).inComment) := by
  rw [highlightLine_refines .c b line hroom, Syntax.commentAfter_eq]
  rfl

/-- An opener inside a string, and one behind it. -/
theorem out_block_comment_lexed_string :
    (highlightLine (ascii "\"/*\" /* *") false .c none).map Prod.snd =
      some (((ascii "\"/*\" /* *").foldl Lex.step (Lex.start false)).inComment) :=
  out_block_comment_lexed false _ nofun

end Tokenizer

end LCode
