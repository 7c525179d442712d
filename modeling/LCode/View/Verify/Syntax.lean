import LCode.View.Syntax

/-!
# What the tokenizer covers

A round of the loop goes over at least one character and never past the end of the
line, so a line gets one colour for each of its characters.
-/

namespace LCode

namespace Syntax

variable {c : UInt8} {line rest : List UInt8}

theorem literalColors_length (quote : UInt8) (rest : List UInt8) :
    (literalColors quote rest).length ≤ rest.length := by
  induction rest using literalColors.induct quote with
  | case1 => simp [literalColors]
  | case2 => simp [literalColors]
  | case3 c rest ih =>
    simp only [literalColors, if_true, List.length_cons]
    omega
  | case4 rest hne =>
    unfold literalColors
    rw [if_neg hne, if_pos rfl]
    simp
  | case5 c rest hne hquote ih =>
    unfold literalColors
    rw [if_neg hne, if_neg hquote, List.length_cons, List.length_cons]
    omega

theorem runColors_length (p : UInt8 → Bool) (color : UInt32) (line : List UInt8) :
    (runColors p color line).length ≤ line.length := by
  rw [runColors, List.length_map]
  exact (List.takeWhile_sublist p).length_le

/-- The colours are those of at least one character and of at most `n`. -/
def Covers (n : Nat) (round : List UInt32 × Bool) : Prop :=
  0 < round.1.length ∧ round.1.length ≤ n

theorem Covers.ite {n : Nat} {p : Prop} [Decidable p] {x y : List UInt32 × Bool}
    (hx : p → Covers n x) (hy : Covers n y) : Covers n (if p then x else y) := by
  split
  · next hp => exact hx hp
  · exact hy

theorem covers_cons {n : Nat} {color : UInt32} {colors : List UInt32} {b : Bool}
    (h : colors.length ≤ n) : Covers (n + 1) (color :: colors, b) :=
  ⟨Nat.succ_pos _, Nat.succ_le_succ h⟩

/-- A round covers at least one character, and none that the line does not have. -/
theorem highlightRound_covers (isPreproc blockComment : Bool) (c : UInt8) (rest : List UInt8) :
    Covers (rest.length + 1) (highlightRound isPreproc blockComment c rest) := by
  have hone (color : UInt32) (b : Bool) : Covers (rest.length + 1) ([color], b) :=
    covers_cons (Nat.zero_le _)
  have htwo {x : UInt8} {b : Bool} (hnext : rest.head? = some x) :
      Covers (rest.length + 1) ([colorComment, colorComment], b) := by
    cases rest with
    | nil => nomatch hnext
    | cons y rest => exact covers_cons (Nat.succ_le_succ (Nat.zero_le _))
  unfold highlightRound
  refine .ite (fun _ => .ite (fun h => htwo h.2) (hone _ _)) ?_
  refine .ite (fun _ => covers_cons (by simp)) ?_
  refine .ite (fun h => htwo h.2) ?_
  refine .ite (fun _ => covers_cons (literalColors_length _ _)) ?_
  refine .ite (fun _ => covers_cons (literalColors_length _ _)) ?_
  refine .ite (fun _ => covers_cons (runColors_length _ _ _)) ?_
  refine .ite (fun _ => covers_cons (runColors_length _ _ _)) ?_
  refine .ite (fun h => ?_) ?_
  · cases rest with
    | nil => nomatch h.2.1
    | cons y rest => exact covers_cons (Nat.succ_le_succ (runColors_length _ _ _))
  refine .ite (fun _ => hone _ _) (.ite (fun _ => hone _ _) (.ite (fun _ => hone _ _) ?_))
  refine .ite (fun _ => covers_cons ?_) (hone _ _)
  rw [List.length_map]
  exact (List.takeWhile_sublist _).length_le

theorem highlightLoop_length {isPreproc : Bool} {fuel : Nat} (h : line.length ≤ fuel) (b : Bool) :
    (highlightLoop isPreproc fuel b line).1.length = line.length := by
  induction fuel generalizing line b with
  | zero =>
    obtain rfl := List.eq_nil_of_length_eq_zero (Nat.le_zero.1 h)
    rfl
  | succ fuel ih =>
    cases line with
    | nil => rfl
    | cons c rest =>
      obtain ⟨hpos, hle⟩ := highlightRound_covers isPreproc b c rest
      have hrest : ((c :: rest).drop (highlightRound isPreproc b c rest).1.length).length =
          rest.length + 1 - (highlightRound isPreproc b c rest).1.length := List.length_drop
      rw [List.length_cons] at h
      simp only [highlightLoop, List.length_append, List.length_cons]
      rw [ih (by omega), hrest]
      omega

/-- The colours of a line that begins, or not, inside a block comment. -/
def lineColors (lang : SyntaxLanguage) (b : Bool) (line : List UInt8) : List UInt32 :=
  (highlightLine lang b line).1

/-- Whether the line ends inside a block comment. -/
def commentAfter (lang : SyntaxLanguage) (b : Bool) (line : List UInt8) : Bool :=
  (highlightLine lang b line).2

theorem highlightLine_eq (lang : SyntaxLanguage) (b : Bool) (line : List UInt8) :
    highlightLine lang b line = (lineColors lang b line, commentAfter lang b line) := rfl

/-- A line gets a colour for each of its characters. -/
theorem lineColors_length (lang : SyntaxLanguage) (b : Bool) (line : List UInt8) :
    (lineColors lang b line).length = line.length := by
  unfold lineColors highlightLine
  split
  · exact List.length_map ..
  · exact highlightLoop_length (Nat.le_refl _) _

end Syntax

end LCode
