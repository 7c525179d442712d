import LCode.View.Tokenizer
import LCode.View.Verify.Syntax

/-!
# The tokenizer over memory refines the one on lists

At a position behind which the line is `rest`, each loop goes over a beginning of
`rest` and writes the colours the list function gives for it. `ink colors done` is
the array whose first cells have been written with `done`; without an array it is
NULL. A round leaves `ink` of more colours, so the whole line is covered, no read
leaves it, and no store passes its end.
-/

namespace LCode

namespace Tokenizer

open Syntax

/-! ## The array -/

/-- The array with the colours `done` written from its first cell on. -/
def ink (colors : Colors) (done : List UInt32) : Colors :=
  colors.map fun cells => done.map some ++ cells.drop done.length

/-- An array has room for `n` colours. -/
def Room (colors : Colors) (n : Nat) : Prop := ∀ cells ∈ colors, n ≤ cells.length

section Ink

variable {colors : Colors} {done : List UInt32} {color : UInt32} {n : Nat}

@[simp] theorem ink_nil (colors : Colors) : ink colors [] = colors := by
  cases colors <;> rfl

theorem Room.mono (h : Room colors n) {m : Nat} (hle : m ≤ n) : Room colors m :=
  fun cells hcells => Nat.le_trans hle (h cells hcells)

/-- The store behind the cells written so far. -/
theorem paint_ink (h : Room colors (done.length + 1)) :
    paint (ink colors done) done.length color = some (ink colors (done ++ [color])) := by
  cases colors with
  | none => rfl
  | some cells =>
    have hroom := h cells rfl
    obtain ⟨w, x, z, hz, hw⟩ : ∃ w x z, cells = w ++ x :: z ∧ w.length = done.length :=
      ⟨cells.take done.length, cells[done.length], cells.drop (done.length + 1), by simp, by
        rw [List.length_take]
        omega⟩
    subst hz
    have hdrop : (w ++ x :: z).drop done.length = x :: z := by rw [← hw, List.drop_left]
    have hdrop' : (w ++ x :: z).drop (done.length + 1) = z := by
      rw [← hw, ← List.drop_drop, List.drop_left]
      rfl
    simp only [paint, ink, Option.map_some, hdrop]
    rw [if_pos (by simp), List.set_append_right _ _ (by simp)]
    simp [hdrop']

/-- A run of stores behind the cells written so far. -/
theorem paintRun_ink (h : Room colors (done.length + n)) :
    paintRun color n done.length (ink colors done) =
      some (ink colors (done ++ List.replicate n color)) := by
  induction n generalizing done with
  | zero => simp [paintRun]
  | succ n ih =>
    have hlen : (done ++ [color]).length = done.length + 1 := List.length_append
    have hroom : Room colors ((done ++ [color]).length + n) := h.mono (by omega)
    have hpaint : paint (ink colors done) done.length color = some (ink colors (done ++ [color])) :=
      paint_ink (h.mono (by omega))
    have hrest := ih hroom
    rw [hlen, List.append_assoc, List.singleton_append, ← List.replicate_succ] at hrest
    simp only [paintRun, hpaint, Option.bind_eq_bind, Option.bind_some, hrest]

end Ink

/-! ## Reads -/

/-- The tests, each of the next character. -/
def heads : List (UInt8 → Bool) → List UInt8 → Bool
  | [], _ => true
  | _ :: _, [] => false
  | p :: ps, c :: rest => p c && heads ps rest

section Reads

variable {line rest : List UInt8} {i fuel : Nat} {p : UInt8 → Bool} {c : UInt8}

/-- The next character. -/
theorem next (h : line.drop i = c :: rest) :
    i < line.length ∧ char line i = some c ∧ line.drop (i + 1) = rest := by
  have hlt : i < line.length := by
    by_contra hout
    rw [List.drop_of_length_le (Nat.not_lt.1 hout)] at h
    cases h
  rw [List.drop_eq_getElem_cons hlt, List.cons.injEq] at h
  exact ⟨hlt, by rw [char, List.getElem?_eq_getElem hlt, h.1], h.2⟩

/-- No character is left. -/
theorem ended (h : line.drop i = []) : ¬ i < line.length := by
  rw [List.drop_eq_nil_iff] at h
  omega

theorem drop_length (h : line.drop i = rest) (hi : i ≤ line.length) :
    line.length = i + rest.length := by
  rw [← h, List.length_drop]
  omega

/-- The short-circuit tests read no further than they have to. -/
theorem looksAt_eq (h : line.drop i = rest) (ps : List (UInt8 → Bool)) :
    looksAt line i ps = some (heads ps rest) := by
  induction ps generalizing rest i with
  | nil => rfl
  | cons p ps ih =>
    cases rest with
    | nil =>
      rw [looksAt, if_neg (ended h)]
      rfl
    | cons c rest =>
      obtain ⟨hlt, hread, hrest⟩ := next h
      rw [looksAt, if_pos hlt, hread]
      simp only [Option.bind_eq_bind, Option.bind_some, ih hrest, heads]
      cases p c <;> rfl

theorem heads_one (p : UInt8 → Bool) : heads [p] (c :: rest) = p c := Bool.and_true _

theorem heads_two (p q : UInt8 → Bool) :
    heads [p, q] (c :: rest) = (p c && rest.head?.any q) := by
  cases rest <;> simp [heads]

theorem heads_three (p q r : UInt8 → Bool) :
    heads [p, q, r] (c :: rest) = (p c && (rest.head?.any q && rest.tail.head?.any r)) := by
  cases rest with
  | nil => simp [heads]
  | cons d rest => cases rest <;> simp [heads]

/-- The position after the characters that pass. -/
theorem advance_eq (h : line.drop i = rest) (hfuel : rest.length < fuel) :
    advance line p fuel i = some (i + (rest.takeWhile p).length) := by
  induction fuel generalizing rest i with
  | zero => omega
  | succ fuel ih =>
    cases rest with
    | nil =>
      rw [advance, if_neg (ended h)]
      rfl
    | cons c rest =>
      obtain ⟨hlt, hread, hrest⟩ := next h
      rw [List.length_cons] at hfuel
      rw [advance, if_pos hlt, hread]
      simp only [Option.bind_eq_bind, Option.bind_some]
      by_cases hp : p c = true
      · rw [if_pos hp, ih hrest (by omega), List.takeWhile_cons_of_pos hp, List.length_cons]
        congr 1
        omega
      · rw [if_neg hp, List.takeWhile_cons_of_neg hp]
        rfl

theorem drop_takeWhile (h : line.drop i = rest) :
    line.drop (i + (rest.takeWhile p).length) = rest.dropWhile p := by
  have hcut := @List.drop_left _ (rest.takeWhile p) (rest.dropWhile p)
  rw [List.takeWhile_append_dropWhile] at hcut
  rw [← List.drop_drop, h, hcut]

/-- `skip_ws`: what is left is behind the blanks. -/
theorem skipWs_eq (h : line.drop i = rest) (hi : i ≤ line.length) :
    ∃ j, Tokenizer.skipWs line i = some j ∧ line.drop j = Syntax.skipWs rest := by
  have hlen := drop_length h hi
  exact ⟨_, advance_eq h (by omega), drop_takeWhile h⟩

variable {colors : Colors} {done : List UInt32} {color : UInt32}

/-- The characters that pass, in one colour. -/
theorem paintWhile_eq (p : UInt8 → Bool) (color : UInt32) (h : line.drop i = rest) (hdone : done.length = i)
    (hroom : Room colors line.length) (hfuel : rest.length < fuel) :
    paintWhile line p color fuel i (ink colors done) =
      some (i + (runColors p color rest).length, ink colors (done ++ runColors p color rest)) := by
  induction fuel generalizing rest i done with
  | zero => omega
  | succ fuel ih =>
    cases rest with
    | nil =>
      rw [paintWhile, if_neg (ended h)]
      simp [runColors]
    | cons c rest =>
      obtain ⟨hlt, hread, hrest⟩ := next h
      rw [List.length_cons] at hfuel
      rw [paintWhile, if_pos hlt, hread]
      simp only [Option.bind_eq_bind, Option.bind_some]
      by_cases hp : p c = true
      · have hpaint : paint (ink colors done) i color = some (ink colors (done ++ [color])) :=
          hdone ▸ paint_ink (hroom.mono (by omega))
        rw [if_pos hp, hpaint, Option.bind_some, ih hrest (by simp [hdone]) (by omega), runColors,
          runColors, List.takeWhile_cons_of_pos hp]
        simp only [List.map_cons, List.length_cons, List.append_assoc, List.singleton_append]
        congr 2
        omega
      · rw [if_neg hp, runColors, List.takeWhile_cons_of_neg hp]
        simp

/-- A literal after its opening quote. -/
theorem literalLoop_eq (quote : UInt8) (h : line.drop i = rest) (hdone : done.length = i)
    (hroom : Room colors line.length) (hfuel : rest.length < fuel) :
    literalLoop line quote fuel i (ink colors done) =
      some (i + (literalColors quote rest).length,
        ink colors (done ++ literalColors quote rest)) := by
  induction fuel generalizing rest i done with
  | zero => omega
  | succ fuel ih =>
    cases rest with
    | nil =>
      rw [literalLoop, if_neg (ended h)]
      simp [literalColors]
    | cons c rest =>
      obtain ⟨hlt, hread, hrest⟩ := next h
      rw [List.length_cons] at hfuel
      have hpaint (color : UInt32) :
          paint (ink colors done) i color = some (ink colors (done ++ [color])) :=
        hdone ▸ paint_ink (hroom.mono (by omega))
      rw [literalLoop, if_pos hlt, hread]
      simp only [Option.bind_eq_bind, Option.bind_some, hpaint]
      by_cases hback : c = backslash
      · cases rest with
        | nil =>
          -- nothing to escape: an ordinary character, the last one
          have hlast := ended hrest
          rw [if_neg (fun hc => hlast hc.2)]
          have hlen : (done ++ [colorString]).length = i + 1 := by simp [hdone]
          have hloop := ih hrest hlen (by omega)
          by_cases hquote : c = quote
          · simp [hquote, literalColors, ← hback]
          · simp [hloop, literalColors, hback]
        | cons d rest =>
          obtain ⟨hlt', -, hrest'⟩ := next hrest
          rw [List.length_cons] at hfuel
          have hpaint' : paint (ink colors (done ++ [colorEscape])) (i + 1) colorEscape =
              some (ink colors (done ++ [colorEscape] ++ [colorEscape])) := by
            have hlen : (done ++ [colorEscape]).length = i + 1 := by simp [hdone]
            exact hlen ▸ paint_ink (hroom.mono (by omega))
          rw [if_pos ⟨hback, hlt'⟩, hpaint', Option.bind_some,
            ih hrest' (by simp [hdone]) (by omega), literalColors, if_pos hback]
          simp only [List.append_assoc, List.singleton_append, List.length_cons]
          congr 2
          omega
      · have hcolors : literalColors quote (c :: rest) =
            if c = quote then [colorString] else colorString :: literalColors quote rest := by
          cases rest <;> simp [literalColors, hback]
        rw [if_neg (fun hc => hback hc.1), hcolors]
        by_cases hquote : c = quote
        · simp [hquote]
        · rw [if_neg hquote, if_neg hquote, ih hrest (by simp [hdone]) (by omega)]
          simp only [List.append_assoc, List.singleton_append, List.length_cons]
          congr 2
          omega

end Reads

/-! ## Rounds -/

section Rounds

variable {line rest : List UInt8} {c : UInt8} {colors : Colors} {done : List UInt32} {i : Nat}

/-- What a round does that the list function describes as `(cs, b)`: it has written `cs`
and stands behind them, or it leaves the loop with the line covered. -/
def Refines (line : List UInt8) (colors : Colors) (done : List UInt32)
    (r : Option (Bool × State)) (out : List UInt32 × Bool) : Prop :=
  ∃ goesOn j, r = some (goesOn, ⟨j, out.2, ink colors (done ++ out.1)⟩) ∧
    if goesOn then j = done.length + out.1.length
    else done.length + out.1.length = line.length

theorem Refines.ite {r r' : Option (Bool × State)} {out out' : List UInt32 × Bool} {p : Prop}
    [Decidable p] {b : Bool} (hb : b = true ↔ p) (h : p → Refines line colors done r out)
    (h' : ¬ p → Refines line colors done r' out') :
    Refines line colors done (if b = true then r else r') (if p then out else out') := by
  by_cases hp : p
  · rw [if_pos (hb.2 hp), if_pos hp]
    exact h hp
  · rw [if_neg (fun hb' => hp (hb.1 hb')), if_neg hp]
    exact h' hp

/-- A round of one character. -/
theorem refines_one {color : UInt32} {b : Bool} (hdone : done.length = i)
    {r : Option (Bool × State)}
    (hr : r = some (true, ⟨i + 1, b, ink colors (done ++ [color])⟩)) :
    Refines line colors done r ([color], b) :=
  ⟨true, i + 1, hr, by simp [hdone]⟩

/-- The member identifier behind the operator. -/
theorem member_eq (h : line.drop i = rest) (hi : i ≤ line.length) (hdone : done.length = i)
    (hroom : Room colors line.length) :
    member line i (ink colors done) =
      some (true, ⟨i + (runColors isAlnum colorMember rest).length, false,
        ink colors (done ++ runColors isAlnum colorMember rest)⟩) := by
  have hlen := drop_length h hi
  have hle := (List.takeWhile_sublist isAlnum (l := rest)).length_le
  have hstop : i + (rest.takeWhile isAlnum).length - i = (rest.takeWhile isAlnum).length := by omega
  have hrun : paintRun colorMember (rest.takeWhile isAlnum).length i (ink colors done) =
      some (ink colors (done ++ List.replicate (rest.takeWhile isAlnum).length colorMember)) :=
    hdone ▸ paintRun_ink (hroom.mono (by omega))
  simp only [member, advance_eq h (show rest.length < line.length + 1 by omega), hstop, hrun,
    Option.bind_eq_bind, Option.bind_some, Option.pure_def]
  simp [runColors, List.map_const']

/-- The store to the character at the position. -/
theorem paint_at (h : line.drop i = c :: rest) (hdone : done.length = i)
    (hroom : Room colors line.length) (color : UInt32) :
    paint (ink colors done) i color = some (ink colors (done ++ [color])) := by
  obtain ⟨hlt, -, -⟩ := next h
  exact hdone ▸ paint_ink (hroom.mono (by omega))

/-- The store to the character behind it. -/
theorem paint_next {d : UInt8} (h : line.drop i = c :: d :: rest) (hdone : done.length = i)
    (hroom : Room colors line.length) (color color' : UInt32) :
    paint (ink colors (done ++ [color])) (i + 1) color' =
      some (ink colors (done ++ [color, color'])) := by
  obtain ⟨-, -, hrest⟩ := next h
  have hlen : (done ++ [color]).length = i + 1 := by simp [hdone]
  rw [paint_at hrest hlen hroom, List.append_assoc, List.singleton_append]

theorem heads_eq_iff {a d : UInt8} :
    (c == a && rest.head?.any (· == d)) = true ↔ c = a ∧ rest.head? = some d := by
  cases rest <;> simp

/-- A string or character literal. -/
theorem literal_refines (h : line.drop i = c :: rest) (hdone : done.length = i)
    (hroom : Room colors line.length) (quote : UInt8) :
    Refines line colors done ((paint (ink colors done) i colorString).bind fun colors =>
        (literalLoop line quote (line.length + 1) (i + 1) colors).bind fun x =>
          pure (true, ⟨x.1, false, x.2⟩))
      (colorString :: literalColors quote rest, false) := by
  obtain ⟨hlt, -, hrest⟩ := next h
  have hlen := drop_length hrest (by omega)
  have hdone' : (done ++ [colorString]).length = i + 1 := by simp [hdone]
  have hloop :=
    literalLoop_eq quote hrest hdone' hroom (show rest.length < line.length + 1 by omega)
  rw [paint_at h hdone hroom, Option.bind_some, hloop, Option.bind_some, List.append_assoc,
    List.singleton_append]
  refine ⟨true, _, rfl, ?_⟩
  rw [if_pos rfl, List.length_cons]
  omega

/-- An identifier. -/
theorem word_refines (h : line.drop i = c :: rest) (hdone : done.length = i)
    (hroom : Room colors line.length) (halpha : isAlpha c = true) :
    Refines line colors done ((advance line isAlnum (line.length + 1) i).bind fun stop =>
        (Block.slice line i (stop - i)).bind fun word =>
          (Tokenizer.skipWs line stop).bind fun j =>
            (looksAt line j [(· == '('.toUInt8)]).bind fun isCall =>
              (paintRun (wordColor word isCall) (stop - i) i (ink colors done)).bind fun colors =>
                pure (true, ⟨stop, false, colors⟩))
      ((c :: rest.takeWhile isAlnum).map fun _ =>
        Syntax.wordColor (c :: rest.takeWhile isAlnum) (rest.dropWhile isAlnum), false) := by
  obtain ⟨hlt, -, -⟩ := next h
  have hlen := drop_length h (Nat.le_of_lt hlt)
  have halnum : isAlnum c = true := by rw [isAlnum, halpha, Bool.true_or]
  have htake : (c :: rest).takeWhile isAlnum = c :: rest.takeWhile isAlnum :=
    List.takeWhile_cons_of_pos halnum
  have hdrop : (c :: rest).dropWhile isAlnum = rest.dropWhile isAlnum :=
    List.dropWhile_cons_of_pos halnum
  have hle := (List.takeWhile_sublist isAlnum (l := c :: rest)).length_le
  rw [← htake, ← hdrop]
  generalize hword : (c :: rest).takeWhile isAlnum = word at hle
  have hstop := advance_eq (p := isAlnum) h (show (c :: rest).length < line.length + 1 by omega)
  have hafter := drop_takeWhile (p := isAlnum) h
  rw [hword] at hstop hafter
  have hcut : line = line.take i ++ word ++ (c :: rest).dropWhile isAlnum := by
    rw [List.append_assoc, ← hword, List.takeWhile_append_dropWhile, ← h, List.take_append_drop]
  have hslice : Block.slice line (i : Int) ((i + word.length : Nat) - i) = some word :=
    Block.slice_eq hcut (by rw [List.length_take]; omega) (by omega)
  obtain ⟨j, hskip, hj⟩ := skipWs_eq hafter (by omega)
  have hcall : heads [(· == '('.toUInt8)] (Syntax.skipWs ((c :: rest).dropWhile isAlnum)) =
      decide ((Syntax.skipWs ((c :: rest).dropWhile isAlnum)).head? = some '('.toUInt8) := by
    cases Syntax.skipWs ((c :: rest).dropWhile isAlnum) with
    | nil => rfl
    | cons d after => by_cases hd : d = '('.toUInt8 <;> simp [heads, hd]
  have hrun : paintRun (Syntax.wordColor word ((c :: rest).dropWhile isAlnum)) word.length i
      (ink colors done) = some (ink colors (done ++ List.replicate word.length
        (Syntax.wordColor word ((c :: rest).dropWhile isAlnum)))) :=
    hdone ▸ paintRun_ink (hroom.mono (by omega))
  have hcolor : wordColor word (decide
      ((Syntax.skipWs ((c :: rest).dropWhile isAlnum)).head? = some '('.toUInt8)) =
        Syntax.wordColor word ((c :: rest).dropWhile isAlnum) := by
    simp only [wordColor, Syntax.wordColor, decide_eq_true_eq, List.contains_iff_mem]
  rw [hstop, Option.bind_some, hslice, Option.bind_some, hskip, Option.bind_some,
    looksAt_eq hj, Option.bind_some, hcall, hcolor,
    show i + word.length - i = word.length by omega, hrun]
  refine ⟨true, _, by rw [List.map_const']; rfl, ?_⟩
  rw [if_pos rfl, List.length_map, hdone]

/-- A round does what the list function says. -/
theorem round_refines (h : line.drop i = c :: rest) (hdone : done.length = i)
    (hroom : Room colors line.length) (isPreproc b : Bool) :
    Refines line colors done (round line isPreproc ⟨i, b, ink colors done⟩)
      (highlightRound isPreproc b c rest) := by
  obtain ⟨hlt, -, hrest⟩ := next h
  have hlen := drop_length h (Nat.le_of_lt hlt)
  rw [List.length_cons] at hlen
  have hone (color : UInt32) (b : Bool) : Refines line colors done
      ((paint (ink colors done) i color).bind fun colors => pure (true, ⟨i + 1, b, colors⟩))
      ([color], b) :=
    refines_one hdone (by rw [paint_at h hdone hroom]; rfl)
  have htwo {d : UInt8} (b : Bool) (hd : rest.head? = some d) : Refines line colors done
      ((paint (ink colors done) i colorComment).bind fun colors =>
        (paint colors (i + 1) colorComment).bind fun colors => pure (true, ⟨i + 2, b, colors⟩))
      ([colorComment, colorComment], b) := by
    obtain ⟨rest, rfl⟩ : ∃ rest', rest = d :: rest' := by
      cases rest with
      | nil => cases hd
      | cons e rest => exact ⟨rest, by rw [List.head?_cons, Option.some.injEq] at hd; rw [hd]⟩
    rw [paint_at h hdone hroom, Option.bind_some, paint_next h hdone hroom]
    exact ⟨true, i + 2, rfl, by simp [hdone]⟩
  unfold Tokenizer.round highlightRound
  simp only [looksAt_eq h, heads_one, heads_two, heads_three, Option.bind_eq_bind,
    Option.bind_some]
  refine .ite Iff.rfl (fun _ => ?_) fun _ => ?_
  · rw [paint_at h hdone hroom, Option.bind_some]
    refine .ite heads_eq_iff (fun hclose => ?_) fun _ => ?_
    · have hclosed := htwo false hclose.2
      rwa [paint_at h hdone hroom, Option.bind_some] at hclosed
    · exact ⟨true, i + 1, rfl, by simp [hdone]⟩
  refine .ite heads_eq_iff (fun _ => ?_) fun _ => ?_
  · -- a line comment: the rest of the line, and the loop is left
    have hrun : paintRun colorComment (line.length - i) i (ink colors done) =
        some (ink colors (done ++ List.replicate (line.length - i) colorComment)) :=
      hdone ▸ paintRun_ink (hroom.mono (by omega))
    rw [hrun]
    refine ⟨false, if (ink colors done).isSome then line.length else i, ?_, ?_⟩
    · rw [List.map_const', List.length_cons, show rest.length + 1 = line.length - i by omega]
      rfl
    · simp only [List.length_map, List.length_cons, Bool.false_eq_true, if_false]
      omega
  refine .ite heads_eq_iff (fun hopen => htwo true hopen.2) fun _ => ?_
  refine .ite beq_iff_eq (fun _ => literal_refines h hdone hroom _) fun _ => ?_
  refine .ite beq_iff_eq (fun _ => literal_refines h hdone hroom _) fun _ => ?_
  refine .ite Iff.rfl (fun hdigit => ?_) fun _ => ?_
  · -- the digit is the first of the characters that the loop goes over
    have hnumber := paintWhile_eq (fun c => isAlnum c || c == '.'.toUInt8 || c == '_'.toUInt8)
      colorNumber h hdone hroom
      (show (c :: rest).length < line.length + 1 by rw [List.length_cons]; omega)
    have hfirst : runColors (fun c => isAlnum c || c == '.'.toUInt8 || c == '_'.toUInt8)
        colorNumber (c :: rest) = colorNumber :: runColors
          (fun c => isAlnum c || c == '.'.toUInt8 || c == '_'.toUInt8) colorNumber rest := by
      rw [runColors, List.takeWhile_cons_of_pos (by simp [isAlnum, hdigit])]
      rfl
    rw [hnumber, hfirst]
    exact ⟨true, _, rfl, by rw [if_pos rfl, hdone]⟩
  refine .ite (by rw [Bool.and_eq_true, beq_iff_eq]) (fun _ => ?_) fun _ => ?_
  · rw [paint_at h hdone hroom, Option.bind_some,
      member_eq hrest (by omega) (by simp [hdone]) hroom, List.append_assoc, List.singleton_append]
    refine ⟨true, _, rfl, ?_⟩
    rw [if_pos rfl, List.length_cons]
    omega
  refine .ite (by rw [Bool.and_eq_true, Bool.and_eq_true, beq_iff_eq]; cases rest <;> simp)
    (fun harrow => ?_) fun _ => ?_
  · cases rest with
    | nil => cases harrow.2.1
    | cons d rest =>
      obtain ⟨hlt', -, hrest'⟩ := next hrest
      rw [paint_at h hdone hroom, Option.bind_some, paint_next h hdone hroom, Option.bind_some,
        member_eq hrest' (by omega) (by simp [hdone]) hroom, List.append_assoc]
      refine ⟨true, _, rfl, ?_⟩
      rw [if_pos rfl, List.length_cons, List.length_cons, List.tail_cons]
      omega
  refine .ite beq_iff_eq (fun _ => hone _ _) fun _ => ?_
  refine .ite Iff.rfl (fun _ => hone _ _) fun _ => ?_
  refine .ite Iff.rfl (fun _ => hone _ _) fun _ => ?_
  exact .ite Iff.rfl (fun halpha => word_refines h hdone hroom halpha) fun _ => hone _ _

/-- The loop does what the list function says. -/
theorem loop_eq (isPreproc b : Bool) {fuel fuel' : Nat} (h : line.drop i = rest)
    (hi : i ≤ line.length) (hdone : done.length = i) (hroom : Room colors line.length)
    (hfuel : rest.length < fuel) (hfuel' : rest.length ≤ fuel') :
    ∃ j, loop line isPreproc fuel ⟨i, b, ink colors done⟩ =
      some ⟨j, (highlightLoop isPreproc fuel' b rest).2,
        ink colors (done ++ (highlightLoop isPreproc fuel' b rest).1)⟩ := by
  induction fuel generalizing rest i done b fuel' with
  | zero => omega
  | succ fuel ih =>
    cases rest with
    | nil =>
      refine ⟨i, ?_⟩
      rw [loop, if_neg (ended h)]
      cases fuel' <;> simp [highlightLoop]
    | cons c rest =>
      obtain ⟨hlt, -, -⟩ := next h
      obtain ⟨hpos, hle⟩ := highlightRound_covers isPreproc b c rest
      have hlen := drop_length h hi
      obtain ⟨fuel', rfl⟩ := Nat.exists_eq_succ_of_ne_zero
        (show fuel' ≠ 0 by rw [List.length_cons] at hfuel'; omega)
      rw [List.length_cons] at hfuel hfuel' hlen
      obtain ⟨goesOn, j, hround, hj⟩ := round_refines h hdone hroom isPreproc b
      simp only [loop, if_pos hlt, hround, Option.bind_eq_bind, Option.bind_some, highlightLoop]
      have hcut : ((c :: rest).drop (highlightRound isPreproc b c rest).1.length).length =
          rest.length + 1 - (highlightRound isPreproc b c rest).1.length := List.length_drop
      cases goesOn with
      | true =>
        rw [if_pos rfl] at hj
        have hnext : line.drop j = (c :: rest).drop (highlightRound isPreproc b c rest).1.length := by
          rw [hj, hdone, ← List.drop_drop, h]
        have hdone' : (done ++ (highlightRound isPreproc b c rest).1).length = j := by
          rw [List.length_append, hj]
        have hless : ((c :: rest).drop (highlightRound isPreproc b c rest).1.length).length ≤
            fuel' := by omega
        obtain ⟨k, hloop⟩ := ih (highlightRound isPreproc b c rest).2 hnext (by omega) hdone'
          (by omega) hless
        exact ⟨k, by rw [if_pos rfl, hloop, List.append_assoc]⟩
      | false =>
        rw [if_neg Bool.false_ne_true] at hj
        have hnil := List.eq_nil_of_length_eq_zero (hcut.trans (by omega))
        refine ⟨j, ?_⟩
        rw [hnil]
        cases fuel' <;> simp [highlightLoop]

end Rounds

/-! ## Lines -/

/-- `syntax_highlight_line` over memory: it comes to an end, within the line and within the
array, and leaves the colours and the comment state of the function on lists. -/
theorem highlightLine_refines (lang : SyntaxLanguage) (b : Bool) (line : List UInt8)
    {colors : Colors} (hroom : Room colors line.length) :
    highlightLine line b lang colors =
      some (ink colors (lineColors lang b line), commentAfter lang b line) := by
  unfold highlightLine lineColors commentAfter Syntax.highlightLine
  by_cases hlang : lang = .c
  · simp only [hlang, ne_eq, not_true_eq_false, if_false]
    have hall : line.drop 0 = line := List.drop_zero
    have hnothing : ([] : List UInt32).length = 0 := rfl
    obtain ⟨j, hloop⟩ := loop_eq (!b && (Syntax.skipWs line).head? == some '#'.toUInt8) b hall
      (Nat.zero_le _) hnothing hroom (Nat.lt_succ_self _) (Nat.le_refl _)
    rw [ink_nil, List.nil_append] at hloop
    cases b with
    | true =>
      simp only [Bool.not_true, Bool.false_and] at hloop ⊢
      simp only [if_true, Option.bind_eq_bind, Option.bind_some, hloop, Option.pure_def]
    | false =>
      obtain ⟨k, hskip, hk⟩ := skipWs_eq hall (Nat.zero_le _)
      have hhash : heads [(· == '#'.toUInt8)] (Syntax.skipWs line) =
          (!false && (Syntax.skipWs line).head? == some '#'.toUInt8) := by
        cases Syntax.skipWs line with
        | nil => rfl
        | cons c rest => simp [heads]
      simp only [Bool.false_eq_true, if_false, Option.bind_eq_bind, hskip, Option.bind_some,
        looksAt_eq hk, hhash, hloop, Option.pure_def]
  · have hroom' : Room colors (([] : List UInt32).length + line.length) := by
      rwa [List.length_nil, Nat.zero_add]
    have hrun : paintRun colorDefault line.length ([] : List UInt32).length (ink colors []) =
        some (ink colors ([] ++ List.replicate line.length colorDefault)) := paintRun_ink hroom'
    rw [ink_nil, List.length_nil, List.nil_append] at hrun
    simp only [ne_eq, hlang, not_false_eq_true, if_true, hrun, Option.bind_eq_bind,
      Option.bind_some, Option.pure_def, List.map_const']

end Tokenizer

end LCode
