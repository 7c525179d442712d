import LCode.Lib.Sat
import LCode.View.Verify.HighlightCache
import LCode.View.Verify.Tokenizer

/-!
# Every cell is written

`syntax_highlight_line` covers a line, so an array made for a line has no cell left as
`malloc` gave it, and an array kept for a shorter one has its old colours behind the
new. Every array the cache hands out is all palette, whatever the calls before it.
-/

namespace LCode

namespace Syntax

/-! ## The palette -/

def palette : List UInt32 :=
  [colorDefault, colorKeyword, colorType, colorPreproc, colorString, colorComment, colorNumber,
    colorFunction, colorMacro, colorEscape, colorMember, colorOperator]

/-- Nothing but palette colours. -/
def InPalette (colors : List UInt32) : Prop := ∀ color ∈ colors, color ∈ palette

section Palette

variable {colors colors' : List UInt32} {color : UInt32}

theorem inPalette_nil : InPalette [] := List.forall_mem_nil _

theorem InPalette.cons (h : color ∈ palette) (h' : InPalette colors) :
    InPalette (color :: colors) :=
  List.forall_mem_cons.2 ⟨h, h'⟩

theorem InPalette.append (h : InPalette colors) (h' : InPalette colors') :
    InPalette (colors ++ colors') :=
  List.forall_mem_append.2 ⟨h, h'⟩

theorem inPalette_const {α : Type} (line : List α) (h : color ∈ palette) :
    InPalette (line.map fun _ => color) := by
  intro x hx
  obtain ⟨-, -, rfl⟩ := List.mem_map.1 hx
  exact h

theorem literalColors_inPalette (quote : UInt8) (rest : List UInt8) :
    InPalette (literalColors quote rest) := by
  have hstring : colorString ∈ palette := by decide
  induction rest using literalColors.induct quote with
  | case1 => exact inPalette_nil
  | case2 =>
    simp only [literalColors, if_true]
    exact inPalette_nil.cons hstring
  | case3 d rest ih =>
    simp only [literalColors, if_true]
    exact (ih.cons (by decide)).cons (by decide)
  | case4 rest hne =>
    unfold literalColors
    rw [if_neg hne, if_pos rfl]
    exact inPalette_nil.cons hstring
  | case5 c rest hne hquote ih =>
    unfold literalColors
    rw [if_neg hne, if_neg hquote]
    exact ih.cons hstring

theorem wordColor_mem (word after : List UInt8) : wordColor word after ∈ palette := by
  unfold wordColor
  split
  · decide
  · split
    · decide
    · split
      · decide
      · split <;> decide

theorem inPalette_ite {p : Prop} [Decidable p] {x y : List UInt32 × Bool}
    (hx : InPalette x.1) (hy : InPalette y.1) : InPalette (if p then x else y).1 := by
  split
  · exact hx
  · exact hy

theorem highlightRound_inPalette (isPreproc b : Bool) (c : UInt8) (rest : List UInt8) :
    InPalette (highlightRound isPreproc b c rest).1 := by
  have hone {color : UInt32} (h : color ∈ palette) : InPalette [color] := inPalette_nil.cons h
  have hrun {color : UInt32} (p : UInt8 → Bool) (line : List UInt8) (h : color ∈ palette) :
      InPalette (runColors p color line) := inPalette_const _ h
  have hcomment : InPalette [colorComment, colorComment] := (hone (by decide)).cons (by decide)
  unfold highlightRound
  refine inPalette_ite (inPalette_ite hcomment (hone (by decide))) ?_
  refine inPalette_ite (inPalette_const _ (by decide)) (inPalette_ite hcomment ?_)
  refine inPalette_ite ((literalColors_inPalette _ _).cons (by decide)) ?_
  refine inPalette_ite ((literalColors_inPalette _ _).cons (by decide)) ?_
  refine inPalette_ite ((hrun _ _ (by decide)).cons (by decide)) ?_
  refine inPalette_ite ((hrun _ _ (by decide)).cons (by decide)) ?_
  refine inPalette_ite (((hrun _ _ (by decide)).cons (by decide)).cons (by decide)) ?_
  refine inPalette_ite (hone (by decide)) (inPalette_ite (hone (by decide)) ?_)
  refine inPalette_ite (hone (by decide)) (inPalette_ite ?_ (hone (by decide)))
  exact inPalette_const _ (wordColor_mem _ _)

theorem highlightLoop_inPalette (isPreproc : Bool) (fuel : Nat) (b : Bool) (line : List UInt8) :
    InPalette (highlightLoop isPreproc fuel b line).1 := by
  induction fuel generalizing b line with
  | zero => exact inPalette_nil
  | succ fuel ih =>
    cases line with
    | nil => exact inPalette_nil
    | cons c rest => exact (highlightRound_inPalette isPreproc b c rest).append (ih _ _)

theorem lineColors_inPalette (lang : SyntaxLanguage) (b : Bool) (line : List UInt8) :
    InPalette (lineColors lang b line) := by
  unfold lineColors highlightLine
  split
  · exact inPalette_const _ (by decide)
  · exact highlightLoop_inPalette _ _ _ _

end Palette

end Syntax

/-! ## The arrays of the cache -/

namespace HighlightCache

open Syntax

/-- All arrays are filled with palette colours. -/
def Inked (c : HighlightCache) : Prop :=
  ∀ e ∈ c.lineColors, ∀ block ∈ e.colors, InPalette block

section Inked

variable {c : HighlightCache}

theorem inked_null : ∀ block ∈ RowColors.null.colors, InPalette block := nofun

/-- A row overwritten. -/
theorem Inked.setRow (h : c.Inked) {e : RowColors} (he : ∀ block ∈ e.colors, InPalette block)
    (row : Int) : Sat Inked (c.setRow row e) := by
  intro c' hset
  simp only [HighlightCache.setRow, Option.bind_eq_bind, Option.bind_eq_some_iff,
    Option.pure_def, Option.some.injEq] at hset
  obtain ⟨rows, hstore, rfl⟩ := hset
  obtain ⟨-, -, rfl⟩ := Block.store_some hstore
  intro e' he'
  rcases List.mem_or_eq_of_mem_set he' with hmem | rfl
  · exact h e' hmem
  · exact he

theorem Inked.freeRow (h : c.Inked) (row : Int) : Sat Inked (c.freeRow row) := by
  unfold HighlightCache.freeRow
  exact .ite (.some h) (h.setRow inked_null row)

theorem Inked.row (h : c.Inked) (row : Int) :
    Sat (fun e => ∀ block ∈ e.colors, InPalette block) (c.row row) := by
  intro e he
  rw [HighlightCache.row, Block.read] at he
  split at he
  · exact h e (List.mem_of_getElem? he)
  · cases he

theorem Inked.growRows (h : c.Inked) (needed : Int) : (c.growRows needed).2.Inked := by
  unfold HighlightCache.growRows
  split
  · exact h
  · split
    · exact h
    · split
      · exact h
      · intro e he
        rcases List.mem_append.1 he with hmem | hmem
        · exact h e hmem
        · rw [List.eq_of_mem_replicate hmem]
          exact inked_null

theorem inked_invalidateAll (c : HighlightCache) : c.invalidateAll.Inked := by
  intro e he
  obtain ⟨-, -, rfl⟩ := List.mem_map.1 he
  exact inked_null

theorem Inked.moveRows (h : c.Inked) (dst src n : Int) : Sat Inked (c.moveRows dst src n) := by
  intro c' hmove
  simp only [HighlightCache.moveRows, Option.bind_eq_bind, Option.bind_eq_some_iff,
    Option.pure_def, Option.some.injEq] at hmove
  obtain ⟨rows, hmove, rfl⟩ := hmove
  exact fun e he => h e (Block.move_subset hmove he)

/-- All arrays are filled, that of `row` from its cell `n` on. -/
def InkedBut (row : Int) (n : Nat) (c : HighlightCache) : Prop :=
  ∀ (k : Nat) (e : RowColors), c.lineColors[k]? = some e → ∀ block ∈ e.colors,
    InPalette (if (k : Int) = row then block.drop n else block)

/-- `ensure_row_cap`: an array that is new has exactly the cells asked for. -/
theorem Inked.ensureRowCap (h : c.Inked) (row len : Int) :
    Sat (fun r => if r.1 = true then InkedBut row len.toNat r.2 else r.2.Inked)
      (c.ensureRowCap row len) := by
  have hbut {c : HighlightCache} (h : c.Inked) : InkedBut row len.toNat c := by
    intro k e hk block hblock
    have hfilled := h e (List.mem_of_getElem? hk) block hblock
    split
    · exact fun x hx => hfilled x (List.mem_of_mem_drop hx)
    · exact hfilled
  unfold HighlightCache.ensureRowCap
  refine .ite (.some h) ?_
  have hgrow := h.growRows (row + 1)
  generalize c.growRows (row + 1) = grown at hgrow ⊢
  obtain ⟨ok, c₁⟩ := grown
  refine .ite (.some hgrow) (.of_bind fun e => .ite ?_ ?_)
  · cases hp : c₁.heap.mallocColors len with
    | none => exact .some hgrow
    | some p =>
      refine .of_bind' fun c₂ hset => .some ?_
      simp only [HighlightCache.setRow, Option.bind_eq_bind, Option.bind_eq_some_iff,
        Option.pure_def, Option.some.injEq] at hset
      obtain ⟨rows, hstore, rfl⟩ := hset
      obtain ⟨hpos, -, rfl⟩ := Block.store_some hstore
      rw [if_pos rfl]
      intro k e' hk block hblock
      rw [List.getElem?_set] at hk
      split at hk
      · next heq =>
        split at hk
        · obtain rfl := Option.some.inj hk
          obtain rfl := Option.some.inj hblock
          rw [if_pos (by omega), List.drop_of_length_le (Nat.le_of_eq (Heap.length_mallocColors hp))]
          exact inPalette_nil
        · cases hk
      · exact hbut hgrow k e' hk block hblock
  · intro r hr
    obtain rfl := Option.some.inj hr
    by_cases hsome : e.colors.isSome
    · simp only [hsome, if_true]
      exact hbut hgrow
    · simp only [hsome, Bool.false_eq_true, if_false]
      exact hgrow

/-- The stores of `syntax_highlight_line` fill what `ensure_row_cap` left open. -/
theorem InkedBut.writeColors {row : Int} {n : Nat} (h : InkedBut row n c) {colors : List UInt32}
    (hcolors : InPalette colors) (hlen : colors.length = n) :
    Sat Inked (c.writeColors row colors) := by
  unfold HighlightCache.writeColors
  refine .of_bind' fun e he => .of_bind' fun block hblock => .of_bind' fun block' hstore => ?_
  have hmem : 0 ≤ row ∧ c.lineColors[row.toNat]? = some e := by
    rw [HighlightCache.row, Block.read] at he
    split at he
    · next hpos => exact ⟨hpos, he⟩
    · cases he
  have hdrop := h row.toNat e hmem.2 block hblock
  rw [if_pos (by omega)] at hdrop
  have hfilled : InPalette block' := by
    unfold Block.store at hstore
    split at hstore
    · next hnil =>
      rw [← Option.some.inj hstore]
      rwa [← hlen, hnil] at hdrop
    · split at hstore
      · rw [← Option.some.inj hstore, hlen]
        simp only [Int.toNat_zero, List.take_zero, List.nil_append, Nat.zero_add]
        exact hcolors.append hdrop
      · cases hstore
  intro c' hset
  simp only [HighlightCache.setRow, Option.bind_eq_bind, Option.bind_eq_some_iff,
    Option.pure_def, Option.some.injEq] at hset
  obtain ⟨rows, hstore', rfl⟩ := hset
  obtain ⟨-, -, rfl⟩ := Block.store_some hstore'
  intro e' he' block'' hblock''
  obtain ⟨k, hk⟩ := List.getElem?_of_mem he'
  rw [List.getElem?_set] at hk
  split at hk
  · split at hk
    · obtain rfl := Option.some.inj hk
      obtain rfl := Option.some.inj hblock''
      exact hfilled
    · cases hk
  · next hne =>
    have hother := h k e' hk block'' hblock''
    rwa [if_neg (by omega)] at hother

/-- A row highlighted. -/
theorem Inked.highlightRow (h : c.Inked) (ed : Editor) (row : Int) (b : Bool) :
    Sat (fun r => r.2.2.Inked) (c.highlightRow ed row b) := by
  unfold HighlightCache.highlightRow
  refine .of_bind' fun len hlen => (h.ensureRowCap row len).bind fun r hr =>
    .of_bind' fun line hline => ?_
  obtain ⟨dst, c₁⟩ := r
  have hline' := lineText_length hlen hline
  cases dst with
  | false => exact .some (by simpa using hr)
  | true =>
    have hcolors := lineColors_length c₁.currentLang b line
    refine Sat.bind (InkedBut.writeColors (by simpa using hr)
      (lineColors_inPalette c₁.currentLang b line) (hcolors.trans (by omega))) fun c₂ h₂ => .some h₂

theorem Inked.syncInserted (h : c.Inked) (newCount cursorRow oldCount : Int) :
    Sat Inked (c.syncInserted newCount cursorRow oldCount) := by
  unfold HighlightCache.syncInserted
  dsimp only
  have hgrow := h.growRows newCount
  generalize c.growRows newCount = grown at hgrow ⊢
  obtain ⟨ok, c₁⟩ := grown
  refine .ite (.some h) (.ite (.some hgrow) ?_)
  refine .ite ((hgrow.moveRows _ _ _).bind fun c₂ h₂ => ?_) ?_
  · exact (h₂.freeRow _).bind fun c₃ h₃ => h₃.setRow inked_null _
  · exact (hgrow.freeRow _).bind fun c₃ h₃ => h₃.setRow inked_null _

theorem Inked.syncDeleted (h : c.Inked) (cursorRow oldCount : Int) :
    Sat Inked (c.syncDeleted cursorRow oldCount) := by
  unfold HighlightCache.syncDeleted
  dsimp only
  generalize (if oldCount < c.lineColors.length then oldCount else (c.lineColors.length : Int)) = eff
  have hlast {c : HighlightCache} (h : c.Inked) : Sat Inked
      (if 0 ≤ eff - 1 ∧ eff - 1 < c.lineColors.length then c.setRow (eff - 1) .null
        else pure c) :=
    .ite (h.setRow inked_null _) (.some h)
  refine .ite (.some h) ((h.freeRow _).bind fun c₁ h₁ => (h₁.freeRow _).bind fun c₂ h₂ => ?_)
  exact .ite ((h₂.moveRows _ _ _).bind fun c₃ h₃ => hlast h₃) (hlast h₂)

theorem Inked.sync (h : c.Inked) (newCount cursorRow : Int) :
    Sat Inked (c.sync newCount cursorRow) := by
  unfold HighlightCache.sync
  dsimp only
  refine .ite (.some h) (.ite (.some h) (.ite ?_ (.ite ?_ ?_)))
  · exact (h.syncInserted _ _ _).bind fun c₁ h₁ => .some h₁
  · exact (h.syncDeleted _ _).bind fun c₁ h₁ => .some h₁
  · exact .some (inked_invalidateAll c)

/-- `highlight_cache_get_line`: what it returns, and what it leaves. -/
theorem Inked.getLine (h : c.Inked) (ed : Editor) (row : Int) :
    Sat (fun r => (∀ block ∈ r.1, InPalette block) ∧ r.2.Inked) (c.getLine ed row) := by
  unfold HighlightCache.getLine
  have hgrow := h.growRows (row + 1)
  generalize c.growRows (row + 1) = grown at hgrow ⊢
  obtain ⟨ok, c₁⟩ := grown
  refine .ite (.some ⟨nofun, hgrow⟩) ((hgrow.row row).bind fun e he => ?_)
  refine .ite (.some ⟨he, hgrow⟩) ((hgrow.highlightRow ed row _).bind fun r hr => ?_)
  exact .ite (.some ⟨nofun, hr⟩) ((hr.row row).bind fun e' he' => .some ⟨he', hr⟩)

theorem Inked.growFlags (h : c.Inked) (needed : Int) : (c.growFlags needed).2.Inked := by
  unfold HighlightCache.growFlags
  split
  · exact h
  · split
    · exact h
    · exact h

theorem Inked.setFlag (h : c.Inked) (row : Int) (flag : Bool) : Sat Inked (c.setFlag row flag) := by
  unfold HighlightCache.setFlag
  exact .of_bind fun flags => .some h

theorem Inked.rebuildFullLoop (h : c.Inked) (ed : Editor) (n : Nat) (row : Int) (b : Bool) :
    Sat Inked (rebuildFullLoop ed n row b c) := by
  induction n generalizing c row b with
  | zero => exact .some h
  | succ n ih =>
    unfold HighlightCache.rebuildFullLoop
    exact (h.setFlag row b).bind fun c₁ h₁ => .of_bind fun line => ih h₁ _ _

theorem Inked.rebuildLoop (h : c.Inked) (ed : Editor) (n : Nat) (row : Int) (b : Bool) :
    Sat Inked (rebuildLoop ed n row b c) := by
  induction n generalizing c row b with
  | zero => exact .some h
  | succ n ih =>
    unfold HighlightCache.rebuildLoop
    refine (h.highlightRow ed row b).bind fun r hr => .ite ?_ (ih hr _ _)
    refine .of_bind fun flag => .ite (.some hr) ?_
    exact (hr.freeRow _).bind fun c₁ h₁ => (h₁.setFlag _ _).bind fun c₂ h₂ => ih h₂ _ _

theorem Inked.rebuildFrom (h : c.Inked) (ed : Editor) (row : Int) :
    Sat Inked (c.rebuildFrom ed row) := by
  unfold HighlightCache.rebuildFrom
  dsimp only
  have hgrow := h.growFlags (ed.doc.rowCount + 1)
  generalize c.growFlags (ed.doc.rowCount + 1) = grown at hgrow ⊢
  obtain ⟨ok, c₁⟩ := grown
  exact .ite (.some h) (.ite (.some hgrow) (.of_bind fun flag => hgrow.rebuildLoop ed _ _ _))

theorem inked_setLanguage (ed : Editor) (lang : SyntaxLanguage) :
    Sat Inked (c.setLanguage ed lang) := by
  unfold HighlightCache.setLanguage HighlightCache.rebuildFull
  dsimp only
  have hcleared : { c with currentLang := lang }.invalidateAll.Inked := inked_invalidateAll _
  generalize { c with currentLang := lang }.invalidateAll = c₀ at hcleared ⊢
  have hgrow := hcleared.growFlags (ed.doc.rowCount + 1)
  generalize c₀.growFlags (ed.doc.rowCount + 1) = grown at hgrow ⊢
  obtain ⟨ok, c₁⟩ := grown
  exact .ite (.some hgrow) (hgrow.rebuildFullLoop ed _ _ _)

theorem Inked.call (h : c.Inked) (call : Call) : Sat Inked (c.call call) := by
  cases call with
  | sync newCount cursorRow => exact h.sync newCount cursorRow
  | freeRow row => exact h.freeRow row
  | getLine ed row =>
    intro c' hc
    obtain ⟨r, hr, rfl⟩ := Option.map_eq_some_iff.1 hc
    exact (h.getLine ed row r hr).2
  | setLanguage ed lang => exact inked_setLanguage ed lang
  | rebuildFrom ed row => exact h.rebuildFrom ed row
  | cleanup => exact .some (List.forall_mem_nil _)

/-- Any calls, from the start: no array has a cell that was not written. -/
theorem inked_calls (heap : Heap) (calls : List Call) :
    Sat Inked (calls.foldlM HighlightCache.call (.static heap)) :=
  .foldlM (fun _ call h => Inked.call h call)
    (show (HighlightCache.static heap).Inked from List.forall_mem_nil _) calls

end Inked

end HighlightCache

namespace Tokenizer

open Syntax

/-- In an array without uninitialised cells the function stores what the cache takes it
to store: the colours of the line, in front of what the array had. -/
theorem highlightLine_block (lang : SyntaxLanguage) (b : Bool) (line : List UInt8)
    {block : List UInt32} (hroom : line.length ≤ block.length) :
    highlightLine line b lang (some (block.map some)) =
      some (some ((lineColors lang b line ++ block.drop line.length).map some),
        commentAfter lang b line) := by
  rw [highlightLine_refines lang b line fun cells hcells => by
    rw [← Option.some.inj hcells, List.length_map]
    exact hroom]
  simp [ink, lineColors_length]

/-- `syntax_highlight_line` comes to an end without a read past the line and, given an
array, without a store past it, and has then written all cells of the line and no other.
The arrays that `highlight_cache_get_line` returns have no unwritten cell, whatever calls
came before. -/
theorem line_covered (lang : SyntaxLanguage) (b : Bool) (line : List UInt8)
    {cells : List (Option UInt32)} (hroom : line.length ≤ cells.length) :
    (∃ (colors : List UInt32) (out : Bool), colors.length = line.length ∧
      highlightLine line b lang (some cells) =
        some (some (colors.map some ++ cells.drop line.length), out) ∧
      highlightLine line b lang none = some (none, out)) ∧
    ∀ (heap : Heap) (calls : List HighlightCache.Call) (c c' : HighlightCache) (ed : Editor)
      (row : Int) (block : List UInt32),
      calls.foldlM HighlightCache.call (.static heap) = some c →
      c.getLine ed row = some (some block, c') → InPalette block := by
  refine ⟨⟨lineColors lang b line, commentAfter lang b line, lineColors_length lang b line, ?_,
    highlightLine_refines lang b line nofun⟩, ?_⟩
  · rw [highlightLine_refines lang b line fun x hx => Option.some.inj hx ▸ hroom, ink,
      Option.map_some, lineColors_length]
  · intro heap calls c c' ed row block hrun hline
    exact ((HighlightCache.inked_calls heap calls c hrun).getLine ed row _ hline).1 block rfl

/-- A line that ends in a member access, in an array of its size as `malloc` gives it. -/
theorem line_covered_member : ∃ (colors : List UInt32) (out : Bool), colors.length = 6 ∧
    highlightLine (ascii "a->b.c") false .c (some (List.replicate 6 none)) =
      some (some (colors.map some ++ []), out) ∧
    highlightLine (ascii "a->b.c") false .c none = some (none, out) :=
  have hroom : (ascii "a->b.c").length ≤ (List.replicate 6 (none : Option UInt32)).length := by
    decide
  (line_covered .c false (ascii "a->b.c") hroom).1

end Tokenizer

end LCode
