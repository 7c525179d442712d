import Mathlib.Data.List.Basic

/-!
# Paths

An absolute path is a stack of components, each written behind a separator; the
empty stack is the separator alone. Pushing a component appends it, and cutting the
path at its last separator pops one: the root is the special case of both.
-/

namespace LCode

namespace Path

variable {α : Type*}

/-- What can stand between two separators. -/
def Component (sep : α) (c : List α) : Prop := c ≠ [] ∧ sep ∉ c

instance [DecidableEq α] (sep : α) (c : List α) : Decidable (Component sep c) :=
  inferInstanceAs (Decidable (c ≠ [] ∧ sep ∉ c))

/-- Each component behind its separator. -/
def written (sep : α) (cs : List (List α)) : List α := cs.flatMap (sep :: ·)

/-- The path of a stack of components. -/
def render (sep : α) : List (List α) → List α
  | [] => [sep]
  | c :: cs => written sep (c :: cs)

variable {sep : α} {cs : List (List α)} {c : List α}

@[simp] theorem render_nil : render sep [] = [sep] := rfl

theorem render_of_ne (h : cs ≠ []) : render sep cs = written sep cs := by
  cases cs with
  | nil => exact absurd rfl h
  | cons c cs => rfl

theorem written_concat : written sep (cs ++ [c]) = written sep cs ++ sep :: c := by
  simp [written]

theorem render_concat : render sep (cs ++ [c]) = written sep cs ++ sep :: c := by
  rw [render_of_ne (by simp), written_concat]

theorem written_ne_nil (h : cs ≠ []) : written sep cs ≠ [] := by
  obtain ⟨c, cs, rfl⟩ := List.exists_cons_of_ne_nil h
  simp [written]

/-- Only the root is written as the separator alone. -/
theorem render_eq_sep_iff (h : ∀ c ∈ cs, Component sep c) : render sep cs = [sep] ↔ cs = [] := by
  constructor
  · intro heq
    rcases List.eq_nil_or_concat cs with rfl | ⟨cs, c, rfl⟩
    · rfl
    · have hlen := congrArg List.length heq
      have hc := List.length_pos_iff.2 (h c (by simp)).1
      rw [List.concat_eq_append, render_concat] at hlen
      simp only [List.length_append, List.length_cons, List.length_nil] at hlen
      omega
  · rintro rfl
    rfl

/-- A component pushed below the root. -/
theorem render_push (h : cs ≠ []) : render sep (cs ++ [c]) = render sep cs ++ [sep] ++ c := by
  rw [render_concat, render_of_ne h, List.append_assoc, List.singleton_append]

/-- What stands before the last separator. -/
def above [DecidableEq α] (sep : α) (x : List α) : List α :=
  (x.reverse.dropWhile (· ≠ sep)).tail.reverse

theorem above_append [DecidableEq α] {x : List α} (h : sep ∉ c) :
    above sep (x ++ sep :: c) = x := by
  have hskip : ∀ y ∈ c.reverse, decide (y ≠ sep) = true := by
    intro y hy
    rw [List.mem_reverse] at hy
    exact decide_eq_true fun heq => h (heq ▸ hy)
  have hrev : (x ++ sep :: c).reverse = c.reverse ++ sep :: x.reverse := by simp
  rw [above, hrev, List.dropWhile_append_of_pos hskip]
  simp

/-- The path cut at its last separator is written without its last component. -/
theorem above_render [DecidableEq α] (h : Component sep c) :
    above sep (render sep (cs ++ [c])) = written sep cs := by
  rw [render_concat, above_append h.2]

end Path

end LCode
