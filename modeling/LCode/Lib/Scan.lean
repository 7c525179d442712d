import Mathlib.Data.List.Basic

/-!
# Scans

`before f s xs r` is the state of a fold when it comes to element `r`. Marks that are
kept for the elements, one state each, are checked against it locally: they are right
from a place on if they are right there and each follows from the one before it.
This is what lets an incremental scan stop early.
-/

namespace LCode

namespace Scan

variable {σ α : Type*} (f : σ → α → σ) (s : σ) (xs : List α)

/-- The state in which the fold meets element `r`. -/
def before (r : Nat) : σ := (xs.take r).foldl f s

variable {f s xs} {r : Nat}

@[simp] theorem before_zero : before f s xs 0 = s := rfl

theorem before_succ (h : r < xs.length) : before f s xs (r + 1) = f (before f s xs r) xs[r] := by
  rw [before, List.take_succ_eq_append_getElem h, List.foldl_append]
  rfl

/-- The marks `g` are chained from element `r` on. -/
def Chained (f : σ → α → σ) (xs : List α) (g : Nat → σ) (r : Nat) : Prop :=
  ∀ k (h : k < xs.length), r ≤ k → k + 1 < xs.length → g (k + 1) = f (g k) xs[k]

theorem Chained.mono {g : Nat → σ} {r' : Nat} (h : Chained f xs g r) (hle : r ≤ r') :
    Chained f xs g r' :=
  fun k hk hr => h k hk (Nat.le_trans hle hr)

/-- The right marks are chained. -/
theorem chained_before {g : Nat → σ} (h : ∀ k < xs.length, g k = before f s xs k) :
    Chained f xs g 0 := by
  intro k hk _ hk'
  rw [h k hk, h (k + 1) hk', before_succ hk]

/-- Chained marks that are right at `r` are right from there on. -/
theorem Chained.eq_before {g : Nat → σ} (h : Chained f xs g r) (hr : g r = before f s xs r)
    {k : Nat} (hle : r ≤ k) (hk : k < xs.length) : g k = before f s xs k := by
  induction hle with
  | refl => exact hr
  | @step k hle ih =>
    rw [h k (by omega) hle hk, ih (by omega), before_succ]

end Scan

end LCode
