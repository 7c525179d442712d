import LCode.Lib.Sat
import Mathlib.Data.List.Basic

/-!
# Machines

A machine takes one input at a time, gives outputs and may fault. A run over a
list of inputs collects the outputs; a fault ends it without a result.
-/

namespace LCode

variable {σ ι ο : Type*}

/-- One step: the next state and the outputs, or a fault. -/
abbrev Machine (σ ι ο : Type*) := σ → ι → Option (σ × List ο)

namespace Machine

/-- The run over a list of inputs. -/
def run (m : Machine σ ι ο) (s : σ) : List ι → Option (σ × List ο)
  | [] => some (s, [])
  | i :: is => do
    let (s, os) ← m s i
    let (s, os') ← run m s is
    return (s, os ++ os')

@[simp] theorem run_nil (m : Machine σ ι ο) (s : σ) : run m s [] = some (s, []) := rfl

variable {m : Machine σ ι ο} {s s' s'' : σ} {i : ι} {is js : List ι} {os os' : List ο}

theorem run_cons (h : m s i = some (s', os)) (hrun : run m s' is = some (s'', os')) :
    run m s (i :: is) = some (s'', os ++ os') := by
  simp [run, h, hrun]

theorem run_append (h : run m s is = some (s', os)) (h' : run m s' js = some (s'', os')) :
    run m s (is ++ js) = some (s'', os ++ os') := by
  induction is generalizing s os with
  | nil =>
    simp only [run_nil, Option.some.injEq, Prod.mk.injEq] at h
    obtain ⟨rfl, rfl⟩ := h
    simpa using h'
  | cons i is ih =>
    simp only [run, Option.bind_eq_bind, Option.bind_eq_some_iff, Prod.exists, Option.pure_def,
      Option.some.injEq, Prod.mk.injEq] at h
    obtain ⟨s₁, os₁, hstep, s₂, os₂, hrest, rfl, rfl⟩ := h
    rw [List.cons_append, List.append_assoc]
    exact run_cons hstep (ih hrest)

/-- The invariant rule: where no step faults from a state of `I` and each leads
back to one, no run does. -/
theorem run_invariant {I : σ → Prop}
    (step : ∀ s i, I s → ∃ s' os, m s i = some (s', os) ∧ I s') (hs : I s) (is : List ι) :
    ∃ s' os, run m s is = some (s', os) ∧ I s' := by
  induction is generalizing s with
  | nil => exact ⟨s, [], rfl, hs⟩
  | cons i is ih =>
    obtain ⟨s₁, os₁, hstep, h₁⟩ := step s i hs
    obtain ⟨s₂, os₂, hrun, h₂⟩ := ih h₁
    exact ⟨s₂, os₁ ++ os₂, run_cons hstep hrun, h₂⟩

/-- The invariant rule for steps that may fault. -/
theorem run_sat {I : σ → Prop} {O : ο → Prop}
    (step : ∀ s i, I s → Sat (fun r => I r.1 ∧ ∀ o ∈ r.2, O o) (m s i)) (hs : I s)
    (is : List ι) : Sat (fun r => I r.1 ∧ ∀ o ∈ r.2, O o) (run m s is) := by
  induction is generalizing s with
  | nil => exact .some ⟨hs, nofun⟩
  | cons i is ih =>
    refine (step s i hs).bind fun ⟨s₁, os₁⟩ ⟨h₁, hos₁⟩ => ?_
    refine (ih h₁).bind fun ⟨s₂, os₂⟩ ⟨h₂, hos₂⟩ => ?_
    exact .some ⟨h₂, fun o ho => (List.mem_append.1 ho).elim (hos₁ o) (hos₂ o)⟩

/-- A run without its outputs is a run of the steps without theirs. -/
theorem map_fst_run (step : σ → ι → Option σ) (h : ∀ s i, (m s i).map Prod.fst = step s i)
    (s : σ) (is : List ι) : (run m s is).map Prod.fst = is.foldlM step s := by
  induction is generalizing s with
  | nil => rfl
  | cons i is ih =>
    rw [List.foldlM_cons, ← h]
    cases hm : m s i with
    | none => simp [run, hm]
    | some r =>
      simp only [run, hm, Option.bind_eq_bind, Option.bind_some, Option.map_some]
      rw [← ih]
      cases run m r.1 is <;> rfl

/-- Where a step gives at most one output, a run gives at most one an input. -/
theorem length_run_le (hm : ∀ s i s' os, m s i = some (s', os) → os.length ≤ 1)
    (h : run m s is = some (s', os)) : os.length ≤ is.length := by
  induction is generalizing s os with
  | nil =>
    simp only [run_nil, Option.some.injEq, Prod.mk.injEq] at h
    obtain ⟨-, rfl⟩ := h
    exact Nat.le_refl 0
  | cons i is ih =>
    simp only [run, Option.bind_eq_bind, Option.bind_eq_some_iff, Prod.exists, Option.pure_def,
      Option.some.injEq, Prod.mk.injEq] at h
    obtain ⟨s₁, os₁, hstep, s₂, os₂, hrest, rfl, rfl⟩ := h
    have h₁ := hm _ _ _ _ hstep
    have h₂ := ih hrest
    rw [List.length_append, List.length_cons]
    omega

/-- The refinement rule: where each step matches one of `step'` and gives outputs of
`P`, so does a run. -/
theorem run_refines {τ : Type*} {step' : τ → ι → τ} {R : σ → τ → Prop} {P : ο → Prop}
    (step : ∀ s x i, R s x → ∃ s' os, m s i = some (s', os) ∧ R s' (step' x i) ∧ ∀ o ∈ os, P o)
    {x : τ} (h : R s x) (is : List ι) :
    ∃ s' os, run m s is = some (s', os) ∧ R s' (is.foldl step' x) ∧ ∀ o ∈ os, P o := by
  induction is generalizing s x with
  | nil => exact ⟨s, [], rfl, h, nofun⟩
  | cons i is ih =>
    obtain ⟨s₁, os₁, hstep, h₁, hos₁⟩ := step s x i h
    obtain ⟨s₂, os₂, hrun, h₂, hos₂⟩ := ih h₁
    refine ⟨s₂, os₁ ++ os₂, run_cons hstep hrun, h₂, fun o ho => ?_⟩
    exact (List.mem_append.1 ho).elim (hos₁ o) (hos₂ o)

/-- The simulation rule: where each step is a step of `m'` with the same outputs, so is
a run. -/
theorem run_simulates {τ : Type*} {m' : Machine τ ι ο} {R : σ → τ → Prop}
    (step : ∀ s x i, R s x → ∃ s' x' os, m s i = some (s', os) ∧ m' x i = some (x', os) ∧ R s' x')
    {x : τ} (h : R s x) (is : List ι) :
    ∃ s' x' os, run m s is = some (s', os) ∧ run m' x is = some (x', os) ∧ R s' x' := by
  induction is generalizing s x with
  | nil => exact ⟨s, x, [], rfl, rfl, h⟩
  | cons i is ih =>
    obtain ⟨s₁, x₁, os₁, hs₁, hx₁, h₁⟩ := step s x i h
    obtain ⟨s₂, x₂, os₂, hs₂, hx₂, h₂⟩ := ih h₁
    exact ⟨s₂, x₂, os₁ ++ os₂, run_cons hs₁ hs₂, run_cons hx₁ hx₂, h₂⟩

end Machine

end LCode
