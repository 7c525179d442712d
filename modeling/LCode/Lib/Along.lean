import Mathlib.Data.Option.Basic

/-!
# Conditions along a run

A step may fault. `Along step P s is` says that every step of the run over the
inputs `is` meets `P`, of the state before it and its input; after a fault nothing
is asked.
-/

namespace LCode

variable {σ ι : Type*} {step : σ → ι → Option σ} {P Q : σ → ι → Prop} {I : σ → Prop} {s s' : σ}
  {is : List ι}

/-- Every step of the run from `s` meets `P`. -/
def Along (step : σ → ι → Option σ) (P : σ → ι → Prop) (s : σ) : List ι → Prop
  | [] => True
  | i :: is => P s i ∧ ∀ s' ∈ step s i, Along step P s' is

namespace Along

instance decidable [∀ s i, Decidable (P s i)] :
    ∀ (s : σ) (is : List ι), Decidable (Along step P s is)
  | _, [] => inferInstanceAs (Decidable True)
  | s, i :: is =>
    have (s' : σ) : Decidable (Along step P s' is) := decidable s' is
    inferInstanceAs (Decidable (P s i ∧ ∀ s' ∈ step s i, Along step P s' is))

/-- The invariant rule: a step that meets `P` keeps `I`, and where `I` holds such a
step meets `Q`. -/
theorem of_invariant (keep : ∀ s i s', I s → P s i → step s i = some s' → I s')
    (meets : ∀ s i, I s → P s i → Q s i) (hs : I s) (h : Along step P s is) :
    Along step Q s is := by
  induction is generalizing s with
  | nil => trivial
  | cons i is ih =>
    refine ⟨meets s i hs h.1, fun s' hstep => ?_⟩
    exact ih (keep s i s' hs h.1 hstep) (h.2 s' hstep)

/-- On runs whose steps meet `D`, conditions that agree under an invariant agree. -/
theorem iff_of_invariant {D : σ → ι → Prop}
    (keep : ∀ s i s', I s → D s i → step s i = some s' → I s')
    (meets : ∀ s i, I s → D s i → (P s i ↔ Q s i)) (hs : I s) (h : Along step D s is) :
    Along step P s is ↔ Along step Q s is := by
  induction is generalizing s with
  | nil => exact Iff.rfl
  | cons i is ih =>
    refine and_congr (meets s i hs h.1) (forall_congr' fun s' => imp_congr_right fun hstep => ?_)
    exact ih (keep s i s' hs h.1 hstep) (h.2 s' hstep)

/-- The invariant holds where the run ends. -/
theorem foldlM_invariant (keep : ∀ s i s', I s → P s i → step s i = some s' → I s') (hs : I s)
    (h : Along step P s is) (hrun : is.foldlM step s = some s') : I s' := by
  induction is generalizing s with
  | nil =>
    obtain rfl := Option.some.inj hrun
    exact hs
  | cons i is ih =>
    obtain ⟨s₁, hstep, hrun⟩ := Option.bind_eq_some_iff.1 hrun
    exact ih (keep s i s₁ hs h.1 hstep) (h.2 s₁ hstep) hrun

/-- What holds in every state reached: where, in a state of `I` and `G`, a step leads to
one of `G` exactly if it meets `P`, every beginning of a run ends in `G` exactly if every
step of the run meets `P`. -/
theorem prefixes_iff {G : σ → Prop} (keep : ∀ s i s', I s → G s → step s i = some s' → I s')
    (meets : ∀ s i, I s → G s → (P s i ↔ ∃ s', step s i = some s' ∧ G s')) (hs : I s) :
    (∀ n, ∃ s', (is.take n).foldlM step s = some s' ∧ G s') ↔ G s ∧ Along step P s is := by
  induction is generalizing s with
  | nil =>
    constructor
    · intro h
      obtain ⟨s', heq, hg⟩ := h 0
      exact ⟨Option.some.inj heq ▸ hg, trivial⟩
    · rintro ⟨hg, -⟩ n
      exact ⟨s, by rw [List.take_nil]; rfl, hg⟩
  | cons i is ih =>
    constructor
    · intro h
      obtain ⟨s₀, heq, hg⟩ := h 0
      obtain rfl := Option.some.inj heq
      obtain ⟨s₁, hrun, hg₁⟩ := h 1
      have hstep : step s i = some s₁ := by simpa using hrun
      refine ⟨hg, (meets s i hs hg).2 ⟨s₁, hstep, hg₁⟩, fun s' hs' => ?_⟩
      obtain rfl := Option.some.inj (hstep.symm.trans hs')
      refine ((ih (keep s i s₁ hs hg hstep)).1 fun n => ?_).2
      simpa [hstep] using h (n + 1)
    · rintro ⟨hg, hp, hrest⟩ n
      cases n with
      | zero => exact ⟨s, rfl, hg⟩
      | succ n =>
        obtain ⟨s₁, hstep, hg₁⟩ := (meets s i hs hg).1 hp
        simpa [hstep] using (ih (keep s i s₁ hs hg hstep)).2 ⟨hg₁, hrest s₁ hstep⟩ n

end Along

/-- What holds of every beginning of a list: where each element keeps `P` of what comes
before it exactly if it meets `C`, all beginnings have `P` exactly if all elements meet
`C`. -/
theorem forall_take_iff {α : Type*} {P : List α → Prop} {C : List α → α → Prop} (hnil : P [])
    (hstep : ∀ l a, P l → (P (l ++ [a]) ↔ C l a)) (l : List α) :
    (∀ n, P (l.take n)) ↔ ∀ (n : Nat) a, l[n]? = some a → C (l.take n) a := by
  constructor
  · intro h n a ha
    have hnext := h (n + 1)
    rw [List.take_add_one, ha, Option.toList_some] at hnext
    exact (hstep _ a (h n)).1 hnext
  · intro h n
    induction n with
    | zero => exact hnil
    | succ n ih =>
      rw [List.take_add_one]
      cases ha : l[n]? with
      | none =>
        rw [Option.toList_none, List.append_nil]
        exact ih
      | some a =>
        rw [Option.toList_some]
        exact (hstep _ a ih).2 (h n a ha)

end LCode
