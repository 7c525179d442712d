import Mathlib.Data.List.Nodup
import Mathlib.Order.Lattice

/-!
# Sorting by a comparator

A comparator answers with a negative number where its first argument comes first. A
sorting function is known by what it does where the comparator puts the elements of a
list, all of them different, into a strict total order: then the order in which they
came does not matter.
-/

namespace LCode.Sorting

variable {α κ : Type*} {cmp : α → α → Int} {l l' : List α}

/-- `cmp` is a strict total order on the different elements of `l`. -/
structure Orders (cmp : α → α → Int) (l : List α) : Prop where
  self : ∀ a ∈ l, cmp a a ≤ 0
  total : ∀ a ∈ l, ∀ b ∈ l, a ≠ b → cmp a b < 0 ∨ cmp b a < 0
  asymm : ∀ a ∈ l, ∀ b ∈ l, a ≠ b → cmp a b < 0 → 0 < cmp b a
  trans : ∀ a ∈ l, ∀ b ∈ l, ∀ c ∈ l, a ≠ c → cmp a b < 0 → cmp b c < 0 → cmp a c < 0

/-- What is asked of a sorting function. -/
def Sorts (qsort : (α → α → Int) → List α → List α) : Prop :=
  ∀ cmp l, l.Nodup → Orders cmp l →
    (qsort cmp l).Perm l ∧ (qsort cmp l).Pairwise fun a b => cmp a b < 0

namespace Orders

theorem perm (h : Orders cmp l) (hperm : l.Perm l') : Orders cmp l' where
  self a ha := h.self a (hperm.mem_iff.2 ha)
  total a ha b hb := h.total a (hperm.mem_iff.2 ha) b (hperm.mem_iff.2 hb)
  asymm a ha b hb := h.asymm a (hperm.mem_iff.2 ha) b (hperm.mem_iff.2 hb)
  trans a ha b hb c hc :=
    h.trans a (hperm.mem_iff.2 ha) b (hperm.mem_iff.2 hb) c (hperm.mem_iff.2 hc)

/-- The comparator that looks at a key in which the elements differ. -/
theorem of_key [LinearOrder κ] (key : α → κ) (hself : ∀ a ∈ l, cmp a a ≤ 0)
    (hneg : ∀ a ∈ l, ∀ b ∈ l, a ≠ b → key a ≠ key b ∧ (cmp a b < 0 ↔ key a < key b) ∧
      (0 < cmp a b ↔ key b < key a)) : Orders cmp l where
  self := hself
  total a ha b hb hne := by
    obtain ⟨hkey, hab, -⟩ := hneg a ha b hb hne
    obtain ⟨-, hba, -⟩ := hneg b hb a ha hne.symm
    rw [hab, hba]
    exact lt_or_gt_of_ne hkey
  asymm a ha b hb hne hlt := by
    obtain ⟨-, hab, -⟩ := hneg a ha b hb hne
    obtain ⟨-, -, hba⟩ := hneg b hb a ha hne.symm
    exact hba.2 (hab.1 hlt)
  trans a ha b hb c hc hne hab hbc := by
    by_cases hab' : a = b
    · exact hab' ▸ hbc
    by_cases hbc' : b = c
    · exact hbc' ▸ hab
    have h₁ := (hneg a ha b hb hab').2.1.1 hab
    have h₂ := (hneg b hb c hc hbc').2.1.1 hbc
    exact (hneg a ha c hc hne).2.1.2 (lt_trans h₁ h₂)

theorem eq_of_lt_of_lt (h : Orders cmp l) {a b : α} (ha : a ∈ l) (hb : b ∈ l)
    (hab : cmp a b < 0) (hba : cmp b a < 0) : a = b := by
  by_contra hne
  have := h.asymm a ha b hb hne hab
  omega

theorem lt_of_le (h : Orders cmp l) {a b : α} (ha : a ∈ l) (hb : b ∈ l) (hne : a ≠ b)
    (hle : cmp a b ≤ 0) : cmp a b < 0 := by
  rcases h.total a ha b hb hne with hlt | hlt
  · exact hlt
  · have := h.asymm b hb a ha hne.symm hlt
    omega

end Orders

/-- The result does not depend on the order of the list. -/
theorem Sorts.eq_of_perm {qsort : (α → α → Int) → List α → List α} (hsort : Sorts qsort)
    (hnodup : l.Nodup) (horders : Orders cmp l) (hperm : l.Perm l') :
    qsort cmp l' = qsort cmp l := by
  obtain ⟨hp, hs⟩ := hsort cmp l hnodup horders
  obtain ⟨hp', hs'⟩ := hsort cmp l' (hperm.nodup_iff.1 hnodup) (horders.perm hperm)
  refine List.Perm.eq_of_pairwise (fun a b ha hb hab hba => ?_) hs' hs
    (hp'.trans (hperm.symm.trans hp.symm))
  exact horders.eq_of_lt_of_lt (hperm.mem_iff.2 (hp'.mem_iff.1 ha)) (hp.mem_iff.1 hb) hab hba

/-- Merge sort is a sorting function. -/
theorem sorts_mergeSort : Sorts fun (cmp : α → α → Int) l => l.mergeSort (cmp · · ≤ 0) := by
  intro cmp l hnodup h
  have hperm := List.mergeSort_perm l (fun a b => decide (cmp a b ≤ 0))
  refine ⟨hperm, ?_⟩
  -- the comparator is total and transitive on the elements of `l` only
  have hle : (l.attach.mergeSort fun a b => decide (cmp a.1 b.1 ≤ 0)).Pairwise
      fun a b => decide (cmp a.1 b.1 ≤ 0) = true := by
    refine List.pairwise_mergeSort (fun a b c hab hbc => ?_) (fun a b => ?_) _
    · simp only [decide_eq_true_eq] at hab hbc ⊢
      by_cases hac : a.1 = c.1
      · exact hac ▸ h.self a.1 a.2
      by_cases hab' : a.1 = b.1
      · exact hab' ▸ hbc
      by_cases hbc' : b.1 = c.1
      · exact hbc' ▸ hab
      · exact Int.le_of_lt (h.trans a.1 a.2 b.1 b.2 c.1 c.2 hac
          (h.lt_of_le a.2 b.2 hab' hab) (h.lt_of_le b.2 c.2 hbc' hbc))
    · simp only [Bool.or_eq_true, decide_eq_true_eq]
      by_cases hab : a.1 = b.1
      · exact .inl (hab ▸ h.self a.1 a.2)
      · exact (h.total a.1 a.2 b.1 b.2 hab).imp Int.le_of_lt Int.le_of_lt
  have hmap : (l.attach.mergeSort fun a b => decide (cmp a.1 b.1 ≤ 0)).map Subtype.val =
      l.mergeSort fun a b => decide (cmp a b ≤ 0) := by
    rw [List.map_mergeSort (s := fun a b => decide (cmp a b ≤ 0)) fun _ _ _ _ => rfl,
      List.attach_map_subtype_val]
  have hsorted : (l.mergeSort fun a b => decide (cmp a b ≤ 0)).Pairwise
      fun a b => cmp a b ≤ 0 := by
    rw [← hmap, List.pairwise_map]
    exact hle.imp fun hab => of_decide_eq_true hab
  have hne := hperm.nodup_iff.2 hnodup
  refine (hsorted.and hne).imp_of_mem fun ha hb hab => ?_
  exact h.lt_of_le (hperm.mem_iff.1 ha) (hperm.mem_iff.1 hb) hab.2 hab.1

/-- In a list where those of `p` come first, they are its front. -/
theorem eq_filter_append {p : α → Bool} (h : l.Pairwise fun a b => p b = true → p a = true) :
    l = l.filter p ++ l.filter (!p ·) := by
  induction l with
  | nil => rfl
  | cons a l ih =>
    obtain ⟨ha, hl⟩ := List.pairwise_cons.1 h
    cases hp : p a with
    | true => simpa [hp] using ih hl
    | false =>
      have hnone : ∀ b ∈ l, p b = false := fun b hb =>
        Bool.eq_false_iff.2 fun hb' => by simp [ha b hb hb'] at hp
      have hfront : l.filter p = [] := List.filter_eq_nil_iff.2 fun b hb => by simp [hnone b hb]
      have hback : l.filter (!p ·) = l := List.filter_eq_self.2 fun b hb => by simp [hnone b hb]
      simp [hp, hfront, hback]

end LCode.Sorting
