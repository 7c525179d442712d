import Mathlib.Data.List.FinRange

/-!
# Rasters

A raster of `w` columns and `h` rows is a vector of `h * w` cells, row after row.
The nested loop over its rows and columns has an invariant rule: what holds of
the cells done so far, extended cell by cell, holds of all cells at the end. What a
drawing step paints in one colour is an area of cells, and areas add up.
-/

namespace LCode

/-- `w` columns and `h` rows of cells, row after row. -/
abbrev Raster (α : Type*) (w h : Nat) := Vector α (h * w)

namespace Raster

variable {α σ : Type*} {w h : Nat}

theorem index_lt (x : Fin w) (y : Fin h) : y * w + x < h * w :=
  calc y * w + x < y * w + w := Nat.add_lt_add_left x.isLt _
    _ = (y + 1) * w := (Nat.succ_mul _ _).symm
    _ ≤ h * w := Nat.mul_le_mul_right w y.isLt

/-- The cell in column `x` of row `y`. -/
def cell (r : Raster α w h) (x : Fin w) (y : Fin h) : α :=
  have hlt := index_lt x y
  r[y * w + x]

/-- The cell in column `x` of row `y` is overwritten. -/
def put (r : Raster α w h) (x : Fin w) (y : Fin h) (a : α) : Raster α w h :=
  r.set (y * w + x) a (index_lt x y)

theorem index_inj {x x' : Fin w} {y y' : Fin h} (heq : y * w + x = y' * w + (x' : Nat)) :
    x = x' ∧ y = y' := by
  have hpos : 0 < w := Nat.lt_of_le_of_lt (Nat.zero_le _) x.isLt
  have hx := congrArg (· % w) heq
  have hy := congrArg (· / w) heq
  simp only [Nat.mul_comm _ w, Nat.mul_add_mod, Nat.mod_eq_of_lt x.isLt,
    Nat.mod_eq_of_lt x'.isLt] at hx
  simp only [Nat.mul_comm _ w, Nat.mul_add_div hpos, Nat.div_eq_of_lt x.isLt,
    Nat.div_eq_of_lt x'.isLt, Nat.add_zero] at hy
  exact ⟨Fin.ext hx, Fin.ext hy⟩

theorem cell_put_self (r : Raster α w h) (x : Fin w) (y : Fin h) (a : α) :
    (r.put x y a).cell x y = a := by
  simp [cell, put]

theorem cell_put_ne (r : Raster α w h) {x x' : Fin w} {y y' : Fin h} (a : α)
    (hne : ¬ (x = x' ∧ y = y')) : (r.put x y a).cell x' y' = r.cell x' y' :=
  Vector.getElem_set_ne _ _ fun heq => hne (index_inj heq)

theorem cell_put (r : Raster α w h) (x x' : Fin w) (y y' : Fin h) (a : α) :
    (r.put x y a).cell x' y' = if x = x' ∧ y = y' then a else r.cell x' y' := by
  split
  · next heq =>
    obtain ⟨rfl, rfl⟩ := heq
    exact cell_put_self r x y a
  · next hne => exact cell_put_ne r a hne

/-- The store at the index of a cell. -/
theorem setIfInBounds_eq_put (r : Raster α w h) (x : Fin w) (y : Fin h) (a : α) :
    r.setIfInBounds (y * w + x) a = r.put x y a := by
  refine Vector.ext fun i hi => ?_
  simp only [put, Vector.getElem_setIfInBounds, Vector.getElem_set]

/-- A raster is determined by its cells. -/
theorem ext_cell {r s : Raster α w h} (heq : ∀ x y, r.cell x y = s.cell x y) : r = s := by
  refine Vector.ext fun i hi => ?_
  have hpos : 0 < w := Nat.pos_of_ne_zero fun h0 => by
    rw [h0, Nat.mul_zero] at hi
    exact absurd hi (Nat.not_lt_zero i)
  have hcell := heq ⟨i % w, Nat.mod_lt _ hpos⟩ ⟨i / w, Nat.div_lt_of_lt_mul (by rwa [Nat.mul_comm])⟩
  have hi' : i / w * w + i % w = i := by rw [Nat.mul_comm]; exact Nat.div_add_mod i w
  simpa only [cell, hi'] using hcell

/-! ## The loop over the cells -/

/-- `for (j = 0; j < h; j++) for (i = 0; i < w; i++) s = f(s, i, j);` -/
def loop (w h : Nat) (f : σ → Fin w → Fin h → σ) (s : σ) : σ :=
  (List.finRange h).foldl (fun s j => (List.finRange w).foldl (fun s i => f s i j) s) s

/-- The cells in the order of the loop. -/
def cells (w h : Nat) : List (Fin w × Fin h) :=
  (List.finRange h).flatMap fun j => (List.finRange w).map fun i => (i, j)

theorem loop_eq_foldl (f : σ → Fin w → Fin h → σ) (s : σ) :
    loop w h f s = (cells w h).foldl (fun s c => f s c.1 c.2) s := by
  simp only [loop, cells, List.foldl_flatMap, List.foldl_map]

theorem mem_cells (c : Fin w × Fin h) : c ∈ cells w h := by
  simp [cells]

theorem cells_nodup : (cells w h).Nodup := by
  refine List.nodup_flatMap.2 ⟨fun j _ => ?_, ?_⟩
  · exact (List.nodup_finRange w).map fun i i' heq => congrArg Prod.fst heq
  · refine (List.nodup_finRange h).imp fun hne => ?_
    intro c hc hc'
    obtain ⟨i, -, rfl⟩ := List.mem_map.1 hc
    obtain ⟨i', -, heq⟩ := List.mem_map.1 hc'
    exact hne (congrArg Prod.snd heq).symm

/-- The invariant rule: `I done s` is extended by each cell that is not yet done. -/
theorem loop_invariant {f : σ → Fin w → Fin h → σ} {I : (Fin w → Fin h → Prop) → σ → Prop}
    (step : ∀ done s i j, I done s → ¬ done i j →
      I (fun i' j' => done i' j' ∨ (i = i' ∧ j = j')) (f s i j))
    {s : σ} (hs : I (fun _ _ => False) s) : I (fun _ _ => True) (loop w h f s) := by
  have hrun : ∀ (todo : List (Fin w × Fin h)) (done : Fin w → Fin h → Prop) s, todo.Nodup →
      (∀ c ∈ todo, ¬ done c.1 c.2) → I done s →
      I (fun i j => done i j ∨ (i, j) ∈ todo) (todo.foldl (fun s c => f s c.1 c.2) s) := by
    intro todo
    induction todo with
    | nil =>
      intro done s _ _ hI
      simpa using hI
    | cons c todo ih =>
      intro done s hnodup hfresh hI
      obtain ⟨hnot, hnodup⟩ := List.nodup_cons.1 hnodup
      have heq : (fun i j => done i j ∨ (i, j) ∈ c :: todo) =
          fun i j => (done i j ∨ (c.1 = i ∧ c.2 = j)) ∨ (i, j) ∈ todo := by
        funext i j
        simp only [List.mem_cons, Prod.ext_iff, or_assoc, eq_comm]
      rw [heq]
      refine ih _ _ hnodup (fun c' hc' => ?_) (step done s c.1 c.2 hI (hfresh c (by simp)))
      rintro (hdone | ⟨h1, h2⟩)
      · exact hfresh c' (List.mem_cons_of_mem c hc') hdone
      · exact hnot ((Prod.ext h1 h2 : c = c') ▸ hc')
  have hall := hrun (cells w h) (fun _ _ => False) s cells_nodup (fun _ _ => not_false) hs
  simpa only [mem_cells, or_true, ← loop_eq_foldl] using hall

/-! ## Painting -/

/-- Where `A` holds the raster is painted with `a`, elsewhere it is left alone. -/
def Paints (A : Nat → Nat → Prop) (a : α) (r r' : Raster α w h) : Prop :=
  ∀ (x : Fin w) (y : Fin h), (A x y → r'.cell x y = a) ∧ (¬ A x y → r'.cell x y = r.cell x y)

namespace Paints

variable {A B : Nat → Nat → Prop} {a : α} {r r' r'' : Raster α w h}

theorem refl (hA : ∀ x y, x < w → y < h → ¬ A x y) (a : α) (r : Raster α w h) : Paints A a r r :=
  fun x y => ⟨fun hxy => absurd hxy (hA x y x.isLt y.isLt), fun _ => rfl⟩

theorem congr (hp : Paints A a r r') (hAB : ∀ x y, x < w → y < h → (A x y ↔ B x y)) :
    Paints B a r r' := by
  intro x y
  rw [← hAB x y x.isLt y.isLt]
  exact hp x y

theorem trans (hp : Paints A a r r') (hp' : Paints B a r' r'') :
    Paints (fun x y => A x y ∨ B x y) a r r'' := by
  intro x y
  obtain ⟨hB, hnotB⟩ := hp' x y
  obtain ⟨hA, hnotA⟩ := hp x y
  refine ⟨fun hor => ?_, fun hnor => ?_⟩
  · by_cases hb : B x y
    · exact hB hb
    · exact (hnotB hb).trans (hA (hor.resolve_right hb))
  · exact (hnotB fun hb => hnor (.inr hb)).trans (hnotA fun ha => hnor (.inl ha))

theorem put (r : Raster α w h) (x : Fin w) (y : Fin h) (a : α) :
    Paints (fun i j => i = x ∧ j = y) a r (r.put x y a) := by
  intro i j
  rw [cell_put]
  refine ⟨fun heq => if_pos ?_, fun hne => if_neg ?_⟩
  · exact ⟨Fin.ext heq.1.symm, Fin.ext heq.2.symm⟩
  · rintro ⟨rfl, rfl⟩
    exact hne ⟨rfl, rfl⟩

/-- The loop rule: the areas of the rounds add up. -/
theorem foldl {ι : Type*} {f : Raster α w h → ι → Raster α w h} {A : ι → Nat → Nat → Prop}
    {is : List ι} (hf : ∀ i ∈ is, ∀ r, Paints (A i) a r (f r i)) (r : Raster α w h) :
    Paints (fun x y => ∃ i ∈ is, A i x y) a r (is.foldl f r) := by
  induction is generalizing r with
  | nil => exact refl (fun _ _ _ _ => by simp) a r
  | cons i is ih =>
    have hrest := ih (fun j hj => hf j (List.mem_cons_of_mem i hj)) (f r i)
    exact congr (trans (hf i List.mem_cons_self r) hrest) fun x y _ _ => by simp

end Paints

end Raster

end LCode
