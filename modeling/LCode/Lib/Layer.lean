import LCode.Lib.Raster

/-!
# Layers

What a drawing step puts on the pixels is a layer: at each place a colour, or nothing.
Steps one after the other stack their layers, and the pixel shows the topmost one that
has a colour there, or else what it showed before.
-/

namespace LCode

/-- A colour for each pixel, `none` where the raster below is left alone. -/
abbrev Layer (α : Type*) := Nat → Nat → Option α

namespace Layer

variable {α : Type*} {w h : Nat}

/-- Nothing anywhere. -/
def empty : Layer α := fun _ _ => none

/-- One layer over another. -/
def atop (top bottom : Layer α) : Layer α := fun x y => (top x y).or (bottom x y)

/-- One colour on an area. -/
def fill (A : Nat → Nat → Prop) [∀ x y, Decidable (A x y)] (a : α) : Layer α :=
  fun x y => if A x y then some a else none

/-- The layers of a list, the last one topmost. -/
def stack : List (Layer α) → Layer α
  | [] => empty
  | L :: Ls => (stack Ls).atop L

@[simp] theorem atop_empty (L : Layer α) : L.atop empty = L := by
  funext x y
  simp [atop, empty]

@[simp] theorem empty_atop (L : Layer α) : (empty : Layer α).atop L = L := by
  funext x y
  simp [atop, empty]

theorem atop_assoc (L₁ L₂ L₃ : Layer α) : (L₁.atop L₂).atop L₃ = L₁.atop (L₂.atop L₃) := by
  funext x y
  exact Option.or_assoc ..

theorem stack_append (Ls Ls' : List (Layer α)) : stack (Ls ++ Ls') = (stack Ls').atop (stack Ls) := by
  induction Ls with
  | nil => rw [List.nil_append, stack, atop_empty]
  | cons L Ls ih => rw [List.cons_append, stack, ih, stack, atop_assoc]

section Pixel

variable {x y : Nat} {Ls : List (Layer α)}

theorem stack_eq_none (hnone : ∀ L ∈ Ls, L x y = none) : stack Ls x y = none := by
  induction Ls with
  | nil => rfl
  | cons L Ls ih =>
    have hrest : stack Ls x y = none := ih fun L' hL' => hnone L' (List.mem_cons_of_mem L hL')
    rw [stack, atop, hrest, Option.none_or]
    exact hnone L List.mem_cons_self

end Pixel

/-! ## Drawing steps -/

/-- From `r` to `r'` the layer was drawn. -/
def Draws (L : Layer α) (r r' : Raster α w h) : Prop :=
  ∀ x y, r'.cell x y = (L x y).getD (r.cell x y)

namespace Draws

variable {L L' : Layer α} {r r' r'' : Raster α w h}

theorem refl (r : Raster α w h) : Draws empty r r := fun _ _ => rfl

theorem trans (hd : Draws L r r') (hd' : Draws L' r' r'') : Draws (L'.atop L) r r'' := by
  intro x y
  rw [hd' x y, hd x y, atop]
  cases L' x y <;> rfl

theorem congr (hd : Draws L r r') (heq : ∀ x y, x < w → y < h → L' x y = L x y) :
    Draws L' r r' := by
  intro x y
  rw [heq x y x.isLt y.isLt]
  exact hd x y

theorem eq_of_some (hd : Draws L r r') {x : Fin w} {y : Fin h} {a : α} (hsome : L x y = some a) :
    r'.cell x y = a := by
  rw [hd x y, hsome, Option.getD_some]

/-- An area painted in one colour. -/
theorem of_paints {A : Nat → Nat → Prop} [∀ x y, Decidable (A x y)] {a : α}
    (hp : Raster.Paints A a r r') : Draws (fill A a) r r' := by
  intro x y
  obtain ⟨hA, hnot⟩ := hp x y
  rw [fill]
  split
  · next hxy => exact hA hxy
  · next hxy => exact hnot hxy

/-- The steps of a list, one after the other. -/
theorem foldl {ι : Type*} {draw : Raster α w h → ι → Raster α w h} {layer : ι → Layer α}
    {is : List ι} (hstep : ∀ i ∈ is, ∀ r, Draws (layer i) r (draw r i)) (r : Raster α w h) :
    Draws (stack (is.map layer)) r (is.foldl draw r) := by
  induction is generalizing r with
  | nil => exact refl r
  | cons i is ih =>
    have hrest := ih (fun j hj => hstep j (List.mem_cons_of_mem i hj)) (draw r i)
    exact trans (hstep i List.mem_cons_self r) hrest

end Draws

end Layer

end LCode
