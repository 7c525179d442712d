import Mathlib.Data.Option.Basic

/-!
# Partial correctness

`Sat P x` says that `P` holds of the result of a computation that may fault. It is
closed under the operations such computations are built from.
-/

namespace LCode

variable {α β : Type*} {P Q : α → Prop} {R : β → Prop}

/-- Whatever comes out satisfies `P`. -/
def Sat (P : α → Prop) (x : Option α) : Prop := ∀ a, x = some a → P a

namespace Sat

theorem some {a : α} (h : P a) : Sat P (some a) := fun _ ha => Option.some.inj ha ▸ h

theorem none : Sat P Option.none := nofun

theorem mono {x : Option α} (hx : Sat Q x) (h : ∀ a, Q a → P a) : Sat P x :=
  fun a ha => h a (hx a ha)

theorem ite {c : Prop} [Decidable c] {x y : Option α} (hx : Sat P x) (hy : Sat P y) :
    Sat P (if c then x else y) := by
  split
  · exact hx
  · exact hy

theorem bind {x : Option α} {f : α → Option β} (hx : Sat P x) (h : ∀ a, P a → Sat R (f a)) :
    Sat R (x.bind f) := by
  intro b hb
  obtain ⟨a, hxa, ha⟩ := Option.bind_eq_some_iff.1 hb
  exact h a (hx a hxa) b ha

/-- Where nothing need be known of the first result. -/
theorem of_bind {x : Option α} {f : α → Option β} (h : ∀ a, Sat R (f a)) : Sat R (x.bind f) :=
  bind (P := fun _ => True) (fun _ _ => trivial) fun a _ => h a

/-- Where all that is known of the first result is that it came out. -/
theorem of_bind' {x : Option α} {f : α → Option β} (h : ∀ a, x = Option.some a → Sat R (f a)) :
    Sat R (x.bind f) :=
  bind (P := fun a => x = Option.some a) (fun _ ha => ha) h

/-- A loop over a list keeps what its body keeps. -/
theorem foldlM {ι : Type*} {f : α → ι → Option α} (hf : ∀ a i, P a → Sat P (f a i))
    {a : α} (ha : P a) (is : List ι) : Sat P (is.foldlM f a) := by
  induction is generalizing a with
  | nil => exact some ha
  | cons i is ih => exact (hf a i ha).bind fun a' ha' => ih ha'

end Sat

/-! ## Two computations -/

/-- Where the first computation has a good result, the second has its image. -/
def Lifts {γ : Type*} (good : α → Prop) (g : α → γ) (x : Option α) (y : Option γ) : Prop :=
  ∀ a, x = some a → good a → y = some (g a)

namespace Lifts

variable {α' β' γ : Type*} {goodA : α → Prop} {good : β → Prop} {k : α → α'} {g : β → β'}

theorem some {b : β} : Lifts good g (some b) (some (g b)) := fun _ hb _ => Option.some.inj hb ▸ rfl

theorem none {y : Option β'} : Lifts good g Option.none y := nofun

theorem of_bad {b : β} {y : Option β'} (h : ¬ good b) : Lifts good g (Option.some b) y :=
  fun _ hb hgood => absurd (Option.some.inj hb ▸ hgood) h

theorem ite {c : Prop} [Decidable c] {x y : Option β} {x' y' : Option β'} (hx : Lifts good g x x')
    (hy : Lifts good g y y') : Lifts good g (if c then x else y) (if c then x' else y') := by
  split
  · exact hx
  · exact hy

/-- After a bad result of the first part nothing good comes out. -/
theorem bind {x : Option α} {y : Option α'} {f : α → Option β} {f' : α' → Option β'}
    (hx : Lifts goodA k x y) (hf : ∀ a, goodA a → Lifts good g (f a) (f' (k a)))
    (hbad : ∀ a, ¬ goodA a → Sat (fun b => ¬ good b) (f a)) :
    Lifts good g (x.bind f) (y.bind f') := by
  intro b hb hgood
  obtain ⟨a, hxa, hfa⟩ := Option.bind_eq_some_iff.1 hb
  by_cases ha : goodA a
  · rw [hx a hxa ha, Option.bind_some]
    exact hf a ha b hfa hgood
  · exact absurd hgood (hbad a ha b hfa)

/-- A first part that both share. -/
theorem read {x : Option γ} {f : γ → Option β} {f' : γ → Option β'}
    (hf : ∀ c, Lifts good g (f c) (f' c)) : Lifts good g (x.bind f) (x.bind f') := by
  intro b hb hgood
  obtain ⟨c, hxc, hfc⟩ := Option.bind_eq_some_iff.1 hb
  rw [hxc, Option.bind_some]
  exact hf c b hfc hgood

/-- A first part whose every result has its image. -/
theorem step {x : Option α} {y : Option α'} {f : α → Option β} {f' : α' → Option β'}
    (hx : y = x.map k) (hf : ∀ a, Lifts good g (f a) (f' (k a))) :
    Lifts good g (x.bind f) (y.bind f') := by
  intro b hb hgood
  obtain ⟨a, hxa, hfa⟩ := Option.bind_eq_some_iff.1 hb
  rw [hx, hxa, Option.map_some, Option.bind_some]
  exact hf a b hfa hgood

end Lifts

/-! ## Faults with a reason -/

section Fault

variable {ε : Type*}

/-- No result is a fault of kind `e`. -/
def orFault (e : ε) : Option α → Except ε α
  | none => .error e
  | some a => .ok a

theorem ok_bind {γ : Type*} (a : α) (f : α → Except ε γ) : (Except.ok a).bind f = f a := rfl

/-- The first computation, whose faults have reasons, has a result where the second
has one, which `R` relates to it; its faults are for good reasons. -/
def Mirrors (good : ε → Prop) (R : α → β → Prop) : Except ε α → Option β → Prop
  | .ok a, some b => R a b
  | .error e, none => good e
  | .ok _, none => False
  | .error _, some _ => False

namespace Mirrors

variable {γ δ : Type*} {good : ε → Prop} {R : α → β → Prop} {S : γ → δ → Prop}

theorem ok {a : α} {b : β} (h : R a b) : Mirrors good R (Except.ok a) (Option.some b) := h

theorem bind {x : Except ε α} {y : Option β} {f : α → Except ε γ} {g : β → Option δ}
    (hxy : Mirrors good R x y) (h : ∀ a b, R a b → Mirrors good S (f a) (g b)) :
    Mirrors good S (x.bind f) (y.bind g) := by
  cases x with
  | ok a =>
    cases y with
    | some b => exact h a b hxy
    | none => exact hxy.elim
  | error e =>
    cases y with
    | some b => exact hxy.elim
    | none => exact hxy

/-- A first part that both share. -/
theorem read {e : ε} {x : Option α} (he : x = Option.none → good e) {f : α → Except ε γ} {g : α → Option δ}
    (h : ∀ a, x = Option.some a → Mirrors good S (f a) (g a)) :
    Mirrors good S ((orFault e x).bind f) (x.bind g) := by
  cases x with
  | none => exact he rfl
  | some a => exact h a rfl

theorem ite {c : Prop} [Decidable c] {x x' : Except ε α} {y y' : Option β} (h : Mirrors good R x y)
    (h' : Mirrors good R x' y') :
    Mirrors good R (if c then x else x') (if c then y else y') := by
  split
  · exact h
  · exact h'

end Mirrors

/-- The same, where the second computation may fault alone: the first has good results,
and those that the second has too are related. -/
def Follows (good : ε → Prop) (Q : α → Prop) (R : α → β → Prop) :
    Except ε α → Option β → Prop
  | .ok a, y => Q a ∧ ∀ b, y = some b → R a b
  | .error e, y => good e ∧ y = none

namespace Follows

variable {γ δ : Type*} {good : ε → Prop} {R : α → β → Prop} {S : γ → δ → Prop} {Q' : γ → Prop}

theorem ok {a : α} {b : β} (hQ : Q a) (hR : R a b) :
    Follows good Q R (Except.ok a) (Option.some b) :=
  ⟨hQ, fun _ hb => Option.some.inj hb ▸ hR⟩

theorem of_mirrors {x : Except ε α} {y : Option β}
    (h : Mirrors good (fun a b => Q a ∧ R a b) x y) : Follows good Q R x y := by
  cases x with
  | ok a =>
    cases y with
    | none => exact h.elim
    | some b => exact .ok h.1 h.2
  | error e =>
    cases y with
    | none => exact ⟨h, rfl⟩
    | some b => exact h.elim

theorem map {x : Except ε α} {y : Option β} {f : α → γ} {g : β → δ} (h : Follows good Q R x y)
    (hQ : ∀ a, Q a → Q' (f a)) (hR : ∀ a b, R a b → S (f a) (g b)) :
    Follows good Q' S (x.map f) (y.map g) := by
  cases x with
  | ok a =>
    refine ⟨hQ a h.1, fun d hd => ?_⟩
    obtain ⟨b, hb, rfl⟩ := Option.map_eq_some_iff.1 hd
    exact hR a b (h.2 b hb)
  | error e => exact ⟨h.1, by rw [h.2]; rfl⟩

theorem imp {good' : ε → Prop} {x : Except ε α} {y : Option β} (h : Follows good Q R x y)
    (hgood : ∀ e, good e → good' e) : Follows good' Q R x y := by
  cases x with
  | ok a => exact h
  | error e => exact ⟨hgood e h.1, h.2⟩

/-- Nothing is asked of a second computation that has faulted. -/
theorem alone {x : Except ε α} {y : Option β} (h : Follows good Q R x y) :
    Follows good Q R x Option.none := by
  cases x with
  | ok a => exact ⟨h.1, nofun⟩
  | error e => exact ⟨h.1, rfl⟩

theorem bind {x : Except ε α} {y : Option β} {f : α → Except ε γ} {g : β → Option δ}
    (hxy : Follows good Q R x y) (h : ∀ a b, Q a → R a b → Follows good Q' S (f a) (g b))
    (h' : ∀ a, Q a → Follows good Q' S (f a) Option.none) :
    Follows good Q' S (x.bind f) (y.bind g) := by
  cases x with
  | error e => exact ⟨hxy.1, by rw [hxy.2]; rfl⟩
  | ok a =>
    cases y with
    | none => exact h' a hxy.1
    | some b => exact h a b hxy.1 (hxy.2 b rfl)

end Follows

end Fault

end LCode
