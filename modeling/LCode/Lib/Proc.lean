import Mathlib.Data.List.Basic

/-!
# Procedures that make calls

A procedure returns, or makes a call and goes on with what it is answered. A device
answers as it likes, by all that has passed between them. A contract says which calls a
procedure may make, and which answers it counts on; what a procedure meets under a
contract, it does against every device that keeps its side.
-/

namespace LCode

/-- A procedure: what it returns, or a call and how it goes on with the answer. -/
inductive Proc {Call : Type} (Ans : Call → Type) (α : Type) where
  | ret (a : α)
  | call (c : Call) (next : Ans c → Proc Ans α)

variable {Call : Type} {Ans : Call → Type} {α β γ S T : Type}

/-- What passes in one call. -/
abbrev Exchange (Ans : Call → Type) := Σ c, Ans c

/-- A device: its answer to a call, after what has passed. -/
abbrev Device (Ans : Call → Type) := List (Exchange Ans) → (c : Call) → Ans c

namespace Proc

protected def bind : Proc Ans α → (α → Proc Ans β) → Proc Ans β
  | .ret a, f => f a
  | .call c next, f => .call c fun x => (next x).bind f

instance : Monad (Proc Ans) where
  pure := .ret
  bind := Proc.bind

/-- The call alone. -/
def ask (c : Call) : Proc Ans (Ans c) := .call c .ret

/-- What a procedure returns against a device, and what has passed then. -/
def exec (dev : Device Ans) : Proc Ans α → List (Exchange Ans) → α × List (Exchange Ans)
  | .ret a, h => (a, h)
  | .call c next, h => exec dev (next (dev h c)) (h ++ [⟨c, dev h c⟩])

/-- One procedure after the other. -/
def inTurn : List (Proc Ans Unit) → Proc Ans Unit
  | [] => .ret ()
  | p :: ps => p.bind fun _ => inTurn ps

@[simp] theorem pure_eq (a : α) : (pure a : Proc Ans α) = .ret a := rfl

@[simp] theorem bind_eq (p : Proc Ans α) (f : α → Proc Ans β) : p >>= f = p.bind f := rfl

@[simp] theorem ret_bind (a : α) (f : α → Proc Ans β) : (Proc.ret a).bind f = f a := rfl

@[simp] theorem call_bind (c : Call) (next : Ans c → Proc Ans α) (f : α → Proc Ans β) :
    (Proc.call c next).bind f = .call c fun x => (next x).bind f := rfl

end Proc

/-! ## Contracts -/

/-- Two parties that know of each other what `S` records: what may be called, what is
answered, and what an exchange makes of the record. -/
structure Contract (Ans : Call → Type) (S : Type) where
  allows : S → Call → Prop
  gives : S → (c : Call) → Ans c → Prop
  after : S → (c : Call) → Ans c → S

namespace Contract

/-- The record after some exchanges. -/
def seen (K : Contract Ans S) (s : S) (h : List (Exchange Ans)) : S :=
  h.foldl (fun s e => K.after s e.1 e.2) s

/-- Every call was allowed when it was made. -/
def Kept (K : Contract Ans S) : S → List (Exchange Ans) → Prop
  | _, [] => True
  | s, e :: h => K.allows s e.1 ∧ K.Kept (K.after s e.1 e.2) h

/-- A device that answers as the contract says while the calls are allowed. -/
def Fair (K : Contract Ans S) (s : S) (dev : Device Ans) : Prop :=
  ∀ h c, K.Kept s h → K.gives (K.seen s h) c (dev h c)

/-- From the record `s`, a procedure makes allowed calls only and ends with `Q`, whatever
it is answered within the contract. -/
def Meets (K : Contract Ans S) : Proc Ans α → S → (α → S → Prop) → Prop
  | .ret a, s, Q => Q a s
  | .call c next, s, Q =>
    K.allows s c ∧ ∀ x, K.gives s c x → K.Meets (next x) (K.after s c x) Q

variable {K : Contract Ans S} {s : S} {p : Proc Ans α} {Q R : α → S → Prop}

@[simp] theorem seen_nil : K.seen s [] = s := rfl

theorem seen_append (h k : List (Exchange Ans)) :
    K.seen s (h ++ k) = K.seen (K.seen s h) k := List.foldl_append

@[simp] theorem kept_nil : K.Kept s [] := trivial

theorem kept_append {h k : List (Exchange Ans)} :
    K.Kept s (h ++ k) ↔ K.Kept s h ∧ K.Kept (K.seen s h) k := by
  induction h generalizing s with
  | nil => simp
  | cons e h ih =>
    rw [List.cons_append, Kept, Kept, ih, and_assoc]
    rfl

@[simp] theorem meets_ret {a : α} : K.Meets (.ret a) s Q ↔ Q a s := Iff.rfl

theorem meets_call {c : Call} {next : Ans c → Proc Ans α} : K.Meets (.call c next) s Q ↔
    K.allows s c ∧ ∀ x, K.gives s c x → K.Meets (next x) (K.after s c x) Q := Iff.rfl

/-- The rule of sequence. -/
theorem meets_bind {f : α → Proc Ans β} {Q : β → S → Prop} :
    K.Meets (p.bind f) s Q ↔ K.Meets p s fun a s => K.Meets (f a) s Q := by
  induction p generalizing s with
  | ret a => rfl
  | call c next ih =>
    rw [Proc.call_bind, meets_call, meets_call]
    constructor
    · rintro ⟨hc, hx⟩
      exact ⟨hc, fun x hg => (ih x).1 (hx x hg)⟩
    · rintro ⟨hc, hx⟩
      exact ⟨hc, fun x hg => (ih x).2 (hx x hg)⟩

/-- The rule of consequence. -/
theorem Meets.mono (h : K.Meets p s Q) (himp : ∀ a s, Q a s → R a s) : K.Meets p s R := by
  induction p generalizing s with
  | ret a => exact himp a s h
  | call c next ih => exact ⟨h.1, fun x hg => ih x (h.2 x hg)⟩

theorem Meets.bind {f : α → Proc Ans β} {Q : β → S → Prop} (h : K.Meets p s R)
    (hf : ∀ a s, R a s → K.Meets (f a) s Q) : K.Meets (p.bind f) s Q :=
  meets_bind.2 (h.mono hf)

/-- Two contracts that agree on the calls and answers of one record, watched together. -/
theorem Meets.and (h : K.Meets p s Q) (h' : K.Meets p s R) :
    K.Meets p s fun a s => Q a s ∧ R a s := by
  induction p generalizing s with
  | ret a => exact ⟨h, h'⟩
  | call c next ih => exact ⟨h.1, fun x hg => ih x (h.2 x hg) (h'.2 x hg)⟩

/-- The contract that only looks at which calls are made. -/
def only (P : Call → Prop) : Contract Ans Unit where
  allows _ c := P c
  gives _ _ _ := True
  after _ _ _ := ()

/-- Calls that a contract allows from its invariant, and that keep it, keep it throughout. -/
theorem Meets.of_only {P : Call → Prop} {I : S → Prop} {Q : α → Unit → Prop}
    (h : (only P).Meets p () Q) (hallows : ∀ s c, I s → P c → K.allows s c)
    (hafter : ∀ s c x, I s → P c → K.gives s c x → I (K.after s c x)) (hs : I s) :
    K.Meets p s fun a s => Q a () ∧ I s := by
  induction p generalizing s with
  | ret a => exact ⟨h, hs⟩
  | call c next ih =>
    obtain ⟨hc, hnext⟩ := h
    refine ⟨hallows s c hs hc, fun x hg => ?_⟩
    exact ih x (hnext x trivial) (hafter s c x hs hc hg)

/-- A contract that allows more. -/
theorem Meets.allow {A : S → Call → Prop} (h : K.Meets p s Q)
    (hA : ∀ s c, K.allows s c → A s c) : { K with allows := A }.Meets p s Q := by
  induction p generalizing s with
  | ret a => exact h
  | call c next ih => exact ⟨hA s c h.1, fun x hg => ih x (h.2 x hg)⟩

/-- What a contract without demands on the device says of the calls. -/
theorem Meets.only {P : Call → Prop} (h : K.Meets p s Q) (hgives : ∀ s c x, K.gives s c x)
    (hP : ∀ s c, K.allows s c → P c) : (only P).Meets p () fun a _ => ∃ s, Q a s := by
  induction p generalizing s with
  | ret a => exact ⟨s, h⟩
  | call c next ih => exact ⟨hP s c h.1, fun x _ => ih x (h.2 x (hgives s c x))⟩

/-- What is met holds of the run against any fair device. -/
theorem Meets.exec {dev : Device Ans} {s₀ : S} (hdev : K.Fair s₀ dev) {h : List (Exchange Ans)}
    (hp : K.Meets p (K.seen s₀ h) Q) (hkept : K.Kept s₀ h) :
    K.Kept s₀ (p.exec dev h).2 ∧ Q (p.exec dev h).1 (K.seen s₀ (p.exec dev h).2) := by
  induction p generalizing h with
  | ret a => exact ⟨hkept, hp⟩
  | call c next ih =>
    have hseen : K.seen s₀ (h ++ [⟨c, dev h c⟩]) = K.after (K.seen s₀ h) c (dev h c) :=
      seen_append h _
    refine ih (dev h c) ?_ (kept_append.2 ⟨hkept, hp.1, trivial⟩)
    rw [hseen]
    exact hp.2 _ (hdev h c hkept)

end Contract

/-! ## Routines -/

/-- A procedure with static variables `σ` that may give up. -/
def Routine {Call : Type} (Ans : Call → Type) (σ α : Type) := σ → Proc Ans (Option α × σ)

namespace Routine

variable {σ : Type}

/-- The next step, where the first has succeeded. -/
protected def bind (p : Routine Ans σ α) (f : α → Routine Ans σ β) : Routine Ans σ β := fun st =>
  (p st).bind fun r => r.1.elim (.ret (none, r.2)) fun a => f a r.2

instance : Monad (Routine Ans σ) where
  pure a := fun st => .ret (some a, st)
  bind := Routine.bind

/-- The call alone. -/
def ask (c : Call) : Routine Ans σ (Ans c) := fun st => .call c fun x => .ret (some x, st)

def get : Routine Ans σ σ := fun st => .ret (some st, st)

def modify (f : σ → σ) : Routine Ans σ Unit := fun st => .ret (some (), f st)

def giveUp : Routine Ans σ α := fun st => .ret (none, st)

/-- What to do instead once the first has given up. -/
def orElse (p q : Routine Ans σ α) : Routine Ans σ α := fun st =>
  (p st).bind fun r => r.1.elim (q r.2) fun a => .ret (some a, r.2)

/-- The result, or none where the routine gave up. -/
def result (p : Routine Ans σ α) : Routine Ans σ (Option α) := fun st =>
  (p st).bind fun r => .ret (some r.1, r.2)

/-- Whether or not the routine gives up. -/
def always (p : Routine Ans σ α) : Routine Ans σ Unit := fun st =>
  (p st).bind fun r => .ret (some (), r.2)

end Routine

namespace Contract

variable {σ : Type}

/-- `Meets` for a routine: it ends with `Q`, or gives up with `E`. -/
def Tries (K : Contract Ans S) (p : Routine Ans σ α) (st : σ) (s : S) (E : σ → S → Prop)
    (Q : α → σ → S → Prop) : Prop :=
  K.Meets (p st) s fun r s => r.1.elim (E r.2 s) fun a => Q a r.2 s

variable {K : Contract Ans S} {st : σ} {s : S} {p q : Routine Ans σ α} {E E' : σ → S → Prop}
  {Q Q' : α → σ → S → Prop}

@[simp] theorem tries_pure {a : α} : K.Tries (pure a) st s E Q ↔ Q a st s := Iff.rfl

@[simp] theorem tries_get {Q : σ → σ → S → Prop} :
    K.Tries Routine.get st s E Q ↔ Q st st s := Iff.rfl

@[simp] theorem tries_modify {f : σ → σ} {Q : Unit → σ → S → Prop} :
    K.Tries (Routine.modify f) st s E Q ↔ Q () (f st) s := Iff.rfl

@[simp] theorem tries_giveUp : K.Tries (Routine.giveUp : Routine Ans σ α) st s E Q ↔ E st s :=
  Iff.rfl

theorem tries_ite {c : Prop} [Decidable c] (h : K.Tries p st s E Q) (hq : K.Tries q st s E Q) :
    K.Tries (if c then p else q) st s E Q := by
  split
  · exact h
  · exact hq

theorem tries_ask {c : Call} {Q : Ans c → σ → S → Prop} : K.Tries (Routine.ask c) st s E Q ↔
    K.allows s c ∧ ∀ x, K.gives s c x → Q x st (K.after s c x) := Iff.rfl

theorem Tries.mono (h : K.Tries p st s E Q) (hE : ∀ st s, E st s → E' st s)
    (hQ : ∀ a st s, Q a st s → Q' a st s) : K.Tries p st s E' Q' := by
  refine Meets.mono h fun r s hr => ?_
  obtain ⟨a, st⟩ := r
  cases a with
  | none => exact hE st s hr
  | some a => exact hQ a st s hr

theorem tries_bind {f : α → Routine Ans σ β} {Q : β → σ → S → Prop} :
    K.Tries (p >>= f) st s E Q ↔ K.Tries p st s E fun a st s => K.Tries (f a) st s E Q := by
  refine meets_bind.trans ?_
  constructor
  all_goals
    intro h
    refine Meets.mono h fun r s hr => ?_
    obtain ⟨a, st⟩ := r
    cases a with
    | none => exact hr
    | some a => exact hr

/-- The rule of sequence. -/
theorem Tries.bind {f : α → Routine Ans σ β} {Q' : β → σ → S → Prop} (h : K.Tries p st s E Q)
    (hf : ∀ a st s, Q a st s → K.Tries (f a) st s E Q') : K.Tries (p >>= f) st s E Q' :=
  tries_bind.2 (h.mono (fun _ _ he => he) hf)

theorem tries_orElse : K.Tries (p.orElse q) st s E Q ↔
    K.Tries p st s (fun st s => K.Tries q st s E Q) Q := by
  refine meets_bind.trans ?_
  constructor
  all_goals
    intro h
    refine Meets.mono h fun r s hr => ?_
    obtain ⟨a, st⟩ := r
    cases a with
    | none => exact hr
    | some a => exact hr

/-- The rule of a handler. -/
theorem Tries.orElse (h : K.Tries p st s E Q) (hq : ∀ st s, E st s → K.Tries q st s E' Q) :
    K.Tries (p.orElse q) st s E' Q :=
  tries_orElse.2 (h.mono hq fun _ _ _ hQ => hQ)

theorem Tries.allow {A : S → Call → Prop} (h : K.Tries p st s E Q)
    (hA : ∀ s c, K.allows s c → A s c) : { K with allows := A }.Tries p st s E Q :=
  Meets.allow h hA

/-- Calls that keep an invariant of the contract, for a routine. -/
theorem Tries.of_only {P : Call → Prop} {I : S → Prop} {E : σ → Prop} {Q : α → σ → Prop}
    (h : (only P).Tries p st () (fun st _ => E st) fun a st _ => Q a st)
    (hallows : ∀ s c, I s → P c → K.allows s c)
    (hafter : ∀ s c x, I s → P c → K.gives s c x → I (K.after s c x)) (hs : I s) :
    K.Tries p st s (fun st s => E st ∧ I s) fun a st s => Q a st ∧ I s := by
  refine Meets.mono (Meets.of_only h hallows hafter hs) fun r s hr => ?_
  obtain ⟨a, st⟩ := r
  cases a with
  | none => exact hr
  | some a => exact hr

/-- What is met holds of the run of a routine against any fair device. -/
theorem Tries.exec {dev : Device Ans} (hdev : K.Fair s dev) (h : K.Tries p st s E Q) :
    K.Kept s ((p st).exec dev []).2 ∧
      ((p st).exec dev []).1.1.elim (E ((p st).exec dev []).1.2 (K.seen s ((p st).exec dev []).2))
        fun a => Q a ((p st).exec dev []).1.2 (K.seen s ((p st).exec dev []).2) := by
  have hmeets : K.Meets (p st) (K.seen s []) fun r s => r.1.elim (E r.2 s) fun a => Q a r.2 s := h
  exact Meets.exec hdev hmeets kept_nil

theorem Tries.result {Q : Option α → σ → S → Prop}
    (h : K.Tries p st s (Q none) fun a => Q (some a)) : K.Tries p.result st s E Q := by
  refine Meets.bind h fun r s hr => ?_
  obtain ⟨a, st⟩ := r
  cases a with
  | none => exact hr
  | some a => exact hr

theorem Tries.always {Q : Unit → σ → S → Prop} (h : K.Tries p st s (Q ()) fun _ => Q ()) :
    K.Tries p.always st s E Q := by
  refine Meets.bind h fun r s hr => ?_
  obtain ⟨a, st⟩ := r
  cases a with
  | none => exact hr
  | some a => exact hr

/-! ## Invariants -/

/-- A routine that keeps an invariant, also where it gives up. -/
def Keeps (K : Contract Ans S) (I : σ → S → Prop) (p : Routine Ans σ α) : Prop :=
  ∀ st s, I st s → K.Tries p st s I fun _ => I

namespace Keeps

variable {I : σ → S → Prop}

theorem pure (a : α) : K.Keeps I (Pure.pure a : Routine Ans σ α) := fun _ _ hs => hs

theorem get : K.Keeps I (Routine.get : Routine Ans σ σ) := fun _ _ hs => hs

theorem giveUp : K.Keeps I (Routine.giveUp : Routine Ans σ α) := fun _ _ hs => hs

theorem bind (h : K.Keeps I p) {f : α → Routine Ans σ β} (hf : ∀ a, K.Keeps I (f a)) :
    K.Keeps I (p >>= f) :=
  fun st s hs => (h st s hs).bind fun a st s hs => hf a st s hs

theorem orElse (h : K.Keeps I p) (hq : K.Keeps I q) : K.Keeps I (p.orElse q) :=
  fun st s hs => (h st s hs).orElse hq

theorem result (h : K.Keeps I p) : K.Keeps I p.result := fun st s hs => Tries.result (h st s hs)

theorem always (h : K.Keeps I p) : K.Keeps I p.always := fun st s hs => Tries.always (h st s hs)

theorem ite {c : Prop} [Decidable c] (h : K.Keeps I p) (hq : K.Keeps I q) :
    K.Keeps I (if c then p else q) :=
  fun st s hs => tries_ite (h st s hs) (hq st s hs)

end Keeps

end Contract

end LCode
