import LCode.Drivers.Interrupts

/-!
# Calls of the drivers under a contract

What a contract has to say about the calls that every driver makes: reads and writes of a
port, delays, and the messages on the way out, which no contract here is about.
-/

namespace LCode

namespace Driver

open Contract

variable {α S : Type} {K : Contract Sys.Ans S} {st : Statics} {s : S} {E : Statics → S → Prop}

/-- A contract that is not about messages. -/
structure Silent (K : Contract Sys.Ans S) : Prop where
  allows : ∀ s text, K.allows s (.stderr text)
  after : ∀ s text x, K.after s (.stderr text) x = s

theorem tries_fail (hK : Silent K) {e : ErrorType} {msg : String} {Q : α → Statics → S → Prop}
    (h : E st s) : K.Tries (fail e msg) st s E Q := by
  have hsay : ∀ text : String, K.Tries (Routine.ask (Sys.stderr text) : Driver _) st s E
      fun _ st' s' => st' = st ∧ s' = s := by
    intro text
    refine tries_ask.2 ⟨hK.allows s text, fun x _ => ⟨rfl, ?_⟩⟩
    exact hK.after s text x
  have hprint : K.Tries (printErrType e) st s E fun _ st' s' => st' = st ∧ s' = s := by
    unfold printErrType
    cases errTypeText e with
    | none => exact ⟨rfl, rfl⟩
    | some text => exact hsay text
  refine hprint.bind ?_
  rintro - _ _ ⟨rfl, rfl⟩
  refine (hsay _).bind ?_
  rintro - _ _ ⟨rfl, rfl⟩
  exact h

theorem tries_orFail (hK : Silent K) {p : Driver α} {e : ErrorType} {msg : String}
    {Q : α → Statics → S → Prop} (h : K.Tries p st s E Q) : K.Tries (orFail p e msg) st s E Q :=
  h.orElse fun _ _ he => tries_fail hK he

theorem tries_sysInb {port : Nat} {Q : UInt32 → Statics → S → Prop}
    (hallows : K.allows s (.inb port))
    (herr : K.gives s (.inb port) none → E st (K.after s (.inb port) none))
    (h : ∀ w, K.gives s (.inb port) (some w) → Q w st (K.after s (.inb port) (some w))) :
    K.Tries (sysInb port) st s E Q := by
  refine tries_bind.2 (tries_ask.2 ⟨hallows, fun x hx => ?_⟩)
  cases x with
  | none => exact herr hx
  | some w => exact h w hx

theorem tries_utilSysInb {port : Nat} {Q : UInt8 → Statics → S → Prop}
    (hallows : K.allows s (.inb port))
    (herr : K.gives s (.inb port) none → E st (K.after s (.inb port) none))
    (h : ∀ w, K.gives s (.inb port) (some w) →
      Q (UInt8.ofNat w.toNat) st (K.after s (.inb port) (some w))) :
    K.Tries (utilSysInb port) st s E Q :=
  (tries_sysInb (Q := fun w st s => Q (UInt8.ofNat w.toNat) st s) hallows herr h).bind
    fun _ _ _ hQ => hQ

theorem tries_sysOutb {port : Nat} {v : UInt8} {Q : Unit → Statics → S → Prop}
    (hallows : K.allows s (.outb port v))
    (herr : K.gives s (.outb port v) false → E st (K.after s (.outb port v) false))
    (h : K.gives s (.outb port v) true → Q () st (K.after s (.outb port v) true)) :
    K.Tries (sysOutb port v) st s E Q := by
  refine tries_bind.2 (tries_ask.2 ⟨hallows, fun x hx => ?_⟩)
  cases x with
  | false => exact herr hx
  | true => exact h hx

theorem tries_tickdelay {micros : Nat} {Q : Unit → Statics → S → Prop}
    (hallows : K.allows s (.tickdelay micros))
    (h : ∀ x, Q () st (K.after s (.tickdelay micros) x)) :
    K.Tries (tickdelay micros) st s E Q :=
  tries_ask.2 ⟨hallows, fun x _ => h x⟩

/-- A contract that is not about time. -/
structure Timeless (K : Contract Sys.Ans S) : Prop where
  allows : ∀ s micros, K.allows s (.tickdelay micros)
  after : ∀ s micros x, K.after s (.tickdelay micros) x = s

theorem tries_delay (hK : Timeless K) (micros : Nat) :
    K.Tries (tickdelay micros) st s E fun _ st' s' => st' = st ∧ s' = s :=
  tries_tickdelay (hK.allows s micros) fun x => ⟨rfl, hK.after s micros x⟩

end Driver

end LCode
