import LCode.Drivers.Verify.Readiness
import Mathlib.Data.Finset.Basic
import Mathlib.Data.Finset.Lattice.Lemmas
import Mathlib.Data.Finset.Dedup
import Mathlib.Data.Finset.Lattice.Fold
import Mathlib.Order.Lattice.Nat

/-!
# Interrupt lines

What the process has subscribed at the kernel. The start of the process subscribes all its
four lines or, where anything on the way fails, leaves none behind; its end gives back what
it has, and nothing in between touches them. Only the kernel is assumed to hand out a hook
that is not in use and to take one back that is.
-/

namespace LCode

namespace Driver

open Contract

/-! ## The kernel -/

/-- The hooks in use. The kernel gives out others, or none, and takes each of them back;
only those are given back. -/
def lines : Contract Sys.Ans (Finset Int) where
  allows
    | live, .irqrmpolicy h => h ∈ live
    | _, _ => True
  gives
    | live, .irqsetpolicy _ _ _, x => ∀ h ∈ x, h ∉ live
    | live, .irqrmpolicy h, done => h ∈ live → done = true
    | _, _, _ => True
  after
    | live, .irqsetpolicy _ _ _, x => x.elim live (insert · live)
    | live, .irqrmpolicy h, done => if done then live.erase h else live
    | live, _, _ => live

theorem lines_silent : Silent lines := ⟨fun _ _ => trivial, fun _ _ _ => rfl⟩

/-- Beside `base`, the hooks `hs` are in use. -/
structure Held (base : Finset Int) (hs : List Int) (live : Finset Int) : Prop where
  nodup : hs.Nodup
  fresh : ∀ h ∈ hs, h ∉ base
  live_eq : live = base ∪ hs.toFinset

namespace Held

variable {base live : Finset Int} {hs xs ys : List Int} {h : Int}

theorem nil (base : Finset Int) : Held base [] base := ⟨List.nodup_nil, by simp, by simp⟩

theorem eq_base (hheld : Held base [] live) : live = base := by
  simpa using hheld.live_eq

/-- One more. -/
theorem cons (hheld : Held base hs live) (hfresh : h ∉ live) :
    Held base (h :: hs) (insert h live) := by
  rw [hheld.live_eq, Finset.mem_union, not_or, List.mem_toFinset] at hfresh
  refine ⟨List.nodup_cons.2 ⟨hfresh.2, hheld.nodup⟩, ?_, ?_⟩
  · intro x hx
    rcases List.mem_cons.1 hx with rfl | hx
    · exact hfresh.1
    · exact hheld.fresh x hx
  · rw [hheld.live_eq, List.toFinset_cons, Finset.union_insert]

theorem mem (hheld : Held base (xs ++ h :: ys) live) : h ∈ live := by
  simp [hheld.live_eq]

/-- One given back. -/
theorem erase (hheld : Held base (xs ++ h :: ys) live) : Held base (xs ++ ys) (live.erase h) := by
  have hnodup := List.nodup_middle.1 hheld.nodup
  obtain ⟨hnot, hrest⟩ := List.nodup_cons.1 hnodup
  refine ⟨hrest, ?_, ?_⟩
  · intro x hx
    refine hheld.fresh x ?_
    rw [List.mem_append, List.mem_cons]
    rcases List.mem_append.1 hx with hx | hx
    · exact .inl hx
    · exact .inr (.inr hx)
  · have hbase : h ∉ base := hheld.fresh h (by simp)
    ext x
    rw [hheld.live_eq]
    simp only [Finset.mem_erase, Finset.mem_union, List.mem_toFinset, List.mem_append,
      List.mem_cons] at hnot ⊢
    constructor
    · rintro ⟨hx, hx'⟩
      simpa [hx] using hx'
    · intro hx
      refine ⟨?_, by tauto⟩
      rintro rfl
      exact hx.elim hbase hnot

end Held

/-! ## Subscriptions -/

variable {α : Type} {base live : Finset Int} {hs xs ys : List Int} {st : Statics}

theorem subscribeInt_lines (hook : Hook) (irq policy : Nat) (e : ErrorType) (msg : String)
    (hheld : Held base hs live) :
    lines.Tries (subscribeInt hook irq policy e msg) st live
      (fun st' live' => st' = st ∧ live' = live) fun bitNo st' live' =>
        ∃ h, st' = { st with irq := hook.write h st.irq } ∧ Held base (h :: hs) live' ∧
          bitNo = UInt8.ofNat (hook.read st.irq % 256).toNat := by
  rw [subscribeInt, tries_bind, tries_get, tries_bind, tries_ask]
  refine ⟨trivial, fun answer hanswer => ?_⟩
  cases answer with
  | none => exact tries_fail lines_silent ⟨rfl, rfl⟩
  | some h => exact ⟨h, rfl, hheld.cons (hanswer h rfl), rfl⟩

theorem unsubscribeInt_lines (hook : Hook) (e : ErrorType) (msg : String) (xs ys : List Int)
    (hheld : Held base (xs ++ hook.read st.irq :: ys) live) :
    lines.Tries (unsubscribeInt hook e msg) st live (fun _ _ => False)
      fun _ st' live' => st' = st ∧ Held base (xs ++ ys) live' := by
  rw [unsubscribeInt, tries_bind, tries_get, tries_bind, tries_ask]
  refine ⟨hheld.mem, fun done hdone => ?_⟩
  obtain rfl : done = true := hdone hheld.mem
  exact ⟨rfl, hheld.erase⟩

/-- What goes to the ports leaves the lines alone. -/
theorem careful_lines {p : Driver α} (h : ∀ k, Careful k p) (st : Statics) (live : Finset Int) :
    lines.Tries p st live (fun st' live' => st'.irq = st.irq ∧ live' = live)
      fun _ st' live' => st'.irq = st.irq ∧ live' = live := by
  have hports : (only Sys.offLine).Meets (p st) () fun r _ => r.2.irq = st.irq := by
    have hcareful := Meets.only (P := Sys.offLine) (h st.irq st .nothing ⟨rfl, rfl⟩)
      (fun _ _ _ => trivial) fun _ _ hc => hc.2
    refine hcareful.mono fun r _ hr => ?_
    obtain ⟨s, hs⟩ := hr
    obtain ⟨a, st'⟩ := r
    cases a with
    | none => exact hs.2
    | some a => exact hs.2
  have hlines := Meets.of_only (K := lines) (I := (· = live)) hports ?_ ?_ rfl
  · refine hlines.mono fun r live' hr => ?_
    obtain ⟨a, st'⟩ := r
    cases a with
    | none => exact hr
    | some a => exact hr
  · intro live' c _ hc
    cases c with
    | irqrmpolicy h => cases hc
    | _ => trivial
  · intro live' c x hlive hc _
    cases c with
    | irqsetpolicy irq policy hook => cases hc
    | irqrmpolicy h => cases hc
    | _ => exact hlive

/-- The same, whether or not it gives up. -/
theorem quiet_lines {p : Driver α} {E : Statics → Finset Int → Prop}
    (h : ∀ st live, lines.Tries p st live (fun st' live' => st'.irq = st.irq ∧ live' = live)
      fun _ st' live' => st'.irq = st.irq ∧ live' = live) :
    lines.Tries p.always st live E fun _ st' live' => st'.irq = st.irq ∧ live' = live :=
  Tries.always (h st live)

theorem disableDataReporting_lines (st : Statics) (live : Finset Int) :
    lines.Tries mouseDisableDataReporting st live
      (fun st' live' => st'.irq = st.irq ∧ live' = live)
      fun _ st' live' => st'.irq = st.irq ∧ live' = live :=
  careful_lines (fun _ => careful_mouseWriteCommand disableDr) st live

/-- `serial_init` is not about the lines. -/
theorem serialInit_lines (k : IrqLines) (live : Finset Int) :
    lines.Keeps (fun st' live' => st'.irq = k ∧ live' = live) serialInit := by
  have hout (port : Nat) (v : UInt8) :
      lines.Keeps (fun st' live' => st'.irq = k ∧ live' = live) (sysOutb port v) :=
    fun _ _ hs => tries_sysOutb trivial (fun _ => hs) fun _ => hs
  refine Contract.Keeps.get.bind fun st => .ite (.pure ()) ?_
  refine Contract.Keeps.bind (fun _ _ hs => hs) fun _ => ?_
  refine (hout _ _).bind fun _ => (hout _ _).bind fun _ => (hout _ _).bind fun _ => ?_
  refine (hout _ _).bind fun _ => (hout _ _).bind fun _ => (hout _ _).bind fun _ => ?_
  exact fun _ _ hs => hs

/-- The hooks of the process are those in use. -/
def Subscribed (base : Finset Int) (irq : IrqLines) (live : Finset Int) : Prop :=
  Held base [irq.serialHook, irq.mouseHook, irq.keyboardHook, irq.timerHook] live

/-- The masks of `ih.c` for the hooks that the drivers start with. -/
def masks (irq : IrqLines) : UInt8 × UInt8 × UInt8 × UInt8 :=
  (irq.irqTimer, irq.irqKeyboard, irq.irqMouse, irq.irqSerial)

/-- A subscription is taken back, whether or not there is more to do. -/
theorem undo_lines (hook : Hook) (e : ErrorType) (msg : String) (xs ys : List Int)
    {E : Statics → Finset Int → Prop} (hheld : Held base (xs ++ hook.read st.irq :: ys) live) :
    lines.Tries (unsubscribeInt hook e msg).always st live E
      fun _ st' live' => st' = st ∧ Held base (xs ++ ys) live' := by
  refine Tries.always ((unsubscribeInt_lines hook e msg xs ys hheld).mono ?_ fun _ _ _ h => h)
  intro _ _ h
  exact h.elim

/-- An assignment to the lines' variables. -/
theorem tries_setIrq {f : IrqLines → IrqLines} {E : Statics → Finset Int → Prop}
    {Q : Unit → Statics → Finset Int → Prop} :
    lines.Tries (setIrq f) st live E Q ↔ Q () { st with irq := f st.irq } live := Iff.rfl

/-- The three lines that are taken back where the mouse or the fourth line fails. -/
theorem undoThree_lines {p : Driver α} {E : Statics → Finset Int → Prop}
    {Q : α → Statics → Finset Int → Prop}
    (hheld : Held base [st.irq.mouseHook, st.irq.keyboardHook, st.irq.timerHook] live)
    (hp : lines.Tries p st base E Q) :
    lines.Tries (do
      timerUnsubscribeInt.always
      keyboardUnsubscribeInt.always
      mouseUnsubscribeInt.always
      p : Driver α) st live E Q := by
  refine (undo_lines timerHook _ _ [_, _] [] hheld).bind ?_
  rintro - _ _ ⟨rfl, hkeyboard⟩
  refine (undo_lines keyboardHook _ _ [_] [] hkeyboard).bind ?_
  rintro - _ _ ⟨rfl, hmouse⟩
  refine (undo_lines mouseHook _ _ [] [] hmouse).bind ?_
  rintro - _ live' ⟨rfl, hnone⟩
  obtain rfl : live' = base := hnone.eq_base
  exact hp

/-- `subscribe_interrupts` takes all four lines or none. -/
theorem subscribeInterrupts_lines (base : Finset Int) :
    lines.Tries subscribeInterrupts st base (fun _ live => live = base)
      fun _ st' live => Subscribed base st'.irq live ∧
        masks st'.irq = (bit (UInt8.ofNat (st.irq.timerHook % 256).toNat),
          bit (UInt8.ofNat (st.irq.keyboardHook % 256).toNat),
          bit (UInt8.ofNat (st.irq.mouseHook % 256).toNat),
          bit (UInt8.ofNat (st.irq.serialHook % 256).toNat)) := by
  refine (tries_orFail lines_silent ((subscribeInt_lines timerHook _ _ _ _
    (Held.nil base)).mono (fun _ _ h => h.2) fun _ _ _ h => h)).bind ?_
  rintro bitNo st₁ live₁ ⟨t, rfl, ht, rfl⟩
  rw [tries_bind, tries_setIrq]
  refine ((subscribeInt_lines keyboardHook _ _ _ _ ht).orElse ?_).bind ?_
  · rintro _ _ ⟨rfl, rfl⟩
    refine (undo_lines timerHook _ _ [] [] ht).bind ?_
    rintro - _ _ ⟨rfl, hnone⟩
    exact tries_fail lines_silent hnone.eq_base
  rintro bitNo st₂ live₂ ⟨k, rfl, hk, rfl⟩
  rw [tries_bind, tries_setIrq]
  refine ((subscribeInt_lines mouseHook _ _ _ _ hk).orElse ?_).bind ?_
  · rintro _ _ ⟨rfl, rfl⟩
    refine (undo_lines timerHook _ _ [_] [] hk).bind ?_
    rintro - _ _ ⟨rfl, hkeyboard⟩
    refine (undo_lines keyboardHook _ _ [] [] hkeyboard).bind ?_
    rintro - _ _ ⟨rfl, hnone⟩
    exact tries_fail lines_silent hnone.eq_base
  rintro bitNo st₃ live₃ ⟨m, rfl, hm, rfl⟩
  have hwheel := careful_lines (p := mouseEnableWheelMode) fun _ => careful_mouseEnableWheelMode
  refine ((hwheel _ _).orElse ?_).bind ?_
  · rintro st₄ _ ⟨hirq, rfl⟩
    refine undoThree_lines ?_ (tries_fail lines_silent rfl)
    rw [hirq]
    exact hm
  rintro - st₄ _ ⟨hirq, rfl⟩
  have henable := careful_lines (p := mouseEnableDataReporting) fun _ =>
    careful_mouseWriteCommand enableDr
  refine ((henable _ _).orElse ?_).bind ?_
  · rintro st₅ _ ⟨hirq', rfl⟩
    refine undoThree_lines ?_ (tries_fail lines_silent rfl)
    rw [hirq', hirq]
    exact hm
  rintro - st₅ live₅ ⟨hirq', rfl⟩
  rw [tries_bind, tries_setIrq]
  refine ((subscribeInt_lines serialHook _ _ _ _ hm).orElse ?_).bind ?_
  · rintro _ live₆ ⟨rfl, rfl⟩
    have hheld : Held base
        [st₅.irq.mouseHook, st₅.irq.keyboardHook, st₅.irq.timerHook] live₆ := by
      rw [hirq', hirq]
      exact hm
    refine undoThree_lines hheld ?_
    refine (quiet_lines disableDataReporting_lines).bind ?_
    rintro - _ _ ⟨-, rfl⟩
    exact tries_fail lines_silent rfl
  rintro bitNo st₆ live₆ ⟨r, rfl, hr, rfl⟩
  rw [tries_setIrq]
  simp only [hirq', hirq]
  exact ⟨hr, rfl⟩

/-- One step of the end, with its line in use. -/
theorem unsubscribeStep_lines (hook : Hook) (e e' : ErrorType) (msg msg' : String)
    (xs ys : List Int) {E : Statics → Finset Int → Prop}
    (hheld : Held base (xs ++ hook.read st.irq :: ys) live) :
    lines.Tries (unsubscribeStep (unsubscribeInt hook e msg) e' msg') st live E
      fun err st' live' => err = false ∧ st' = st ∧ Held base (xs ++ ys) live' := by
  have hstep : lines.Tries (orFail (unsubscribeInt hook e msg) e' msg') st live
      (fun _ _ => False) fun _ st' live' => st' = st ∧ Held base (xs ++ ys) live' :=
    tries_orFail lines_silent (unsubscribeInt_lines hook e msg xs ys hheld)
  have hresult : lines.Tries (orFail (unsubscribeInt hook e msg) e' msg').result st live E
      fun r st' live' => r = some () ∧ st' = st ∧ Held base (xs ++ ys) live' := by
    refine Tries.result (hstep.mono ?_ ?_)
    · intro _ _ h
      exact h.elim
    · intro _ _ _ h
      exact ⟨rfl, h⟩
  refine hresult.bind ?_
  rintro _ _ _ ⟨rfl, rfl, h⟩
  exact ⟨rfl, rfl, h⟩

/-- `unsubscribe_interrupts` gives all four lines back, also where the mouse fails. -/
theorem unsubscribeInterrupts_lines (hsub : Subscribed base st.irq live) :
    lines.Tries unsubscribeInterrupts st live (fun _ live => live = base)
      fun _ _ live => live = base := by
  refine (unsubscribeStep_lines mouseHook _ _ _ _ [_] [_, _] hsub).bind ?_
  rintro _ _ live₁ ⟨rfl, rfl, h₁⟩
  refine (unsubscribeStep_lines keyboardHook _ _ _ _ [_] [_] h₁).bind ?_
  rintro _ _ live₂ ⟨rfl, rfl, h₂⟩
  refine (unsubscribeStep_lines timerHook _ _ _ _ [_] [] h₂).bind ?_
  rintro _ st₃ live₃ ⟨rfl, rfl, h₃⟩
  have hcommand : lines.Tries (unsubscribeStep mouseDisableDataReporting .mouse
      "unsubscribe_interrupts: unable to disable mouse data reporting") st₃ live₃
      (fun _ live => live = base) fun _ st' live' => st'.irq = st₃.irq ∧ live' = live₃ := by
    have hstep : lines.Tries (orFail mouseDisableDataReporting .mouse
        "unsubscribe_interrupts: unable to disable mouse data reporting").result st₃ live₃
        (fun _ live => live = base) fun _ st' live' => st'.irq = st₃.irq ∧ live' = live₃ :=
      Tries.result (tries_orFail lines_silent (disableDataReporting_lines st₃ live₃))
    refine hstep.bind ?_
    intro r _ _ h
    cases r with
    | none => exact h
    | some _ => exact h
  refine hcommand.bind ?_
  rintro err st₄ live₄ ⟨hirq, rfl⟩
  refine (unsubscribeStep_lines serialHook _ _ _ _ [] [] (by rw [hirq]; exact h₃)).bind ?_
  rintro _ _ live₅ ⟨rfl, rfl, h₅⟩
  refine tries_ite ?_ ?_
  · exact h₅.eq_base
  · exact h₅.eq_base

/-! ## The process -/

/-- The start takes all four lines or none. -/
theorem startUp_lines (base : Finset Int) :
    lines.Tries startUp st base (fun _ live => live = base)
      fun _ st' live => Subscribed base st'.irq live ∧
        masks st'.irq = (bit (UInt8.ofNat (st.irq.timerHook % 256).toNat),
          bit (UInt8.ofNat (st.irq.keyboardHook % 256).toNat),
          bit (UInt8.ofNat (st.irq.mouseHook % 256).toNat),
          bit (UInt8.ofNat (st.irq.serialHook % 256).toNat)) := by
  have hserial := (serialInit_lines st.irq base st base ⟨rfl, rfl⟩).mono
    (fun _ _ h => h.2) fun _ _ _ h => h
  refine (tries_orFail lines_silent hserial).bind ?_
  rintro - st₁ base ⟨hirq₁, rfl⟩
  refine (tries_orFail lines_silent (subscribeInterrupts_lines base)).bind ?_
  rintro - st₂ live₂ ⟨hsub, hmasks⟩
  rw [hirq₁] at hmasks
  have htimer : lines.Tries (timerSetFrequency 0 (UInt32.ofNat timerHz)) st₂ live₂
      (fun st' live' => st'.irq = st₂.irq ∧ live' = live₂)
      fun _ st' live' => st'.irq = st₂.irq ∧ live' = live₂ :=
    careful_lines (fun _ => careful_timerSetFrequency (by decide) _) st₂ live₂
  refine tries_orElse.2 (htimer.mono ?_ ?_)
  · rintro st₃ _ ⟨hirq, rfl⟩
    rw [← hirq] at hsub
    have hundo : lines.Tries unsubscribeInterrupts.always st₃ _ (fun _ live => live = base)
        fun _ _ live => live = base := Tries.always (unsubscribeInterrupts_lines hsub)
    refine hundo.bind ?_
    intro _ _ _ hbase
    exact tries_fail lines_silent hbase
  · rintro - st₃ _ ⟨hirq, rfl⟩
    rw [hirq]
    exact ⟨hsub, hmasks⟩

/-- The work of the loop comes to an end, and leaves the lines alone. -/
theorem loop_lines (ws : List Work) (st : Statics) (live : Finset Int)
    {E : Statics → Finset Int → Prop} :
    lines.Tries (loop ws) st live E fun _ st' live' => st'.irq = st.irq ∧ live' = live := by
  induction ws generalizing st with
  | nil => exact ⟨rfl, rfl⟩
  | cons w ws ih =>
    refine (quiet_lines fun st live => careful_lines (fun _ => careful_work w) st live).bind ?_
    rintro - st₁ live₁ ⟨hirq, rfl⟩
    rw [← hirq]
    exact ih st₁

/-- The masks that the main loop tests. -/
def loopMasks : UInt8 × UInt8 × UInt8 × UInt8 :=
  (irqTimer.toUInt8, irqKeyboard.toUInt8, irqMouse.toUInt8, irqSerial.toUInt8)

/-- Over such a kernel, whichever call of the start fails, it leaves no line behind; where
none does, the process has four lines, under the masks that its main loop tests. -/
theorem startUp_all_or_none {st : Statics} {base : Finset Int}
    (hst : st.irq = Statics.initial.irq) {dev : Device Sys.Ans} (hdev : lines.Fair base dev) :
    lines.Kept base ((startUp st).exec dev []).2 ∧
      ((startUp st).exec dev []).1.1.elim
        (lines.seen base ((startUp st).exec dev []).2 = base) fun _ =>
        Subscribed base ((startUp st).exec dev []).1.2.irq
          (lines.seen base ((startUp st).exec dev []).2) ∧
        masks ((startUp st).exec dev []).1.2.irq = loopMasks := by
  have hrun : lines.Tries startUp st base (fun _ live => live = base)
      fun _ st' live => Subscribed base st'.irq live ∧ masks st'.irq = loopMasks := by
    refine (startUp_lines base).mono (fun _ _ h => h) ?_
    rintro - st' live ⟨hsub, hmasks⟩
    refine ⟨hsub, ?_⟩
    rw [hmasks, hst]
    rfl
  exact hrun.exec hdev

/-- From its start to its end, also where the start fails, the process gives back to such a
kernel what it has subscribed, and nothing that is not in use. -/
theorem projMainLoop_lines (ws : List Work) (st : Statics) (base : Finset Int)
    {dev : Device Sys.Ans} (hdev : lines.Fair base dev) :
    lines.Kept base ((projMainLoop ws st).exec dev []).2 ∧
      lines.seen base ((projMainLoop ws st).exec dev []).2 = base := by
  have hrun : lines.Tries (projMainLoop ws) st base (fun _ live => live = base)
      fun _ _ live => live = base := by
    refine (startUp_lines base).bind ?_
    rintro - st₁ live₁ ⟨hsub, -⟩
    refine (loop_lines ws st₁ live₁).bind ?_
    rintro - st₂ live₂ ⟨hirq, rfl⟩
    rw [← hirq] at hsub
    refine (unsubscribeInterrupts_lines hsub).orElse ?_
    intro _ _ hbase
    exact tries_fail lines_silent hbase
  obtain ⟨hkept, hend⟩ := hrun.exec hdev
  refine ⟨hkept, ?_⟩
  cases hr : ((projMainLoop ws st).exec dev []).1.1 with
  | none => rwa [hr] at hend
  | some _ => rwa [hr] at hend

/-- A machine on which nothing fails: the mouse acknowledges every byte, and a new hook is
larger than those in use. -/
def obliging (base : Finset Int) : Device Sys.Ans
  | _, .inb port => some (if port = kbcStatusReg then 0x21 else 0xFA)
  | _, .outb _ _ => true
  | _, .tickdelay _ => ()
  | h, .irqsetpolicy _ _ _ => some (((lines.seen base h).sup Int.natAbs + 1 : Nat) : Int)
  | _, .irqrmpolicy _ => true
  | _, .stderr _ => ()

theorem obliging_fair (base : Finset Int) : lines.Fair base (obliging base) := by
  intro h c _
  cases c with
  | irqsetpolicy irq policy hook =>
    intro x hx hlive
    obtain rfl := Option.some.inj hx
    have hle := Finset.le_sup (f := Int.natAbs) hlive
    omega
  | irqrmpolicy hook => exact fun _ => rfl
  | _ => trivial

theorem startUp_all_or_none_obliging :
    lines.Kept {7} ((startUp .initial).exec (obliging {7}) []).2 ∧
      ((startUp .initial).exec (obliging {7}) []).1.1.elim
        (lines.seen {7} ((startUp .initial).exec (obliging {7}) []).2 = {7}) fun _ =>
        Subscribed {7} ((startUp .initial).exec (obliging {7}) []).1.2.irq
          (lines.seen {7} ((startUp .initial).exec (obliging {7}) []).2) ∧
        masks ((startUp .initial).exec (obliging {7}) []).1.2.irq = loopMasks :=
  startUp_all_or_none rfl (obliging_fair {7})

theorem projMainLoop_lines_obliging :
    lines.Kept {7} ((projMainLoop [.clock 1, .send [65]] .initial).exec (obliging {7}) []).2 ∧
      lines.seen {7} ((projMainLoop [.clock 1, .send [65]] .initial).exec (obliging {7}) []).2 =
        {7} :=
  projMainLoop_lines _ .initial {7} (obliging_fair {7})

end Driver

end LCode
