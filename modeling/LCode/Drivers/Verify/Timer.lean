import LCode.Drivers.Verify.Calls
import Mathlib.Logic.Function.Basic

/-!
# The timer

The i8254 as its header describes it: three counters, each loaded by its low and then its
high byte, a control word that selects one of them, and a read-back command for its status.
Setting a frequency loads the one counter and keeps its mode; the count is the quotient of
the frequencies, cut to sixteen bits. It fails only for a frequency that the chip cannot
have, or where a call does.
-/

namespace LCode

namespace Driver

open Contract

/-! ## The chip -/

/-- A counter: its mode and counting base, the low byte that waits for the high one, and
what it counts down from. -/
structure Counter where
  mode : UInt8
  low : Option UInt8
  reload : Nat
  deriving DecidableEq, Repr

/-- A byte for a counter. -/
def Counter.load (c : Counter) (v : UInt8) : Counter :=
  match c.low with
  | none => { c with low := some v }
  | some low => { c with low := none, reload := low.toNat + 256 * v.toNat }

/-- The chip, the counters whose status was asked for, and whether a call has failed. -/
structure Pit where
  counter : Nat → Counter
  latched : Nat → Bool
  failed : Bool

namespace Pit

/-- A word for the control register. -/
def control (p : Pit) (v : UInt8) : Pit :=
  if v &&& timerRbCmd = timerRbCmd then
    { p with latched := fun i => p.latched i ||
        (v &&& 0x10 = 0 && v &&& UInt8.ofNat (2 ^ (i + 1)) ≠ 0) }
  else
    let i := (v >>> 6).toNat
    let c : Counter := { p.counter i with mode := v &&& 0x0F, low := none }
    { p with counter := Function.update p.counter i c }

def afterOut (p : Pit) (port : Nat) (v : UInt8) (done : Bool) : Pit :=
  if !done then { p with failed := true }
  else if port = timerCtrl then p.control v
  else if timer0 ≤ port ∧ port < timerCtrl then
    let i := port - timer0
    { p with counter := Function.update p.counter i ((p.counter i).load v) }
  else p

/-- A status that was asked for is read once. -/
def afterIn (p : Pit) (port : Nat) (x : Option UInt32) : Pit :=
  if x.isNone then { p with failed := true }
  else if timer0 ≤ port ∧ port < timerCtrl then
    { p with latched := Function.update p.latched (port - timer0) false }
  else p

end Pit

/-- A chip that shows the mode of a counter whose status was asked for. -/
def pit : Contract Sys.Ans Pit where
  allows _ _ := True
  gives
    | p, .inb port, x => ∀ w ∈ x, timer0 ≤ port → port < timerCtrl →
        p.latched (port - timer0) = true →
        UInt8.ofNat w.toNat &&& 0x0F = (p.counter (port - timer0)).mode &&& 0x0F
    | _, _, _ => True
  after
    | p, .inb port, x => p.afterIn port x
    | p, .outb port v, done => p.afterOut port v done
    | p, _, _ => p

theorem pit_silent : Silent pit := ⟨fun _ _ => trivial, fun _ _ _ => rfl⟩

variable {st : Statics} {p : Pit}

/-! ## The words of the driver -/

/-- The read-back command asks for the status of its counter. -/
theorem readBack_bits : ∀ timer : Fin 3,
    (timerRbCmd ||| timerRbCount ||| timerRbSel (UInt8.ofNat timer.val)) &&& timerRbCmd =
        timerRbCmd ∧
      (timerRbCmd ||| timerRbCount ||| timerRbSel (UInt8.ofNat timer.val)) &&& 0x10 = 0 ∧
      (timerRbCmd ||| timerRbCount ||| timerRbSel (UInt8.ofNat timer.val)) &&&
        UInt8.ofNat (2 ^ (timer.val + 1)) ≠ 0 := by
  decide

/-- The control word selects the counter and keeps the low half of the status. -/
theorem control_word (status : UInt8) (timer : Fin 3) {sel : UInt8}
    (hsel : timerSel (UInt8.ofNat timer.val) = some sel) :
    (status &&& 0x0F ||| timerLsbMsb ||| sel) &&& timerRbCmd ≠ timerRbCmd ∧
      ((status &&& 0x0F ||| timerLsbMsb ||| sel) >>> 6).toNat = timer.val ∧
      (status &&& 0x0F ||| timerLsbMsb ||| sel) &&& 0x0F = status &&& 0x0F := by
  have hall : ∀ (low : Fin 16) (timer : Fin 3),
      (UInt8.ofNat low.val ||| timerLsbMsb ||| (timerSel (UInt8.ofNat timer.val)).getD 0) &&&
          timerRbCmd ≠ timerRbCmd ∧
        ((UInt8.ofNat low.val ||| timerLsbMsb ||| (timerSel (UInt8.ofNat timer.val)).getD 0) >>>
          6).toNat = timer.val ∧
        (UInt8.ofNat low.val ||| timerLsbMsb ||| (timerSel (UInt8.ofNat timer.val)).getD 0) &&&
          0x0F = UInt8.ofNat low.val := by
    decide +kernel
  have hlow : (status &&& 0x0F).toNat < 16 := by
    rw [UInt8.toNat_and]
    exact Nat.lt_of_le_of_lt Nat.and_le_right (by decide)
  have hword := hall ⟨_, hlow⟩ timer
  rwa [UInt8.ofNat_toNat, hsel] at hword

/-- The two bytes of the count. -/
theorem count_bytes (n : UInt16) : n.toUInt8.toNat + 256 * (n >>> 8).toUInt8.toNat = n.toNat := by
  have hlt := n.toNat_lt
  simp only [UInt16.toNat_toUInt8, UInt16.toNat_shiftRight]
  rw [show (8 : UInt16).toNat % 16 = 8 from rfl, Nat.shiftRight_eq_div_pow]
  omega

/-! ## Setting the frequency -/

/-- The counters but `i` are those of `p`. -/
def Others (i : Nat) (p p' : Pit) : Prop := ∀ j, j ≠ i → p'.counter j = p.counter j

theorem toNat_timer (timer : Fin 3) : (UInt8.ofNat timer.val).toNat = timer.val := by
  revert timer
  decide

/-- Nothing but what is asked for has changed. -/
theorem timerGetConf_pit (timer : Fin 3) :
    pit.Tries (timerGetConf (UInt8.ofNat timer.val)) st p
      (fun _ p' => p'.counter = p.counter ∧ p'.failed = true) fun status _ p' =>
        p'.counter = p.counter ∧ p'.failed = p.failed ∧
          status &&& 0x0F = (p.counter timer.val).mode &&& 0x0F := by
  obtain ⟨hcmd, hstatus, hsel⟩ := readBack_bits timer
  have hout : pit.Tries (sysOutb timerCtrl (timerRbCmd ||| timerRbCount |||
      timerRbSel (UInt8.ofNat timer.val))) st p
      (fun _ p' => p'.counter = p.counter ∧ p'.failed = true) fun _ _ p' =>
        p'.counter = p.counter ∧ p'.failed = p.failed ∧ p'.latched timer.val = true := by
    refine tries_sysOutb trivial (fun _ => ⟨rfl, rfl⟩) fun _ => ?_
    change (p.control _).counter = _ ∧ (p.control _).failed = _ ∧ (p.control _).latched _ = true
    rw [Pit.control, if_pos hcmd]
    simp [hstatus, hsel]
  refine (tries_orFail pit_silent hout).bind ?_
  rintro - st₁ p₁ ⟨hcounter, hfailed, hlatched⟩
  have hport : timer0 ≤ timer0 + timer.val ∧ timer0 + timer.val < timerCtrl := by
    have hlt := timer.isLt
    have hnum : timer0 = 0x40 ∧ timerCtrl = 0x43 := by decide
    omega
  rw [toNat_timer]
  refine tries_orFail pit_silent
    (tries_utilSysInb trivial (fun _ => ⟨hcounter, rfl⟩) fun w hw => ?_)
  have hafter : p₁.afterIn (timer0 + timer.val) (some w) =
      { p₁ with latched := Function.update p₁.latched timer.val false } := by
    rw [Pit.afterIn, if_neg (by simp), if_pos hport, Nat.add_sub_cancel_left]
  have hshown := hw w rfl hport.1 hport.2
  rw [Nat.add_sub_cancel_left, hcounter] at hshown
  change (p₁.afterIn _ _).counter = _ ∧ (p₁.afterIn _ _).failed = _ ∧ _
  rw [hafter]
  exact ⟨hcounter, hfailed, hshown hlatched⟩

/-- A byte for the counter of the timer. -/
theorem load_pit {p₀ : Pit} {c : Counter} (timer : Fin 3) (v : UInt8) (msg : String)
    (hothers : Others timer.val p₀ p) (hc : p.counter timer.val = c) :
    pit.Tries (orFail (sysOutb (timer0 + (UInt8.ofNat timer.val).toNat) v) .timer msg) st p
      (fun _ p' => Others timer.val p₀ p' ∧ p'.failed = true) fun _ _ p' =>
        Others timer.val p₀ p' ∧ p'.failed = p.failed ∧ p'.counter timer.val = c.load v := by
  have hport : timer0 + timer.val ≠ timerCtrl ∧ timer0 ≤ timer0 + timer.val ∧
      timer0 + timer.val < timerCtrl := by
    have hlt := timer.isLt
    have hnum : timer0 = 0x40 ∧ timerCtrl = 0x43 := by decide
    omega
  rw [toNat_timer]
  refine tries_orFail pit_silent (tries_sysOutb trivial (fun _ => ⟨hothers, rfl⟩) fun _ => ?_)
  change Others _ _ (p.afterOut (timer0 + timer.val) v true) ∧
    (p.afterOut (timer0 + timer.val) v true).failed = _ ∧
    (p.afterOut (timer0 + timer.val) v true).counter _ = _
  have hafter : p.afterOut (timer0 + timer.val) v true =
      { p with counter := Function.update p.counter timer.val (c.load v) } := by
    rw [Pit.afterOut, if_neg (by simp), if_neg hport.1, if_pos hport.2, Nat.add_sub_cancel_left]
    simp only [hc]
  rw [hafter]
  refine ⟨?_, rfl, Function.update_self ..⟩
  intro j hj
  exact (Function.update_of_ne hj ..).trans (hothers j hj)

/-- The frequencies that `timer_set_frequency` takes. -/
def InRange (freq : UInt32) : Prop := 0 < freq.toNat ∧ freq.toNat ≤ timerFreq

theorem timerSetFrequency_pit (timer : Fin 3) (freq : UInt32) :
    pit.Tries (timerSetFrequency (UInt8.ofNat timer.val) freq) st p
      (fun _ p' => Others timer.val p p' ∧ (InRange freq → p'.failed = true)) fun _ _ p' =>
        Others timer.val p p' ∧ InRange freq ∧ p'.failed = p.failed ∧ p'.counter timer.val =
          ⟨(p.counter timer.val).mode &&& 0x0F, none, timerFreq / freq.toNat % 65536⟩ := by
  rw [timerSetFrequency]
  by_cases hrange : freq.toNat = 0 ∨ timerFreq < freq.toNat
  · rw [if_pos hrange]
    refine tries_fail pit_silent ⟨fun _ _ => rfl, ?_⟩
    rintro ⟨hpos, hle⟩
    omega
  have hin : InRange freq := by
    unfold InRange
    omega
  rw [if_neg hrange]
  refine Tries.mono ?_ (fun _ p' (h : Others timer.val p p' ∧ p'.failed = true) =>
    ⟨h.1, fun _ => h.2⟩) fun _ _ _ h => h
  have hconf : pit.Tries (timerGetConf (UInt8.ofNat timer.val)) st p
      (fun _ p' => Others timer.val p p' ∧ p'.failed = true) fun status _ p' =>
        p'.counter = p.counter ∧ p'.failed = p.failed ∧
          status &&& 0x0F = (p.counter timer.val).mode &&& 0x0F := by
    refine (timerGetConf_pit timer).mono ?_ fun _ _ _ h => h
    rintro _ p' ⟨hcounter, hfailed⟩
    exact ⟨fun j _ => by rw [hcounter], hfailed⟩
  refine (tries_orFail pit_silent hconf).bind ?_
  rintro status st₁ p₁ ⟨hcounter, hfailed₁, hmode⟩
  have hsome : ∀ timer : Fin 3, (timerSel (UInt8.ofNat timer.val)).isSome = true := by decide
  obtain ⟨sel, hsel⟩ := Option.isSome_iff_exists.1 (hsome timer)
  obtain ⟨hword, hindex, hlow⟩ := control_word status timer hsel
  simp only [hsel]
  -- the control word
  have hothers₁ : Others timer.val p p₁ := fun j _ => by rw [hcounter]
  have hcontrol : pit.Tries (sysOutb timerCtrl (status &&& 0x0F ||| timerLsbMsb ||| sel)) st₁ p₁
      (fun _ p' => Others timer.val p p' ∧ p'.failed = true) fun _ _ p' =>
        Others timer.val p p' ∧ p'.failed = p.failed ∧ p'.counter timer.val =
          ⟨(p.counter timer.val).mode &&& 0x0F, none, (p.counter timer.val).reload⟩ := by
    refine tries_sysOutb trivial (fun _ => ⟨hothers₁, rfl⟩) fun _ => ?_
    change Others _ _ (p₁.control _) ∧ (p₁.control _).failed = _ ∧ (p₁.control _).counter _ = _
    rw [Pit.control, if_neg hword]
    simp only [hindex, hlow, hcounter]
    rw [← hmode]
    refine ⟨?_, hfailed₁, Function.update_self ..⟩
    intro j hj
    exact Function.update_of_ne hj ..
  refine (tries_orFail pit_silent hcontrol).bind ?_
  rintro - st₂ p₂ ⟨hothers₂, hfailed₂, hc₂⟩
  refine (load_pit timer _ _ hothers₂ hc₂).bind ?_
  rintro - st₃ p₃ ⟨hothers₃, hfailed₃, hc₃⟩
  refine (load_pit timer _ _ hothers₃ hc₃).mono (fun _ _ h => h) ?_
  rintro - st₄ p₄ ⟨hothers₄, hfailed₄, hc₄⟩
  refine ⟨hothers₄, hin, hfailed₄.trans (hfailed₃.trans hfailed₂), hc₄.trans ?_⟩
  simp only [Counter.load, count_bytes]
  congr 1

/-- On an i8254, setting the frequency of a timer loads its counter with the quotient of the
frequencies modulo 65536 and keeps its mode; no other counter is touched, also where a call
fails. It succeeds exactly where the frequency is in range and no call fails. From 19 Hz on
the quotient fits. -/
theorem timerSetFrequency_programs (timer : Fin 3) (freq : UInt32) (st : Statics) (p : Pit)
    {dev : Device Sys.Ans} (hdev : pit.Fair p dev) :
    Others timer.val p
        (pit.seen p ((timerSetFrequency (UInt8.ofNat timer.val) freq st).exec dev []).2) ∧
      (((timerSetFrequency (UInt8.ofNat timer.val) freq st).exec dev []).1.1 = some () →
        (pit.seen p ((timerSetFrequency (UInt8.ofNat timer.val) freq st).exec dev []).2).counter
          timer.val = ⟨(p.counter timer.val).mode &&& 0x0F, none, timerFreq / freq.toNat % 65536⟩) ∧
      (p.failed = false →
        (((timerSetFrequency (UInt8.ofNat timer.val) freq st).exec dev []).1.1 = some () ↔
          InRange freq ∧ (pit.seen p
            ((timerSetFrequency (UInt8.ofNat timer.val) freq st).exec dev []).2).failed = false)) ∧
      (19 ≤ freq.toNat → timerFreq / freq.toNat % 65536 = timerFreq / freq.toNat) := by
  have hset : pit.Tries (timerSetFrequency (UInt8.ofNat timer.val) freq) st p _ _ :=
    timerSetFrequency_pit timer freq
  have hrun := (hset.exec hdev).2
  have hfits : 19 ≤ freq.toNat → timerFreq / freq.toNat % 65536 = timerFreq / freq.toNat := by
    intro hfreq
    refine Nat.mod_eq_of_lt (Nat.lt_of_le_of_lt (Nat.div_le_div_left hfreq (by decide)) ?_)
    decide
  cases hr : ((timerSetFrequency (UInt8.ofNat timer.val) freq st).exec dev []).1.1 with
  | none =>
    rw [hr] at hrun
    obtain ⟨hothers, hfailed⟩ := hrun
    refine ⟨hothers, by simp, fun _ => ⟨by simp, ?_⟩, hfits⟩
    rintro ⟨hin, hnone⟩
    exact absurd ((hfailed hin).symm.trans hnone) (by simp)
  | some _ =>
    rw [hr] at hrun
    obtain ⟨hothers, hin, hfailed, hcounter⟩ := hrun
    exact ⟨hothers, fun _ => hcounter, fun hp => ⟨fun _ => ⟨hin, hfailed.trans hp⟩, fun _ => rfl⟩,
      hfits⟩

/-- A chip on which nothing fails. -/
def chipOf (p : Pit) : Device Sys.Ans
  | h, .inb port => some (UInt32.ofNat ((pit.seen p h).counter (port - timer0)).mode.toNat)
  | _, .outb _ _ => true
  | _, .tickdelay _ => ()
  | _, .irqsetpolicy _ _ _ => none
  | _, .irqrmpolicy _ => true
  | _, .stderr _ => ()

theorem chipOf_fair (p : Pit) : pit.Fair p (chipOf p) := by
  intro h c _
  cases c with
  | inb port =>
    intro w hw _ _ _
    obtain rfl := Option.some.inj hw
    simp
  | _ => trivial

/-- 60 Hz on counter 0, in mode 3. -/
theorem timerSetFrequency_programs_60 :
    ((timerSetFrequency (UInt8.ofNat (0 : Fin 3).val) 60 .initial).exec
        (chipOf ⟨fun _ => ⟨6, none, 0⟩, fun _ => false, false⟩) []).1.1 = some () ∧
      (pit.seen ⟨fun _ => ⟨6, none, 0⟩, fun _ => false, false⟩
        ((timerSetFrequency (UInt8.ofNat (0 : Fin 3).val) 60 .initial).exec
          (chipOf ⟨fun _ => ⟨6, none, 0⟩, fun _ => false, false⟩) []).2).counter 0 =
            ⟨6, none, 19886⟩ := by
  obtain ⟨-, hcounter, hsuccess, -⟩ := timerSetFrequency_programs 0 60 .initial
    ⟨fun _ => ⟨6, none, 0⟩, fun _ => false, false⟩ (chipOf_fair _)
  have hdone := (hsuccess rfl).2 ⟨⟨by decide, by decide⟩, rfl⟩
  exact ⟨hdone, hcounter hdone⟩

end Driver

end LCode
