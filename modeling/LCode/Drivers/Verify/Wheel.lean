import LCode.Drivers.Verify.Calls

/-!
# What the mouse is told

A byte for the mouse goes through the keyboard controller, is answered, and is sent again
while the mouse refuses it. The wheel is switched on by a script of such bytes; whatever the
devices answer, the bytes that the mouse acknowledged are a beginning of that script, and
all of it exactly where the driver reports success.
-/

namespace LCode

namespace Driver

open Contract

/-! ## The mouse behind the controller -/

/-- What has passed between the driver and the mouse: whether the next data byte is for it,
the byte it has not answered yet, the bytes it was sent and those it acknowledged, and what
it said besides. -/
structure Told where
  forMouse : Bool
  waiting : Option UInt8
  sent : List UInt8
  acked : List UInt8
  said : List UInt8
  deriving DecidableEq, Repr

namespace Told

def nothing : Told := ⟨false, none, [], [], []⟩

/-- A byte written to the controller. -/
def command (r : Told) (v : UInt8) : Told := { r with forMouse := v = mouseCommand }

/-- A byte written to its data register. -/
def data (r : Told) (v : UInt8) : Told :=
  if r.forMouse then { r with forMouse := false, waiting := some v, sent := r.sent ++ [v] }
  else r

/-- A byte read from its data register. -/
def hear (r : Told) (b : UInt8) : Told :=
  match r.waiting with
  | none => { r with said := r.said ++ [b] }
  | some v => { r with waiting := none, acked := if b = success then r.acked ++ [v] else r.acked }

def afterOut (r : Told) (port : Nat) (v : UInt8) (done : Bool) : Told :=
  if !done then r
  else if port = kbcStatusReg then r.command v
  else if port = kbcDataReg then r.data v
  else r

def afterIn (r : Told) (port : Nat) (x : Option UInt32) : Told :=
  if port = kbcDataReg then x.elim r fun w => r.hear (UInt8.ofNat w.toNat) else r

end Told

/-- The devices may answer as they like. -/
def ps2 : Contract Sys.Ans Told where
  allows _ _ := True
  gives _ _ _ := True
  after
    | r, .inb port, x => r.afterIn port x
    | r, .outb port v, done => r.afterOut port v done
    | r, _, _ => r

theorem ps2_silent : Silent ps2 := ⟨fun _ _ => trivial, fun _ _ _ => rfl⟩

theorem ps2_timeless : Timeless ps2 := ⟨fun _ _ => trivial, fun _ _ _ => rfl⟩

/-! ## One byte -/

variable {st : Statics} {r : Told}

/-- The state of the driver and what has passed. -/
def Same (st : Statics) (r : Told) (st' : Statics) (r' : Told) : Prop := st' = st ∧ r' = r

theorem status_told : ps2.Tries (utilSysInb kbcStatusReg) st r (Same st r) fun _ => Same st r :=
  tries_utilSysInb trivial (fun _ => ⟨rfl, rfl⟩) fun _ _ => ⟨rfl, rfl⟩

theorem waitInputEmpty_told (tries : Nat) :
    ps2.Tries (waitInputEmpty tries) st r (Same st r) fun _ => Same st r := by
  induction tries with
  | zero => exact tries_fail ps2_silent ⟨rfl, rfl⟩
  | succ tries ih =>
    refine (tries_orFail ps2_silent status_told).bind ?_
    rintro status _ _ ⟨rfl, rfl⟩
    refine tries_ite ⟨rfl, rfl⟩ ((tries_delay ps2_timeless _).bind ?_)
    rintro - _ _ ⟨rfl, rfl⟩
    exact ih

theorem waitOutputFull_told (tries : Nat) :
    ps2.Tries (waitOutputFull tries) st r (Same st r) fun b => Same st (r.hear b) := by
  induction tries with
  | zero => exact tries_fail ps2_silent ⟨rfl, rfl⟩
  | succ tries ih =>
    refine (tries_orFail ps2_silent status_told).bind ?_
    rintro status _ _ ⟨rfl, rfl⟩
    refine tries_ite ?_ ((tries_delay ps2_timeless _).bind ?_)
    · exact tries_orFail ps2_silent (tries_utilSysInb trivial (fun _ => ⟨rfl, rfl⟩)
        fun _ _ => ⟨rfl, rfl⟩)
    · rintro - _ _ ⟨rfl, rfl⟩
      exact ih

/-- A write behind the wait for the input buffer. -/
theorem write_told {α : Type} {port : Nat} {v : UInt8} (e e' : ErrorType) (msg msg' : String)
    {f : Unit → Driver α} {E : Statics → Told → Prop} {Q : α → Statics → Told → Prop}
    (hE : E st r) (hf : ps2.Tries (f ()) st (r.afterOut port v true) E Q) :
    ps2.Tries (orFail kbcWaitInputEmpty e msg >>= fun _ =>
      orFail (sysOutb port v) e' msg' >>= f) st r E Q := by
  have hwait : ps2.Tries kbcWaitInputEmpty st r E fun _ => Same st r := by
    refine (waitInputEmpty_told kbcMaxTries).mono ?_ fun _ _ _ h => h
    rintro _ _ ⟨rfl, rfl⟩
    exact hE
  refine (tries_orFail ps2_silent hwait).bind ?_
  rintro - _ _ ⟨rfl, rfl⟩
  have hout : ps2.Tries (sysOutb port v) _ _ E fun _ => Same _ (Told.afterOut _ port v true) :=
    tries_sysOutb trivial (fun _ => hE) fun _ => ⟨rfl, rfl⟩
  refine (tries_orFail ps2_silent hout).bind ?_
  rintro - _ _ ⟨rfl, rfl⟩
  exact hf

/-- The byte was sent at most `k` times, and was acknowledged at most as `acked` says. -/
structure Tried (st : Statics) (r : Told) (cmd : UInt8) (k : Nat) (acked : List UInt8)
    (st' : Statics) (r' : Told) : Prop where
  statics : st' = st
  said : r'.said = r.said
  acked : r'.acked = r.acked ++ acked
  sent : ∃ n ≤ k, r'.sent = r.sent ++ List.replicate n cmd

/-- `mouse_write_command`: the byte is acknowledged where it reports success, and only
there. -/
theorem writeCommand_told (cmd : UInt8) (attempts : Nat) (hr : r.waiting = none) :
    ps2.Tries (writeCommand cmd attempts) st r (Tried st r cmd attempts [])
      fun _ st' r' => Tried st r cmd attempts [cmd] st' r' ∧ r'.waiting = none := by
  induction attempts generalizing r with
  | zero =>
    exact tries_fail ps2_silent ⟨rfl, rfl, (List.append_nil _).symm, 0, Nat.le_refl 0, by simp⟩
  | succ attempts ih =>
    have hnone : Tried st r cmd (attempts + 1) [] st r :=
      ⟨rfl, rfl, (List.append_nil _).symm, 0, Nat.zero_le _, by simp⟩
    -- the byte has gone out once, and is not answered
    let out : Told := ⟨false, some cmd, r.sent ++ [cmd], r.acked, r.said⟩
    have hsent : ∀ n ≤ attempts, ∃ n' ≤ attempts + 1,
        r.sent ++ [cmd] ++ List.replicate n cmd = r.sent ++ List.replicate n' cmd :=
      fun n hn => ⟨n + 1, Nat.succ_le_succ hn, by simp [List.replicate_succ]⟩
    have hout : Tried st r cmd (attempts + 1) [] st out :=
      ⟨rfl, rfl, (List.append_nil _).symm, 1, Nat.succ_le_succ (Nat.zero_le _), rfl⟩
    have htold : Tried st r cmd (attempts + 1) [] st (r.command mouseCommand) :=
      ⟨rfl, rfl, (List.append_nil _).symm, 0, Nat.zero_le _, by simp [Told.command]⟩
    refine write_told _ _ _ _ hnone (write_told _ _ _ _ htold ?_)
    have hread : ps2.Tries kbcWaitOutputFull st out
        (Tried st r cmd (attempts + 1) []) fun b => Same st (out.hear b) := by
      refine (waitOutputFull_told kbcMaxTries).mono ?_ fun _ _ _ h => h
      rintro _ _ ⟨rfl, rfl⟩
      exact hout
    refine (tries_orFail ps2_silent hread).bind ?_
    rintro b _ _ ⟨rfl, rfl⟩
    by_cases hb : b = success
    · rw [if_pos hb]
      refine ⟨⟨rfl, rfl, ?_, hout.sent⟩, rfl⟩
      simp [Told.hear, out, hb]
    rw [if_neg hb]
    have hheard : out.hear b = ⟨false, none, r.sent ++ [cmd], r.acked, r.said⟩ := by
      simp [Told.hear, out, hb]
    rw [hheard]
    refine tries_ite ?_ ?_
    · exact tries_fail ps2_silent ⟨rfl, rfl, (List.append_nil _).symm, hout.sent⟩
    · refine (@ih ⟨false, none, r.sent ++ [cmd], r.acked, r.said⟩ rfl).mono ?_ ?_
      · rintro _ _ ⟨rfl, hsaid, hacked, n, hn, hs⟩
        obtain ⟨n', hn', heq⟩ := hsent n hn
        exact ⟨rfl, hsaid, hacked, n', hn', hs.trans heq⟩
      · rintro - _ _ ⟨⟨rfl, hsaid, hacked, n, hn, hs⟩, hwaiting⟩
        obtain ⟨n', hn', heq⟩ := hsent n hn
        exact ⟨⟨rfl, hsaid, hacked, n', hn', hs.trans heq⟩, hwaiting⟩

theorem mouseWriteCommand_told (cmd : UInt8) (hr : r.waiting = none) :
    ps2.Tries (mouseWriteCommand cmd) st r (Tried st r cmd mouseMaxTries [])
      fun _ st' r' => Tried st r cmd mouseMaxTries [cmd] st' r' ∧ r'.waiting = none :=
  writeCommand_told cmd mouseMaxTries hr

/-! ## The script of the wheel -/

/-- From `r`, the mouse acknowledged a beginning of `script`; each of its bytes was sent at
most so often that one of them is left over. -/
structure Begun (script : List UInt8) (r r' : Told) : Prop where
  acked : ∃ done, done <+: script ∧ r'.acked = r.acked ++ done
  sent : ∃ ns : List Nat, ns.length ≤ script.length ∧ (∀ n ∈ ns, n ≤ mouseMaxTries) ∧
    r'.sent = r.sent ++ (List.zipWith List.replicate ns script).flatten

/-- All of `script` was acknowledged. -/
structure Done (script : List UInt8) (r r' : Told) : Prop where
  acked : r'.acked = r.acked ++ script
  sent : ∃ ns : List Nat, ns.length = script.length ∧ (∀ n ∈ ns, n ≤ mouseMaxTries) ∧
    r'.sent = r.sent ++ (List.zipWith List.replicate ns script).flatten
  waiting : r'.waiting = none

/-- It broke off before the end of `script`. -/
structure Stopped (script : List UInt8) (r r' : Told) : Prop extends Begun script r r' where
  short : r'.acked.length < r.acked.length + script.length

theorem Done.begun {script : List UInt8} {r' : Told} (h : Done script r r') :
    Begun script r r' := by
  obtain ⟨ns, hlen, hns, hsent⟩ := h.sent
  exact ⟨⟨script, List.prefix_rfl, h.acked⟩, ns, Nat.le_of_eq hlen, hns, hsent⟩

theorem Stopped.not_acked {script : List UInt8} {r' : Told} (h : Stopped script r r') :
    r'.acked ≠ r.acked ++ script := by
  intro hall
  have hshort := h.short
  rw [hall, List.length_append] at hshort
  exact Nat.lt_irrefl _ hshort

/-- What was sent for the parts of a script, one after the other. -/
theorem sent_append {x y a b c : List UInt8} {ns ms : List Nat} (hlen : ns.length = x.length)
    (h : b = a ++ (List.zipWith List.replicate ns x).flatten)
    (h' : c = b ++ (List.zipWith List.replicate ms y).flatten) :
    c = a ++ (List.zipWith List.replicate (ns ++ ms) (x ++ y)).flatten := by
  rw [h', h, List.zipWith_append hlen, List.flatten_append, List.append_assoc]

theorem Done.append {x y : List UInt8} {r₁ r₂ : Told} (h : Done x r r₁) (h' : Done y r₁ r₂) :
    Done (x ++ y) r r₂ := by
  obtain ⟨ns, hlen, hns, hsent⟩ := h.sent
  obtain ⟨ms, hlen', hms, hsent'⟩ := h'.sent
  refine ⟨by rw [h'.acked, h.acked, List.append_assoc], ⟨ns ++ ms, ?_,
    List.forall_mem_append.2 ⟨hns, hms⟩, sent_append hlen hsent hsent'⟩, h'.waiting⟩
  rw [List.length_append, List.length_append, hlen, hlen']

theorem Done.append_begun {x y : List UInt8} {r₁ r₂ : Told} (h : Done x r r₁)
    (h' : Begun y r₁ r₂) : Begun (x ++ y) r r₂ := by
  obtain ⟨ns, hlen, hns, hsent⟩ := h.sent
  obtain ⟨⟨done, hdone, hacked⟩, ms, hlen', hms, hsent'⟩ := h'
  refine ⟨⟨x ++ done, (List.prefix_append_right_inj x).2 hdone, ?_⟩, ns ++ ms, ?_,
    List.forall_mem_append.2 ⟨hns, hms⟩, sent_append hlen hsent hsent'⟩
  · rw [hacked, h.acked, List.append_assoc]
  · rw [List.length_append, List.length_append]
    omega

theorem Done.append_stopped {x y : List UInt8} {r₁ r₂ : Told} (h : Done x r r₁)
    (h' : Stopped y r₁ r₂) : Stopped (x ++ y) r r₂ := by
  refine ⟨h.append_begun h'.toBegun, ?_⟩
  have hshort := h'.short
  rw [h.acked, List.length_append] at hshort
  rw [List.length_append]
  omega

theorem zipWith_append_left {α β γ : Type} (f : α → β → γ) {as : List α} {bs : List β}
    (h : as.length ≤ bs.length) (cs : List β) :
    List.zipWith f as (bs ++ cs) = List.zipWith f as bs := by
  induction as generalizing bs with
  | nil => rfl
  | cons a as ih =>
    cases bs with
    | nil => exact absurd h (Nat.not_succ_le_zero _)
    | cons b bs =>
      rw [List.cons_append, List.zipWith_cons_cons, List.zipWith_cons_cons,
        ih (Nat.le_of_succ_le_succ h)]

theorem Begun.append {x : List UInt8} {r' : Told} (h : Begun x r r') (y : List UInt8) :
    Begun (x ++ y) r r' := by
  obtain ⟨⟨done, hdone, hacked⟩, ns, hlen, hns, hsent⟩ := h
  refine ⟨⟨done, hdone.trans (List.prefix_append x y), hacked⟩, ns, ?_, hns, ?_⟩
  · rw [List.length_append]
    omega
  · rw [hsent, zipWith_append_left _ hlen]

theorem Stopped.append {x : List UInt8} {r' : Told} (h : Stopped x r r') (y : List UInt8) :
    Stopped (x ++ y) r r' := by
  refine ⟨h.toBegun.append y, ?_⟩
  have hshort := h.short
  rw [List.length_append]
  omega

/-- Before its first byte. -/
theorem Stopped.start (cmd : UInt8) (script : List UInt8) (r : Told) :
    Stopped (cmd :: script) r r :=
  ⟨⟨⟨[], List.nil_prefix, (List.append_nil _).symm⟩, [], Nat.zero_le _, by simp, by simp⟩,
    by simp⟩

/-- One byte as a script. -/
theorem Tried.sent_one {cmd : UInt8} {acked : List UInt8} {st' : Statics} {r' : Told}
    (h : Tried st r cmd mouseMaxTries acked st' r') :
    ∃ ns : List Nat, ns.length = 1 ∧ (∀ n ∈ ns, n ≤ mouseMaxTries) ∧
      r'.sent = r.sent ++ (List.zipWith List.replicate ns [cmd]).flatten := by
  obtain ⟨n, hn, hsent⟩ := h.sent
  refine ⟨[n], rfl, ?_, by simpa using hsent⟩
  intro m hm
  rw [List.mem_singleton.1 hm]
  exact hn

theorem command_told (cmd : UInt8) (hr : r.waiting = none) :
    ps2.Tries (mouseWriteCommand cmd) st r
      (fun st' r' => st' = st ∧ r'.said = r.said ∧ Stopped [cmd] r r')
      fun _ st' r' => st' = st ∧ r'.said = r.said ∧ Done [cmd] r r' := by
  refine (mouseWriteCommand_told cmd hr).mono ?_ ?_
  · intro st' r' h
    obtain ⟨ns, hlen, hns, hsent⟩ := h.sent_one
    refine ⟨h.statics, h.said, ⟨⟨[], List.nil_prefix, h.acked⟩, ns, Nat.le_of_eq hlen, hns, hsent⟩,
      ?_⟩
    rw [h.acked, List.append_nil]
    exact Nat.lt_succ_self _
  · rintro - st' r' ⟨h, hwaiting⟩
    exact ⟨h.statics, h.said, h.acked, h.sent_one, hwaiting⟩

/-- A script that goes on with another byte. -/
theorem command_then {α : Type} (cmd : UInt8) (hr : r.waiting = none) {f : Unit → Driver α}
    {script : List UInt8} {Q : α → Statics → Told → Prop}
    (hf : ∀ r', r'.waiting = none → r'.said = r.said → Done [cmd] r r' →
      ps2.Tries (f ()) st r' (fun _ r'' => Stopped script r' r'') Q) :
    ps2.Tries (mouseWriteCommand cmd >>= f) st r (fun _ r' => Stopped (cmd :: script) r r') Q := by
  have hcmd : ps2.Tries (mouseWriteCommand cmd) st r (fun _ r' => Stopped (cmd :: script) r r')
      fun _ st' r' => st' = st ∧ r'.said = r.said ∧ Done [cmd] r r' :=
    (command_told cmd hr).mono (fun _ _ h => h.2.2.append script) fun _ _ _ h => h
  refine hcmd.bind ?_
  rintro - _ r' ⟨rfl, hsaid, hdone⟩
  refine (hf r' hdone.waiting hsaid hdone).mono ?_ fun _ _ _ h => h
  intro _ r'' hstopped
  exact hdone.append_stopped hstopped

/-- The sample rates, each behind the command that sets it. -/
def ratesScript (rates : List UInt8) : List UInt8 := rates.flatMap fun rate => [setSampleRate, rate]

theorem setSampleRates_told (rates : List UInt8) (hr : r.waiting = none) :
    ps2.Tries (setSampleRates rates) st r (fun _ r' => Stopped (ratesScript rates) r r')
      fun _ st' r' => st' = st ∧ r'.said = r.said ∧ Done (ratesScript rates) r r' := by
  induction rates generalizing r with
  | nil => exact ⟨rfl, rfl, (List.append_nil _).symm, ⟨[], rfl, by simp, by simp⟩, hr⟩
  | cons rate rates ih =>
    refine command_then setSampleRate hr fun r₁ hr₁ hsaid₁ hdone₁ => ?_
    refine command_then rate hr₁ fun r₂ hr₂ hsaid₂ hdone₂ => ?_
    refine (ih hr₂).mono (fun _ _ h => h) ?_
    rintro - _ r₃ ⟨rfl, hsaid₃, hdone₃⟩
    exact ⟨rfl, hsaid₃.trans (hsaid₂.trans hsaid₁), hdone₁.append (hdone₂.append hdone₃)⟩

/-- What a mouse with a wheel waits for, the question who it is, and the reporting. -/
def wheelScript : List UInt8 := ratesScript [200, 100, 80] ++ [getDeviceId, enableDr]

/-- The driver for the mouse that called itself `id`. -/
def identified (d : MouseDriver) (id : UInt8) : MouseDriver :=
  { d with packetSize := if 3 ≤ id then 4 else 3, packetIndex := 0, packetReady := false }

theorem mouseEnableWheelMode_told (hr : r.waiting = none) :
    ps2.Tries mouseEnableWheelMode st r (fun _ r' => Stopped wheelScript r r')
      fun _ st' r' => Done wheelScript r r' ∧ ∃ id, r'.said = r.said ++ [id] ∧
        st' = { st with mouse := identified st.mouse id } := by
  have hrates : ps2.Tries (setSampleRates [200, 100, 80]) st r
      (fun _ r' => Stopped wheelScript r r') fun _ st' r' =>
        st' = st ∧ r'.said = r.said ∧ Done (ratesScript [200, 100, 80]) r r' :=
    (setSampleRates_told _ hr).mono (fun _ _ h => h.append [getDeviceId, enableDr])
      fun _ _ _ h => h
  refine hrates.bind ?_
  rintro - st r₁ ⟨rfl, hsaid₁, hdone₁⟩
  refine Tries.mono (command_then getDeviceId hdone₁.waiting fun r₂ hr₂ hsaid₂ hdone₂ => ?_)
    (fun _ _ h => hdone₁.append_stopped h) fun _ _ _ h => h
  -- the answer is the first byte that belongs to no command
  have hread : ps2.Tries kbcWaitOutputFull st r₂ (fun _ r' => Stopped [enableDr] r₂ r')
      fun id => Same st { r₂ with said := r₂.said ++ [id] } := by
    refine (waitOutputFull_told kbcMaxTries).mono ?_ ?_
    · rintro _ _ ⟨rfl, rfl⟩
      exact Stopped.start enableDr [] _
    · rintro id _ _ ⟨rfl, rfl⟩
      exact ⟨rfl, by rw [Told.hear, hr₂]⟩
  refine (tries_orFail ps2_silent hread).bind ?_
  rintro id st r₃ ⟨rfl, hr₃⟩
  have hwaiting₃ : r₃.waiting = none := by
    rw [hr₃]
    exact hr₂
  rw [tries_bind, tries_modify]
  refine (command_told enableDr hwaiting₃).mono ?_ ?_
  · rintro _ _ ⟨-, -, ⟨hacked, hsent⟩, hshort⟩
    rw [hr₃] at hacked hsent hshort
    exact ⟨⟨hacked, hsent⟩, hshort⟩
  · rintro - _ r₄ ⟨rfl, hsaid₄, hacked, hsent, hwaiting⟩
    rw [hr₃] at hacked hsent hsaid₄
    refine ⟨hdone₁.append (hdone₂.append ⟨hacked, hsent, hwaiting⟩), id, ?_, rfl⟩
    rw [hsaid₄, hsaid₂, hsaid₁]

/-- Whatever the devices answer: the bytes that the mouse acknowledged are a beginning of
the script, none was sent more than five times, and the driver reports success exactly where
all of it was acknowledged; the packets then have the size for the mouse that answered. -/
theorem mouseEnableWheelMode_script (st : Statics) (dev : Device Sys.Ans) :
    Begun wheelScript .nothing
        (ps2.seen .nothing ((mouseEnableWheelMode st).exec dev []).2) ∧
      (((mouseEnableWheelMode st).exec dev []).1.1 = some () ↔
        (ps2.seen .nothing ((mouseEnableWheelMode st).exec dev []).2).acked = wheelScript) ∧
      (((mouseEnableWheelMode st).exec dev []).1.1 = some () →
        ∃ id, (ps2.seen .nothing ((mouseEnableWheelMode st).exec dev []).2).said = [id] ∧
          ((mouseEnableWheelMode st).exec dev []).1.2 =
            { st with mouse := identified st.mouse id }) := by
  have hdev : ps2.Fair .nothing dev := fun _ _ _ => trivial
  have hwheel : ps2.Tries mouseEnableWheelMode st .nothing _ _ := mouseEnableWheelMode_told rfl
  have hrun := (hwheel.exec hdev).2
  cases hr : ((mouseEnableWheelMode st).exec dev []).1.1 with
  | none =>
    rw [hr] at hrun
    have hstopped : Stopped wheelScript .nothing _ := hrun
    exact ⟨hstopped.toBegun, ⟨by simp, fun hall => absurd hall hstopped.not_acked⟩, by simp⟩
  | some _ =>
    rw [hr] at hrun
    obtain ⟨hdone, id, hsaid, hst⟩ := hrun
    exact ⟨hdone.begun, ⟨fun _ => hdone.acked, fun _ => rfl⟩, fun _ => ⟨id, hsaid, hst⟩⟩

end Driver

end LCode
