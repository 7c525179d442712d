import LCode.App.Verify.Events
import LCode.Drivers.Verify.Calls

/-!
# The handlers at the ports

The event loop's handlers take what the keyboard controller shows as a value. Here the
handlers go to its ports, and the value is what they have read: over any run of the loop's
work, whatever else goes over the bus in between, the keyboard and the mouse end as those
handlers have it for the reads of their own interrupts.
-/

namespace LCode

namespace Driver

open Contract

/-! ## What is read -/

/-- The reads of the keyboard controller: its status, and its data. -/
structure KbcReads where
  statuses : List (Option UInt8)
  data : List (Option UInt8)

namespace KbcReads

def nothing : KbcReads := ⟨[], []⟩

def append (r q : KbcReads) : KbcReads := ⟨r.statuses ++ q.statuses, r.data ++ q.data⟩

/-- The reads of several interrupts, one after the other. -/
def concat (qs : List KbcReads) : KbcReads := qs.foldr append nothing

/-- A controller that shows what was read. -/
def port (r : KbcReads) : KbcPort := ⟨fun n => r.statuses[n]?.join, r.data.head?.join⟩

theorem append_nothing (r : KbcReads) : r.append nothing = r := by
  rw [append, nothing, List.append_nil, List.append_nil]

theorem append_assoc (r q p : KbcReads) : (r.append q).append p = r.append (q.append p) := by
  simp only [append, List.append_assoc]

@[simp] theorem concat_nil : concat [] = nothing := rfl

@[simp] theorem concat_cons (q : KbcReads) (qs : List KbcReads) :
    concat (q :: qs) = q.append (concat qs) := rfl

/-- No interrupt looks at the status more than eleven times, nor takes more than a byte. -/
structure Short (r : KbcReads) : Prop where
  statuses : r.statuses.length ≤ 11
  data : r.data.length ≤ 1

end KbcReads

/-- What is read of the controller; nothing is asked of anyone. -/
def kbcReads : Contract Sys.Ans KbcReads where
  allows _ _ := True
  gives _ _ _ := True
  after
    | r, .inb port, x =>
      if port = kbcStatusReg then r.append ⟨[x.map fun w => UInt8.ofNat w.toNat], []⟩
      else if port = kbcDataReg then r.append ⟨[], [x.map fun w => UInt8.ofNat w.toNat]⟩
      else r
    | r, _, _ => r

theorem kbcReads_silent : Silent kbcReads := ⟨fun _ _ => trivial, fun _ _ _ => rfl⟩

theorem kbcReads_timeless : Timeless kbcReads := ⟨fun _ _ => trivial, fun _ _ _ => rfl⟩

variable {α : Type} {st : Statics} {r : KbcReads}

theorem status_reads {E : Statics → KbcReads → Prop} {Q : UInt8 → Statics → KbcReads → Prop}
    (herr : E st (r.append ⟨[none], []⟩)) (h : ∀ v, Q v st (r.append ⟨[some v], []⟩)) :
    kbcReads.Tries (utilSysInb kbcStatusReg) st r E Q :=
  tries_utilSysInb trivial (fun _ => herr) fun _ _ => h _

theorem data_reads {E : Statics → KbcReads → Prop} {Q : UInt8 → Statics → KbcReads → Prop}
    (herr : E st (r.append ⟨[], [none]⟩)) (h : ∀ v, Q v st (r.append ⟨[], [some v]⟩)) :
    kbcReads.Tries (utilSysInb kbcDataReg) st r E Q :=
  tries_utilSysInb trivial (fun _ => herr) fun _ _ => h _

/-! ## The keyboard -/

/-- `keyboard_ih` is the handler of the event loop, for what it reads. -/
theorem keyboardIh_reads {E : Statics → KbcReads → Prop} :
    kbcReads.Tries keyboardIh st r E fun _ st' r' => ∃ q : KbcReads, r' = r.append q ∧ q.Short ∧
      st' = { st with keyboard := st.keyboard.keyboardIh q.port } := by
  have hsame (q : KbcReads) (hq : q.Short) (h : st.keyboard.keyboardIh q.port = st.keyboard) :
      ∃ q' : KbcReads, r.append q = r.append q' ∧ q'.Short ∧
        st = { st with keyboard := st.keyboard.keyboardIh q'.port } :=
    ⟨q, rfl, hq, by rw [h]⟩
  refine Tries.always (tries_bind.2 (tries_orFail kbcReads_silent (status_reads ?_ ?_)))
  · exact hsame ⟨[none], []⟩ ⟨by simp, by simp⟩ rfl
  intro status
  have hshort : KbcReads.Short ⟨[some status], []⟩ := ⟨by simp, by simp⟩
  by_cases hobf : status &&& Kbc.stObf = 0
  · rw [if_pos hobf]
    exact tries_fail kbcReads_silent (hsame ⟨[some status], []⟩ hshort rfl)
  rw [if_neg hobf]
  by_cases herr : status &&& (Kbc.parErr ||| Kbc.toutErr) ≠ 0
  · rw [if_pos herr]
    exact tries_fail kbcReads_silent (hsame ⟨[some status], []⟩ hshort rfl)
  rw [if_neg herr]
  refine tries_bind.2 (tries_orFail kbcReads_silent (data_reads ?_ ?_))
  · rw [KbcReads.append_assoc]
    exact hsame ⟨[some status], [none]⟩ ⟨by simp, by simp⟩ rfl
  · intro data
    refine tries_modify.2 ⟨⟨[some status], [some data]⟩, KbcReads.append_assoc .., ?_, ?_⟩
    · exact ⟨by simp, by simp⟩
    · change _ = { st with keyboard := if _ then _ else if _ then _ else _ }
      rw [if_neg hobf, if_neg herr]

/-! ## The mouse -/

/-- A controller shows these statuses from the `n`th read on. -/
def Shows (port : KbcPort) (n : Nat) (ss : List (Option UInt8)) : Prop :=
  ∀ k x, ss[k]? = some x → port.statusAt (n + k) = x

theorem Shows.head {port : KbcPort} {n : Nat} {x : Option UInt8} {ss : List (Option UInt8)}
    (h : Shows port n (x :: ss)) : port.statusAt n = x := h 0 x rfl

theorem Shows.tail {port : KbcPort} {n : Nat} {x : Option UInt8} {ss : List (Option UInt8)}
    (h : Shows port n (x :: ss)) : Shows port (n + 1) ss := by
  intro k y hy
  have hk := h (k + 1) y hy
  rwa [Nat.add_comm k 1, ← Nat.add_assoc] at hk

theorem KbcReads.port_shows (r : KbcReads) : Shows r.port 0 r.statuses := by
  intro k x hx
  rw [Nat.zero_add]
  exact congrArg Option.join hx

/-- The wait of `mouse_ih` for the output buffer is that of the event loop's handler. -/
theorem mouseWaitObf_reads (tries : Nat) (status : UInt8) :
    kbcReads.Tries (mouseWaitObf status tries) st r
      (fun st' r' => st' = st ∧ ∃ ss, r' = r.append ⟨ss, []⟩ ∧ ss.length ≤ tries ∧
        ∀ port n, Shows port n ss → MouseDriver.waitObf port status n tries = none)
      fun v st' r' => st' = st ∧ ∃ ss, r' = r.append ⟨ss, []⟩ ∧ ss.length ≤ tries ∧
        ∀ port n, Shows port n ss → MouseDriver.waitObf port status n tries = some v := by
  induction tries generalizing status r with
  | zero => exact ⟨rfl, [], (r.append_nothing).symm, Nat.le_refl 0, fun _ _ _ => rfl⟩
  | succ tries ih =>
    unfold mouseWaitObf
    by_cases hobf : status &&& Kbc.stObf ≠ 0
    · rw [if_pos hobf]
      refine ⟨rfl, [], (r.append_nothing).symm, Nat.zero_le _, fun port n _ => ?_⟩
      rw [MouseDriver.waitObf, if_pos hobf]
    rw [if_neg hobf]
    refine (tries_delay kbcReads_timeless 20000).bind ?_
    rintro - st r ⟨rfl, rfl⟩
    refine tries_bind.2 (tries_orFail kbcReads_silent (status_reads ?_ ?_))
    · refine ⟨rfl, [none], rfl, Nat.le_add_left 1 tries, fun port n hshows => ?_⟩
      rw [MouseDriver.waitObf, if_neg hobf, hshows.head]
      rfl
    · intro next
      have hstep {ss : List (Option UInt8)} {port : KbcPort} {n : Nat}
          (hshows : Shows port n (some next :: ss)) : MouseDriver.waitObf port status n (tries + 1) =
            MouseDriver.waitObf port next (n + 1) tries := by
        rw [MouseDriver.waitObf, if_neg hobf, hshows.head]
        rfl
      refine (ih next).mono ?_ ?_
      · rintro st' _ ⟨rfl, ss, rfl, hlen, hwait⟩
        refine ⟨rfl, some next :: ss, KbcReads.append_assoc .., Nat.succ_le_succ hlen, ?_⟩
        intro port n hshows
        exact (hstep hshows).trans (hwait port (n + 1) hshows.tail)
      · rintro v st' _ ⟨rfl, ss, rfl, hlen, hwait⟩
        refine ⟨rfl, some next :: ss, KbcReads.append_assoc .., Nat.succ_le_succ hlen, ?_⟩
        intro port n hshows
        exact (hstep hshows).trans (hwait port (n + 1) hshows.tail)

/-- The byte of `mouse_ih` is that of the event loop's handler. -/
theorem mouseReadByte_reads :
    kbcReads.Tries mouseReadByte st r
      (fun st' r' => st' = st ∧ ∃ q : KbcReads, r' = r.append q ∧ q.Short ∧
        MouseDriver.readByte q.port = none)
      fun v st' r' => st' = st ∧ ∃ q : KbcReads, r' = r.append q ∧ q.Short ∧
        MouseDriver.readByte q.port = some v := by
  refine tries_bind.2 (tries_orFail kbcReads_silent (status_reads ?_ ?_))
  · exact ⟨rfl, ⟨[none], []⟩, rfl, ⟨by simp, by simp⟩, rfl⟩
  intro first
  have hwait {q : KbcReads} {ss : List (Option UInt8)} {x : Option UInt8}
      (hq : q.statuses = some first :: ss)
      (h : ∀ port n, Shows port n ss → MouseDriver.waitObf port first n 10 = x) :
      MouseDriver.readByte q.port = x.bind fun status =>
        if status &&& Kbc.stObf = 0 then none
        else if status &&& (Kbc.parErr ||| Kbc.toutErr) ≠ 0 then none
        else if status &&& Kbc.mouseData = 0 then none
        else q.port.data := by
    have hshows := q.port_shows
    rw [hq] at hshows
    rw [MouseDriver.readByte, hshows.head, ← h q.port 1 hshows.tail]
    rfl
  refine ((mouseWaitObf_reads 10 first).mono ?_ fun _ _ _ h => h).bind ?_
  · rintro st' _ ⟨rfl, ss, rfl, hlen, h⟩
    refine ⟨rfl, ⟨some first :: ss, []⟩, KbcReads.append_assoc .., ?_, hwait rfl h⟩
    exact ⟨Nat.succ_le_succ hlen, Nat.zero_le 1⟩
  rintro status st _ ⟨rfl, ss, rfl, hlen, h⟩
  have hlen' : (some first :: ss).length ≤ 11 := Nat.succ_le_succ hlen
  have hnone (hread : MouseDriver.readByte (KbcReads.port ⟨some first :: ss, []⟩) = none) :
      st = st ∧ ∃ q : KbcReads, (r.append ⟨[some first], []⟩).append ⟨ss, []⟩ = r.append q ∧
        q.Short ∧ MouseDriver.readByte q.port = none :=
    ⟨rfl, ⟨some first :: ss, []⟩, KbcReads.append_assoc .., ⟨hlen', Nat.zero_le 1⟩, hread⟩
  by_cases hobf : status &&& Kbc.stObf = 0
  · rw [if_pos hobf]
    refine tries_fail kbcReads_silent (hnone ((hwait rfl h).trans ?_))
    rw [Option.bind_some, if_pos hobf]
  rw [if_neg hobf]
  by_cases herr : status &&& (Kbc.parErr ||| Kbc.toutErr) ≠ 0
  · rw [if_pos herr]
    refine tries_fail kbcReads_silent (hnone ((hwait rfl h).trans ?_))
    rw [Option.bind_some, if_neg hobf, if_pos herr]
  rw [if_neg herr]
  by_cases hmouse : status &&& Kbc.mouseData = 0
  · rw [if_pos hmouse]
    refine tries_giveUp.2 (hnone ((hwait rfl h).trans ?_))
    rw [Option.bind_some, if_neg hobf, if_neg herr, if_pos hmouse]
  rw [if_neg hmouse]
  have hread (x : Option UInt8) :
      MouseDriver.readByte (KbcReads.port ⟨some first :: ss, [x]⟩) = x := by
    refine (hwait rfl h).trans ?_
    rw [Option.bind_some, if_neg hobf, if_neg herr, if_neg hmouse]
    rfl
  have happend (x : Option UInt8) : ((r.append ⟨[some first], []⟩).append ⟨ss, []⟩).append
      ⟨[], [x]⟩ = r.append ⟨some first :: ss, [x]⟩ := by
    rw [KbcReads.append_assoc, KbcReads.append_assoc]
    simp [KbcReads.append]
  refine tries_orFail kbcReads_silent (data_reads ?_ ?_)
  · exact ⟨rfl, _, happend none, ⟨hlen', Nat.le_refl 1⟩, hread none⟩
  · intro data
    exact ⟨rfl, _, happend (some data), ⟨hlen', Nat.le_refl 1⟩, hread (some data)⟩

/-- `mouse_ih` is the handler of the event loop, for what it reads; it gives up where that
one faults. -/
theorem mouseIh_reads :
    kbcReads.Tries mouseIh st r
      (fun st' r' => st' = st ∧ ∃ q : KbcReads, r' = r.append q ∧ q.Short ∧
        st.mouse.mouseIh q.port = none)
      fun _ st' r' => ∃ q : KbcReads, r' = r.append q ∧ q.Short ∧
        ∃ mouse, st.mouse.mouseIh q.port = some mouse ∧ st' = { st with mouse } := by
  have hbyte : kbcReads.Tries mouseReadByte.result st r (fun _ _ => False) fun x st' r' =>
      st' = st ∧ ∃ q : KbcReads, r' = r.append q ∧ q.Short ∧ MouseDriver.readByte q.port = x :=
    Tries.result mouseReadByte_reads
  refine (hbyte.mono (fun _ _ h => h.elim) fun _ _ _ h => h).bind ?_
  rintro x st _ ⟨rfl, q, rfl, hq, hread⟩
  cases x with
  | none =>
    refine ⟨q, rfl, hq, st.mouse, ?_, rfl⟩
    rw [MouseDriver.mouseIh, hread]
  | some data =>
    have htake : st.mouse.mouseIh q.port = mouseTake st.mouse data := by
      rw [MouseDriver.mouseIh, hread]
      rfl
    rw [tries_bind, tries_get]
    cases hmouse : mouseTake st.mouse data with
    | none => exact ⟨rfl, q, rfl, hq, htake.trans hmouse⟩
    | some mouse => exact ⟨q, rfl, hq, mouse, htake.trans hmouse, rfl⟩

/-! ## The other work -/

/-- A routine that leaves the controller, the keyboard and the mouse alone. -/
abbrev Away (kb : Keyboard) (mouse : MouseDriver) (r : KbcReads) (p : Driver α) : Prop :=
  kbcReads.Keeps (fun st r' => (st.keyboard = kb ∧ st.mouse = mouse) ∧ r' = r) p

section Away

variable {kb : Keyboard} {mouse : MouseDriver} {p : Driver α}

theorem away_fail (e : ErrorType) (msg : String) : Away kb mouse r (fail e msg : Driver α) :=
  fun _ _ hs => tries_fail kbcReads_silent hs

theorem Away.orFail (h : Away kb mouse r p) (e : ErrorType) (msg : String) :
    Away kb mouse r (Driver.orFail p e msg) :=
  Contract.Keeps.orElse h (away_fail e msg)

theorem away_tickdelay (micros : Nat) : Away kb mouse r (tickdelay micros) :=
  fun _ _ hs => tries_tickdelay trivial fun _ => hs

theorem away_sysInb {port : Nat} (hport : port ≠ kbcStatusReg ∧ port ≠ kbcDataReg) :
    Away kb mouse r (sysInb port) := by
  rintro st r ⟨hst, rfl⟩
  have hafter (x : Option UInt32) : kbcReads.after r (.inb port) x = r := by
    change (if _ then _ else if _ then _ else _) = _
    rw [if_neg hport.1, if_neg hport.2]
  exact tries_sysInb trivial (fun _ => ⟨hst, hafter none⟩) fun w _ => ⟨hst, hafter (some w)⟩

theorem away_utilSysInb {port : Nat} (hport : port ≠ kbcStatusReg ∧ port ≠ kbcDataReg) :
    Away kb mouse r (utilSysInb port) :=
  (away_sysInb hport).bind fun _ => .pure _

theorem away_sysOutb (port : Nat) (v : UInt8) : Away kb mouse r (sysOutb port v) :=
  fun _ _ hs => tries_sysOutb trivial (fun _ => hs) fun _ => hs

theorem away_modify (f : Statics → Statics)
    (hf : ∀ st, (f st).keyboard = st.keyboard ∧ (f st).mouse = st.mouse) :
    Away kb mouse r (Routine.modify f) := by
  rintro st r' ⟨hst, hr⟩
  exact ⟨⟨(hf st).1.trans hst.1, (hf st).2.trans hst.2⟩, hr⟩

theorem away_drainFifo (fuel : Nat) (lsrVal data : UInt8) :
    Away kb mouse r (drainFifo lsrVal data fuel) := by
  induction fuel generalizing lsrVal data with
  | zero => exact .giveUp
  | succ fuel ih =>
    refine Contract.Keeps.get.bind fun st => .ite (.pure ()) ?_
    refine (away_utilSysInb ⟨by decide, by decide⟩).result.bind fun x => ?_
    have hrest : Away kb mouse r (do
        let lsrVal' ← (utilSysInb (com1Base + lsr)).result
        drainFifo (lsrVal'.getD lsrVal) (x.getD data) fuel) :=
      (away_utilSysInb ⟨by decide, by decide⟩).result.bind fun _ => ih _ _
    refine .ite (Contract.Keeps.get.bind fun st => ?_) hrest
    cases st.rxQueue.push (x.getD data) with
    | none => exact Contract.Keeps.giveUp.bind fun _ => hrest
    | some pushed =>
      obtain ⟨ok, rxQueue⟩ := pushed
      exact (away_modify (fun st => { st with rxQueue }) fun _ => ⟨rfl, rfl⟩).bind fun _ => hrest

theorem away_serialIh (data : UInt8) (fuel : Nat) : Away kb mouse r (serialIh data fuel) := by
  refine (away_utilSysInb ⟨by decide, by decide⟩).result.bind fun x => ?_
  cases x with
  | none => exact .pure ()
  | some iirVal =>
    refine .ite (.pure ()) (.ite ?_ (.pure ()))
    refine (away_utilSysInb ⟨by decide, by decide⟩).result.bind fun y => ?_
    cases y with
    | none => exact .pure ()
    | some lsrVal => exact away_drainFifo fuel lsrVal data

theorem away_rtcReadReg (reg : UInt8) : Away kb mouse r (rtcReadReg reg) := by
  refine ((away_sysOutb _ _).orFail _ _).bind fun _ => ?_
  exact ((away_sysInb ⟨by decide, by decide⟩).orFail _ _).bind fun _ => .pure _

theorem away_rtcWaitUpdate (fuel : Nat) : Away kb mouse r (rtcWaitUpdate fuel) := by
  induction fuel with
  | zero => exact .giveUp
  | succ fuel ih =>
    refine (away_tickdelay _).bind fun _ => ?_
    exact ((away_rtcReadReg _).orFail _ _).bind fun _ => .ite ih (.pure ())

theorem away_timeUpdate (fuel : Nat) : Away kb mouse r (timeUpdate fuel) := by
  have hreg (reg : UInt8) (msg : String) : Away kb mouse r (orFail (rtcReadReg reg) .rtc msg) :=
    (away_rtcReadReg reg).orFail _ _
  have hread : Away kb mouse r (rtcReadDate fuel) := by
    refine (away_rtcWaitUpdate fuel).bind fun _ => (hreg _ _).bind fun regB => ?_
    refine (hreg _ _).bind fun seconds => (hreg _ _).bind fun minutes => ?_
    refine (hreg _ _).bind fun hours => (hreg _ _).bind fun day => ?_
    refine (hreg _ _).bind fun month => (hreg _ _).bind fun year => ?_
    exact .ite (.pure _) (.pure _)
  exact hread.result.bind fun _ => away_modify _ fun _ => ⟨rfl, rfl⟩

theorem away_writeChar (data : UInt8) (tries : Nat) : Away kb mouse r (writeChar data tries) := by
  induction tries with
  | zero => exact .giveUp
  | succ tries ih =>
    refine (away_utilSysInb ⟨by decide, by decide⟩).bind fun _ => ?_
    exact .ite (away_sysOutb _ _) ((away_tickdelay _).bind fun _ => ih)

theorem away_sendBytes (bytes : List UInt8) : Away kb mouse r (sendBytes bytes) := by
  induction bytes with
  | nil => exact .pure ()
  | cons c bytes ih => exact (away_writeChar c 100).always.bind fun _ => ih

end Away

/-! ## Runs -/

/-- The keyboard and the mouse after some work, for what it reads of the controller. -/
def handled (km : Keyboard × MouseDriver) : Work × KbcReads → Option (Keyboard × MouseDriver)
  | (.keyboard, q) => some (km.1.keyboardIh q.port, km.2)
  | (.mouse, q) => (km.2.mouseIh q.port).map fun mouse => (km.1, mouse)
  | _ => some km

/-- What some work may have read: its own interrupt, or nothing. -/
structure WorkReads (w : Work) (q : KbcReads) : Prop where
  short : q.Short
  own : w ≠ .keyboard → w ≠ .mouse → q = .nothing

theorem work_reads (w : Work) (hst : st.mouse.Wf) {E : Statics → KbcReads → Prop} :
    kbcReads.Tries (work w).always st r E fun _ st' r' => ∃ q, WorkReads w q ∧ r' = r.append q ∧
      handled (st.keyboard, st.mouse) (w, q) = some (st'.keyboard, st'.mouse) ∧ st'.mouse.Wf := by
  have haway {p : Driver Unit} (hp : Away st.keyboard st.mouse r p)
      (hother : handled (st.keyboard, st.mouse) (w, .nothing) = some (st.keyboard, st.mouse)) :
      kbcReads.Tries p.always st r E fun _ st' r' => ∃ q, WorkReads w q ∧ r' = r.append q ∧
        handled (st.keyboard, st.mouse) (w, q) = some (st'.keyboard, st'.mouse) ∧
        st'.mouse.Wf := by
    have hend (st' : Statics) (r' : KbcReads)
        (h : (st'.keyboard = st.keyboard ∧ st'.mouse = st.mouse) ∧ r' = r) :
        ∃ q, WorkReads w q ∧ r' = r.append q ∧
          handled (st.keyboard, st.mouse) (w, q) = some (st'.keyboard, st'.mouse) ∧
          st'.mouse.Wf := by
      obtain ⟨⟨hkb, hmouse⟩, rfl⟩ := h
      refine ⟨.nothing, ⟨⟨Nat.zero_le _, Nat.zero_le _⟩, fun _ _ => rfl⟩, ?_, ?_, ?_⟩
      · rw [KbcReads.append_nothing]
      · rw [hother, hkb, hmouse]
      · rw [hmouse]
        exact hst
    exact Tries.always ((hp st r ⟨⟨rfl, rfl⟩, rfl⟩).mono hend fun _ => hend)
  cases w with
  | keyboard =>
    refine Tries.always (keyboardIh_reads.mono (fun _ _ h => h) ?_)
    rintro - st' _ ⟨q, rfl, hq, rfl⟩
    exact ⟨q, ⟨hq, fun h => absurd rfl h⟩, rfl, rfl, hst⟩
  | mouse =>
    refine Tries.always (mouseIh_reads.mono ?_ ?_)
    · rintro st' _ ⟨rfl, q, -, -, hfault⟩
      obtain ⟨mouse, hmouse, -⟩ := hst.mouseIh q.port
      rw [hfault] at hmouse
      cases hmouse
    · rintro - st' _ ⟨q, rfl, hq, mouse, hmouse, rfl⟩
      obtain ⟨mouse', hmouse', hwf⟩ := hst.mouseIh q.port
      obtain rfl := Option.some.inj (hmouse'.symm.trans hmouse)
      refine ⟨q, ⟨hq, fun _ h => absurd rfl h⟩, rfl, ?_, hwf⟩
      rw [handled, hmouse]
      rfl
  | serial data fuel => exact haway (away_serialIh data fuel) rfl
  | clock fuel => exact haway (away_timeUpdate fuel) rfl
  | send bytes => exact haway (away_sendBytes bytes) rfl

theorem loop_reads (ws : List Work) (hst : st.mouse.Wf) {E : Statics → KbcReads → Prop} :
    kbcReads.Tries (loop ws) st r E fun _ st' r' => ∃ qs, List.Forall₂ WorkReads ws qs ∧
      r' = r.append (.concat qs) ∧
      (ws.zip qs).foldlM handled (st.keyboard, st.mouse) = some (st'.keyboard, st'.mouse) := by
  induction ws generalizing st r with
  | nil => exact ⟨[], .nil, (r.append_nothing).symm, rfl⟩
  | cons w ws ih =>
    refine (work_reads w hst).bind ?_
    rintro - st₁ _ ⟨q, hq, rfl, hstep, hst₁⟩
    refine (ih hst₁).mono (fun _ _ h => h) ?_
    rintro - st₂ _ ⟨qs, hqs, rfl, hrun⟩
    refine ⟨q :: qs, .cons hq hqs, KbcReads.append_assoc .., ?_⟩
    rw [List.zip_cons_cons, List.foldlM_cons, hstep]
    exact hrun

/-- Over any run of the loop's work and whatever the devices answer, the reads of the
controller are those of the keyboard and mouse interrupts in turn, and keyboard and mouse are
at the end what the handlers of the event loop make of a controller that shows them. -/
theorem loop_refines_handlers (ws : List Work) (st : Statics) (hst : st.mouse.Wf)
    (dev : Device Sys.Ans) : ∃ qs, List.Forall₂ WorkReads ws qs ∧
      kbcReads.seen .nothing ((loop ws st).exec dev []).2 = .concat qs ∧
      (ws.zip qs).foldlM handled (st.keyboard, st.mouse) =
        some (((loop ws st).exec dev []).1.2.keyboard, ((loop ws st).exec dev []).1.2.mouse) := by
  have hdev : kbcReads.Fair .nothing dev := fun _ _ _ => trivial
  have hloop : kbcReads.Tries (loop ws) st .nothing (fun _ _ => False) _ := loop_reads ws hst
  have hrun := (hloop.exec hdev).2
  cases hr : ((loop ws st).exec dev []).1.1 with
  | none =>
    rw [hr] at hrun
    exact hrun.elim
  | some _ =>
    rw [hr] at hrun
    exact hrun

/-- A controller that always has a byte of the mouse. -/
def pointing : Device Sys.Ans
  | _, .inb port => some (if port = kbcStatusReg then 0x21 else 8)
  | _, .outb _ _ => true
  | _, .tickdelay _ => ()
  | _, .irqsetpolicy _ _ _ => none
  | _, .irqrmpolicy _ => true
  | _, .stderr _ => ()

theorem loop_refines_handlers_pointing :
    ∃ qs, List.Forall₂ WorkReads [.mouse, .clock 1, .keyboard] qs ∧
      kbcReads.seen .nothing
        ((loop [.mouse, .clock 1, .keyboard] .initial).exec pointing []).2 = .concat qs ∧
      (([.mouse, .clock 1, .keyboard] : List Work).zip qs).foldlM handled
          (Statics.initial.keyboard, Statics.initial.mouse) =
        some (((loop [.mouse, .clock 1, .keyboard] .initial).exec pointing []).1.2.keyboard,
          ((loop [.mouse, .clock 1, .keyboard] .initial).exec pointing []).1.2.mouse) :=
  loop_refines_handlers [.mouse, .clock 1, .keyboard] .initial
    ⟨List.length_replicate, by decide, by decide⟩ pointing

end Driver

end LCode
