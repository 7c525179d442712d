import LCode.Drivers.Verify.Calls

/-!
# The clock

The real-time clock as `rtc.h` describes it: registers behind an address port, a flag while
an update is in progress, and numbers in binary or as two decimal digits. The time is read
as the clock holds it in either form, and the text of the status bar shows it.
-/

namespace LCode

namespace Driver

open Contract

/-! ## The device -/

/-- A clock that stands still while it is read: its time, how it gives numbers, the register
that is addressed, how many more reads of register A show an update in progress, and whether
a call has failed. -/
structure Cmos where
  date : RtcDate
  binary : Bool
  addr : UInt8
  updates : Nat
  failed : Bool
  deriving DecidableEq, Repr

/-- Two decimal digits, a half byte each. -/
def bcd (n : UInt8) : UInt8 := UInt8.ofNat (n.toNat / 10 * 16 + n.toNat % 10)

namespace Cmos

def encode (r : Cmos) (n : UInt8) : UInt8 := if r.binary then n else bcd n

/-- What a register of the clock shows. -/
def Shows (r : Cmos) (v : UInt8) : Prop :=
  (r.addr = rtcRegA → (v &&& rtcUipMsk ≠ 0 ↔ r.updates ≠ 0)) ∧
  (r.addr = rtcRegB → (v &&& rtcDmMsk = 0 ↔ r.binary = false)) ∧
  (r.addr = rtcRegSeconds → v = r.encode r.date.seconds) ∧
  (r.addr = rtcRegMinutes → v = r.encode r.date.minutes) ∧
  (r.addr = rtcRegHours → v = r.encode r.date.hours) ∧
  (r.addr = rtcRegDay → v = r.encode r.date.day) ∧
  (r.addr = rtcRegMonth → v = r.encode r.date.month) ∧
  (r.addr = rtcRegYear → v = r.encode r.date.year)

def afterOut (r : Cmos) (port : Nat) (v : UInt8) (done : Bool) : Cmos :=
  if done = false then { r with failed := true }
  else if port = rtcAddrReg then { r with addr := v }
  else r

def afterIn (r : Cmos) (port : Nat) (x : Option UInt32) : Cmos :=
  if x.isNone then { r with failed := true }
  else if port = rtcDataReg ∧ r.addr = rtcRegA then { r with updates := r.updates - 1 }
  else r

end Cmos

variable {st : Statics} {r : Cmos}

/-- A number below a hundred as two digits. -/
def digits (n : UInt8) : List UInt8 := [48 + n / 10, 48 + n % 10]

theorem takeWhile_text {l : List UInt8} (hl : ∀ c ∈ l, c ≠ 0) (rest : List UInt8) :
    (l ++ 0 :: rest).takeWhile (· ≠ 0) = l := by
  rw [List.takeWhile_append_of_pos fun c hc => decide_eq_true (hl c hc)]
  simp

namespace Cmos

/-- What a clock shows in the register that is addressed. -/
def value (r : Cmos) : UInt8 :=
  if r.addr = rtcRegA then if r.updates = 0 then 0x26 else 0xA6
  else if r.addr = rtcRegB then if r.binary then 6 else 2
  else if r.addr = rtcRegSeconds then r.encode r.date.seconds
  else if r.addr = rtcRegMinutes then r.encode r.date.minutes
  else if r.addr = rtcRegHours then r.encode r.date.hours
  else if r.addr = rtcRegDay then r.encode r.date.day
  else if r.addr = rtcRegMonth then r.encode r.date.month
  else if r.addr = rtcRegYear then r.encode r.date.year
  else 0

end Cmos

end Driver

end LCode
