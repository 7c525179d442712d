import LCode.App.Events
import LCode.Lib.Along

/-!
# The keyboard

`keyboard_handler` assembles a scancode and decodes it after every interrupt, whether or
not a byte came, and each of the flags of `keyboard.c` belongs to two keys. So a failed
interrupt decodes the last byte again, and a released key takes the flag of the other one
with it. Where neither happens, the flags follow the keys and a failed interrupt does
nothing.
-/

namespace LCode

namespace KbcPort

/-- The byte that `keyboard_ih` reads, unless it fails. -/
def byte (port : KbcPort) : Option UInt8 :=
  match port.statusAt 0, port.data with
  | some status, some data =>
    if status &&& Kbc.stObf = 0 then none
    else if status &&& (Kbc.parErr ||| Kbc.toutErr) ≠ 0 then none
    else some data
  | _, _ => none

/-- A port with a byte in its output buffer. -/
def delivering (b : UInt8) : KbcPort := ⟨fun _ => some Kbc.stObf, some b⟩

end KbcPort

namespace Keyboard

variable {kb kb' : Keyboard} {ps : PacketScancode} {b : UInt8}

/-! ## One interrupt -/

theorem keyboardIh_eq (kb : Keyboard) (port : KbcPort) :
    kb.keyboardIh port = { kb with scancode := port.byte.getD kb.scancode } := by
  unfold keyboardIh KbcPort.byte
  cases port.statusAt 0 with
  | none => rfl
  | some status =>
    cases port.data with
    | none => rfl
    | some data =>
      dsimp only
      split
      · rfl
      · split <;> rfl

/-- The part of `keyboard_handler` after the read. -/
def handleByte (kb : Keyboard) (b : UInt8) : Keyboard × List InputEvent :=
  match buildScancode kb.ps b with
  | none => ({ kb with scancode := b }, [])
  | some ps =>
    if ps.twoByte then ({ kb with scancode := b, ps }, [])
    else
      let (kb, ev) := { kb with scancode := b, ps }.keyboardProcess ps
      (kb, ev.toList.map .key)

/-- A failed read leaves the last byte to the assembler. -/
theorem keyboardHandler_eq (kb : Keyboard) (port : KbcPort) :
    kb.keyboardHandler port = kb.handleByte (port.byte.getD kb.scancode) := by
  unfold keyboardHandler
  rw [keyboardIh_eq]
  rfl

/-- The code types something, where it makes a key that is no modifier. -/
def Types (kb : Keyboard) (code : UInt8) : Prop :=
  code = 0x01 ∨ code = 0x0E ∨ code = 0x1C ∨ kb.translateChar code ≠ 0

instance (kb : Keyboard) (code : UInt8) : Decidable (kb.Types code) :=
  inferInstanceAs (Decidable (_ ∨ _))

/-- `keyboard_process` of a one-byte code. -/
theorem keyboardProcess_one (kb : Keyboard) (ps : PacketScancode) (hsize : ps.size = 1) :
    (kb.keyboardProcess ps).1 = { kb with
      ctrl := if ps.bytes.1 &&& 0x7F = 0x1D then ps.make else kb.ctrl
      shift := if ps.bytes.1 &&& 0x7F = 0x2A ∨ ps.bytes.1 &&& 0x7F = 0x36 then ps.make
        else kb.shift } ∧
    ((kb.keyboardProcess ps).2 = none ↔ (ps.make = true → ps.bytes.1 &&& 0x7F ≠ 0x1D →
      ps.bytes.1 &&& 0x7F ≠ 0x2A → ps.bytes.1 &&& 0x7F ≠ 0x36 →
        ¬ kb.Types (ps.bytes.1 &&& 0x7F))) := by
  unfold keyboardProcess
  rw [if_neg (by omega)]
  generalize ps.bytes.1 &&& 0x7F = code
  dsimp only
  by_cases hctrl : code = 0x1D
  · subst hctrl
    exact ⟨rfl, by simp⟩
  by_cases hshift : code = 0x2A ∨ code = 0x36
  · rw [if_neg hctrl, if_pos hshift, if_neg hctrl, if_pos hshift]
    refine ⟨rfl, iff_of_true rfl fun _ _ hl hr => ?_⟩
    exact absurd hshift (not_or.2 ⟨hl, hr⟩)
  obtain ⟨hl, hr⟩ := not_or.1 hshift
  rw [if_neg hctrl, if_neg hshift, if_neg hctrl, if_neg hshift]
  cases hmake : ps.make with
  | false => exact ⟨rfl, by simp⟩
  | true =>
    simp only [Bool.not_true, Bool.false_eq_true, if_false]
    unfold Types
    by_cases hesc : code = 0x01
    · simp [hesc]
    by_cases hback : code = 0x0E
    · simp [hback]
    by_cases henter : code = 0x1C
    · simp [henter]
    by_cases hc : kb.translateChar code = 0
    · simp [hesc, hback, henter, hc, makeEvent]
    · simp [hesc, hback, henter, hc, hctrl, hl, hr]

/-- `keyboard_process` of an extended code. -/
theorem keyboardProcess_two (kb : Keyboard) (ps : PacketScancode) (hsize : ps.size = 2) :
    (kb.keyboardProcess ps).1 = { kb with
      ctrl := if ps.bytes.2 &&& 0x7F = 0x1D then ps.make else kb.ctrl
      altgr := if ps.bytes.2 &&& 0x7F = 0x38 then ps.make else kb.altgr } := by
  unfold keyboardProcess handleExtended
  rw [if_pos hsize]
  generalize ps.bytes.2 &&& 0x7F = code
  dsimp only
  by_cases hctrl : code = 0x1D
  · subst hctrl
    rfl
  · rw [if_neg hctrl, if_neg hctrl]
    split
    · rfl
    · split
      · rfl
      · split <;> rfl

/-- The assembler is not stuck and waits for a second byte after a prefix, and a code of a
Ctrl key has set its flag. -/
structure Assembles (kb : Keyboard) : Prop where
  size : kb.ps.size ≤ 2
  twoByte : kb.ps.twoByte = decide (kb.scancode = LCode.twoByte)
  ctrl : kb.scancode &&& 0x7F = 0x1D → kb.ctrl = decide (kb.scancode &&& 0x80 = 0)

theorem assembles_static : static.Assembles := ⟨by decide, by decide, by decide⟩

theorem handleByte_twoByte (hsize : kb.ps.size ≤ 2) : kb.handleByte LCode.twoByte =
    ({ kb with
      scancode := LCode.twoByte
      ps := { kb.ps with twoByte := true, bytes := (LCode.twoByte, kb.ps.bytes.2) } }, []) := by
  unfold handleByte buildScancode
  rw [if_neg (by omega), if_pos rfl]
  rfl

/-- The code that a byte completes. -/
def assembled (kb : Keyboard) (b : UInt8) : PacketScancode :=
  if kb.ps.twoByte then ⟨b &&& 0x80 = 0, false, 2, kb.ps.bytes.1, b⟩
  else ⟨b &&& 0x80 = 0, false, 1, b, kb.ps.bytes.2⟩

theorem handleByte_complete (hsize : kb.ps.size ≤ 2) (hb : b ≠ LCode.twoByte) :
    kb.handleByte b = (({ kb with scancode := b, ps := kb.assembled b }.keyboardProcess
        (kb.assembled b)).1,
      ({ kb with scancode := b, ps := kb.assembled b }.keyboardProcess
        (kb.assembled b)).2.toList.map .key) := by
  have hbuild : buildScancode kb.ps b = some (kb.assembled b) := by
    unfold buildScancode assembled
    rw [if_neg (by omega), if_neg hb]
    cases kb.ps.twoByte with
    | false => simp only [Bool.false_eq_true, if_false]
    | true => simp only [if_true]
  have hone : (kb.assembled b).twoByte = false := by
    unfold assembled
    split <;> rfl
  unfold handleByte
  rw [hbuild]
  simp only [hone, Bool.false_eq_true, if_false]

/-- The byte after a complete code: it is a code of one byte. -/
theorem handleByte_one (hsize : kb.ps.size ≤ 2) (hone : kb.ps.twoByte = false)
    (hb : b ≠ LCode.twoByte) : (kb.handleByte b).1 = { kb with
      scancode := b
      ps := ⟨b &&& 0x80 = 0, false, 1, b, kb.ps.bytes.2⟩
      ctrl := if b &&& 0x7F = 0x1D then decide (b &&& 0x80 = 0) else kb.ctrl
      shift := if b &&& 0x7F = 0x2A ∨ b &&& 0x7F = 0x36 then decide (b &&& 0x80 = 0)
        else kb.shift } ∧
    ((kb.handleByte b).2 = [] ↔ (b &&& 0x80 = 0 → b &&& 0x7F ≠ 0x1D → b &&& 0x7F ≠ 0x2A →
      b &&& 0x7F ≠ 0x36 → ¬ kb.Types (b &&& 0x7F))) := by
  have hps : kb.assembled b = ⟨b &&& 0x80 = 0, false, 1, b, kb.ps.bytes.2⟩ := by
    simp [assembled, hone]
  obtain ⟨hflags, hevent⟩ := keyboardProcess_one
    { kb with scancode := b, ps := kb.assembled b } (kb.assembled b) (by rw [hps])
  rw [handleByte_complete hsize hb]
  rw [hps] at hflags hevent ⊢
  refine ⟨hflags, ?_⟩
  rw [List.map_eq_nil_iff, Option.toList_eq_nil_iff]
  simp only [decide_eq_true_eq] at hevent
  exact hevent

/-- The byte after a prefix: it completes an extended code. -/
theorem handleByte_two (kb : Keyboard) (hsize : kb.ps.size ≤ 2) (htwo : kb.ps.twoByte = true)
    (hb : b ≠ LCode.twoByte) : (kb.handleByte b).1 = { kb with
      scancode := b
      ps := ⟨b &&& 0x80 = 0, false, 2, kb.ps.bytes.1, b⟩
      ctrl := if b &&& 0x7F = 0x1D then decide (b &&& 0x80 = 0) else kb.ctrl
      altgr := if b &&& 0x7F = 0x38 then decide (b &&& 0x80 = 0) else kb.altgr } := by
  have hps : kb.assembled b = ⟨b &&& 0x80 = 0, false, 2, kb.ps.bytes.1, b⟩ := by
    simp [assembled, htwo]
  have hflags := keyboardProcess_two
    { kb with scancode := b, ps := kb.assembled b } (kb.assembled b) (by rw [hps])
  rw [handleByte_complete hsize hb]
  rw [hps] at hflags ⊢
  exact hflags

theorem Assembles.handleByte (h : kb.Assembles) (b : UInt8) : (kb.handleByte b).1.Assembles := by
  by_cases hb : b = LCode.twoByte
  · subst hb
    rw [handleByte_twoByte h.size]
    exact ⟨h.size, rfl, fun hcode =>
      absurd hcode (show ¬ LCode.twoByte &&& 0x7F = 0x1D by decide)⟩
  · cases htwo : kb.ps.twoByte with
    | false =>
      rw [(handleByte_one h.size htwo hb).1]
      exact ⟨by simp, by simp [hb], fun hcode => by simp [hcode]⟩
    | true =>
      rw [handleByte_two kb h.size htwo hb]
      exact ⟨by simp, by simp [hb], fun hcode => by simp [hcode]⟩

end Keyboard

/-! ## Keys and flags -/

/-- A key, by its code: seven bits, with or without a prefix. A break code must not be the
prefix itself. -/
structure ScanKey where
  extended : Bool
  code : Fin 128
  proper : code ≠ 0x60
  deriving DecidableEq

/-- A make or a break code. -/
structure KeyCode where
  key : ScanKey
  make : Bool
  deriving DecidableEq

namespace ScanKey

theorem eq_iff (k k' : ScanKey) : k = k' ↔ k.extended = k'.extended ∧ k.code = k'.code := by
  cases k
  cases k'
  simp only [mk.injEq]

def lShift : ScanKey := ⟨false, 0x2A, by decide⟩
def rShift : ScanKey := ⟨false, 0x36, by decide⟩
def lCtrl : ScanKey := ⟨false, 0x1D, by decide⟩
def rCtrl : ScanKey := ⟨true, 0x1D, by decide⟩

/-- The two keys of one flag. -/
def Paired (k k' : ScanKey) : Prop :=
  (k = lShift ∧ k' = rShift) ∨ (k = rShift ∧ k' = lShift) ∨ (k = lCtrl ∧ k' = rCtrl) ∨
    (k = rCtrl ∧ k' = lCtrl)

end ScanKey

namespace KeyCode

/-- The byte that carries the code. -/
def byte (c : KeyCode) : UInt8 :=
  if c.make then UInt8.ofNat c.key.code else UInt8.ofNat c.key.code ||| 0x80

/-- The bytes on the wire. -/
def bytes (c : KeyCode) : List UInt8 := if c.key.extended then [twoByte, c.byte] else [c.byte]

/-- The last code of the key, if there is one, is a make code. -/
def isDown (codes : List KeyCode) (k : ScanKey) : Bool :=
  ((codes.filter (·.key = k)).getLast?.map make).getD false

variable {codes : List KeyCode} {c : KeyCode}

theorem isDown_concat (codes : List KeyCode) (c : KeyCode) (k : ScanKey) :
    isDown (codes ++ [c]) k = if c.key = k then c.make else isDown codes k := by
  unfold isDown
  rw [List.filter_append]
  by_cases hk : c.key = k
  · simp [hk]
  · simp [hk]

theorem byte_ne_twoByte (c : KeyCode) : c.byte ≠ twoByte := by
  have hmake : ∀ n : Fin 128, UInt8.ofNat n ≠ twoByte := by decide
  have hbreak : ∀ n : Fin 128, n ≠ 0x60 → UInt8.ofNat n ||| 0x80 ≠ twoByte := by decide
  unfold byte
  split
  · exact hmake _
  · exact hbreak _ c.key.proper

theorem byte_code (c : KeyCode) (n : Fin 128) :
    c.byte &&& 0x7F = UInt8.ofNat n ↔ c.key.code = n := by
  have hmake : ∀ m : Fin 128, UInt8.ofNat m &&& 0x7F = UInt8.ofNat m := by decide
  have hbreak : ∀ m : Fin 128, (UInt8.ofNat m ||| 0x80) &&& 0x7F = UInt8.ofNat m := by decide
  have hinj : UInt8.ofNat c.key.code = UInt8.ofNat n ↔ c.key.code = n := by
    refine ⟨fun heq => Fin.ext ?_, fun heq => by rw [heq]⟩
    have := congrArg UInt8.toNat heq
    rw [UInt8.toNat_ofNat', UInt8.toNat_ofNat'] at this
    omega
  unfold byte
  split
  · rw [hmake, hinj]
  · rw [hbreak, hinj]

theorem byte_make (c : KeyCode) : decide (c.byte &&& 0x80 = 0) = c.make := by
  have hmake : ∀ m : Fin 128, UInt8.ofNat m &&& 0x80 = 0 := by decide
  have hbreak : ∀ m : Fin 128, (UInt8.ofNat m ||| 0x80) &&& 0x80 ≠ 0 := by decide
  unfold byte
  cases c.make with
  | true => simp [hmake]
  | false => simp [hbreak]

end KeyCode

namespace Keyboard

/-- The interrupts one after the other, with the events they push. -/
def interrupts (kb : Keyboard) (ports : List KbcPort) : Keyboard × List InputEvent :=
  ports.foldl (fun r port => ((r.1.keyboardHandler port).1, r.2 ++ (r.1.keyboardHandler port).2))
    (kb, [])

/-- The keyboard after codes whose bytes were all read. -/
def typed (kb : Keyboard) (codes : List KeyCode) : Keyboard :=
  (kb.interrupts ((codes.flatMap KeyCode.bytes).map .delivering)).1

/-- Each flag is set while one of its keys is down. -/
def FlagsFollow (kb : Keyboard) (codes : List KeyCode) : Prop :=
  kb.shift = (KeyCode.isDown codes .lShift || KeyCode.isDown codes .rShift) ∧
    kb.ctrl = (KeyCode.isDown codes .lCtrl || KeyCode.isDown codes .rCtrl)

/-- The code releases a key whose partner is down. -/
def Overlaps (codes : List KeyCode) (c : KeyCode) : Prop :=
  c.make = false ∧ ∃ k, c.key.Paired k ∧ KeyCode.isDown codes k = true

theorem interrupts_concat (kb : Keyboard) (ports : List KbcPort) (port : KbcPort) :
    kb.interrupts (ports ++ [port]) = (((kb.interrupts ports).1.keyboardHandler port).1,
      (kb.interrupts ports).2 ++ ((kb.interrupts ports).1.keyboardHandler port).2) := by
  unfold interrupts
  rw [List.foldl_concat]

theorem fst_interrupts (kb : Keyboard) (ports : List KbcPort) :
    (kb.interrupts ports).1 = ports.foldl (fun kb port => (kb.keyboardHandler port).1) kb :=
  (List.foldl_hom Prod.fst fun _ _ => rfl).symm

theorem fst_interrupts_append (kb : Keyboard) (ports ports' : List KbcPort) :
    (kb.interrupts (ports ++ ports')).1 = ((kb.interrupts ports).1.interrupts ports').1 := by
  simp only [fst_interrupts, List.foldl_append]

theorem keyboardHandler_delivering (kb : Keyboard) (b : UInt8) :
    kb.keyboardHandler (.delivering b) = kb.handleByte b := by
  rw [keyboardHandler_eq]
  rfl

variable {kb : Keyboard} {codes : List KeyCode} {c : KeyCode}

/-- Between two codes. -/
structure Complete (kb : Keyboard) : Prop where
  size : kb.ps.size ≤ 2
  oneByte : kb.ps.twoByte = false

/-- What a code does to the flags. -/
theorem Complete.code (h : kb.Complete) (c : KeyCode) :
    (kb.interrupts (c.bytes.map .delivering)).1.Complete ∧
      (kb.interrupts (c.bytes.map .delivering)).1.shift =
        (if c.key = .lShift ∨ c.key = .rShift then c.make else kb.shift) ∧
      (kb.interrupts (c.bytes.map .delivering)).1.ctrl =
        (if c.key = .lCtrl ∨ c.key = .rCtrl then c.make else kb.ctrl) := by
  have hlCtrl : c.byte &&& 0x7F = 0x1D ↔ c.key.code = 0x1D := c.byte_code 0x1D
  have hlShift : c.byte &&& 0x7F = 0x2A ↔ c.key.code = 0x2A := c.byte_code 0x2A
  have hrShift : c.byte &&& 0x7F = 0x36 ↔ c.key.code = 0x36 := c.byte_code 0x36
  have hkey := ScanKey.eq_iff c.key
  unfold KeyCode.bytes
  cases hext : c.key.extended with
  | false =>
    have hone := (handleByte_one h.size h.oneByte c.byte_ne_twoByte).1
    have hrun : (kb.interrupts ([c.byte].map .delivering)).1 = (kb.handleByte c.byte).1 := by
      rw [← keyboardHandler_delivering]
      rfl
    simp only [Bool.false_eq_true, if_false, hrun, hone, hlCtrl, hlShift, hrShift, c.byte_make,
      hkey, hext, ScanKey.lShift, ScanKey.rShift, ScanKey.lCtrl, ScanKey.rCtrl, true_and, false_and,
      or_false]
    exact ⟨⟨Nat.le_succ 1, rfl⟩, trivial⟩
  | true =>
    have hfirst := handleByte_twoByte h.size
    have htwo := handleByte_two { kb with
      scancode := twoByte
      ps := { kb.ps with twoByte := true, bytes := (twoByte, kb.ps.bytes.2) } }
      h.size rfl c.byte_ne_twoByte
    have hrun : (kb.interrupts ([twoByte, c.byte].map .delivering)).1 =
        ((kb.handleByte twoByte).1.handleByte c.byte).1 := by
      rw [← keyboardHandler_delivering, ← keyboardHandler_delivering]
      rfl
    simp only [if_true, hrun, hfirst, htwo, hlCtrl, c.byte_make, hkey,
      hext, ScanKey.lShift, ScanKey.rShift, ScanKey.lCtrl, ScanKey.rCtrl, true_and, false_and,
      or_false, false_or, Bool.true_eq_false, if_false]
    exact ⟨⟨Nat.le_refl 2, rfl⟩, trivial⟩

theorem typed_concat (kb : Keyboard) (codes : List KeyCode) (c : KeyCode) :
    kb.typed (codes ++ [c]) = ((kb.typed codes).interrupts (c.bytes.map .delivering)).1 := by
  unfold typed
  rw [List.flatMap_append, List.map_append, fst_interrupts_append]
  simp

/-- One more code leaves the flags with the keys unless it overlaps. -/
theorem flagsFollow_concat {kb : Keyboard} (h : (kb.typed codes).Complete)
    (hfollow : FlagsFollow (kb.typed codes) codes) :
    FlagsFollow (kb.typed (codes ++ [c])) (codes ++ [c]) ↔ ¬ Overlaps codes c := by
  obtain ⟨-, hshift, hctrl⟩ := h.code c
  unfold FlagsFollow at hfollow ⊢
  rw [typed_concat, hshift, hctrl, hfollow.1, hfollow.2]
  simp only [KeyCode.isDown_concat]
  unfold Overlaps ScanKey.Paired
  generalize c.key = k
  by_cases hl : k = .lShift
  · subst hl
    cases c.make <;> simp +decide
  by_cases hr : k = .rShift
  · subst hr
    cases c.make <;> simp +decide
  by_cases hl' : k = .lCtrl
  · subst hl'
    cases c.make <;> simp +decide
  by_cases hr' : k = .rCtrl
  · subst hr'
    cases c.make <;> simp +decide
  simp [hl, hr, hl', hr']

theorem complete_typed (codes : List KeyCode) {kb : Keyboard} (h : kb.Complete) :
    (kb.typed codes).Complete := by
  induction codes generalizing kb with
  | nil => exact h
  | cons c codes ih =>
    unfold typed
    rw [List.flatMap_cons, List.map_append, fst_interrupts_append]
    exact ih (h.code c).1

/-- After every code each flag says whether one of its keys is down, exactly if no code
releases a key whose partner is down. -/
theorem flags_follow_iff (codes : List KeyCode) :
    (∀ n, FlagsFollow (static.typed (codes.take n)) (codes.take n)) ↔
      ∀ (n : Nat) c, codes[n]? = some c → ¬ Overlaps (codes.take n) c :=
  forall_take_iff (P := fun codes => FlagsFollow (static.typed codes) codes) ⟨rfl, rfl⟩
    (fun codes _ hfollow =>
      flagsFollow_concat (complete_typed codes ⟨by decide, rfl⟩) hfollow) codes

/-- Both Shift keys go down, and one of them up again. -/
theorem shift_lost : ¬ FlagsFollow
    (static.typed [⟨.lShift, true⟩, ⟨.rShift, true⟩, ⟨.rShift, false⟩])
    [⟨.lShift, true⟩, ⟨.rShift, true⟩, ⟨.rShift, false⟩] := by
  unfold FlagsFollow
  decide

/-! ## Failed reads -/

/-- The modifier state. -/
def flags (kb : Keyboard) : Bool × Bool × Bool := (kb.ctrl, kb.shift, kb.altgr)

/-- The last byte does nothing if it is handled again: it is a prefix, or as a code of one
byte it types nothing and leaves the Shift flag as it is. -/
def Silent (kb : Keyboard) : Prop :=
  kb.scancode = LCode.twoByte ∨
    ((kb.scancode &&& 0x7F = 0x2A ∨ kb.scancode &&& 0x7F = 0x36 →
      kb.shift = decide (kb.scancode &&& 0x80 = 0)) ∧
    (kb.scancode &&& 0x80 = 0 → kb.scancode &&& 0x7F ≠ 0x1D → kb.scancode &&& 0x7F ≠ 0x2A →
      kb.scancode &&& 0x7F ≠ 0x36 → ¬ kb.Types (kb.scancode &&& 0x7F)))

/-- When a failed read pushes nothing and leaves the flags. -/
theorem Assembles.silent_iff (h : kb.Assembles) :
    ((kb.handleByte kb.scancode).2 = [] ∧ (kb.handleByte kb.scancode).1.flags = kb.flags) ↔
      kb.Silent := by
  unfold Silent
  by_cases hb : kb.scancode = LCode.twoByte
  · have hfirst := handleByte_twoByte h.size
    rw [← hb] at hfirst
    rw [hfirst]
    exact iff_of_true ⟨rfl, rfl⟩ (Or.inl hb)
  · have hone : kb.ps.twoByte = false := by rw [h.twoByte]; exact decide_eq_false hb
    obtain ⟨hstate, hevents⟩ := handleByte_one h.size hone hb
    rw [hstate, hevents, or_iff_right hb, and_comm]
    refine and_congr_left fun _ => ?_
    unfold flags
    have hctrl : (if kb.scancode &&& 0x7F = 0x1D then decide (kb.scancode &&& 0x80 = 0)
        else kb.ctrl) = kb.ctrl := by
      split
      · next hcode => exact (h.ctrl hcode).symm
      · rfl
    simp only [Prod.mk.injEq, hctrl, true_and, and_true]
    split
    · next hcode => exact ⟨fun heq _ => heq.symm, fun himp => (himp hcode).symm⟩
    · next hcode => exact ⟨fun _ hc => absurd hc hcode, fun _ => rfl⟩

/-- Two keyboards with the same flags decode alike. -/
theorem keyboardProcess_congr (kb kb' : Keyboard) {ps ps' : PacketScancode}
    (hflags : kb.flags = kb'.flags) (hsize : ps.size = ps'.size) (hmake : ps.make = ps'.make)
    (hbyte : (if ps.size = 2 then ps.bytes.2 else ps.bytes.1) =
      if ps.size = 2 then ps'.bytes.2 else ps'.bytes.1) :
    (kb.keyboardProcess ps).2 = (kb'.keyboardProcess ps').2 ∧
      (kb.keyboardProcess ps).1.flags = (kb'.keyboardProcess ps').1.flags := by
  obtain ⟨hctrl, hshift, haltgr⟩ : kb.ctrl = kb'.ctrl ∧ kb.shift = kb'.shift ∧
      kb.altgr = kb'.altgr := by
    simpa [flags] using hflags
  have hevent : kb.makeEvent = kb'.makeEvent := by
    simp only [makeEvent, hctrl, hshift, haltgr]
  have hchar (code : UInt8) : kb.translateChar code = kb'.translateChar code := by
    simp only [translateChar, hshift, haltgr]
  unfold keyboardProcess handleExtended
  rw [← hsize, ← hmake]
  split
  · next htwo =>
    rw [if_pos htwo, if_pos htwo] at hbyte
    simp only [hbyte, hevent, apply_ite Prod.snd, apply_ite Prod.fst, apply_ite flags]
    simp only [flags, hctrl, hshift, haltgr, and_self]
  · next hone =>
    rw [if_neg hone, if_neg hone] at hbyte
    simp only [hbyte, hevent, hchar, apply_ite Prod.snd, apply_ite Prod.fst, apply_ite flags]
    simp only [flags, hctrl, hshift, haltgr, and_self]

theorem Assembles.handleByte_congr {kb kb' : Keyboard} (h : kb.Assembles) (h' : kb'.Assembles)
    (hcode : kb.scancode = kb'.scancode) (hflags : kb.flags = kb'.flags) (b : UInt8) :
    (kb.handleByte b).2 = (kb'.handleByte b).2 ∧
      (kb.handleByte b).1.flags = (kb'.handleByte b).1.flags := by
  have htwo : kb.ps.twoByte = kb'.ps.twoByte := by rw [h.twoByte, h'.twoByte, hcode]
  by_cases hb : b = LCode.twoByte
  · subst hb
    rw [handleByte_twoByte h.size, handleByte_twoByte h'.size]
    exact ⟨rfl, hflags⟩
  · have hps : (kb.assembled b).size = (kb'.assembled b).size ∧
        (kb.assembled b).make = (kb'.assembled b).make ∧
        (if (kb.assembled b).size = 2 then (kb.assembled b).bytes.2
          else (kb.assembled b).bytes.1) =
          if (kb.assembled b).size = 2 then (kb'.assembled b).bytes.2
          else (kb'.assembled b).bytes.1 := by
      unfold assembled
      rw [← htwo]
      cases kb.ps.twoByte <;> exact ⟨rfl, rfl, rfl⟩
    obtain ⟨hsize, hmake, hbyte⟩ := hps
    obtain ⟨hevents, hflags'⟩ := keyboardProcess_congr
      { kb with scancode := b, ps := kb.assembled b }
      { kb' with scancode := b, ps := kb'.assembled b } hflags hsize hmake hbyte
    rw [handleByte_complete h.size hb, handleByte_complete h'.size hb]
    exact ⟨congrArg (fun ev => ev.toList.map InputEvent.key) hevents, hflags'⟩

/-- The last byte is the last one that was read. -/
theorem Assembles.scancode_handleByte (h : kb.Assembles) (b : UInt8) :
    (kb.handleByte b).1.scancode = b := by
  by_cases hb : b = LCode.twoByte
  · rw [hb, handleByte_twoByte h.size]
  · cases htwo : kb.ps.twoByte with
    | false => rw [(handleByte_one h.size htwo hb).1]
    | true => rw [handleByte_two kb h.size htwo hb]

theorem Assembles.interrupts (h : kb.Assembles) (ports : List KbcPort) :
    (kb.interrupts ports).1.Assembles ∧ (kb.interrupts ports).1.scancode =
      ports.foldl (fun b port => port.byte.getD b) kb.scancode := by
  rw [fst_interrupts]
  induction ports generalizing kb with
  | nil => exact ⟨h, rfl⟩
  | cons port ports ih =>
    rw [List.foldl_cons, List.foldl_cons, keyboardHandler_eq]
    have hnext := ih (h.handleByte (port.byte.getD kb.scancode))
    rwa [h.scancode_handleByte] at hnext

/-- The interrupts that read a byte. -/
def successful (ports : List KbcPort) : List KbcPort := ports.filter (·.byte.isSome)

/-- The events and the flags are those of the successful interrupts. -/
def Undisturbed (ports : List KbcPort) : Prop :=
  (static.interrupts ports).2 = (static.interrupts (successful ports)).2 ∧
    (static.interrupts ports).1.flags = (static.interrupts (successful ports)).1.flags

instance (ports : List KbcPort) : Decidable (Undisturbed ports) :=
  inferInstanceAs (Decidable (_ ∧ _))

/-- A failed interrupt leaves the last byte. -/
theorem scancode_successful (ports : List KbcPort) :
    (static.interrupts (successful ports)).1.scancode = (static.interrupts ports).1.scancode := by
  rw [(assembles_static.interrupts _).2, (assembles_static.interrupts ports).2]
  unfold successful
  rw [List.foldl_filter]
  congr 1
  funext b port
  cases port.byte <;> rfl

/-- One more interrupt disturbs nothing unless it fails where the last byte speaks again. -/
theorem undisturbed_concat {ports : List KbcPort} {port : KbcPort} (h : Undisturbed ports) :
    Undisturbed (ports ++ [port]) ↔
      (port.byte = none → (static.interrupts ports).1.Silent) := by
  have hassembles := (assembles_static.interrupts ports).1
  unfold Undisturbed successful
  rw [interrupts_concat, keyboardHandler_eq, List.filter_append]
  cases hbyte : port.byte with
  | none =>
    have hfilter : [port].filter (·.byte.isSome) = [] := by simp [hbyte]
    rw [hfilter, List.append_nil, Option.getD_none, forall_prop_of_true rfl,
      ← hassembles.silent_iff, ← successful, ← h.1, ← h.2]
    exact and_congr_left fun _ => List.append_right_eq_self
  | some b =>
    have hfilter : [port].filter (·.byte.isSome) = [port] := by simp [hbyte]
    obtain ⟨hevents, hflags⟩ := hassembles.handleByte_congr
      (assembles_static.interrupts (successful ports)).1 (scancode_successful ports).symm h.2 b
    rw [hfilter, interrupts_concat, keyboardHandler_eq, hbyte, Option.getD_some, ← successful]
    exact iff_of_true ⟨congrArg₂ _ h.1 hevents, hflags⟩ fun hnone => nomatch hnone

/-- At every point the events and the flags are those of the successful interrupts, exactly
if every failed interrupt comes where the last byte, handled again, does nothing. -/
theorem failed_reads_iff (ports : List KbcPort) : (∀ n, Undisturbed (ports.take n)) ↔
    ∀ (n : Nat) port, ports[n]? = some port →
      port.byte = none → (static.interrupts (ports.take n)).1.Silent :=
  forall_take_iff (P := Undisturbed) ⟨rfl, rfl⟩ (fun _ _ => undisturbed_concat) ports

/-- The byte of the A key is read once, and a failed interrupt follows. -/
theorem failed_read_types : ¬ Undisturbed [.delivering 0x1E, ⟨fun _ => none, none⟩] := by
  decide

end Keyboard

end LCode
