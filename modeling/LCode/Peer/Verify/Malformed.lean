import LCode.Peer.Basic
import LCode.Commands.Verify.Files

/-!
# Malformed packets

Which positions of `payload_buf` the handler of a packet reads, and which lengths
it passes on. The decoder lets any command through with any length, and the
handler asks for an empty payload only, so a short packet is read past its end.
-/

namespace LCode

open Serial

namespace Commands

/-! ## What a handler reads -/

/-- The `n` positions from `start` on. -/
def span (start n : Int) : List Int := (List.range n.toNat).map fun k : Nat => start + (k : Int)

theorem mem_span {start n i : Int} : i ∈ span start n ↔ start ≤ i ∧ i < start + n := by
  simp only [span, List.mem_map, List.mem_range]
  constructor
  · rintro ⟨k, hk, rfl⟩
    omega
  · rintro ⟨hstart, hend⟩
    exact ⟨(i - start).toNat, by omega, by omega⟩

/-- Whether `line_ensure_cap` makes room in a row. -/
def makesRoom (d : Doc) (row needed : Int) : Bool :=
  match d.lineEnsureCap row needed with
  | some (ok, _) => ok
  | none => false

/-- Whether `editor_remote_update_line` gets to its `memcpy`. -/
def copiesRow (app : App) (row len : Int) : Bool :=
  decide (0 ≤ row) && decide (row < app.editor.doc.rowCount) && makesRoom app.editor.doc row len

/-- The positions of `payload_buf` that the handler of the command reads. -/
def commandReads (app : App) (se : SerialEvent) : SerialCommand → List Int
  | .insertChar => span 0 1
  | .deleteChar => []
  | .moveCursor => span 0 4
  | .replaceBlock => span 0 6
  | .updateLine =>
    span 0 2 ++ match payloadWord se 0 with
      | some row =>
        if copiesRow app row (se.payloadLen.toNat - 2) then span 2 (se.payloadLen.toNat - 2) else []
      | none => []
  | .fileStart => span 0 2 ++ span 2 (se.payloadLen.toNat - 2)
  | .fileLine =>
    -- the terminator is copied with the row
    if app.fileNumLines ≠ 0 ∧
        makesRoom app.editor.doc (app.editor.doc.rowCount - 1) se.payloadLen.toNat then
      span 0 (se.payloadLen.toNat + 1)
    else []

/-- The lengths it computes and passes on. -/
def commandLengths (se : SerialEvent) : SerialCommand → List Int
  | .updateLine | .fileStart => [se.payloadLen.toNat - 2]
  | .fileLine => [se.payloadLen.toNat, se.payloadLen.toNat + 1]
  | _ => []

/-- The first line of `commands_dispatch_serial` lets the packet through. -/
def Passes (se : SerialEvent) (c : SerialCommand) : Prop :=
  se.cmd = c.code ∧ (se.payloadLen = 0 → c = .deleteChar ∨ c = .fileLine)

/-- The case of the command. -/
def handleCommand (app : App) (se : SerialEvent) : SerialCommand → Option App
  | .insertChar => serialInsertChar app se
  | .deleteChar => serialDeleteChar app
  | .moveCursor => serialMoveCursor app se
  | .replaceBlock => serialReplaceBlock app se
  | .updateLine => serialUpdateLine app se
  | .fileStart => serialFileStart app se
  | .fileLine => serialFileLine app se

section Reads

variable {app : App} {se se' : SerialEvent}

theorem read_isSome {α : Type*} {b : List α} {i : Int} :
    (Block.read b i).isSome ↔ 0 ≤ i ∧ i < b.length := by
  unfold Block.read
  split
  · rw [Option.isSome_iff_ne_none, ne_eq, List.getElem?_eq_none_iff]
    omega
  · simp
    omega

/-- A slice depends on its own positions. -/
theorem slice_congr {α : Type*} {b b' : List α} {i n : Int}
    (h : ∀ k ∈ span i n, Block.read b' k = Block.read b k) :
    Block.slice b' i n = Block.slice b i n := by
  unfold Block.slice
  split
  · rfl
  · next hn =>
    by_cases hin : 0 ≤ i ∧ 0 < n
    · have hlast := h (i + n - 1) (mem_span.2 (by omega))
      have hlen : i + n ≤ b'.length ↔ i + n ≤ b.length := by
        have hb' := read_isSome (b := b') (i := i + n - 1)
        have hb := read_isSome (b := b) (i := i + n - 1)
        rw [hlast] at hb'
        rw [hb'] at hb
        omega
      simp only [hlen]
      split
      · congr 1
        refine List.ext_getElem? fun k => ?_
        simp only [List.getElem?_take, List.getElem?_drop]
        split
        · next hk =>
          have hread := h (i + k) (mem_span.2 (by omega))
          have hpos : 0 ≤ i + (k : Int) := by omega
          have hnat : (i + (k : Int)).toNat = i.toNat + k := by omega
          simpa only [Block.read, hpos, if_true, hnat] using hread
        · rfl
      · rfl
    · rw [if_neg (by omega), if_neg (by omega)]

/-- A slice of a block that ends before one of its positions. -/
theorem slice_short {α : Type*} {b : List α} {i n k : Int} (hk : k ∈ span i n)
    (hb : b.length ≤ k) : Block.slice b i n = none := by
  rw [mem_span] at hk
  unfold Block.slice
  rw [if_neg (by omega), if_neg (by omega)]

/-- Reading behind the first two positions. -/
theorem slice_text {b : List UInt8} {n : Int} :
    Block.slice (b.drop 2) 0 n = Block.slice b 2 n := by
  unfold Block.slice
  simp only [List.length_drop, List.drop_drop]
  split
  · rfl
  · next hn =>
    by_cases hlen : 0 < n ∧ 2 + n ≤ b.length
    · rw [if_pos (by omega), if_pos (by omega)]
      rfl
    · rw [if_neg (by omega), if_neg (by omega)]

theorem payloadWord_congr {i : Int} (h : ∀ k ∈ span i 2, payload se' k = payload se k) :
    payloadWord se' i = payloadWord se i := by
  simp only [payloadWord, h i (mem_span.2 (by omega)), h (i + 1) (mem_span.2 (by omega))]

theorem payloadWord_short {i k : Int} (hk : k ∈ span i 2) (hb : se.payloadBuf.length ≤ k) :
    payloadWord se i = none := by
  rw [mem_span] at hk
  have hnone : payload se (i + 1) = none := by
    rw [payload, ← Option.not_isSome_iff_eq_none, read_isSome]
    omega
  simp only [payloadWord, hnone]
  cases payload se i <;> rfl

theorem dispatchSerial_passes {c : SerialCommand} (h : Passes se c) :
    dispatchSerial app se = handleCommand app se c := by
  obtain ⟨hcmd, hlen⟩ := h
  unfold dispatchSerial
  rw [if_neg ?_]
  · cases c <;> simp [hcmd, SerialCommand.code, handleCommand]
  · rintro ⟨h0, hdel, hline⟩
    rcases hlen h0 with rfl | rfl
    · exact hdel hcmd
    · exact hline hcmd

/-- A packet that is not let through changes nothing. -/
theorem dispatchSerial_drops (h : ∀ c, ¬ Passes se c) : dispatchSerial app se = some app := by
  unfold dispatchSerial
  split
  · rfl
  · next hguard =>
    have hcmd (c : SerialCommand) : se.cmd ≠ c.code := by
      intro hc
      refine h c ⟨hc, fun h0 => ?_⟩
      by_contra hne
      rw [not_or] at hne
      refine hguard ⟨h0, ?_, ?_⟩
      · rw [hc]
        cases c <;> first | exact absurd rfl hne.1 | decide
      · rw [hc]
        cases c <;> first | exact absurd rfl hne.2 | decide
    simp [hcmd]

theorem loadLine_short {ed : Editor} {len : Int} {x : List UInt8}
    (hroom : makesRoom ed.doc (ed.doc.rowCount - 1) len = true)
    (h : Block.slice x 0 (len + 1) = none) : ed.loadLine x len = none := by
  simp only [Editor.loadLine, Doc.loadLine]
  cases hens : ed.doc.lineEnsureCap (ed.doc.rowCount - 1) len with
  | none => rfl
  | some room =>
    obtain ⟨ok, d⟩ := room
    rw [makesRoom, hens] at hroom
    subst hroom
    simp only [Option.bind_eq_bind, Option.bind_some, h]
    cases d.line (d.rowCount - 1) <;> rfl

theorem remoteUpdateLine_short {row len : Int} {x : List UInt8}
    (hcopies : copiesRow app row len = true) (h : Block.slice x 0 len = none) :
    app.editor.remoteUpdateLine row x len = none := by
  simp only [copiesRow, Bool.and_eq_true, decide_eq_true_eq] at hcopies
  obtain ⟨⟨hpos, hlt⟩, hroom⟩ := hcopies
  simp only [Editor.remoteUpdateLine, Doc.updateLine]
  rw [if_neg (by omega)]
  cases hens : app.editor.doc.lineEnsureCap row len with
  | none => rfl
  | some room =>
    obtain ⟨ok, d⟩ := room
    rw [makesRoom, hens] at hroom
    subst hroom
    simp only [Option.bind_eq_bind, Option.bind_some, h]
    cases d.line row <;> rfl

/-- `editor_load_line` reads the text if there is room for it. -/
theorem loadLine_congr {ed : Editor} {len : Int} {x y : List UInt8}
    (h : makesRoom ed.doc (ed.doc.rowCount - 1) len = true →
      Block.slice x 0 (len + 1) = Block.slice y 0 (len + 1)) :
    ed.loadLine x len = ed.loadLine y len := by
  simp only [Editor.loadLine, Doc.loadLine]
  cases hroom : ed.doc.lineEnsureCap (ed.doc.rowCount - 1) len with
  | none => rfl
  | some room =>
    obtain ⟨ok, d⟩ := room
    cases ok with
    | false => rfl
    | true =>
      rw [makesRoom, hroom] at h
      simp only [Option.bind_eq_bind, Option.bind_some, h rfl]

/-- `editor_remote_update_line` reads the text if the row exists and there is
room for it. -/
theorem remoteUpdateLine_congr {row len : Int} {x y : List UInt8}
    (h : copiesRow app row len = true → Block.slice x 0 len = Block.slice y 0 len) :
    app.editor.remoteUpdateLine row x len = app.editor.remoteUpdateLine row y len := by
  simp only [Editor.remoteUpdateLine, Doc.updateLine]
  split
  · rfl
  · next hin =>
    cases hroom : app.editor.doc.lineEnsureCap row len with
    | none => rfl
    | some room =>
      obtain ⟨ok, d⟩ := room
      cases ok with
      | false => rfl
      | true =>
        have hcopies : copiesRow app row len = true := by
          simp only [copiesRow, makesRoom, hroom, Bool.and_true, Bool.and_eq_true,
            decide_eq_true_eq]
          omega
        simp only [Option.bind_eq_bind, Option.bind_some, h hcopies]

/-- The handler depends on the positions it reads. -/
theorem handleCommand_congr (hlen : se'.payloadLen = se.payloadLen) (c : SerialCommand)
    (h : ∀ i ∈ commandReads app se c, payload se' i = payload se i) :
    handleCommand app se' c = handleCommand app se c := by
  cases c with
  | insertChar => simp only [handleCommand, serialInsertChar, h 0 (mem_span.2 (by omega))]
  | deleteChar => rfl
  | moveCursor =>
    have hword (i : Int) (hi : 0 ≤ i ∧ i ≤ 2) : payloadWord se' i = payloadWord se i :=
      payloadWord_congr fun k hk => h k (mem_span.2 (by rw [mem_span] at hk; omega))
    simp only [handleCommand, serialMoveCursor, hword 0 (by omega), hword 2 (by omega)]
  | replaceBlock =>
    have hword (i : Int) (hi : 0 ≤ i ∧ i ≤ 4) : payloadWord se' i = payloadWord se i :=
      payloadWord_congr fun k hk => h k (mem_span.2 (by rw [mem_span] at hk; omega))
    simp only [handleCommand, serialReplaceBlock, hword 0 (by omega), hword 2 (by omega),
      hword 4 (by omega)]
  | updateLine =>
    have hword := payloadWord_congr fun k hk => h k (List.mem_append_left _ hk)
    simp only [handleCommand, serialUpdateLine, hlen, hword]
    cases hrow : payloadWord se 0 with
    | none => rfl
    | some row =>
      have htext : app.editor.remoteUpdateLine row (se'.payloadBuf.drop 2)
          (se.payloadLen.toNat - 2) = app.editor.remoteUpdateLine row (se.payloadBuf.drop 2)
            (se.payloadLen.toNat - 2) := remoteUpdateLine_congr fun hcopies => by
        rw [slice_text, slice_text]
        exact slice_congr fun k hk => h k (List.mem_append_right _ (by
          simpa only [hrow, hcopies, if_true] using hk))
      simp only [Option.bind_eq_bind, Option.bind_some, htext]
  | fileStart =>
    have hword := payloadWord_congr fun k hk => h k (List.mem_append_left _ hk)
    have hname : Block.slice se'.payloadBuf 2 (se.payloadLen.toNat - 2) =
        Block.slice se.payloadBuf 2 (se.payloadLen.toNat - 2) :=
      slice_congr fun k hk => h k (List.mem_append_right _ hk)
    simp only [handleCommand, serialFileStart, hlen, hword, slice_text, hname]
  | fileLine =>
    simp only [handleCommand, serialFileLine, hlen]
    split
    · rfl
    · next hopen =>
      rw [loadLine_congr fun hroom => slice_congr fun k hk => h k ?_]
      simpa only [commandReads, ne_eq, hopen, not_false_eq_true, hroom, and_self, if_true] using hk

/-- And it faults where one of them is outside the block. -/
theorem handleCommand_short (c : SerialCommand) {k : Int} (hk : k ∈ commandReads app se c)
    (hb : se.payloadBuf.length ≤ k) : handleCommand app se c = none := by
  have hword (i : Int) (hi : k ∈ span i 2) := payloadWord_short hi hb
  cases c with
  | insertChar =>
    have hnone : payload se 0 = none := by
      rw [payload, ← Option.not_isSome_iff_eq_none, read_isSome]
      have := mem_span.1 hk
      omega
    simp only [handleCommand, serialInsertChar, hnone]
    rfl
  | deleteChar => cases hk
  | moveCursor =>
    have hk := mem_span.1 hk
    simp only [handleCommand, serialMoveCursor]
    by_cases hrow : k < 2
    · simp only [hword 0 (mem_span.2 (by omega))]
      rfl
    · simp only [hword 2 (mem_span.2 (by omega))]
      cases payloadWord se 0 <;> rfl
  | replaceBlock =>
    have hk := mem_span.1 hk
    simp only [handleCommand, serialReplaceBlock]
    by_cases hrow : k < 2
    · simp only [hword 0 (mem_span.2 (by omega))]
      rfl
    · by_cases hdel : k < 4
      · simp only [hword 2 (mem_span.2 (by omega))]
        cases payloadWord se 0 <;> rfl
      · simp only [hword 4 (mem_span.2 (by omega))]
        cases payloadWord se 0 <;> cases payloadWord se 2 <;> rfl
  | updateLine =>
    simp only [handleCommand, serialUpdateLine]
    rcases List.mem_append.1 hk with hk | hk
    · simp only [hword 0 hk]
      rfl
    · cases hrow : payloadWord se 0 with
      | none => rfl
      | some row =>
        rw [hrow] at hk
        simp only at hk
        split at hk
        · next hcopies =>
          simp only [Option.bind_eq_bind, Option.bind_some,
            remoteUpdateLine_short hcopies (slice_text.trans (slice_short hk hb))]
          rfl
        · cases hk
  | fileStart =>
    simp only [handleCommand, serialFileStart]
    rcases List.mem_append.1 hk with hk | hk
    · simp only [hword 0 hk]
      cases app.editor.init <;> rfl
    · simp only [slice_text.trans (slice_short hk hb)]
      cases app.editor.init <;> cases payloadWord se 0 <;> rfl
  | fileLine =>
    simp only [handleCommand, serialFileLine]
    simp only [commandReads] at hk
    split at hk
    · next hopen =>
      rw [if_neg hopen.1, loadLine_short hopen.2 (slice_short hk hb)]
      rfl
    · cases hk

end Reads

/-! ## Short packets -/

/-- Handling the event reads the bytes of its payload and passes on no negative
length. -/
structure Within (app : App) (se : SerialEvent) : Prop where
  reads : ∀ c, Passes se c → ∀ i ∈ commandReads app se c, 0 ≤ i ∧ i < se.payloadLen.toNat
  lengths : ∀ c, Passes se c → ∀ n ∈ commandLengths se c, 0 ≤ n

/-- The bytes in front of the text of a payload. -/
def headerSize : SerialCommand → Nat
  | .insertChar => 1
  | .deleteChar | .fileLine => 0
  | .moveCursor => 4
  | .replaceBlock => 6
  | .updateLine | .fileStart => 2

/-- The payload has room for its header, and is not a row to be loaded. -/
def Proper (app : App) (se : SerialEvent) : Prop :=
  ∀ c, Passes se c → headerSize c ≤ se.payloadLen.toNat ∧
    (c = .fileLine → app.fileNumLines = 0 ∨
      makesRoom app.editor.doc (app.editor.doc.rowCount - 1) se.payloadLen.toNat = false)

theorem within_iff (app : App) (se : SerialEvent) : Within app se ↔ Proper app se := by
  constructor
  · intro h c hc
    have hreads := h.reads c hc
    have hlengths := h.lengths c hc
    refine ⟨?_, ?_⟩
    · cases c with
      | insertChar => exact Int.ofNat_lt.1 (hreads 0 (mem_span.2 (by omega))).2
      | deleteChar => exact Nat.zero_le _
      | moveCursor => exact Int.ofNat_lt.1 (hreads 3 (mem_span.2 (by omega))).2
      | replaceBlock => exact Int.ofNat_lt.1 (hreads 5 (mem_span.2 (by omega))).2
      | updateLine =>
        have := hlengths _ (List.mem_singleton.2 rfl)
        simp only [headerSize]
        omega
      | fileStart =>
        have := hlengths _ (List.mem_singleton.2 rfl)
        simp only [headerSize]
        omega
      | fileLine => exact Nat.zero_le _
    · rintro rfl
      by_contra hload
      rw [not_or, Bool.not_eq_false] at hload
      have := hreads se.payloadLen.toNat (by
        rw [commandReads, if_pos hload]
        exact mem_span.2 (by omega))
      omega
  · intro h
    constructor
    · intro c hc i hi
      obtain ⟨hsize, hline⟩ := h c hc
      cases c with
      | deleteChar => cases hi
      | insertChar | moveCursor | replaceBlock =>
        have := mem_span.1 hi
        simp only [headerSize] at hsize
        omega
      | updateLine =>
        simp only [headerSize] at hsize
        rcases List.mem_append.1 hi with hi | hi
        · have := mem_span.1 hi
          omega
        · split at hi
          · split at hi
            · have := mem_span.1 hi
              omega
            · cases hi
          · cases hi
      | fileStart =>
        simp only [headerSize] at hsize
        rcases List.mem_append.1 hi with hi | hi
        · have := mem_span.1 hi
          omega
        · have := mem_span.1 hi
          omega
      | fileLine =>
        simp only [commandReads] at hi
        split at hi
        · next hload =>
          rcases hline rfl with h0 | hroom
          · exact absurd h0 hload.1
          · rw [hroom] at hload
            exact absurd hload.2 Bool.false_ne_true
        · cases hi
    · intro c hc n hn
      obtain ⟨hsize, -⟩ := h c hc
      cases c with
      | updateLine | fileStart =>
        simp only [headerSize] at hsize
        rw [List.mem_singleton.1 hn]
        omega
      | fileLine =>
        rcases List.mem_cons.1 hn with rfl | hn
        · omega
        · rw [List.mem_singleton.1 hn]
          omega
      | insertChar | deleteChar | moveCursor | replaceBlock => cases hn

end Commands

/-! ## Streams -/

/-- The events handled while bytes arrive, each with the process that handles it. -/
def Peer.events (p : Peer) : List (UInt8 × Stack) → List (App × SerialEvent)
  | [] => []
  | (b, stack) :: ins =>
    match handleByte p.dec b stack with
    | none => []
    | some (dec, none) => Peer.events { p with dec } ins
    | some (dec, some se) =>
      (p.app, se) :: match Commands.dispatchSerial p.app se with
        | none => []
        | some app => Peer.events ⟨app, dec⟩ ins

/-- They are the events of the run. -/
theorem mem_events {p : Peer} {ins : List (UInt8 × Stack)} {app : App} {se : SerialEvent} :
    (app, se) ∈ p.events ins ↔ ∃ ins₁ b stack ins₂ dec dec', ins = ins₁ ++ (b, stack) :: ins₂ ∧
      p.deliverAll ins₁ = some ⟨app, dec⟩ ∧ handleByte dec b stack = some (dec', some se) := by
  induction ins generalizing p with
  | nil => simp [Peer.events]
  | cons i ins ih =>
    obtain ⟨b, stack⟩ := i
    -- the first byte, or a later one
    have hsplit : (∃ ins₁ b' stack' ins₂ dec dec',
          (b, stack) :: ins = ins₁ ++ (b', stack') :: ins₂ ∧
          p.deliverAll ins₁ = some ⟨app, dec⟩ ∧
            handleByte dec b' stack' = some (dec', some se)) ↔
        (∃ dec', p.app = app ∧ handleByte p.dec b stack = some (dec', some se)) ∨
          ∃ q, p.deliver b stack = some q ∧ (app, se) ∈ q.events ins := by
      constructor
      · rintro ⟨ins₁, b', stack', ins₂, dec, dec', heq, hrun, hbyte⟩
        cases ins₁ with
        | nil =>
          obtain ⟨⟨rfl, rfl⟩, rfl⟩ : (b = b' ∧ stack = stack') ∧ ins = ins₂ := by simpa using heq
          obtain rfl : p = ⟨app, dec⟩ := Option.some.inj hrun
          exact Or.inl ⟨dec', rfl, hbyte⟩
        | cons j ins₁ =>
          obtain ⟨rfl, rfl⟩ : (b, stack) = j ∧ ins = ins₁ ++ (b', stack') :: ins₂ := by
            simpa using heq
          obtain ⟨q, hq, hrun⟩ := Option.bind_eq_some_iff.1 hrun
          exact Or.inr ⟨q, hq, ih.2 ⟨ins₁, b', stack', ins₂, dec, dec', rfl, hrun, hbyte⟩⟩
      · rintro (⟨dec', rfl, hbyte⟩ | ⟨q, hq, hmem⟩)
        · exact ⟨[], b, stack, ins, p.dec, dec', rfl, rfl, hbyte⟩
        · obtain ⟨ins₁, b', stack', ins₂, dec, dec', rfl, hrun, hbyte⟩ := ih.1 hmem
          exact ⟨(b, stack) :: ins₁, b', stack', ins₂, dec, dec', rfl, by
            simp [Peer.deliverAll, hq, hrun], hbyte⟩
    rw [hsplit]
    rw [Peer.events]
    cases hbyte : handleByte p.dec b stack with
    | none => simp [Peer.deliver, hbyte]
    | some r =>
      obtain ⟨dec, ev⟩ := r
      cases ev with
      | none => simp [Peer.deliver, hbyte]
      | some ev =>
        cases hdisp : Commands.dispatchSerial p.app ev with
        | none => simp [Peer.deliver, hbyte, hdisp, eq_comm]
        | some app' => simp [Peer.deliver, hbyte, hdisp, eq_comm]

/-- Over any stream of bytes: a packet is read within its payload exactly if it
is proper. -/
theorem stream_within_iff (p : Peer) (ins : List (UInt8 × Stack)) :
    ∀ x ∈ p.events ins, Commands.Within x.1 x.2 ↔ Commands.Proper x.1 x.2 :=
  fun x _ => Commands.within_iff x.1 x.2

/-- A whole cursor packet, right after the start. -/
theorem stream_within_iff_move : ∃ app,
    App.start Commands.emptyDisk .zeros (ascii "untitled") = some app ∧ ∃ x ∈ (Peer.mk app .start).events
      ([0xFE, 0x03, 4, 0, 0, 0, 0, 0].map fun b => (b, fun _ => 0)),
      Commands.Within x.1 x.2 := by
  have heval : ((App.start Commands.emptyDisk .zeros (ascii "untitled")).bind fun app =>
      ((Peer.mk app .start).events ([0xFE, 0x03, 4, 0, 0, 0, 0, 0].map fun b =>
        (b, fun _ => 0))).head?.map fun x => (x.2.cmd, x.2.payloadLen)) = some (3, 4) := by
    decide +kernel
  obtain ⟨app, hstart, heval⟩ := Option.bind_eq_some_iff.1 heval
  obtain ⟨x, hx, hlen⟩ := Option.map_eq_some_iff.1 heval
  rw [Prod.mk.injEq] at hlen
  refine ⟨app, hstart, x, List.mem_of_mem_head? hx,
    (stream_within_iff _ _ x (List.mem_of_mem_head? hx)).2 fun c hc => ?_⟩
  have hcmd : (3 : UInt8) = c.code := hlen.1.symm.trans hc.1
  rw [hlen.2]
  cases c with
  | moveCursor => exact ⟨by decide, fun h => nomatch h⟩
  | _ => exact absurd hcmd (by decide)

/-- A cursor packet of one byte, right after the start. -/
theorem stream_short_move : ∃ app,
    App.start Commands.emptyDisk .zeros (ascii "untitled") = some app ∧ ∃ x ∈ (Peer.mk app .start).events
      [(0xFE, fun _ => 0), (0x03, fun _ => 0), (1, fun _ => 0), (0, fun _ => 0)],
      ¬ Commands.Within x.1 x.2 := by
  have heval : ((App.start Commands.emptyDisk .zeros (ascii "untitled")).bind fun app =>
      ((Peer.mk app .start).events [(0xFE, fun _ => 0), (0x03, fun _ => 0), (1, fun _ => 0),
        (0, fun _ => 0)]).head?.map fun x => (x.2.cmd, x.2.payloadLen)) = some (3, 1) := by
    decide +kernel
  obtain ⟨app, hstart, heval⟩ := Option.bind_eq_some_iff.1 heval
  obtain ⟨x, hx, hlen⟩ := Option.map_eq_some_iff.1 heval
  rw [Prod.mk.injEq] at hlen
  refine ⟨app, hstart, x, List.mem_of_mem_head? hx, fun h => ?_⟩
  have hpass : Commands.Passes x.2 .moveCursor := ⟨hlen.1, by simp [hlen.2]⟩
  have hread := (h.reads _ hpass 3 (Commands.mem_span.2 (by omega))).2
  rw [hlen.2] at hread
  exact absurd hread (by decide)

end LCode
