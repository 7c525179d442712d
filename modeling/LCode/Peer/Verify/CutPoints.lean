import LCode.Peer.Verify.FileSync

/-!
# Transfers cut in the middle

Blocks and files arrive as many packets, and between two of them the user of the
receiver edits and saves. `editor_remote_replace_block` opens the rows of a block
without buffers, and `editor_load_line` opens a row below each line it loads, so
the document is usable only before and after a transfer. A loaded row is
terminated only if the byte behind its payload happens to be zero.
-/

namespace LCode

open Serial Commands

/-- Every row has a buffer, terminated behind its text. -/
def Doc.Usable (d : Doc) : Prop :=
  ∀ r, 0 ≤ r → r < d.rowCount → ∃ ln, d.line r = some ln ∧ ln.buf.read ln.len = some 0

section Usable

variable {β : Type} {R : Line → β → Prop} {d : Doc} {ys : List β}

/-- Usable rows, where the relation tells them. -/
theorem Doc.Rows.usable_iff (h : d.Rows R ys) {P : β → Prop}
    (hP : ∀ ln y, R ln y → (ln.buf.read ln.len = some 0 ↔ P y)) :
    d.Usable ↔ ∀ y ∈ ys, P y := by
  have hcount := h.rowCount_eq
  constructor
  · intro husable y hy
    obtain ⟨a, z, rfl⟩ := List.append_of_mem hy
    obtain ⟨ln, hln, hR⟩ := h.line_eq (r := a.length) rfl
    rw [List.length_append, List.length_cons] at hcount
    obtain ⟨ln', hln', hread⟩ := husable a.length (by omega) (by omega)
    obtain rfl : ln = ln' := Option.some.inj (hln.symm.trans hln')
    exact (hP ln y hR).1 hread
  · intro hall r hr hlt
    obtain ⟨k, rfl⟩ := Int.eq_ofNat_of_zero_le hr
    obtain ⟨a, z, hys, ha⟩ := exists_eq_append_cons (show k < ys.length by omega)
    obtain ⟨ln, hln, hR⟩ := (hys ▸ h).line_eq (r := (k : Int)) (by omega)
    exact ⟨ln, hln, (hP ln _ hR).2 (hall _ (List.getElem_mem _))⟩

end Usable

theorem Line.Stores.read_iff {ln : Line} {y : Option (List UInt8)} (h : ln.Stores True y) :
    ln.buf.read ln.len = some 0 ↔ y ≠ none := by
  cases y with
  | none =>
    obtain rfl : ln = Line.zero := h
    simp [Line.zero, Buf.read]
  | some x =>
    obtain ⟨z, rest, hbuf, hlen, -, hz⟩ := h
    obtain rfl := hz trivial
    rw [hbuf, Buf.read_eq rfl hlen]
    simp

theorem Line.Ends.read_iff {ln : Line} {x : List UInt8} {e : UInt8} (h : ln.Ends x e) :
    ln.buf.read ln.len = some 0 ↔ e = 0 := by
  obtain ⟨rest, hbuf, hlen, -⟩ := h
  rw [hbuf, Buf.read_eq rfl hlen, Option.some.injEq]

/-! ## Blocks -/

section Blocks

variable {app : App} {t : List (List UInt8)} {ys : List (Option (List UInt8))}
  {evs : List SerialEvent}

/-- The rows that have arrived are the ones no longer fresh. -/
theorem updates_fill (h : Rowed (Line.Stores True) app ys) {row : Int} {n : Nat}
    (hevs : List.Forall₂ Message.Event (updateMessages t row n) evs) :
    ∃ app' ys', evs.foldlM dispatchSerial app = some app' ∧ Rowed (Line.Stores True) app' ys' ∧
      ∀ k, ys'[k]? = some none ↔
        ys[k]? = some none ∧ ∀ i < n, ((row + i) % 65536).toNat ≠ k := by
  induction n generalizing app ys row evs with
  | zero =>
    cases hevs
    exact ⟨app, ys, rfl, h, fun k => by simp⟩
  | succ n ih =>
    cases hevs with
    | @cons _ se _ evs hse hevs =>
      have hnew (ln : Line) (hln : ln.Holds True ((Text.rowAt t row).take 250)) :
          ln.Stores True (some ((Text.rowAt t row).take 250)) := hln
      obtain ⟨app₁, hdisp, h₁⟩ := dispatchSerial_update_rows h
        (fun ln y hy => ⟨_, hy.shows.imp (fun hh => hh.mono nofun) id⟩) hnew hse
      obtain ⟨app', ys', hrun, h', hfresh⟩ := ih h₁ hevs
      refine ⟨app', ys', by simp [hdisp, hrun], h', fun k => ?_⟩
      rw [hfresh, List.getElem?_set]
      constructor
      · rintro ⟨hk, hne⟩
        split at hk
        · split at hk <;> simp at hk
        · next hrow =>
          refine ⟨hk, fun i hi => ?_⟩
          cases i with
          | zero => simpa using hrow
          | succ i =>
            have := hne i (by omega)
            rwa [Int.add_assoc, Int.add_comm 1] at this
      · rintro ⟨hk, hne⟩
        have hrow := hne 0 (by omega)
        rw [Int.natCast_zero, Int.add_zero] at hrow
        rw [if_neg hrow]
        refine ⟨hk, fun i hi => ?_⟩
        have := hne (i + 1) (by omega)
        rwa [Int.add_assoc, Int.add_comm 1]

/-- CMD_REPLACE_BLOCK and some CMD_UPDATE_LINE of the block: the rows of the block
that are still fresh. -/
theorem block_cut (h : app.editor.doc.Holds True t) (ample : app.editor.doc.heap.Ample)
    {rows : List (List UInt8)} {start : Int} {d n m : Nat}
    (hevs : List.Forall₂ Message.Event (replaceMessage start d n :: updateMessages rows start m)
      evs) :
    ∃ app' ys, evs.foldlM dispatchSerial app = some app' ∧ Rowed (Line.Stores True) app' ys ∧
      ∀ k, ys[k]? = some none ↔ (start % 65536).toNat ≤ t.length ∧ (start % 65536).toNat ≤ k ∧
        k < (start % 65536).toNat + n % 65536 ∧ ∀ i < m, ((start + i) % 65536).toNat ≠ k := by
  have hrows : Rowed (Line.Stores True) app (t.map some) :=
    ⟨Doc.rows_map.2 h, ample⟩
  obtain ⟨se, evs', hse, hevs', rfl⟩ := List.forall₂_cons_left_iff.1 hevs
  have hfresh₀ : Line.zero.Stores True none := rfl
  obtain ⟨app₁, hdisp, h₁⟩ := dispatchSerial_replace_rows hrows
    (fun _ _ hy => hy.shows.ne_dangling) hfresh₀ hse
  obtain ⟨app', ys, hrun, h', hfresh⟩ := updates_fill h₁ hevs'
  refine ⟨app', ys, by simp [hdisp, hrun], h', fun k => ?_⟩
  rw [hfresh, List.length_map]
  have hold (j : Nat) : (t.map some)[j]? ≠ some none := by
    rw [List.getElem?_map]
    cases t[j]? <;> simp
  split
  · next hin =>
    have hblock : (splice (t.map some) (start % 65536).toNat (d % 65536)
        (List.replicate (n % 65536) none))[k]? = some none ↔
        (start % 65536).toNat ≤ k ∧ k < (start % 65536).toNat + n % 65536 := by
      have htake : ((t.map some).take (start % 65536).toNat).length = (start % 65536).toNat := by
        simp [hin]
      rw [splice, List.append_assoc, List.getElem?_append, htake]
      split
      · next hlt =>
        rw [List.getElem?_take_of_lt hlt]
        simp only [hold, false_iff]
        omega
      · rw [List.getElem?_append, List.length_replicate]
        split
        · next hge hlt =>
          rw [List.getElem?_replicate, if_pos hlt]
          simp only [true_iff]
          omega
        · rw [List.getElem?_drop]
          simp only [hold, false_iff]
          omega
    rw [hblock]
    constructor
    · rintro ⟨⟨h1, h2⟩, h3⟩
      exact ⟨hin, h1, h2, h3⟩
    · rintro ⟨-, h1, h2, h3⟩
      exact ⟨⟨h1, h2⟩, h3⟩
  · next hout =>
    constructor
    · exact fun hk => absurd hk.1 (hold k)
    · exact fun hk => absurd hk.1 hout

/-- Between the packets of a block the document is usable only if the receiver
drops the block, or has all of it. -/
theorem block_cut_usable (h : app.editor.doc.Holds True t) (ample : app.editor.doc.heap.Ample)
    {rows : List (List UInt8)} {start : Int} {d n m : Nat}
    (hevs : List.Forall₂ Message.Event (replaceMessage start d n :: updateMessages rows start m)
      evs) :
    ∃ app', evs.foldlM dispatchSerial app = some app' ∧ (app'.editor.doc.Usable ↔
      app.editor.doc.rowCount < start % 65536 ∨
        (n % 65536 ≤ m ∧ start % 65536 + (n % 65536 : Nat) ≤ 65536)) := by
  obtain ⟨app', ys, hrun, hrows, hfresh⟩ := block_cut h ample hevs
  have hcount := h.rowCount_eq
  refine ⟨app', hrun, ?_⟩
  rw [hrows.rows.usable_iff (P := (· ≠ none)) fun _ _ hy => hy.read_iff]
  have hfresh' : (∀ y ∈ ys, y ≠ none) ↔ ∀ k : Nat, ys[k]? ≠ some none := by
    constructor
    · intro hall k hk
      exact hall none (List.mem_of_getElem? hk) rfl
    · intro hall y hy hnone
      obtain ⟨k, hk⟩ := List.mem_iff_getElem?.1 hy
      exact hall k (hnone ▸ hk)
  rw [hfresh']
  simp only [ne_eq, hfresh]
  generalize n % 65536 = n
  constructor
  · intro hall
    by_cases hin : (start % 65536).toNat ≤ t.length
    · right
      by_cases hn : n = 0
      · omega
      constructor
      · -- the first row that has not arrived
        refine Nat.not_lt.1 fun hlt => hall ((start % 65536).toNat + m)
          ⟨hin, by omega, by omega, fun i hi => ?_⟩
        omega
      · -- no packet names a row this far down
        refine Int.not_lt.1 fun hlt => hall ((start % 65536).toNat + (n - 1))
          ⟨hin, by omega, by omega, fun i hi => ?_⟩
        omega
    · left
      omega
  · rintro (hout | ⟨hle, hfit⟩) k ⟨hin, hk, hk', hne⟩
    · omega
    · exact hne (k - (start % 65536).toNat) (by omega) (by omega)

end Blocks

/-! ## Files -/

section Files

variable {app : App} {evs : List SerialEvent}

theorem Doc.Holds.usable {d : Doc} {t : List (List UInt8)} (h : d.Holds True t) : d.Usable := by
  have hread (ln : Line) (x : List UInt8) (hx : ln.Holds True x) :
      ln.buf.read ln.len = some 0 ↔ True := by
    rw [Line.Stores.read_iff (y := some x) hx]
    simp
  exact (h.usable_iff hread).2 fun _ _ => trivial

/-- A fresh row has no buffer. -/
theorem not_usable {d : Doc} (hpos : 0 < d.rowCount)
    (hlast : d.line (d.rowCount - 1) = some Line.zero) : ¬ d.Usable := by
  intro husable
  obtain ⟨ln, hln, hread⟩ := husable (d.rowCount - 1) (by omega) (by omega)
  obtain rfl : Line.zero = ln := Option.some.inj (hlast.symm.trans hln)
  nomatch hread

/-- Between the packets of a file the document is usable only before the first line,
and at the end if the byte behind each line happened to be zero. -/
theorem file_cut_usable (h : app.editor.doc.Freeable) (ample : app.editor.doc.heap.Ample)
    {name : List UInt8} {n : Nat} {se : SerialEvent} (hse : (fileStartMessage name n).Event se)
    {ys : List (List UInt8 × UInt8)}
    (hevs : List.Forall₂ (LineEvent fun ln y => ln.Ends y.1 y.2) ys evs) :
    ∃ app', (se :: evs).foldlM dispatchSerial app = some app' ∧ (app'.editor.doc.Usable ↔
      ys = [] ∨ (n % 65536 ≤ ys.length ∧ ∀ y ∈ ys.take (n % 65536), y.2 = 0)) := by
  obtain ⟨app₁, hdisp, hload, ample₁, hlines, hcount⟩ := dispatchSerial_fileStart_rows
    (R := fun ln (y : List UInt8 × UInt8) => ln.Ends y.1 y.2) h ample hse
  have husable : app₁.editor.doc.Usable := (hload.loadFinalize_nil (T := True)).2.usable
  have hsmall : n % 65536 < 65536 := Nat.mod_lt _ (by omega)
  generalize n % 65536 = n at hlines hsmall
  rw [List.foldlM_cons, hdisp, Option.bind_eq_bind, Option.bind_some]
  by_cases hn : n = 0
  · subst hn
    exact ⟨app₁, lines_ignored hlines hevs, by simp [husable]⟩
  · obtain ⟨app', hrun, h'⟩ := lines_arrive (n := n) ⟨hload, ample₁, hlines, hcount, by
      rw [List.length_nil]
      omega⟩ hsmall hevs
    refine ⟨app', hrun, ?_⟩
    rw [List.length_nil, Nat.zero_add, List.nil_append] at h'
    split at h'
    · next hlt =>
      obtain ⟨hloading, hfresh⟩ := h'
      by_cases hys : ys = []
      · subst hys
        cases hevs
        obtain rfl : app₁ = app' := Option.some.inj hrun
        simp [husable]
      · have hpos : 0 < app'.editor.doc.rowCount := by
          obtain ⟨ls, last, dead, heap, hd, -⟩ := hloading.loading
          rw [hd, Doc.slots_rowCount]
          omega
        simp only [not_usable hpos (hfresh hys), hys, false_or, false_iff]
        omega
    · next hge =>
      rw [h'.rows.usable_iff (P := fun y => y.2 = 0) fun _ _ hy => hy.read_iff]
      have hne : ys ≠ [] := by
        rintro rfl
        simp only [List.length_nil] at hge
        omega
      simp only [hne, false_or]
      exact ⟨fun hall => ⟨by omega, hall⟩, fun hall => hall.2⟩

end Files

/-! ## Cut points -/

section CutPoints

theorem updateMessages_prefix {t : List (List UInt8)} {row : Int} {n : Nat} {ms : List Message}
    (h : ms <+: updateMessages t row n) : ms = updateMessages t row ms.length := by
  induction ms generalizing row n with
  | nil => rfl
  | cons m ms ih =>
    cases n with
    | zero => exact absurd h (by simp [updateMessages])
    | succ n =>
      obtain ⟨rfl, hms⟩ := List.cons_prefix_cons.1 h
      rw [List.length_cons, updateMessages, ← ih hms]

theorem updateMessages_length {t : List (List UInt8)} {row : Int} {n : Nat} {m : Message}
    (hm : m ∈ updateMessages t row n) : m.body.length < 256 := by
  induction n generalizing row with
  | zero => nomatch hm
  | succ n ih =>
    rcases List.mem_cons.1 hm with rfl | hm
    · simp only [updateMessage, List.length_cons, List.length_take]
      omega
    · exact ih hm

variable {b : Peer} {t : List (List UInt8)} {on : List (Message × Stack)}

/-- Handled packets are dispatched as the frames over their stacks. -/
theorem deliverAll_handled (idle : Idle b.dec) (hlen : ∀ m ∈ on, m.1.body.length < 256) :
    ∃ dec, b.deliverAll (handled on) =
      ((on.map fun m => frameEvent m.1.cmd.code m.1.body m.2).foldlM dispatchSerial b.app).map
        fun app => ⟨app, dec⟩ := by
  obtain ⟨dec, hrun, -⟩ := run_handled idle hlen
  exact ⟨dec, deliverAll_eq hrun⟩

theorem handled_events (hlen : ∀ m ∈ on, m.1.body.length < 256) :
    List.Forall₂ Message.Event (on.map Prod.fst)
      (on.map fun m => frameEvent m.1.cmd.code m.1.body m.2) := by
  refine List.forall₂_map_left_iff.2 (List.forall₂_map_right_iff.2 (List.forall₂_same.2 ?_))
  intro m hm
  exact frameEvent_carries (hlen m hm) m.2

/-- Any first packets of a block. -/
theorem block_prefix_usable (hb : b.app.editor.doc.Holds True t)
    (ample : b.app.editor.doc.heap.Ample) (idle : Idle b.dec) {rows : List (List UInt8)}
    {start : Int} {d n : Nat}
    (hon : on.map Prod.fst <+: replaceMessage start d n :: updateMessages rows start n) :
    ∃ b', b.deliverAll (handled on) = some b' ∧ (b'.app.editor.doc.Usable ↔
      on = [] ∨ b.app.editor.doc.rowCount < start % 65536 ∨
        (n % 65536 < on.length ∧ start % 65536 + (n % 65536 : Nat) ≤ 65536)) := by
  cases on with
  | nil => exact ⟨b, rfl, by simp [hb.usable]⟩
  | cons m on =>
    obtain ⟨hm, hrest⟩ := List.cons_prefix_cons.1 hon
    have hupdates := updateMessages_prefix hrest
    have hlen : ∀ m' ∈ m :: on, m'.1.body.length < 256 := by
      intro m' hm'
      rcases List.mem_cons.1 hm' with rfl | hm'
      · rw [hm]
        simp [replaceMessage]
      · have := List.mem_map_of_mem (f := Prod.fst) hm'
        rw [hupdates] at this
        exact updateMessages_length this
    obtain ⟨dec, hdeliver⟩ := deliverAll_handled idle hlen
    have hevs := handled_events hlen
    rw [List.map_cons, hm, hupdates, List.length_map] at hevs
    obtain ⟨app', hrun, husable⟩ := block_cut_usable hb ample hevs
    refine ⟨⟨app', dec⟩, by rw [hdeliver, hrun]; rfl, ?_⟩
    rw [husable, List.length_cons, Nat.lt_succ_iff]
    simp

/-- Any first packets of a file. -/
theorem file_prefix_usable (hb : b.app.editor.doc.Holds True t)
    (ample : b.app.editor.doc.heap.Ample) (idle : Idle b.dec) {name : List UInt8}
    {rows : List (List UInt8)}
    (hon : on.map Prod.fst <+: fileStartMessage name rows.length :: rows.map fileLineMessage) :
    ∃ b', b.deliverAll (handled on) = some b' ∧ (b'.app.editor.doc.Usable ↔
      on.length ≤ 1 ∨ (rows.length % 65536 < on.length ∧
        ∀ m ∈ (on.drop 1).take (rows.length % 65536), behind m = 0)) := by
  cases on with
  | nil => exact ⟨b, rfl, by simp [hb.usable]⟩
  | cons m on =>
    obtain ⟨hm, hrest⟩ := List.cons_prefix_cons.1 hon
    have hline : ∀ m' ∈ on, ∃ x, m'.1 = fileLineMessage x := by
      intro m' hm'
      have := hrest.subset (List.mem_map_of_mem (f := Prod.fst) hm')
      obtain ⟨x, -, hx⟩ := List.mem_map.1 this
      exact ⟨x, hx.symm⟩
    have hlen : ∀ m' ∈ m :: on, m'.1.body.length < 256 := by
      intro m' hm'
      rcases List.mem_cons.1 hm' with rfl | hm'
      · rw [hm]
        simp only [fileStartMessage, List.length_cons, List.length_take]
        omega
      · obtain ⟨x, hx⟩ := hline m' hm'
        rw [hx]
        exact fileLineMessage_length x
    have hstart : (fileStartMessage name rows.length).Event
        (frameEvent m.1.cmd.code m.1.body m.2) := by
      rw [← hm]
      exact frameEvent_carries (hlen m (by simp)) m.2
    have hevs : List.Forall₂ (LineEvent fun ln (y : List UInt8 × UInt8) => ln.Ends y.1 y.2)
        (on.map fun m => (m.1.body, behind m))
        (on.map fun m => frameEvent m.1.cmd.code m.1.body m.2) := by
      refine List.forall₂_map_left_iff.2 (List.forall₂_map_right_iff.2 (List.forall₂_same.2 ?_))
      intro m' hm'
      obtain ⟨x, hx⟩ := hline m' hm'
      have hcmd : m'.1.cmd = .fileLine := by rw [hx]; rfl
      rw [hcmd]
      exact lineEvent_frame (hlen m' (by simp [hm'])) m'.2 fun ln hln => hln
    obtain ⟨dec, hdeliver⟩ := deliverAll_handled idle hlen
    obtain ⟨app', hrun, husable⟩ := file_cut_usable hb.shows.freeable ample hstart hevs
    refine ⟨⟨app', dec⟩, by rw [hdeliver, List.map_cons, hrun]; rfl, ?_⟩
    rw [husable, List.length_map, List.length_cons, Nat.lt_succ_iff, ← List.map_take]
    simp only [List.map_eq_nil_iff, List.mem_map, forall_exists_index, and_imp,
      forall_apply_eq_imp_iff₂, List.drop_one, List.tail_cons]
    have hone : on.length + 1 ≤ 1 ↔ on = [] := by
      rw [← List.length_eq_zero_iff]
      omega
    rw [hone]

/-- At every cut of a transfer: when the rows of the receiver are usable. -/
theorem transfer_cut_usable_iff (hb : b.app.editor.doc.Holds True t)
    (ample : b.app.editor.doc.heap.Ample) (idle : Idle b.dec) (on : List (Message × Stack)) :
    (∀ (rows : List (List UInt8)) start (d n : Nat),
      on.map Prod.fst <+: replaceMessage start d n :: updateMessages rows start n →
      ∃ b', b.deliverAll (handled on) = some b' ∧ (b'.app.editor.doc.Usable ↔
        on = [] ∨ b.app.editor.doc.rowCount < start % 65536 ∨
          (n % 65536 < on.length ∧ start % 65536 + (n % 65536 : Nat) ≤ 65536))) ∧
    (∀ name (rows : List (List UInt8)),
      on.map Prod.fst <+: fileStartMessage name rows.length :: rows.map fileLineMessage →
      ∃ b', b.deliverAll (handled on) = some b' ∧ (b'.app.editor.doc.Usable ↔
        on.length ≤ 1 ∨ (rows.length % 65536 < on.length ∧
          ∀ m ∈ (on.drop 1).take (rows.length % 65536), behind m = 0))) :=
  ⟨fun _ _ _ _ hon => block_prefix_usable hb ample idle hon,
    fun _ _ hon => file_prefix_usable hb ample idle hon⟩

/-- A block of two rows of which one has arrived, and a whole file over zeros. -/
theorem transfer_cut_usable_iff_two :
    (∃ b', Peer.deliverAll ⟨holding [[]], .start⟩ (handled [(replaceMessage 0 1 2, fun _ => 0),
        (updateMessage 0 ['a'.toUInt8], fun _ => 0)]) = some b' ∧
      ¬ b'.app.editor.doc.Usable) ∧
    ∃ b', Peer.deliverAll ⟨holding [[]], .start⟩ (handled
        [(fileStartMessage (ascii "f") (1 : Nat), fun _ => 0),
          (fileLineMessage ['a'.toUInt8], fun _ => 0)]) = some b' ∧
      b'.app.editor.doc.Usable := by
  have idle : Idle Decoder.start := ⟨rfl, List.length_replicate⟩
  constructor
  · obtain ⟨hblock, -⟩ := transfer_cut_usable_iff (b := ⟨holding [[]], .start⟩)
      (holding_holds [[]]) Heap.zeros_ample idle [(replaceMessage 0 1 2, fun _ => 0),
        (updateMessage 0 ['a'.toUInt8], fun _ => 0)]
    obtain ⟨b', hdeliver, husable⟩ := hblock [['a'.toUInt8], []] 0 1 2 ⟨[updateMessage 1 []], rfl⟩
    refine ⟨b', hdeliver, ?_⟩
    rw [husable]
    decide
  · obtain ⟨-, hfile⟩ := transfer_cut_usable_iff (b := ⟨holding [[]], .start⟩)
      (holding_holds [[]]) Heap.zeros_ample idle
      [(fileStartMessage (ascii "f") (1 : Nat), fun _ => 0),
        (fileLineMessage ['a'.toUInt8], fun _ => 0)]
    obtain ⟨b', hdeliver, husable⟩ := hfile (ascii "f") [['a'.toUInt8]] ⟨[], rfl⟩
    refine ⟨b', hdeliver, husable.2 (.inr ⟨by decide, fun m hm => ?_⟩)⟩
    simp only [List.length_cons, List.length_nil, List.drop_one, List.tail_cons,
      List.take_of_length_le, List.mem_singleton, Nat.reduceAdd, Nat.reduceMod, Nat.le_refl] at hm
    rw [hm]
    rfl

/-- After CMD_REPLACE_BLOCK saving reads a row without a buffer. -/
theorem transfer_cut_saves : ∃ b', Peer.deliverAll ⟨holding [[]], .start⟩
      (handled [(replaceMessage 0 1 2, fun _ => 0)]) = some b' ∧
    ¬ b'.app.editor.doc.Usable ∧ executeSave b'.app (ascii "f") = none := by
  have idle : Idle Decoder.start := ⟨rfl, List.length_replicate⟩
  have hon : List.map Prod.fst [(replaceMessage 0 1 2, (fun _ => 0 : Stack))] <+:
      replaceMessage 0 (1 : Nat) (2 : Nat) :: updateMessages [[], []] 0 2 :=
    ⟨[updateMessage 0 [], updateMessage 1 []], rfl⟩
  obtain ⟨b', hdeliver, husable⟩ := block_prefix_usable (b := ⟨holding [[]], .start⟩)
    (holding_holds [[]]) Heap.zeros_ample idle hon
  refine ⟨b', hdeliver, by rw [husable]; decide, ?_⟩
  have hsave : (Peer.deliverAll ⟨holding [[]], .start⟩
      (handled [(replaceMessage 0 1 2, fun _ => 0)])).map
        (fun b' => (executeSave b'.app (ascii "f")).isNone) = some true := by
    decide +kernel
  rw [hdeliver, Option.map_some, Option.some.injEq] at hsave
  exact Option.isNone_iff_eq_none.1 hsave

end CutPoints

end LCode
