import LCode.Peer.Verify.TurnTaking

/-!
# Two peers that type at once

Local keys and arriving bytes in any order. While each side stays in its row,
what is on its way to the other is a list of edits of that row, cut into bytes,
of which the decoder may have eaten some: replayed, they take the other's copy
of the row to the row itself. With nothing on its way the texts are the same.
-/

namespace LCode

open Serial Commands

/-! ## Keys inside a row -/

/-- The key stays in the row of the cursor, and its position fits into a packet. -/
inductive Editor.InRow (ed : Editor) (ev : KeyEvent) : Prop
  | type {c : UInt8} (h : ev.Types c) (hc : c ≠ newline)
  | erase (h : ev.Erases) (hcol : 0 < ed.cursorCol)
  | move {dir : Direction} (h : ev.Moves dir)
    (inside : (dir = .left ∧ (ev.ctrl = true ∨ 0 < ed.cursorCol)) ∨
      (dir = .right ∧ (ev.ctrl = true ∨ ed.getLineLen ed.cursorRow ≠ some ed.cursorCol)) ∨
      dir = .home ∨ dir = .end)
    (row : ed.cursorRow < 65536)
    (col : ∀ len, ed.getLineLen ed.cursorRow = some len → len < 65536)

/-- A cursor key that does not leave its row ends in it. -/
theorem Commands.Target.in_row {ev : KeyEvent} {t : List (List UInt8)} {p q : Pos}
    {remoteRow : Int} (h : Target ev t p remoteRow q) (hle : p.col ≤ (Text.row t p.row).length)
    (inside : (ev.dir = .left ∧ (ev.ctrl = true ∨ 0 < p.col)) ∨
      (ev.dir = .right ∧ (ev.ctrl = true ∨ p.col < (Text.row t p.row).length)) ∨
      ev.dir = .home ∨ ev.dir = .end) :
    q.row = p.row ∧ q.col ≤ (Text.row t p.row).length := by
  unfold Target at h
  rcases inside with ⟨hdir, hin⟩ | ⟨hdir, hin⟩ | hdir | hdir
  · simp only [hdir] at h
    split at h
    · exact ⟨h.1, Nat.le_trans h.2 hle⟩
    · next hctrl =>
      rw [h, Text.left, if_pos (hin.resolve_left hctrl)]
      exact ⟨rfl, Nat.le_trans (Nat.sub_le _ _) hle⟩
  · simp only [hdir] at h
    split at h
    · exact h
    · next hctrl =>
      have hlt := hin.resolve_left hctrl
      rw [h, Text.right, if_pos hlt]
      exact ⟨rfl, hlt⟩
  · simp only [hdir] at h
    rw [h]
    exact ⟨rfl, Nat.zero_le _⟩
  · simp only [hdir] at h
    rw [h]
    exact ⟨rfl, Nat.le_refl _⟩

/-- Such a key makes an edit of the row. -/
theorem Editor.InRow.edit {T : Prop} {ed : Editor} {ev : KeyEvent} {r : Replica UInt8}
    {e : Edit UInt8} (h : ed.InRow ev) (hm : ed.Models T r) (hmakes : Makes ev r e) :
    e.Fits ∧
      ∃ s, e.inRow newline r.caret.row (Text.row r.text r.caret.row, r.caret.col) = some s := by
  have hrow := hm.own.row
  have hcol := hm.own.col
  have hlen := Editor.getLineLen_row hm.own.holds.shows r.caret.row
  have hle := hm.own.valid.2
  cases hmakes with
  | @type c hev =>
    refine ⟨trivial, _, if_neg ?_⟩
    cases h with
    | @type d h hc =>
      rcases hev.char with ⟨hent, rfl⟩ | ⟨hent, hne, rfl⟩
      · rcases h.char with ⟨-, rfl⟩ | ⟨hent', -⟩
        · exact hc
        · simp [hent] at hent'
      · rcases h.char with ⟨hent', -⟩ | ⟨-, -, rfl⟩
        · simp [hent] at hent'
        · exact hc
    | erase h =>
      have := hev.backspace
      simp [h.backspace] at this
    | move h =>
      have := hev.dir
      exact absurd (h.dir_eq.symm.trans this) h.dir_ne
  | erase hev =>
    refine ⟨trivial, _, if_pos ?_⟩
    cases h with
    | type h =>
      have := hev.backspace
      simp [h.backspace] at this
    | erase h hpos => simpa [hcol] using hpos
    | move h =>
      have := hev.backspace
      simp [h.backspace] at this
  | @move dir p hev htarget =>
    cases h with
    | type h => exact absurd (hev.dir_eq.symm.trans h.dir) hev.dir_ne
    | erase h =>
      have := hev.backspace
      simp [h.backspace] at this
    | @move dir' h inside hsmall hshort =>
      obtain rfl : dir = dir' := hev.dir_eq.symm.trans h.dir_eq
      rw [hrow] at hshort hsmall
      have hlt := hshort _ hlen
      have hp : p.row = r.caret.row ∧ p.col ≤ (Text.row r.text r.caret.row).length := by
        refine htarget.in_row hle (inside.imp ?_ (Or.imp ?_ (Or.imp ?_ ?_)))
        · rintro ⟨rfl, hin⟩
          exact ⟨h.dir_eq, hin.imp id fun hpos => by omega⟩
        · rintro ⟨rfl, hin⟩
          rw [hrow, hlen, hcol] at hin
          refine ⟨h.dir_eq, hin.imp id fun hne => ?_⟩
          simp only [ne_eq, Option.some.injEq] at hne
          omega
        · rintro rfl
          exact h.dir_eq
        · rintro rfl
          exact h.dir_eq
      refine ⟨⟨?_, ?_⟩, _, if_pos hp⟩
      · rw [hp.1]
        omega
      · have := hp.2
        omega

/-! ## One step -/

section Step

variable {a b : Peer} {ra rb : Replica UInt8} {bytes : List UInt8} {ab ba : List (Edit UInt8)}

/-- A key of one side: its edit goes after those on their way. -/
theorem Peer.Shares.send {dec : Decoder} (ha : a.Shares ra) (hp : Pending dec bytes (ab.map Edit.message))
    (hfits : ∀ e ∈ ab, e.Fits) (hapart : Apart newline ra rb ab ba) {ev : KeyEvent}
    (hrow : a.app.editor.InRow ev) :
    ∃ a' sent ra' ab', a.act (.key ev) = some (a', sent) ∧ a'.dec = a.dec ∧ a'.Shares ra' ∧
      Pending dec (bytes ++ sent) (ab'.map Edit.message) ∧ (∀ e ∈ ab', e.Fits) ∧ Apart newline ra' rb ab' ba := by
  have hmodels : a.app.flush.editor.Models False ra := ha.models
  have hplain : Plain ev := by
    cases hrow with
    | type h => exact .inl ⟨_, h⟩
    | erase h => exact .inr (.inl h)
    | move h => exact .inr (.inr ⟨_, h⟩)
  obtain ⟨e, app, hmakes, hdisp, hedited⟩ := dispatch_makes hmodels ha.editing.flush hplain
  obtain ⟨hfit, s, hs⟩ := hrow.edit ha.models hmakes
  have hapart' := hapart.act hs
  have hsent : app.sent = e.message.bytes := hedited.sent_one ha.editing.remote
  refine ⟨{ a with app }, app.sent, _, ab ++ [e], by simp [Peer.act, App.handle, hdisp], rfl,
    ⟨hedited.models hmodels hapart'.valid_a.2, hedited.editing ha.editing.flush⟩, ?_, ?_, hapart'⟩
  · rw [hsent, List.map_append]
    exact hp.send e.message_length
  · intro f hf
    rcases List.mem_append.1 hf with hf | hf
    · exact hfits f hf
    · rw [List.mem_singleton.1 hf]
      exact hfit

/-- A byte reaches the other side: the first edit is replayed once it is whole. -/
theorem Peer.Shares.receive {byte : UInt8} (hb : b.Shares rb)
    (hp : Pending b.dec (byte :: bytes) (ab.map Edit.message)) (hfits : ∀ e ∈ ab, e.Fits)
    (hapart : Apart newline ra rb ab ba) (stack : Stack) :
    ∃ b' rb' ab', b.deliver byte stack = some b' ∧ b'.Shares rb' ∧
      Pending b'.dec bytes (ab'.map Edit.message) ∧
      (∀ e ∈ ab', e.Fits) ∧ Apart newline ra rb' ab' ba := by
  obtain ⟨dec, ev, hbyte, hev⟩ := hp.deliver stack
  cases ev with
  | none => exact ⟨{ b with dec }, rb, ab, by simp [Peer.deliver, hbyte], ⟨hb.models, hb.editing⟩,
      hev, hfits, hapart⟩
  | some se =>
    obtain ⟨m, ms, hmap, hse, hp'⟩ := hev
    obtain ⟨e, ab', rfl, rfl, rfl⟩ := List.map_eq_cons_iff.1 hmap
    obtain ⟨s, hs, -⟩ := hapart.head_inRow
    have hmove : ∀ q, e = .move q → Text.Valid rb.text q := by
      rintro q rfl
      simp only [Edit.inRow] at hs
      split at hs
      · next hq =>
        refine ⟨?_, ?_⟩
        · rw [hq.1]
          exact hapart.valid_b.2.1
        · rw [hq.1]
          exact hq.2
      · cases hs
    have hapart' := hapart.recv
    obtain ⟨app, hdisp, hrecv⟩ := dispatchSerial_edit hb.models (hfits e (by simp)) hmove hse
    refine ⟨⟨app, dec⟩, _, ab', by simp [Peer.deliver, hbyte, hdisp],
      ⟨hrecv.models hb.models hapart'.valid_b.1, hrecv.editing hb.editing⟩, hp', ?_, hapart'⟩
    intro f hf
    exact hfits f (List.mem_cons_of_mem _ hf)

end Step

/-! ## Runs -/

/-- Each side shares its replica; what is on its way takes the copy each holds of
the other's row to that row. -/
structure Flows (n : Net) (ra rb : Replica UInt8) (ab ba : List (Edit UInt8)) : Prop where
  a : n.a.Shares ra
  b : n.b.Shares rb
  pending_ab : Pending n.b.dec n.ab (ab.map Edit.message)
  pending_ba : Pending n.a.dec n.ba (ba.map Edit.message)
  fits_ab : ∀ e ∈ ab, e.Fits
  fits_ba : ∀ e ∈ ba, e.Fits
  apart : Apart newline ra rb ab ba

/-- The peer of a side. -/
def Net.peer (n : Net) : Side → Peer
  | .left => n.a
  | .right => n.b

/-- Every local input of the run is a key that stays in its row. -/
def StayInRows : Net → List Action → Prop
  | _, [] => True
  | n, action :: actions =>
    (∀ side i, action = .input side i → ∃ ev, i = .key ev ∧ (n.peer side).app.editor.InRow ev) ∧
      ∀ n', n.step action = some n' → StayInRows n' actions

section Runs

variable {n : Net} {ra rb : Replica UInt8} {ab ba : List (Edit UInt8)}

theorem Flows.of_paired {s : Pair} (h : Paired s ra rb) :
    Flows ⟨s.a, s.b, [], []⟩ ra rb [] [] where
  a := h.a.toShares
  b := h.b.toShares
  pending_ab := .of_idle h.b.idle
  pending_ba := .of_idle h.a.idle
  fits_ab := by simp
  fits_ba := by simp
  apart := .of_mirrored h.mirrored

/-- With nothing on its way the two sides are a pair. -/
theorem Flows.paired (h : Flows n ra rb ab ba) (hab : n.ab = []) (hba : n.ba = []) :
    Paired ⟨n.a, n.b⟩ ra rb := by
  have hpab := h.pending_ab
  have hpba := h.pending_ba
  rw [hab] at hpab
  rw [hba] at hpba
  obtain ⟨hidle_b, hnil_ab⟩ := hpab.idle
  obtain ⟨hidle_a, hnil_ba⟩ := hpba.idle
  obtain rfl := List.map_eq_nil_iff.1 hnil_ab
  obtain rfl := List.map_eq_nil_iff.1 hnil_ba
  exact ⟨⟨h.a, hidle_a⟩, ⟨h.b, hidle_b⟩, h.apart.mirrored⟩

theorem Flows.step (h : Flows n ra rb ab ba) {action : Action}
    (hrow : ∀ side i, action = .input side i →
      ∃ ev, i = .key ev ∧ (n.peer side).app.editor.InRow ev) :
    ∃ n' ra' rb' ab' ba', n.step action = some n' ∧ Flows n' ra' rb' ab' ba' := by
  cases action with
  | input side i =>
    obtain ⟨ev, rfl, hev⟩ := hrow side i rfl
    cases side with
    | left =>
      obtain ⟨a', sent, ra', ab', hact, hdec, ha, hp, hfits, hapart⟩ :=
        h.a.send h.pending_ab h.fits_ab h.apart hev
      exact ⟨{ n with a := a', ab := n.ab ++ sent }, ra', rb, ab', ba, by simp [Net.step, hact],
        ha, h.b, hp, by rw [hdec]; exact h.pending_ba, hfits, h.fits_ba, hapart⟩
    | right =>
      obtain ⟨b', sent, rb', ba', hact, hdec, hb, hp, hfits, hapart⟩ :=
        h.b.send h.pending_ba h.fits_ba h.apart.symm hev
      exact ⟨{ n with b := b', ba := n.ba ++ sent }, ra, rb', ab, ba', by simp [Net.step, hact],
        h.a, hb, by rw [hdec]; exact h.pending_ab, hp, h.fits_ab, hfits, hapart.symm⟩
  | deliver side stack =>
    cases side with
    | left =>
      cases hba : n.ba with
      | nil => exact ⟨n, ra, rb, ab, ba, by simp [Net.step, hba], h⟩
      | cons byte rest =>
        obtain ⟨a', ra', ba', hdel, ha, hp, hfits, hapart⟩ :=
          h.a.receive (hba ▸ h.pending_ba) h.fits_ba h.apart.symm stack
        exact ⟨{ n with a := a', ba := rest }, ra', rb, ab, ba', by simp [Net.step, hba, hdel],
          ha, h.b, h.pending_ab, hp, h.fits_ab, hfits, hapart.symm⟩
    | right =>
      cases hab : n.ab with
      | nil => exact ⟨n, ra, rb, ab, ba, by simp [Net.step, hab], h⟩
      | cons byte rest =>
        obtain ⟨b', rb', ab', hdel, hb, hp, hfits, hapart⟩ :=
          h.b.receive (hab ▸ h.pending_ab) h.fits_ab h.apart stack
        exact ⟨{ n with b := b', ab := rest }, ra, rb', ab', ba, by simp [Net.step, hab, hdel],
          h.a, hb, hp, h.pending_ba, hfits, h.fits_ba, hapart⟩

theorem Flows.run (h : Flows n ra rb ab ba) {actions : List Action}
    (hrows : StayInRows n actions) :
    ∃ n' ra' rb' ab' ba', n.run actions = some n' ∧ Flows n' ra' rb' ab' ba' := by
  induction actions generalizing n ra rb ab ba with
  | nil => exact ⟨n, ra, rb, ab, ba, rfl, h⟩
  | cons action actions ih =>
    obtain ⟨n₁, ra₁, rb₁, ab₁, ba₁, hstep, h₁⟩ := h.step hrows.1
    obtain ⟨n', ra', rb', ab', ba', hrun, h'⟩ := ih h₁ (hrows.2 n₁ hstep)
    refine ⟨n', ra', rb', ab', ba', ?_, h'⟩
    simp only [Net.run, List.foldlM_cons, hstep, Option.bind_eq_bind, Option.bind_some]
    exact hrun

end Runs

/-- Two peers that type in different rows: no step faults, and whenever nothing
is on its way the texts are equal and each side knows the cursor of the other. -/
theorem interleaving_converges {s : Pair} {ra rb : Replica UInt8} (h : Paired s ra rb)
    (actions : List Action) (hrows : StayInRows ⟨s.a, s.b, [], []⟩ actions) :
    ∃ n, Net.run ⟨s.a, s.b, [], []⟩ actions = some n ∧ (n.ab = [] → n.ba = [] →
      n.a.app.editor.doc.text = n.b.app.editor.doc.text ∧
      n.a.app.editor.remoteCursorRow = n.b.app.editor.cursorRow ∧
      n.a.app.editor.remoteCursorCol = n.b.app.editor.cursorCol ∧
      n.b.app.editor.remoteCursorRow = n.a.app.editor.cursorRow ∧
      n.b.app.editor.remoteCursorCol = n.a.app.editor.cursorCol) := by
  obtain ⟨n, ra', rb', ab, ba, hrun, hflows⟩ := (Flows.of_paired h).run hrows
  refine ⟨n, hrun, ?_⟩
  intro hab hba
  have hp := hflows.paired hab hba
  have ha := hp.a.models
  have hb := hp.b.models
  refine ⟨hp.text_eq, ?_, ?_, ?_, ?_⟩
  · rw [ha.peer.row, hb.own.row, hp.mirrored.caret]
  · rw [ha.peer.col, hb.own.col, hp.mirrored.caret]
  · rw [hb.peer.row, ha.own.row, hp.mirrored.peer]
  · rw [hb.peer.col, ha.own.col, hp.mirrored.peer]

/-- A character typed at each side, before either packet arrives. -/
theorem interleaving_converges_two : ∃ n, Net.run
      ⟨.sharing ⟨[[], []], ⟨0, 0⟩, ⟨1, 0⟩⟩ .zeros, .sharing ⟨[[], []], ⟨1, 0⟩, ⟨0, 0⟩⟩ .zeros, [], []⟩
      ([.input .left (.key { KeyEvent.none with c := 'x'.toUInt8 }),
        .input .right (.key { KeyEvent.none with c := 'y'.toUInt8 })] ++
        List.replicate 4 (.deliver .right fun _ => 0) ++
        List.replicate 4 (.deliver .left fun _ => 0)) = some n ∧
    (n.ab = [] → n.ba = [] → n.a.app.editor.doc.text = n.b.app.editor.doc.text) := by
  obtain ⟨n, hrun, hquiet⟩ := interleaving_converges sharing_paired
    ([.input .left (.key { KeyEvent.none with c := 'x'.toUInt8 }),
      .input .right (.key { KeyEvent.none with c := 'y'.toUInt8 })] ++
      List.replicate 4 (.deliver .right fun _ => 0) ++
      List.replicate 4 (.deliver .left fun _ => 0)) (by
    have htype {ed : Editor} {c : UInt8} (h0 : c ≠ 0) (hcolon : c ≠ ':'.toUInt8)
        (hnl : c ≠ newline) : ed.InRow { KeyEvent.none with c } :=
      .type ⟨rfl, rfl, rfl, rfl, hcolon, .inr ⟨rfl, h0, rfl⟩⟩ hnl
    refine ⟨?_, fun n₁ _ => ⟨?_, fun n₂ _ => ?_⟩⟩
    · rintro _ _ ⟨⟩
      exact ⟨_, rfl, htype (by decide) (by decide) (by decide)⟩
    · rintro _ _ ⟨⟩
      exact ⟨_, rfl, htype (by decide) (by decide) (by decide)⟩
    · refine ⟨by simp, fun _ _ => ⟨by simp, fun _ _ => ⟨by simp, fun _ _ => ⟨by simp, ?_⟩⟩⟩⟩
      exact fun _ _ => ⟨by simp, fun _ _ => ⟨by simp, fun _ _ => ⟨by simp, fun _ _ => ⟨by simp,
        fun _ _ => trivial⟩⟩⟩⟩)
  exact ⟨n, hrun, fun hab hba => (hquiet hab hba).1⟩

/-- A heap that gives nothing. -/
def Heap.exhausted : Heap := ⟨fun _ => none⟩

/-- The receiver has no memory for the character: it says so and drops it. -/
theorem interleaving_out_of_memory :
    Mirrored (α := UInt8) ⟨[[], []], ⟨0, 0⟩, ⟨1, 0⟩⟩ ⟨[[], []], ⟨1, 0⟩, ⟨0, 0⟩⟩ ∧
    StayInRows
      ⟨.sharing ⟨[[], []], ⟨0, 0⟩, ⟨1, 0⟩⟩ .zeros,
        .sharing ⟨[[], []], ⟨1, 0⟩, ⟨0, 0⟩⟩ .exhausted, [], []⟩
      (.input .left (.key { KeyEvent.none with c := 'x'.toUInt8 }) ::
        List.replicate 4 (.deliver .right fun _ => 0)) ∧
    (Net.run
      ⟨.sharing ⟨[[], []], ⟨0, 0⟩, ⟨1, 0⟩⟩ .zeros,
        .sharing ⟨[[], []], ⟨1, 0⟩, ⟨0, 0⟩⟩ .exhausted, [], []⟩
      (.input .left (.key { KeyEvent.none with c := 'x'.toUInt8 }) ::
        List.replicate 4 (.deliver .right fun _ => 0))).map
      (fun n => (n.ab, n.ba, n.a.app.editor.doc.text, n.b.app.editor.doc.text)) =
    some ([], [], some [['x'.toUInt8], []], some [[], []]) := by
  refine ⟨⟨rfl, rfl, rfl, by decide, by decide, by decide⟩, ⟨?_, ?_⟩, by decide +kernel⟩
  · rintro _ _ ⟨⟩
    exact ⟨_, rfl, .type (c := 'x'.toUInt8) ⟨rfl, rfl, rfl, rfl, by decide,
      .inr ⟨rfl, by decide, rfl⟩⟩ (by decide)⟩
  · exact fun _ _ => ⟨by simp, fun _ _ => ⟨by simp, fun _ _ => ⟨by simp, fun _ _ => ⟨by simp,
      fun _ _ => trivial⟩⟩⟩⟩

end LCode
