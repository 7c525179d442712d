import LCode.Peer.Verify.Replication

/-!
# Two peers that take turns

Two peers hold one text, in different rows of it, and each knows the cursor of
the other. A key of one side keeps that, unless it splits or joins rows above the
other cursor or enters the other's row: the editor does not move its remote
cursor with its own edits, and drops positions in its own row.
-/

namespace LCode

open Serial Commands

/-! ## What a key must respect -/

/-- The key neither moves the row of the remote cursor nor enters it, and
positions fit into a packet. -/
structure Editor.Spares (ed : Editor) (ev : KeyEvent) : Prop where
  enter : ev.Types newline → ed.remoteCursorRow < ed.cursorRow
  erase : ev.Erases →
    0 < ed.cursorCol ∨ ed.cursorRow = 0 ∨ ed.remoteCursorRow + 1 < ed.cursorRow
  left : ev.Moves .left → 0 < ed.cursorCol ∨ ed.remoteCursorRow + 1 ≠ ed.cursorRow
  right : ev.Moves .right →
    ed.getLineLen ed.cursorRow ≠ some ed.cursorCol ∨ ed.remoteCursorRow ≠ ed.cursorRow + 1
  small : (∃ dir, ev.Moves dir) →
    ed.doc.rowCount ≤ 65536 ∧ ∀ k len, ed.getLineLen k = some len → len < 65536

section Keys

variable {ev : KeyEvent} {t : List (List UInt8)} {p q : Pos}

/-- A cursor key stays in the text. -/
theorem Commands.Target.valid {remoteRow : Int} (h : Target ev t p remoteRow q)
    (hp : Text.Valid t p) : Text.Valid t q := by
  have hrow {q : Pos} (hr : q.row = p.row) (hc : q.col ≤ (Text.row t p.row).length) :
      Text.Valid t q := by
    refine ⟨?_, ?_⟩
    · rw [hr]
      exact hp.1
    · rw [hr]
      exact hc
  unfold Target at h
  cases hdir : ev.dir with
  | left =>
    simp only [hdir] at h
    split at h
    · exact hrow h.1 (Nat.le_trans h.2 hp.2)
    · rw [h]
      exact hp.left
  | right =>
    simp only [hdir] at h
    split at h
    · exact hrow h.1 h.2
    · rw [h]
      exact hp.right
  | up =>
    simp only [hdir] at h
    split at h
    · rw [h]
      exact Text.valid_enter p (Nat.lt_of_le_of_lt (Nat.sub_le _ _) hp.1)
    · rw [h]
      exact hp
  | down =>
    simp only [hdir] at h
    split at h
    · next hlt =>
      rw [h]
      exact Text.valid_enter p hlt.1
    · rw [h]
      exact hp
  | home =>
    simp only [hdir] at h
    exact hrow (by rw [h]) (by rw [h]; exact Nat.zero_le _)
  | «end» =>
    simp only [hdir] at h
    exact hrow (by rw [h]) (Nat.le_of_eq (by rw [h]))
  | none =>
    simp only [hdir] at h
    rw [h]
    exact hp

/-- Only Left at the start of a row and Right at its end go to a row that may be
that of the remote cursor. -/
theorem Commands.Target.row_ne {remoteRow : Nat} (h : Target ev t p remoteRow q)
    (apart : p.row ≠ remoteRow)
    (hleft : ev.dir = .left → 0 < p.col ∨ remoteRow + 1 ≠ p.row)
    (hright : ev.dir = .right → p.col < (Text.row t p.row).length ∨ remoteRow ≠ p.row + 1) :
    q.row ≠ remoteRow := by
  unfold Target at h
  cases hdir : ev.dir with
  | left =>
    have hl := hleft hdir
    simp only [hdir] at h
    split at h
    · rw [h.1]
      exact apart
    · rw [h]
      unfold Text.left
      split
      · exact apart
      · split
        · simp only
          omega
        · exact apart
  | right =>
    have hr := hright hdir
    simp only [hdir] at h
    split at h
    · rw [h.1]
      exact apart
    · rw [h]
      unfold Text.right
      split
      · exact apart
      · split
        · simp only
          omega
        · exact apart
  | up =>
    simp only [hdir] at h
    split at h
    · rw [h]
      simp only [Text.enter]
      omega
    · rw [h]
      exact apart
  | down =>
    simp only [hdir] at h
    split at h
    · rw [h]
      simp only [Text.enter]
      omega
    · rw [h]
      exact apart
  | home | «end» | none =>
    simp only [hdir] at h
    rw [h]
    exact apart

variable {T : Prop} {ed : Editor} {r : Replica UInt8} {e : Edit UInt8}

/-- The edit of a key that spares the remote cursor spares the other caret, and
fits into its packet. -/
theorem Editor.Spares.edit (h : ed.Spares ev) (hm : ed.Models T r)
    (apart : r.caret.row ≠ r.peer.row) (hmakes : Makes ev r e) :
    e.Spares newline r ∧ e.Fits := by
  have hrow := hm.own.row
  have hcol := hm.own.col
  have hrem := hm.peer.row
  cases hmakes with
  | type hev =>
    refine ⟨?_, trivial⟩
    rintro rfl
    have := h.enter hev
    omega
  | erase hev =>
    refine ⟨?_, trivial⟩
    have := h.erase hev
    simp only [Edit.Spares]
    omega
  | @move dir q hev htarget =>
    have hq := htarget.valid hm.own.valid
    obtain ⟨hrows, hlens⟩ := h.small ⟨dir, hev⟩
    have hlen := hlens q.row _ (Editor.getLineLen_row hm.own.holds.shows _)
    have hcount := hm.own.rowCount_eq
    refine ⟨⟨hq, htarget.row_ne apart ?_ ?_⟩, ?_, ?_⟩
    · intro hdir
      have := h.left (by rw [← hdir, hev.dir_eq]; exact hev.dir_eq ▸ hev)
      omega
    · intro hdir
      have := h.right (by rw [← hdir, hev.dir_eq]; exact hev.dir_eq ▸ hev)
      rw [hrow, Editor.getLineLen_row hm.own.holds.shows] at this
      have hle := hm.own.valid.2
      simp only [hcol, ne_eq, Option.some.injEq] at this
      omega
    · have := hq.1
      omega
    · have := hq.2
      omega

end Keys

/-! ## One turn -/

/-- The peer is the replica `r` and shares its text. -/
structure Peer.Shares (p : Peer) (r : Replica UInt8) : Prop where
  models : p.app.editor.Models False r
  editing : Editing p.app

/-- The peer is the replica `r` and waits for a frame. -/
structure Peer.Stands (p : Peer) (r : Replica UInt8) : Prop extends p.Shares r where
  idle : Idle p.dec

section Turn

variable {a b : Peer} {ra rb : Replica UInt8}

/-- A key of one side, with all it sends delivered to the other. -/
theorem Peer.Stands.exchange (ha : a.Stands ra) (hb : b.Stands rb) (hm : Mirrored ra rb)
    {turn : Turn} {ev : KeyEvent} (hinput : turn.input = .key ev) (hplain : Plain ev)
    (hspares : a.app.editor.Spares ev) :
    ∃ a' b' ra' rb', a.exchange b turn = some (a', b') ∧ a'.Stands ra' ∧ b'.Stands rb' ∧
      Mirrored ra' rb' := by
  have hmodels : a.app.flush.editor.Models False ra := ha.models
  obtain ⟨e, app, hmakes, hdisp, hedited⟩ := dispatch_makes hmodels ha.editing.flush hplain
  obtain ⟨hspared, hfits⟩ := hspares.edit ha.models hm.apart hmakes
  have hm' := hm.act_recv hspared
  obtain ⟨se, dec, hse, hidle, hdeliver⟩ :=
    deliverAll_message hb.idle e.message_length (withStacks_fst e.message.bytes turn.stackAt)
  have hmove : ∀ q, e = .move q → Text.Valid rb.text q := by
    rintro q rfl
    rw [hm.text]
    exact hspared.1
  obtain ⟨app', hdisp', hrecv⟩ := dispatchSerial_edit hb.models hfits hmove hse
  have hsent : app.sent = e.message.bytes := hedited.sent_one ha.editing.remote
  refine ⟨{ a with app }, ⟨app', dec⟩, _, _, ?_, ⟨⟨?_, hedited.editing ha.editing.flush⟩, ha.idle⟩,
    ⟨⟨?_, hrecv.editing hb.editing⟩, hidle⟩, hm'⟩
  · simp [Peer.exchange, Peer.act, App.handle, hinput, hdisp, hsent, hdeliver, hdisp']
  · exact hedited.models hmodels hm'.valid_peer
  · exact hrecv.models hb.models hm'.symm.valid_caret

/-- Both sides hold the text of the other, and know its cursor. -/
structure Paired (s : Pair) (ra rb : Replica UInt8) : Prop where
  a : s.a.Stands ra
  b : s.b.Stands rb
  mirrored : Mirrored ra rb

theorem Paired.text_eq {s : Pair} (h : Paired s ra rb) :
    s.a.app.editor.doc.text = s.b.app.editor.doc.text := by
  rw [h.a.models.own.holds.shows.text_eq, h.b.models.own.holds.shows.text_eq, h.mirrored.text]

/-- The peer of a side. -/
def Pair.peer (s : Pair) : Side → Peer
  | .left => s.a
  | .right => s.b

theorem Paired.turn {s : Pair} (h : Paired s ra rb) {turn : Turn} {ev : KeyEvent}
    (hinput : turn.input = .key ev) (hplain : Plain ev)
    (hspares : (s.peer turn.side).app.editor.Spares ev) :
    ∃ s' ra' rb', s.turn turn = some s' ∧ Paired s' ra' rb' := by
  cases hside : turn.side with
  | left =>
    rw [hside] at hspares
    obtain ⟨a', b', ra', rb', hex, ha, hb, hm⟩ :=
      h.a.exchange h.b h.mirrored hinput hplain hspares
    exact ⟨⟨a', b'⟩, ra', rb', by simp [Pair.turn, hside, hex], ha, hb, hm⟩
  | right =>
    rw [hside] at hspares
    obtain ⟨b', a', rb', ra', hex, hb, ha, hm⟩ :=
      h.b.exchange h.a h.mirrored.symm hinput hplain hspares
    exact ⟨⟨a', b'⟩, ra', rb', by simp [Pair.turn, hside, hex], ha, hb, hm.symm⟩

end Turn

/-! ## Runs -/

/-- Every key of the run spares the remote cursor of the side it is pressed at. -/
def Careful : Pair → List Turn → Prop
  | _, [] => True
  | s, turn :: turns =>
    (∀ ev, turn.input = .key ev → (s.peer turn.side).app.editor.Spares ev) ∧
      ∀ s', s.turn turn = some s' → Careful s' turns

/-- In a run of plain keys that all spare the remote cursor, the two texts are
equal after every key. -/
theorem run_converges {s : Pair} {ra rb : Replica UInt8} (h : Paired s ra rb) (turns : List Turn)
    (hkeys : ∀ turn ∈ turns, ∃ ev, turn.input = .key ev ∧ Plain ev) (hcareful : Careful s turns) :
    ∀ done, done <+: turns → ∃ s' ra' rb', Pair.run s done = some s' ∧ Paired s' ra' rb' ∧
      s'.a.app.editor.doc.text = s'.b.app.editor.doc.text := by
  induction turns generalizing s ra rb with
  | nil =>
    intro done hdone
    rw [List.prefix_nil] at hdone
    subst hdone
    exact ⟨s, ra, rb, rfl, h, h.text_eq⟩
  | cons turn turns ih =>
    intro done hdone
    cases done with
    | nil => exact ⟨s, ra, rb, rfl, h, h.text_eq⟩
    | cons turn' done =>
      obtain ⟨rfl, hprefix⟩ := List.cons_prefix_cons.1 hdone
      obtain ⟨ev, hinput, hplain⟩ := hkeys turn' (by simp)
      obtain ⟨s₁, ra₁, rb₁, hturn, h₁⟩ := h.turn hinput hplain (hcareful.1 ev hinput)
      obtain ⟨s', ra', rb', hrun, h', htext⟩ := ih h₁
        (fun turn hmem => hkeys turn (List.mem_cons_of_mem _ hmem)) (hcareful.2 s₁ hturn) done hprefix
      refine ⟨s', ra', rb', ?_, h', htext⟩
      simp only [Pair.run, List.foldlM_cons, hturn, Option.bind_eq_bind, Option.bind_some]
      exact hrun

/-- Two empty rows with a cursor in each. -/
theorem sharing_paired : Paired
    ⟨.sharing ⟨[[], []], ⟨0, 0⟩, ⟨1, 0⟩⟩ .zeros, .sharing ⟨[[], []], ⟨1, 0⟩, ⟨0, 0⟩⟩ .zeros⟩
    ⟨[[], []], ⟨0, 0⟩, ⟨1, 0⟩⟩ ⟨[[], []], ⟨1, 0⟩, ⟨0, 0⟩⟩ where
  a := ⟨⟨sharing_models (by decide) (by decide) Heap.zeros_ample, sharing_editing⟩, sharing_idle⟩
  b := ⟨⟨sharing_models (by decide) (by decide) Heap.zeros_ample, sharing_editing⟩, sharing_idle⟩
  mirrored := ⟨rfl, rfl, rfl, by decide, by decide, by decide⟩

/-- A character that breaks no row spares every remote cursor. -/
theorem Editor.spares_typed (ed : Editor) {ev : KeyEvent} {c : UInt8} (h : ev.Types c)
    (hc : c ≠ newline) : ed.Spares ev where
  enter := by
    intro hnew
    rcases h.char with ⟨-, rfl⟩ | ⟨hne, -, rfl⟩
    · exact absurd rfl hc
    · rcases hnew.char with ⟨he, -⟩ | ⟨-, -, heq⟩
      · exact absurd (he.symm.trans hne) (by simp)
      · exact absurd heq.symm hc
  erase := fun he => absurd (he.backspace.symm.trans h.backspace) (by simp)
  left := fun hm => absurd (hm.dir_eq.symm.trans h.dir) hm.dir_ne
  right := fun hm => absurd (hm.dir_eq.symm.trans h.dir) hm.dir_ne
  small := fun ⟨_, hm⟩ => absurd (hm.dir_eq.symm.trans h.dir) hm.dir_ne

/-- Enter in the lower of the two rows, and then a character on either side. -/
theorem run_converges_enter : ∃ s', Pair.run
      ⟨.sharing ⟨[[], []], ⟨0, 0⟩, ⟨1, 0⟩⟩ .zeros, .sharing ⟨[[], []], ⟨1, 0⟩, ⟨0, 0⟩⟩ .zeros⟩
      [⟨.right, .key { KeyEvent.none with enter := true }, fun _ _ => 0⟩,
        ⟨.left, .key { KeyEvent.none with c := 'x'.toUInt8 }, fun _ _ => 0⟩,
        ⟨.right, .key { KeyEvent.none with c := 'y'.toUInt8 }, fun _ _ => 0⟩] = some s' ∧
    s'.a.app.editor.doc.text = s'.b.app.editor.doc.text := by
  have hx : ({ KeyEvent.none with c := 'x'.toUInt8 } : KeyEvent).Types 'x'.toUInt8 :=
    ⟨rfl, rfl, rfl, rfl, by decide, .inr ⟨rfl, by decide, rfl⟩⟩
  have hy : ({ KeyEvent.none with c := 'y'.toUInt8 } : KeyEvent).Types 'y'.toUInt8 :=
    ⟨rfl, rfl, rfl, rfl, by decide, .inr ⟨rfl, by decide, rfl⟩⟩
  have henter : ({ KeyEvent.none with enter := true } : KeyEvent).Types newline :=
    ⟨rfl, rfl, rfl, rfl, by decide, .inl ⟨rfl, rfl⟩⟩
  obtain ⟨s', -, -, hrun, -, htext⟩ := run_converges sharing_paired
    [⟨.right, .key { KeyEvent.none with enter := true }, fun _ _ => 0⟩,
      ⟨.left, .key { KeyEvent.none with c := 'x'.toUInt8 }, fun _ _ => 0⟩,
      ⟨.right, .key { KeyEvent.none with c := 'y'.toUInt8 }, fun _ _ => 0⟩]
    (by
      intro turn hturn
      simp only [List.mem_cons, List.not_mem_nil, or_false] at hturn
      rcases hturn with rfl | rfl | rfl
      · exact ⟨_, rfl, .inl ⟨_, henter⟩⟩
      · exact ⟨_, rfl, .inl ⟨_, hx⟩⟩
      · exact ⟨_, rfl, .inl ⟨_, hy⟩⟩)
    (by
      refine ⟨?_, fun s₁ _ => ⟨?_, fun s₂ _ => ⟨?_, fun _ _ => trivial⟩⟩⟩
      · rintro _ ⟨⟩
        exact ⟨fun _ => by decide, fun h => absurd h.backspace (by decide),
          fun h => absurd h.dir_eq (by decide), fun h => absurd h.dir_eq (by decide),
          fun ⟨_, h⟩ => absurd h.dir_eq.symm h.dir_ne⟩
      · rintro _ ⟨⟩
        exact Editor.spares_typed _ hx (by decide)
      · rintro _ ⟨⟩
        exact Editor.spares_typed _ hy (by decide))
    _ (List.prefix_refl _)
  exact ⟨s', hrun, htext⟩

/-- Enter above the other cursor, and then a character typed there: the first
side still has the other's cursor in the row it was in before. -/
theorem run_diverges :
    Paired
      ⟨.sharing ⟨[[], []], ⟨0, 0⟩, ⟨1, 0⟩⟩ .zeros, .sharing ⟨[[], []], ⟨1, 0⟩, ⟨0, 0⟩⟩ .zeros⟩
      ⟨[[], []], ⟨0, 0⟩, ⟨1, 0⟩⟩ ⟨[[], []], ⟨1, 0⟩, ⟨0, 0⟩⟩ ∧
    Plain { KeyEvent.none with enter := true } ∧ Plain { KeyEvent.none with c := 'x'.toUInt8 } ∧
    (Pair.run
      ⟨.sharing ⟨[[], []], ⟨0, 0⟩, ⟨1, 0⟩⟩ .zeros, .sharing ⟨[[], []], ⟨1, 0⟩, ⟨0, 0⟩⟩ .zeros⟩
      [⟨.left, .key { KeyEvent.none with enter := true }, fun _ _ => 0⟩,
        ⟨.right, .key { KeyEvent.none with c := 'x'.toUInt8 }, fun _ _ => 0⟩]).map
      (fun s => (s.a.app.editor.doc.text, s.b.app.editor.doc.text)) =
    some (some [[], ['x'.toUInt8], []], some [[], [], ['x'.toUInt8]]) := by
  refine ⟨?_, .inl ⟨newline, rfl, rfl, rfl, rfl, by decide, .inl ⟨rfl, rfl⟩⟩,
    .inl ⟨'x'.toUInt8, rfl, rfl, rfl, rfl, by decide, .inr ⟨rfl, by decide, rfl⟩⟩,
    by decide +kernel⟩
  exact sharing_paired

end LCode
