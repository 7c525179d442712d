import LCode.Lib.Text

/-!
# Replicas of a text

Two parties edit one text. Each holds a replica of it with its own caret and the
last known caret of the other, and tells the other every edit it makes. An edit
is replayed at the caret it was made at; rows below a split or a join move.

Nothing is assumed about when an edit arrives: `Mirrored` relates two replicas
between which nothing is on its way, `Apart` two replicas with edits on their
way in both directions, as long as each party stays in a row of its own.
-/

namespace LCode

variable {α : Type*}

/-! ## Rows an edit does not touch -/

namespace Text

theorem row_set {t : List (List α)} {r : Nat} (hr : r < t.length) (x : List α) (k : Nat) :
    row (t.set r x) k = if k = r then x else row t k := by
  simp only [row, List.getD, List.getElem?_set, hr, if_true]
  by_cases h : r = k
  · subst h
    simp
  · have h' : ¬ k = r := fun hk => h hk.symm
    simp [h, h']

theorem splice_one {t : List (List α)} {r : Nat} (hr : r < t.length) (x : List α) :
    splice t r 1 [x] = t.set r x := by
  rw [splice, List.set_eq_take_append_cons_drop, if_pos hr]
  simp

/-- Two texts with the same rows. -/
theorem ext_row {s t : List (List α)} (hlen : s.length = t.length)
    (hrow : ∀ k, row s k = row t k) : s = t := by
  refine List.ext_getElem hlen fun k hs ht => ?_
  have := hrow k
  simpa [row, List.getD, hs, ht] using this

/-- A position stays in the text while its row does. -/
theorem Valid.of_row {s t : List (List α)} {p : Pos} (h : Valid t p) (hlen : p.row < s.length)
    (hrow : row s p.row = row t p.row) : Valid s p :=
  ⟨hlen, hrow ▸ h.2⟩

end Text

/-! ## Edits -/

/-- What a party does at its caret. -/
inductive Edit (α : Type*) where
  | type (c : α)
  | erase
  | move (p : Pos)
  deriving DecidableEq, Repr

/-- A text, the own caret in it and the caret of the other party. -/
structure Replica (α : Type*) where
  text : List (List α)
  caret : Pos
  peer : Pos
  deriving DecidableEq, Repr

/-- Both replicas hold one text, in which the carets are in different rows, and
each knows the caret of the other. -/
structure Mirrored (a b : Replica α) : Prop where
  text : b.text = a.text
  peer : b.peer = a.caret
  caret : b.caret = a.peer
  apart : a.caret.row ≠ a.peer.row
  valid_caret : Text.Valid a.text a.caret
  valid_peer : Text.Valid a.text a.peer

theorem Mirrored.symm {a b : Replica α} (h : Mirrored a b) : Mirrored b a :=
  ⟨h.text.symm, h.caret.symm, h.peer.symm, by rw [h.caret, h.peer]; exact h.apart.symm,
    by rw [h.text, h.caret]; exact h.valid_peer, by rw [h.text, h.peer]; exact h.valid_caret⟩

section Replicas

variable [DecidableEq α] (nl : α)

namespace Edit

/-- The text after the edit at `p`. -/
def text : Edit α → List (List α) → Pos → List (List α)
  | .type c, t, p => Text.insert nl t p c
  | .erase, t, p => Text.backspace t p
  | .move _, t, _ => t

/-- Where the edit at `p` leaves the caret. -/
def caret : Edit α → List (List α) → Pos → Pos
  | .type c, _, p => Text.afterInsert nl p c
  | .erase, t, p => Text.afterBackspace t p
  | .move q, _, _ => q

/-- Where the edit at `p` takes a row `r` below it. -/
def shift : Edit α → Pos → Nat → Nat
  | .type c, p, r => if c = nl ∧ p.row < r then r + 1 else r
  | .erase, p, r => if p.col = 0 ∧ 0 < p.row ∧ p.row < r then r - 1 else r
  | .move _, _, r => r

end Edit

namespace Replica

/-- An edit at the own caret. The known caret of the other party stays. -/
def act (r : Replica α) (e : Edit α) : Replica α :=
  { r with text := e.text nl r.text r.caret, caret := e.caret nl r.text r.caret }

/-- An edit of the other party, at its known caret. A move into the row of the
own caret is dropped. -/
def recv (r : Replica α) (e : Edit α) : Replica α where
  text := e.text nl r.text r.peer
  caret := ⟨e.shift nl r.peer r.caret.row, r.caret.col⟩
  peer := match e with
    | .move q => if q.row = r.caret.row then r.peer else q
    | e => e.caret nl r.text r.peer

end Replica

/-! ## Edits inside a row -/

namespace Edit

/-- An edit as a step of row `r` with the column of its caret; nothing when it
leaves the row. -/
def inRow (r : Nat) (e : Edit α) (s : List α × Nat) : Option (List α × Nat) :=
  match e with
  | .type c => if c = nl then none else some (s.1.take s.2 ++ c :: s.1.drop s.2, s.2 + 1)
  | .erase => if 0 < s.2 then some (s.1.take (s.2 - 1) ++ s.1.drop s.2, s.2 - 1) else none
  | .move p => if p.row = r ∧ p.col ≤ s.1.length then some (s.1, p.col) else none

variable {nl} {t : List (List α)} {p : Pos} {e : Edit α} {x : List α} {c : Nat}

/-- A step inside a row writes that row only and keeps the caret in it. -/
theorem inRow_eq (hp : Text.Valid t p)
    (h : e.inRow nl p.row (Text.row t p.row, p.col) = some (x, c)) :
    e.text nl t p = t.set p.row x ∧ e.caret nl t p = ⟨p.row, c⟩ ∧ c ≤ x.length := by
  obtain ⟨hr, hc⟩ := hp
  cases e with
  | type d =>
    simp only [inRow] at h
    split at h
    · cases h
    · next hd =>
      simp only [Option.some.injEq, Prod.mk.injEq] at h
      obtain ⟨rfl, rfl⟩ := h
      refine ⟨by simp [text, Text.insert, hd, Text.splice_one hr],
        by simp [caret, Text.afterInsert, hd], ?_⟩
      simp only [List.length_append, List.length_take, List.length_cons, List.length_drop]
      omega
  | erase =>
    simp only [inRow] at h
    split at h
    · next h0 =>
      simp only [Option.some.injEq, Prod.mk.injEq] at h
      obtain ⟨rfl, rfl⟩ := h
      refine ⟨by simp [text, Text.backspace, h0, Text.splice_one hr],
        by simp [caret, Text.afterBackspace, h0], ?_⟩
      simp only [List.length_append, List.length_take, List.length_drop]
      omega
    · cases h
  | move q =>
    simp only [inRow] at h
    split at h
    · next hq =>
      simp only [Option.some.injEq, Prod.mk.injEq] at h
      obtain ⟨rfl, rfl⟩ := h
      refine ⟨?_, Pos.ext hq.1 rfl, hq.2⟩
      have hrow : Text.row t p.row = t[p.row] := by simp [Text.row, List.getD, hr]
      rw [text, hrow, List.set_getElem_self]
    · cases h

/-- A step inside a row does not move other rows. -/
theorem shift_of_inRow {s : List α × Nat} {s' : List α × Nat} (hs : s.2 = p.col)
    (h : e.inRow nl p.row s = some s') (r : Nat) : e.shift nl p r = r := by
  cases e with
  | type d =>
    simp only [inRow] at h
    split at h
    · cases h
    · next hd => simp [shift, hd]
  | erase =>
    simp only [inRow] at h
    split at h
    · next h0 =>
      have : ¬ p.col = 0 := by omega
      simp [shift, this]
    · cases h
  | move q => rfl

end Edit

/-! ## Turns -/

/-- The edit does not move the row of the other caret and does not enter it. -/
def Edit.Spares (r : Replica α) : Edit α → Prop
  | .type c => c = nl → r.peer.row < r.caret.row
  | .erase => 0 < r.caret.col ∨ r.caret.row = 0 ∨ r.peer.row + 1 < r.caret.row
  | .move q => Text.Valid r.text q ∧ q.row ≠ r.peer.row

/-- The caret stays in the text under an edit of its own party. -/
theorem Text.Valid.edit {t : List (List α)} {p : Pos} (h : Text.Valid t p) {e : Edit α}
    (he : ∀ q, e = .move q → Text.Valid t q) : Text.Valid (e.text nl t p) (e.caret nl t p) := by
  cases e with
  | type c => exact h.insert nl c
  | erase => exact h.backspace
  | move q => exact he q rfl

variable {nl}

/-- The row of the other caret stays where it is. -/
theorem Edit.Spares.row_eq {r : Replica α} {e : Edit α} (h : e.Spares nl r)
    (apart : r.caret.row ≠ r.peer.row) (hc : Text.Valid r.text r.caret)
    (hp : Text.Valid r.text r.peer) :
    r.peer.row < (e.text nl r.text r.caret).length ∧
      Text.row (e.text nl r.text r.caret) r.peer.row = Text.row r.text r.peer.row ∧
      e.shift nl r.caret r.peer.row = r.peer.row := by
  have hinRow {x : List α} (htext : e.text nl r.text r.caret = r.text.set r.caret.row x) :
      r.peer.row < (e.text nl r.text r.caret).length ∧
        Text.row (e.text nl r.text r.caret) r.peer.row = Text.row r.text r.peer.row := by
    rw [htext, Text.row_set hc.1, if_neg apart.symm, List.length_set]
    exact ⟨hp.1, rfl⟩
  -- rows above the ones that are spliced
  have habove {i d : Nat} {new : List (List α)} (hi : r.peer.row < i)
      (hd : i + d ≤ r.text.length) (htext : e.text nl r.text r.caret = splice r.text i d new) :
      r.peer.row < (e.text nl r.text r.caret).length ∧
        Text.row (e.text nl r.text r.caret) r.peer.row = Text.row r.text r.peer.row := by
    have hlen := splice_length (w := new) hd
    rw [htext]
    exact ⟨by omega, Text.row_eq_of_getElem? (splice_getElem?_lt hi (by omega))⟩
  cases e with
  | type c =>
    by_cases hn : c = nl
    · have hlt := h hn
      obtain ⟨hlen, hrow⟩ := habove (i := r.caret.row) (d := 1) hlt (by have := hc.1; omega)
        (by simp [Edit.text, Text.insert, hn]; rfl)
      exact ⟨hlen, hrow, if_neg fun hs => by omega⟩
    · obtain ⟨hlen, hrow⟩ := hinRow (by
        simp [Edit.text, Text.insert, hn, Text.splice_one hc.1]; rfl)
      exact ⟨hlen, hrow, by simp [Edit.shift, hn]⟩
  | erase =>
    by_cases h0 : 0 < r.caret.col
    · obtain ⟨hlen, hrow⟩ := hinRow (by
        simp [Edit.text, Text.backspace, h0, Text.splice_one hc.1]; rfl)
      exact ⟨hlen, hrow, if_neg fun hs => by omega⟩
    · by_cases h1 : 0 < r.caret.row
      · have hlt : r.peer.row + 1 < r.caret.row := by
          rcases h with h | h | h <;> omega
        obtain ⟨hlen, hrow⟩ := habove (i := r.caret.row - 1) (d := 2) (by omega)
          (by have := hc.1; omega) (by simp [Edit.text, Text.backspace, h0, h1]; rfl)
        exact ⟨hlen, hrow, if_neg fun hs => by omega⟩
      · exact ⟨by simpa [Edit.text, Text.backspace, h0, h1] using hp.1,
          by simp [Edit.text, Text.backspace, h0, h1], if_neg fun hs => by omega⟩
  | move q => exact ⟨hp.1, rfl, rfl⟩

/-- An edit that spares the other caret does not enter its row. -/
theorem Edit.Spares.caret_ne {r : Replica α} {e : Edit α} (h : e.Spares nl r)
    (apart : r.caret.row ≠ r.peer.row) : (e.caret nl r.text r.caret).row ≠ r.peer.row := by
  cases e with
  | type c =>
    simp only [Edit.caret, Text.afterInsert]
    split
    · next hn =>
      have := h hn
      simp only
      omega
    · exact apart
  | erase =>
    simp only [Edit.caret, Text.afterBackspace]
    split
    · exact apart
    · split
      · simp only
        rcases h with h | h | h <;> omega
      · exact apart
  | move q => exact h.2

/-- The turn of one party: it edits, the other replays. -/
theorem Mirrored.act_recv {a b : Replica α} (h : Mirrored a b) {e : Edit α}
    (he : e.Spares nl a) : Mirrored (a.act nl e) (b.recv nl e) := by
  obtain ⟨hlen, hrow, hshift⟩ := he.row_eq h.apart h.valid_caret h.valid_peer
  refine ⟨?_, ?_, ?_, he.caret_ne h.apart, h.valid_caret.edit nl ?_, h.valid_peer.of_row hlen hrow⟩
  · simp [Replica.act, Replica.recv, h.text, h.peer]
  · cases e with
    | type c => simp [Replica.act, Replica.recv, Edit.caret, h.peer]
    | erase => simp [Replica.act, Replica.recv, Edit.caret, h.text, h.peer]
    | move q =>
      have : ¬ q.row = b.caret.row := by rw [h.caret]; exact he.2
      simp [Replica.act, Replica.recv, Edit.caret, this]
  · simp [Replica.act, Replica.recv, h.peer, h.caret, hshift]
  · rintro q rfl
    exact he.1

/-! ## Edits on their way -/

/-- Each party stays in its row. What is on its way to the other takes the
other's copy of that row, with the caret in it, to the row itself. -/
structure Apart (nl : α) (a b : Replica α) (ab ba : List (Edit α)) : Prop where
  rows : a.caret.row ≠ b.caret.row
  peer_a : a.peer.row = b.caret.row
  peer_b : b.peer.row = a.caret.row
  length : a.text.length = b.text.length
  valid_a : Text.Valid a.text a.caret ∧ Text.Valid a.text a.peer
  valid_b : Text.Valid b.text b.caret ∧ Text.Valid b.text b.peer
  others : ∀ k, k ≠ a.caret.row → k ≠ b.caret.row → Text.row a.text k = Text.row b.text k
  flight_ab : ab.foldlM (fun s e => e.inRow nl a.caret.row s)
    (Text.row b.text a.caret.row, b.peer.col) = some (Text.row a.text a.caret.row, a.caret.col)
  flight_ba : ba.foldlM (fun s e => e.inRow nl b.caret.row s)
    (Text.row a.text b.caret.row, a.peer.col) = some (Text.row b.text b.caret.row, b.caret.col)

namespace Apart

variable {a b : Replica α} {ab ba : List (Edit α)}

theorem symm (h : Apart nl a b ab ba) : Apart nl b a ba ab :=
  ⟨h.rows.symm, h.peer_b, h.peer_a, h.length.symm, h.valid_b, h.valid_a,
    fun k hb ha => (h.others k ha hb).symm, h.flight_ba, h.flight_ab⟩

/-- Mirrored replicas, with nothing on its way. -/
theorem of_mirrored (h : Mirrored a b) : Apart nl a b [] [] where
  rows := by rw [h.caret]; exact h.apart
  peer_a := by rw [h.caret]
  peer_b := by rw [h.peer]
  length := by rw [h.text]
  valid_a := ⟨h.valid_caret, h.valid_peer⟩
  valid_b := by rw [h.text, h.caret, h.peer]; exact ⟨h.valid_peer, h.valid_caret⟩
  others _ _ _ := by rw [h.text]
  flight_ab := by rw [h.text, h.peer]; rfl
  flight_ba := by rw [h.text, h.caret]; rfl

/-- Once nothing is on its way the replicas are mirrored. -/
theorem mirrored (h : Apart nl a b [] []) : Mirrored a b := by
  have hab : (Text.row b.text a.caret.row, b.peer.col) =
      (Text.row a.text a.caret.row, a.caret.col) := Option.some.inj h.flight_ab
  have hba : (Text.row a.text b.caret.row, a.peer.col) =
      (Text.row b.text b.caret.row, b.caret.col) := Option.some.inj h.flight_ba
  simp only [Prod.mk.injEq] at hab hba
  refine ⟨Text.ext_row h.length.symm fun k => ?_, Pos.ext h.peer_b hab.2,
    Pos.ext h.peer_a.symm hba.2.symm, ?_, h.valid_a.1, h.valid_a.2⟩
  · by_cases ha : k = a.caret.row
    · rw [ha, hab.1]
    · by_cases hb : k = b.caret.row
      · rw [hb, hba.1]
      · exact (h.others k ha hb).symm
  · rw [h.peer_a]
    exact h.rows

/-- A party edits in its row; the edit is on its way. -/
theorem act (h : Apart nl a b ab ba) {e : Edit α} {s : List α × Nat}
    (he : e.inRow nl a.caret.row (Text.row a.text a.caret.row, a.caret.col) = some s) :
    Apart nl (a.act nl e) b (ab ++ [e]) ba := by
  obtain ⟨x, c⟩ := s
  obtain ⟨htext, hcaret, hc⟩ := Edit.inRow_eq h.valid_a.1 he
  have hr := h.valid_a.1.1
  have hrow : Text.row (a.text.set a.caret.row x) a.caret.row = x := by
    simp [Text.row_set hr]
  have hother {k : Nat} (hk : k ≠ a.caret.row) :
      Text.row (a.text.set a.caret.row x) k = Text.row a.text k := by
    simp [Text.row_set hr, hk]
  simp only [Replica.act, htext, hcaret]
  refine ⟨h.rows, h.peer_a, h.peer_b, by simpa using h.length, ⟨⟨by simpa using hr, ?_⟩, ?_⟩,
    h.valid_b, fun k ha hb => ?_, ?_, ?_⟩
  · simp only [hrow]
    exact hc
  · refine h.valid_a.2.of_row (by simpa using h.valid_a.2.1) (hother ?_)
    rw [h.peer_a]
    exact h.rows.symm
  · simp only [hother ha]
    exact h.others k ha hb
  · simp only [hrow, List.foldlM_append, h.flight_ab, Option.bind_eq_bind, Option.bind_some,
      List.foldlM_cons, List.foldlM_nil, he, Option.pure_def]
  · simp only [hother h.rows.symm]
    exact h.flight_ba

/-- What arrives is a step of the row of its sender. -/
theorem head_inRow {e : Edit α} (h : Apart nl a b (e :: ab) ba) :
    ∃ s, e.inRow nl b.peer.row (Text.row b.text b.peer.row, b.peer.col) = some s ∧
      ab.foldlM (fun s e => e.inRow nl a.caret.row s) s =
        some (Text.row a.text a.caret.row, a.caret.col) := by
  have hflight := h.flight_ab
  rw [List.foldlM_cons, Option.bind_eq_bind, Option.bind_eq_some_iff] at hflight
  rw [h.peer_b]
  exact hflight

/-- An edit arrives and is replayed. -/
theorem recv {e : Edit α} (h : Apart nl a b (e :: ab) ba) : Apart nl a (b.recv nl e) ab ba := by
  obtain ⟨⟨x, c⟩, he, hrest⟩ := h.head_inRow
  obtain ⟨htext, hcaret, hc⟩ := Edit.inRow_eq h.valid_b.2 he
  have hr := h.valid_b.2.1
  have hrow : Text.row (b.text.set b.peer.row x) b.peer.row = x := by
    simp [Text.row_set hr]
  have hother {k : Nat} (hk : k ≠ b.peer.row) :
      Text.row (b.text.set b.peer.row x) k = Text.row b.text k := by
    simp [Text.row_set hr, hk]
  have hne : b.caret.row ≠ b.peer.row := by
    rw [h.peer_b]
    exact h.rows.symm
  have hrecv : b.recv nl e = ⟨b.text.set b.peer.row x, b.caret, ⟨b.peer.row, c⟩⟩ := by
    have hshift := Edit.shift_of_inRow rfl he b.caret.row
    cases e with
    | type d => simp [Replica.recv, htext, hcaret, hshift]
    | erase => simp [Replica.recv, htext, hcaret, hshift]
    | move q =>
      obtain rfl : q = ⟨b.peer.row, c⟩ := hcaret
      simp [Replica.recv, htext, hshift, hne.symm]
  rw [hrecv]
  refine ⟨h.rows, h.peer_a, h.peer_b, by simpa using h.length, h.valid_a,
    ⟨?_, ⟨by simpa using hr, ?_⟩⟩, fun k ha hb => ?_, ?_, ?_⟩
  · exact h.valid_b.1.of_row (by simpa using h.valid_b.1.1) (hother hne)
  · simp only [hrow]
    exact hc
  · have hk : k ≠ b.peer.row := by
      rw [h.peer_b]
      exact ha
    simp only [hother hk]
    exact h.others k ha hb
  · simp only [← h.peer_b, hrow] at hrest ⊢
    exact hrest
  · simp only [hother hne]
    exact h.flight_ba

end Apart

end Replicas

end LCode
