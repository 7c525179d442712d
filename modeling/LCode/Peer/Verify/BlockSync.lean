import LCode.Commands.Verify.Blocks
import LCode.Peer.Verify.Replication

/-!
# Block delta sync

The rows of a block edit reach the other peer as fresh rows and one packet for
each of them, or as one packet for the only row, and the receiver rebuilds the text of
the sender. The block that Ctrl+Backspace sends from the start of the text begins in row
-1, which is row 65535 for the receiver: a text of fewer rows has no place for it.
-/

namespace LCode

open Serial Commands

/-! ## The receiver -/

section Receiver

variable {app : App} {t : List (List UInt8)} {evs : List SerialEvent} {p : Pos}

/-- The fresh rows are filled one by one. -/
theorem updates_replay {y z : List (List UInt8)} {row : Int} {n : Nat} {x : List (List UInt8)}
    (h : Showing app (y ++ List.replicate n [] ++ z)) (hn : n = x.length) (hrow : row = y.length)
    (hsmall : y.length + n ≤ 65536)
    (hshort : ∀ k, y.length ≤ k → k < y.length + n → (Text.row (y ++ x ++ z) k).length ≤ 250)
    (hevs : List.Forall₂ Message.Event (updateMessages (y ++ x ++ z) row n) evs) :
    ∃ app', evs.foldlM dispatchSerial app = some app' ∧ Showing app' (y ++ x ++ z) := by
  induction x generalizing app y row n evs with
  | nil =>
    subst hn
    cases hevs
    exact ⟨app, rfl, h⟩
  | cons w x ih =>
    rw [List.length_cons] at hn
    subst hn
    have hw : Text.row (y ++ w :: x ++ z) y.length = w := by
      rw [List.append_assoc]
      exact Text.row_append rfl
    have hshift : y ++ w :: x ++ z = y ++ [w] ++ x ++ z := by simp
    cases hevs with
    | @cons _ se _ evs hse hevs =>
      rw [hrow, Text.rowAt_natCast, hw] at hse
      have hlen := hshort y.length (Nat.le_refl _) (by omega)
      rw [hw] at hlen
      obtain ⟨app₁, hdisp, h₁⟩ := dispatchSerial_update h hlen hse
      have hset : (y ++ List.replicate (x.length + 1) [] ++ z).set
          ((y.length : Int) % 65536).toNat w = y ++ [w] ++ List.replicate x.length [] ++ z := by
        have hidx : ((y.length : Int) % 65536).toNat = y.length := by omega
        rw [hidx, List.replicate_succ, List.append_assoc]
        simp
      rw [hset] at h₁
      rw [hshift] at hevs hshort ⊢
      obtain ⟨app', hrun, h'⟩ := ih h₁ rfl (by simp [hrow]) (by simp; omega)
        (fun k hle hlt => hshort k (by simp at hle; omega) (by simp at hlt; omega)) hevs
      exact ⟨app', by simp [hdisp, hrun], h'⟩

/-- The messages of a block rebuild it. -/
theorem block_replays {t' w : List (List UInt8)} {i d : Nat} (h : Showing app t)
    (ht' : t' = splice t i d w) (hin : i + d ≤ t.length) (hbefore : t.length < 65536)
    (hafter : t'.length < 65536)
    (hshort : ∀ k, i ≤ k → k < i + w.length → (Text.row t' k).length ≤ 250)
    (hevs : List.Forall₂ Message.Event (blockMessages t' p i d w.length) evs) :
    ∃ app', evs.foldlM dispatchSerial app = some app' ∧ Showing app' t' := by
  have hlen : t'.length + d = t.length + w.length := ht' ▸ splice_length hin
  obtain ⟨evs₁, evs₂, rfl, hblock, hmove⟩ := events_append hevs
  obtain ⟨se, rfl, hse⟩ := events_one hmove
  obtain ⟨app₁, hrun, h₁⟩ : ∃ app₁, evs₁.foldlM dispatchSerial app = some app₁ ∧
      Showing app₁ t' := by
    obtain ⟨y, m, z, rfl, hi, hd⟩ : ∃ y m z, t = y ++ m ++ z ∧ i = y.length ∧ d = m.length := by
      obtain ⟨y, z, ht, hi⟩ := exists_eq_append (x := t) (i := i) (by omega)
      have hz := congrArg List.length ht
      rw [List.length_append] at hz
      obtain ⟨m, z, rfl, hd⟩ := exists_eq_append (x := z) (i := d) (by omega)
      exact ⟨y, m, z, by rw [ht, List.append_assoc], hi, hd⟩
    rw [splice_append hi hd] at ht'
    subst ht'
    simp only [List.length_append] at hbefore hafter hlen
    have hidx : ((i : Int) % 65536).toNat = i := by omega
    split at hblock
    · next hone =>
      -- one row before and after the edit
      obtain ⟨x, rfl⟩ := List.length_eq_one_iff.1 (hd.symm.trans hone.1)
      obtain ⟨w, rfl⟩ := List.length_eq_one_iff.1 hone.2
      obtain ⟨se, rfl, hse⟩ := events_one hblock
      have hw : Text.row (y ++ [w] ++ z) i = w := by
        rw [List.append_assoc]
        exact Text.row_append hi
      have hlen := hshort i (Nat.le_refl _) (by simp)
      rw [Text.rowAt_natCast, hw] at hse
      rw [hw] at hlen
      obtain ⟨app₁, hdisp, h₁⟩ := dispatchSerial_update h hlen hse
      refine ⟨app₁, by simp [hdisp], ?_⟩
      have hset : (y ++ [x] ++ z).set i w = y ++ [w] ++ z := by simp [hi]
      rwa [hidx, hset] at h₁
    · obtain ⟨se, evs₁, hse, hupd, rfl⟩ := List.forall₂_cons_left_iff.1 hblock
      obtain ⟨app₁, hdisp, h₁⟩ := dispatchSerial_replace h (by omega) (by omega) hse
      rw [hidx, if_pos (by simp; omega), splice_append hi hd] at h₁
      obtain ⟨app₂, hrun, h₂⟩ := updates_replay h₁ rfl (by omega) (by omega)
        (fun k hle hlt => hshort k (by omega) (by omega)) hupd
      exact ⟨app₂, by simp [hdisp, hrun], h₂⟩
  obtain ⟨app', hdisp, hdoc, -⟩ := dispatchSerial_moveMessage app₁ hse
  exact ⟨app', by simp [hrun, hdisp], h₁.of_doc hdoc⟩

/-- A block from row -1: the receiver has no row 65535, and ignores it. -/
theorem block_above (h : Showing app t) (hsmall : t.length < 65535)
    (hevs : List.Forall₂ Message.Event (blockMessages t p (-1) 2 1) evs) :
    ∃ app', evs.foldlM dispatchSerial app = some app' ∧ Showing app' t := by
  obtain ⟨evs₁, evs₂, rfl, hblock, hmove⟩ := events_append hevs
  obtain ⟨se₃, rfl, hse₃⟩ := events_one hmove
  rw [if_neg (by decide)] at hblock
  obtain ⟨se₁, evs₁, hse₁, hupd, rfl⟩ := List.forall₂_cons_left_iff.1 hblock
  obtain ⟨se₂, rfl, hse₂⟩ := events_one hupd
  have hidx : ((-1 : Int) % 65536).toNat = 65535 := by decide
  obtain ⟨app₁, hdisp₁, h₁⟩ := dispatchSerial_replace h (d := 2) (n := 1) (by omega) (by omega) hse₁
  obtain ⟨app₂, hdisp₂, h₂⟩ := dispatchSerial_update h₁ (x := []) (by simp) hse₂
  obtain ⟨app₃, hdisp₃, hdoc, -⟩ := dispatchSerial_moveMessage app₂ hse₃
  have h₃ := h₂.of_doc hdoc
  rw [hidx, if_neg (by omega), List.set_eq_of_length_le (by omega)] at h₃
  exact ⟨app₃, by simp [hdisp₁, hdisp₂, hdisp₃], h₃⟩

end Receiver

/-! ## The sender -/

namespace Commands

theorem updateMessages_length {t : List (List UInt8)} {row : Int} {n : Nat} {m : Message}
    (hm : m ∈ updateMessages t row n) : m.body.length < 256 := by
  induction n generalizing row with
  | zero => cases hm
  | succ n ih =>
    rcases List.mem_cons.1 hm with rfl | hm
    · simp only [updateMessage, List.length_cons, List.length_take]
      omega
    · exact ih hm

theorem blockMessages_length {t : List (List UInt8)} {p : Pos} {start : Int} {d n : Nat}
    {m : Message} (hm : m ∈ blockMessages t p start d n) : m.body.length < 256 := by
  rcases List.mem_append.1 hm with hm | hm
  · split at hm
    · exact updateMessages_length (n := 1) hm
    · rcases List.mem_cons.1 hm with rfl | hm
      · simp [replaceMessage]
      · exact updateMessages_length hm
  · rw [List.mem_singleton.1 hm]
    simp [moveMessage, position]

theorem mem_updateMessages {t : List (List UInt8)} {row : Int} {n : Nat} {k : Int}
    (hle : row ≤ k) (hlt : k < row + n) :
    updateMessage k (Text.rowAt t k) ∈ updateMessages t row n := by
  induction n generalizing row with
  | zero => omega
  | succ n ih =>
    by_cases heq : k = row
    · rw [heq]
      exact List.mem_cons_self
    · exact List.mem_cons_of_mem _ (ih (by omega) (by omega))

/-- Every row of the block is sent. -/
theorem mem_blockMessages {t : List (List UInt8)} {p : Pos} {start : Int} {d n : Nat} {k : Int}
    (hle : start ≤ k) (hlt : k < start + n) :
    updateMessage k (Text.rowAt t k) ∈ blockMessages t p start d n := by
  refine List.mem_append_left _ ?_
  split
  · next hone =>
    obtain rfl : k = start := by omega
    exact List.mem_singleton_self _
  · exact List.mem_cons_of_mem _ (mem_updateMessages hle hlt)

end Commands

/-- A packet for row `k` is among the bytes. -/
def Transmits (bytes : List UInt8) (k : Nat) : Prop :=
  ∃ ms, bytes = stream ms ∧ (∀ m ∈ ms, m.body.length < 256) ∧
    ∃ x, (⟨.updateLine, hiByte k :: loByte k :: x⟩ : Message) ∈ ms

/-- The key ends in `sync_block`. -/
inductive Editor.Syncs (ed : Editor) (ev : KeyEvent) : Prop
  | erase (escape : ev.escape = false) (backspace : ev.backspace = true)
      (quit : ev.ctrl = true → ev.c ≠ 'q'.toUInt8) (tree : ev.ctrl = true → ev.c ≠ 'b'.toUInt8)
      (block : ed.selActive = true ∨ ev.ctrl = true)
  | cut (escape : ev.escape = false) (backspace : ev.backspace = false) (dir : ev.dir = .none)
      (ctrl : ev.ctrl = true) (char : ev.c = 'x'.toUInt8) (active : ed.selActive = true)
  | paste (escape : ev.escape = false) (backspace : ev.backspace = false) (dir : ev.dir = .none)
      (ctrl : ev.ctrl = true) (char : ev.c = 'v'.toUInt8) (clip : ed.clipboard ≠ none)
  | type {c : UInt8} (types : ev.Types c) (char : ev.enter = false → c ≠ newline)
      (active : ed.selActive = true)

section Sender

variable {T : Prop} {app : App} {ev : KeyEvent} {t : List (List UInt8)} {p : Pos}

/-- A block edit: `d` rows from `i` on have given way to `w`, and these are
sent; or nothing has changed, and the row above the first is sent. -/
inductive Blocked (T : Prop) (app : App) (t : List (List UInt8)) (app' : App) : Prop
  | rows {t' w : List (List UInt8)} {q : Pos} {i d : Nat} (at' : app'.editor.At T t' q)
      (text : t' = splice t i d w) (inside : i + d ≤ t.length)
      (sent : app'.sent = app.sent ++ stream (blockMessages t' q i d w.length))
  | above {q : Pos} (at' : app'.editor.At T t q)
      (sent : app'.sent = app.sent ++ stream (blockMessages t q (-1) 2 1))

theorem Blocked.of_edited {app' : App} {t' w : List (List UInt8)} {q : Pos} {i d : Nat}
    (hr : app.remote = true) (text : t' = splice t i d w) (inside : i + d ≤ t.length)
    (h : Edited T app app' t' q (blockMessages t' q i d w.length)) :
    Blocked T app t app' := by
  refine .rows h.at' text inside ?_
  rw [h.sent, hr]
  rfl

theorem Blocked.of_merges {app' : App} {t' : List (List UInt8)} {q : Pos} {i d : Nat}
    (hr : app.remote = true) (hm : Text.Merges t t' i d)
    (h : Edited T app app' t' q (blockMessages t' q i d 1)) : Blocked T app t app' := by
  obtain ⟨x, hx⟩ := hm.merged
  exact .of_edited (w := [x]) hr hx hm.inside h

/-- Ctrl+Backspace without a selection: at the start of the text nothing is deleted. -/
theorem deleteWordKey_blocked (h : app.editor.At T t p) (hr : app.remote = true)
    (hactive : app.editor.selActive = false) :
    ∃ app', deleteWordKey app = some app' ∧ Blocked T app t app' := by
  by_cases hc : p.col = 0
  · obtain ⟨app', hdel, hed⟩ := deleteWordKey_start h hactive hc
    refine ⟨app', hdel, ?_⟩
    by_cases hrow : p.row = 0
    · have hback : Text.backspace t p = t := by simp [Text.backspace, hc, hrow]
      rw [hback] at hed
      refine .above (q := Text.afterBackspace t p) hed.at' ?_
      rw [hed.sent, hr, hrow]
      rfl
    · refine .of_merges (q := Text.afterBackspace t p) hr
        (Text.merges_backspace h.valid hc (by omega)) ?_
      have hpred : ((p.row : Int) - 1) = (p.row - 1 : Nat) := by omega
      rwa [hpred] at hed
  · obtain ⟨t', p', app', hm, hdel, hed⟩ := deleteWordKey_eq h hactive (by omega)
    exact ⟨app', hdel, .of_merges hr hm hed⟩

/-- What a key that ends in `sync_block` does. -/
theorem dispatch_syncs (h : app.editor.Sound T t p) (hmode : app.bar.mode = .editor)
    (hfocused : app.tree.focused = false) (hr : app.remote = true) (hev : app.editor.Syncs ev) :
    ∃ app', dispatch app ev = some app' ∧ Blocked T app t app' := by
  have hdispatch : (ev.ctrl = true → ev.c ≠ 'b'.toUInt8) →
      dispatch app ev = editorKey app ev := by
    intro hb
    have : (ev.ctrl && ev.c == 'b'.toUInt8) = false := by simpa using hb
    simp [dispatch, filetreeCommandsTry, this, hfocused, hmode]
  cases hev with
  | erase escape backspace quit tree block =>
    have hquit : (ev.ctrl && ev.c == 'q'.toUInt8) = false := by simpa using quit
    have hkey : editorKey app ev = backspaceKey app ev := by
      simp [editorKey, escape, hquit, backspace]
    rw [hdispatch tree, hkey]
    cases hactive : app.editor.selActive with
    | true =>
      obtain ⟨s, hs⟩ := h.selected hactive
      obtain ⟨t', q, d, app', hm, hdel, hed⟩ := deleteSelectionKey_eq h.at' hs
      exact ⟨app', by simp [backspaceKey, hactive, hdel], .of_merges hr hm hed⟩
    | false =>
      have hctrl : ev.ctrl = true := by simpa [hactive] using block
      have hword : backspaceKey app ev = deleteWordKey app := by
        simp [backspaceKey, hactive, hctrl]
      rw [hword]
      exact deleteWordKey_blocked h.at' hr hactive
  | cut escape backspace dir ctrl char active =>
    obtain ⟨s, hs⟩ := h.selected active
    obtain ⟨b, e, heap, t', q, d, app', hm, hcut, hed⟩ := cutKey_eq h.at' hs
    have hb : ¬ 'x'.toUInt8 = 'b'.toUInt8 := by decide
    have hq : ¬ 'x'.toUInt8 = 'q'.toUInt8 := by decide
    have hc : ¬ 'x'.toUInt8 = 'c'.toUInt8 := by decide
    have hkey : editorKey app ev = cutKey app := by
      simp only [editorKey, escape, ctrl, char, backspace, dir]
      simp [hq, hc]
    rw [hdispatch (fun _ => by rw [char]; exact hb), hkey]
    obtain ⟨x, hx⟩ := hm.merged
    refine ⟨app', hcut, .rows (w := [x]) hed.at' hx hm.inside ?_⟩
    rw [hed.sent]
    simp [hr]
  | paste escape backspace dir ctrl char clip =>
    obtain ⟨block, hblock⟩ := Option.ne_none_iff_exists'.1 clip
    obtain ⟨x, rest, rfl, hx⟩ := h.clip block hblock
    obtain ⟨t', b, d, app', hm, hpaste, hed⟩ := pasteKey_eq h.at' h.selected hblock hx
    have hb : ¬ 'v'.toUInt8 = 'b'.toUInt8 := by decide
    have hq : ¬ 'v'.toUInt8 = 'q'.toUInt8 := by decide
    have hc : ¬ 'v'.toUInt8 = 'c'.toUInt8 := by decide
    have hx' : ¬ 'v'.toUInt8 = 'x'.toUInt8 := by decide
    have hkey : editorKey app ev = pasteKey app := by
      simp only [editorKey, escape, ctrl, char, backspace, dir]
      simp [hq, hc, hx']
    rw [hdispatch (fun _ => by rw [char]; exact hb), hkey]
    obtain ⟨w, hw, hlen⟩ := hm.paste newline x
    rw [← hlen] at hed
    exact ⟨app', hpaste, .of_edited hr hw hm.inside hed⟩
  | @type c types char active =>
    obtain ⟨s, hs⟩ := h.selected active
    rw [hdispatch (fun hctrl => absurd (types.ctrl.symm.trans hctrl) (by decide))]
    have hinsert (rows : Nat) (hrows : rows = [c].count newline + 1)
        (hkey : editorKey app ev = insertOverSelection app c rows) :
        ∃ app', editorKey app ev = some app' ∧ Blocked T app t app' := by
      obtain ⟨t', b, d, app', hm, hins, hed⟩ := insertOverSelection_eq h.at' hs c rows
      obtain ⟨w, hw, hlen⟩ := hm.paste newline [c]
      rw [hrows, ← hlen] at hed
      rw [← Text.insert_eq_paste] at hw
      exact ⟨app', hkey.trans hins, .of_edited hr hw hm.inside hed⟩
    rcases types.char with ⟨hent, rfl⟩ | ⟨hent, hc, rfl⟩
    · refine hinsert 2 (by decide) ?_
      simp [editorKey, types.escape, types.backspace, types.dir, types.ctrl, types.colon, hent,
        enterKey, active]
    · refine hinsert 1 ?_ ?_
      · rw [List.count_singleton, if_neg]
        simpa using char hent
      · simp [editorKey, types.escape, types.backspace, types.dir, types.ctrl, types.colon, hent,
          hc, charKey, active]

end Sender

/-! ## A block edit replayed -/

section BlockSync

variable {a b : Peer} {ev : KeyEvent} {t : List (List UInt8)} {p : Pos}

/-- The receiver of a block edit has the text of the sender. -/
theorem Blocked.replays {app : App} (h : Blocked False a.app.flush t app)
    (ha : a.app.flush.editor.At False t p) (hbefore : a.app.editor.doc.rowCount < 65535)
    (hb : Showing b.app t) (idle : Idle b.dec) (hafter : app.editor.doc.rowCount < 65535)
    (hshort : ∀ (k : Nat) len, Transmits app.sent k → app.editor.getLineLen k = some len →
      len ≤ 250) (stackAt : Nat → Stack) :
    ∃ b', b.deliverAll (withStacks app.sent stackAt) = some b' ∧
      b'.app.editor.doc.text = app.editor.doc.text := by
  have hcount : a.app.editor.doc.rowCount = t.length := ha.rowCount_eq
  cases h with
  | @rows t' w p' i d at' text inside sent =>
    have hcount' := at'.rowCount_eq
    have hsent : app.sent = stream (blockMessages t' p' i d w.length) := by simp [sent, App.flush]
    have hrows : ∀ k, i ≤ k → k < i + w.length → (Text.row t' k).length ≤ 250 := by
      intro k hle hlt
      obtain ⟨_, _, hlen, -⟩ := Editor.getLine_eq at'.holds.shows k
      rw [Text.rowAt_natCast] at hlen
      have := hshort k _ ⟨_, hsent, fun _ => blockMessages_length, _,
        mem_blockMessages (by omega) (by omega)⟩ hlen
      omega
    obtain ⟨evs, dec, hevs, -, hdeliver⟩ := deliverAll_messages idle
      (fun _ => blockMessages_length) ((withStacks_fst app.sent stackAt).trans hsent)
    obtain ⟨app', hrun, h'⟩ := block_replays hb text inside (by omega) (by omega) hrows hevs
    refine ⟨⟨app', dec⟩, by rw [hdeliver, hrun]; rfl, ?_⟩
    rw [h'.shows.text_eq, at'.holds.shows.text_eq]
  | @above p' at' sent =>
    have hsent : app.sent = stream (blockMessages t p' (-1) 2 1) := by simp [sent, App.flush]
    obtain ⟨evs, dec, hevs, -, hdeliver⟩ := deliverAll_messages idle
      (fun _ => blockMessages_length) ((withStacks_fst app.sent stackAt).trans hsent)
    obtain ⟨app', hrun, h'⟩ := block_above hb (by omega) hevs
    refine ⟨⟨app', dec⟩, by rw [hdeliver, hrun]; rfl, ?_⟩
    rw [h'.shows.text_eq, at'.holds.shows.text_eq]

/-- Block delta sync: after a key that ends in `sync_block` the receiver has the
text of the sender, row by row. -/
theorem block_sync (ha : a.app.editor.Sound False t p) (hmode : a.app.bar.mode = .editor)
    (hfocused : a.app.tree.focused = false) (hremote : a.app.remote = true)
    (hb : Showing b.app t) (idle : Idle b.dec) (hrows : a.app.editor.doc.rowCount < 65535)
    (hev : a.app.editor.Syncs ev) (stackAt : Nat → Stack) :
    ∃ a' bytes, a.act (.key ev) = some (a', bytes) ∧
      (a'.app.editor.doc.rowCount < 65535 →
        (∀ (k : Nat) len, Transmits bytes k → a'.app.editor.getLineLen k = some len → len ≤ 250) →
        ∃ b', b.deliverAll (withStacks bytes stackAt) = some b' ∧
          b'.app.editor.doc.text = a'.app.editor.doc.text) := by
  have ha' : a.app.flush.editor.Sound False t p := ha
  obtain ⟨app, hdisp, hblocked⟩ := dispatch_syncs ha' hmode hfocused hremote hev
  refine ⟨{ a with app }, app.sent, by simp [Peer.act, App.handle, hdisp], ?_⟩
  intro hafter hshort
  exact hblocked.replays ha'.at' hrows hb idle hafter hshort stackAt

theorem ctrlBackspace_syncs (ed : Editor) :
    ed.Syncs { KeyEvent.none with backspace := true, ctrl := true } :=
  .erase rfl rfl (fun _ => by decide) (fun _ => by decide) (Or.inr rfl)

/-- Ctrl+Backspace at the start of the second of two rows. -/
theorem block_sync_join : ∃ a' bytes b',
    (Peer.sharing ⟨[['a'.toUInt8], ['b'.toUInt8]], ⟨1, 0⟩, ⟨0, 0⟩⟩ .zeros).act
        (.key { KeyEvent.none with backspace := true, ctrl := true }) = some (a', bytes) ∧
      (Peer.sharing ⟨[['a'.toUInt8], ['b'.toUInt8]], ⟨0, 0⟩, ⟨1, 0⟩⟩ .zeros).deliverAll
        (withStacks bytes fun _ _ => 0) = some b' ∧
      b'.app.editor.doc.text = a'.app.editor.doc.text := by
  have ha : (Peer.sharing ⟨[['a'.toUInt8], ['b'.toUInt8]], ⟨1, 0⟩, ⟨0, 0⟩⟩ .zeros).app.editor.Models
      False ⟨[['a'.toUInt8], ['b'.toUInt8]], ⟨1, 0⟩, ⟨0, 0⟩⟩ :=
    sharing_models (by decide) (by decide) Heap.zeros_ample
  have hb : (Peer.sharing ⟨[['a'.toUInt8], ['b'.toUInt8]], ⟨0, 0⟩, ⟨1, 0⟩⟩ .zeros).app.editor.Models
      False ⟨[['a'.toUInt8], ['b'.toUInt8]], ⟨0, 0⟩, ⟨1, 0⟩⟩ :=
    sharing_models (by decide) (by decide) Heap.zeros_ample
  obtain ⟨a', bytes, hact, hsync⟩ := block_sync
    ⟨ha.own, fun h => (nomatch h), fun _ h => (nomatch h)⟩ rfl rfl rfl
    ⟨hb.own.holds.shows, hb.own.ample⟩ sharing_idle (by decide) (ctrlBackspace_syncs _) fun _ _ => 0
  have hrows : a'.app.editor.doc.rowCount = 1 ∧ a'.app.editor.getLineLen 0 = some 2 := by
    have heval : ((Peer.sharing ⟨[['a'.toUInt8], ['b'.toUInt8]], ⟨1, 0⟩, ⟨0, 0⟩⟩ .zeros).act
        (.key { KeyEvent.none with backspace := true, ctrl := true })).map
          (fun r => (r.1.app.editor.doc.rowCount, r.1.app.editor.getLineLen 0)) =
        some (1, some 2) := by decide +kernel
    rw [hact] at heval
    simpa using heval
  obtain ⟨b', hdeliver, htext⟩ := hsync (by omega) (by
    intro k len _ hlen
    by_cases hk : k = 0
    · rw [hk] at hlen
      have := hrows.2.symm.trans hlen
      simp only [Option.some.injEq] at this
      omega
    · unfold Editor.getLineLen at hlen
      rw [if_pos (Or.inr (by omega))] at hlen
      simp only [Option.some.injEq] at hlen
      omega)
  exact ⟨a', bytes, b', hact, hdeliver, htext⟩

end BlockSync

end LCode
