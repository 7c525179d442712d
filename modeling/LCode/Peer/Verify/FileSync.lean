import LCode.Commands.Verify.Files
import LCode.Peer.Verify.Replication

/-!
# Full file sync

The packets of `execute_sync` rebuild the document of the sender at the receiver,
row by row, each row cut to 252 characters. The receiver copies one byte more than
the payload of a row, and the row is terminated only if that byte happens to be
zero on the stack of its handler.
-/

namespace LCode

open Serial Commands

/-! ## The receiver -/

section Receiver

variable {β : Type} {R : Line → β → Prop} {app : App} {t ys : List β} {n : Nat}
  {evs : List SerialEvent}

/-- The event of a row that is loaded as `y`. -/
def LineEvent (R : Line → β → Prop) (y : β) (se : SerialEvent) : Prop :=
  ∃ x e, se.Carries SerialCommand.fileLine.code x ∧
    Block.slice se.payloadBuf 0 (x.length + 1) = some (x ++ [e]) ∧
    ∀ ln : Line, ln.Ends x e → R ln y

/-- Lines are dropped once the file is complete. -/
theorem lines_ignored (h : app.fileNumLines = 0) (hevs : List.Forall₂ (LineEvent R) ys evs) :
    evs.foldlM dispatchSerial app = some app := by
  induction hevs with
  | nil => rfl
  | cons hse _ ih =>
    obtain ⟨x, e, hcarries, -⟩ := hse
    simp only [List.foldlM_cons, dispatchSerial_fileLine_idle h hcarries, Option.bind_eq_bind,
      Option.bind_some]
    exact ih

/-- Some rows of a file arrive. -/
theorem lines_arrive (h : Loading R app t n) (hsmall : n < 65536)
    (hevs : List.Forall₂ (LineEvent R) ys evs) :
    ∃ app', evs.foldlM dispatchSerial app = some app' ∧
      if t.length + ys.length < n then Loading R app' (t ++ ys) n ∧ (ys ≠ [] →
        app'.editor.doc.line (app'.editor.doc.rowCount - 1) = some Line.zero)
      else Loaded R app' ((t ++ ys).take n) := by
  have hopen := h.open'
  induction hevs generalizing app t with
  | nil =>
    refine ⟨app, rfl, ?_⟩
    rw [List.length_nil, if_pos (by omega), List.append_nil]
    exact ⟨h, fun hne => absurd rfl hne⟩
  | @cons y se ys evs hse hevs ih =>
    obtain ⟨x, e, hcarries, hend, hR⟩ := hse
    obtain ⟨app₁, hdisp, h₁⟩ := dispatchSerial_fileLine h hsmall hcarries hend hR
    simp only [List.length_cons, List.foldlM_cons, hdisp, Option.bind_eq_bind, Option.bind_some]
    split at h₁
    · next hlast =>
      -- it was the last row
      refine ⟨app₁, lines_ignored h₁.fileNumLines hevs, ?_⟩
      rw [if_neg (by omega), List.append_cons, List.take_left' (by simp [hlast])]
      exact h₁
    · obtain ⟨app', hrun, h'⟩ := ih h₁.1 h₁.1.open'
      refine ⟨app', hrun, ?_⟩
      rw [List.length_append, List.length_singleton] at h'
      rw [List.append_cons]
      split at h'
      · next hlt =>
        rw [if_pos (by omega)]
        refine ⟨h'.1, fun _ => ?_⟩
        by_cases hys : ys = []
        · subst hys
          cases hevs
          obtain rfl : app₁ = app' := Option.some.inj hrun
          exact h₁.2
        · exact h'.2 hys
      · next hge =>
        rw [if_neg (by omega)]
        exact h'

/-- The rows of the file arrive. -/
theorem rows_arrive (h : Loading R app t n) (hsmall : n < 65536)
    (hevs : List.Forall₂ (LineEvent R) ys evs) (hn : t.length + ys.length = n) :
    ∃ app', evs.foldlM dispatchSerial app = some app' ∧ Loaded R app' (t ++ ys) := by
  obtain ⟨app', hrun, h'⟩ := lines_arrive h hsmall hevs
  rw [if_neg (by omega), List.take_of_length_le (by simp; omega)] at h'
  exact ⟨app', hrun, h'⟩

/-- A whole file arrives. -/
theorem file_arrives (h : app.editor.doc.Freeable) (ample : app.editor.doc.heap.Ample)
    {name : List UInt8} {p : Pos} {se se' : SerialEvent}
    (hstart : (fileStartMessage name ys.length).Event se)
    (hevs : List.Forall₂ (LineEvent R) ys evs) (hmove : (moveMessage p).Event se')
    (hne : ys ≠ []) (hsmall : ys.length < 65536) :
    ∃ app', (se :: evs ++ [se']).foldlM dispatchSerial app = some app' ∧
      app'.editor.doc.Rows R ys := by
  obtain ⟨app₁, hdisp₁, h₁⟩ := dispatchSerial_fileStart (R := R) h ample
    (List.length_pos_iff.2 hne) hsmall hstart
  obtain ⟨app₂, hrun, h₂⟩ := rows_arrive h₁ hsmall hevs (by simp)
  obtain ⟨app₃, hdisp₃, hdoc, -⟩ := dispatchSerial_moveMessage app₂ hmove
  refine ⟨app₃, by simp [hdisp₁, hrun, hdisp₃], ?_⟩
  rw [hdoc]
  exact h₂.rows

/-- The event of a row, over what the stack held. -/
theorem lineEvent_frame {x : List UInt8} (hx : x.length < 256) (stack : Stack) {y : β}
    (hR : ∀ ln : Line, ln.Ends x (stack (Fin.ofNat 256 x.length)) → R ln y) :
    LineEvent R y (frameEvent SerialCommand.fileLine.code x stack) := by
  refine ⟨x, _, frameEvent_carries hx stack, ?_, hR⟩
  have hdrop : (List.ofFn stack).drop x.length =
      stack (Fin.ofNat 256 x.length) :: (List.ofFn stack).drop (x.length + 1) := by
    rw [List.drop_eq_getElem_cons (by rw [ofFn_stack_length]; exact hx), List.getElem_ofFn]
    congr 2
    exact Fin.ext (Nat.mod_eq_of_lt hx).symm
  refine Block.slice_prefix (z := (List.ofFn stack).drop (x.length + 1)) ?_ (by simp)
  simp only [frameEvent, hdrop, List.append_assoc, List.singleton_append]

end Receiver

/-! ## The sender -/

theorem fileLineMessage_length (x : List UInt8) : (fileLineMessage x).body.length < 256 := by
  simp only [fileLineMessage, List.length_take]
  omega

theorem fileMessages_length {name : List UInt8} {t : List (List UInt8)} {p : Pos} {m : Message}
    (hm : m ∈ fileMessages name t p) : m.body.length < 256 := by
  rcases List.mem_append.1 hm with hm | hm
  · rcases List.mem_cons.1 hm with rfl | hm
    · simp only [fileStartMessage, List.length_cons, List.length_take]
      omega
    · obtain ⟨x, -, rfl⟩ := List.mem_map.1 hm
      exact fileLineMessage_length x
  · rw [List.mem_singleton.1 hm]
    simp [moveMessage, position]

section Sync

variable {a : App} {b : Peer} {t : List (List UInt8)} {p : Pos}

theorem executeSync_sent {T : Prop} (ha : a.editor.At T t p) :
    executeSync a.flush = some (Commands.tell a.flush (fileMessages a.bar.filename t p)) ∧
      (Commands.tell a.flush (fileMessages a.bar.filename t p)).sent =
        stream (fileMessages a.bar.filename t p) :=
  ⟨executeSync_eq (a := a.flush) ha, by simp [Commands.tell, App.flush]⟩

/-- Full file sync: the receiver gets every row, up to 252 characters of it. -/
theorem file_sync_rows (ha : a.editor.At False t p) (hrows : t.length < 65536)
    (hb : b.app.editor.doc.Freeable) (ample : b.app.editor.doc.heap.Ample) (idle : Idle b.dec)
    (stackAt : Nat → Stack) :
    ∃ a' b', executeSync a.flush = some a' ∧
      b.deliverAll (withStacks a'.sent stackAt) = some b' ∧
      b'.app.editor.doc.text = some (t.map (List.take 252)) := by
  obtain ⟨hsync, hsent⟩ := executeSync_sent ha
  obtain ⟨dec, evs, hrun, -, hevs⟩ := run_messages_frames idle (fun _ => fileMessages_length)
    ((withStacks_fst _ stackAt).trans hsent)
  obtain ⟨evs₁, evs₂, rfl, hfile, hlast⟩ := Doc.forall₂_append.1 hevs.flip
  obtain ⟨se, es, ⟨stack, hse⟩, hlines, rfl⟩ := List.forall₂_cons_right_iff.1 hfile
  obtain ⟨se', _, ⟨stack', hse'⟩, hnil, rfl⟩ := List.forall₂_cons_right_iff.1 hlast
  cases hnil
  have hlen : ∀ m ∈ fileMessages a.bar.filename t p, m.body.length < 256 :=
    fun _ => fileMessages_length
  have hstart : (fileStartMessage a.bar.filename (t.map (List.take 252)).length).Event se := by
    rw [List.length_map, hse]
    exact frameEvent_carries (hlen _ (by simp [fileMessages])) stack
  have hmove : (moveMessage p).Event se' := by
    rw [hse']
    exact frameEvent_carries (hlen _ (by simp [fileMessages])) stack'
  have hlines' : List.Forall₂ (LineEvent (Line.Holds False)) (t.map (List.take 252)) es := by
    have hlines := List.forall₂_map_left_iff.1 hlines.flip
    refine List.forall₂_map_left_iff.2 (hlines.imp fun x se hx => ?_)
    obtain ⟨stack, rfl⟩ := hx
    exact lineEvent_frame (fileLineMessage_length x) stack fun ln hln => hln.holds nofun
  have hne : t.map (List.take 252) ≠ [] := by
    intro hnil
    have := congrArg List.length hnil
    have hpos := ha.valid.1
    rw [List.length_map, List.length_nil] at this
    omega
  obtain ⟨app', hrecv, hrows⟩ := file_arrives hb ample hstart hlines' hmove hne (by simpa using hrows)
  refine ⟨_, ⟨app', dec⟩, hsync, ?_, hrows.shows.text_eq⟩
  rw [deliverAll_eq hrun, hrecv]
  rfl

/-- Full file sync: the receiver gets the rows of the sender, each cut to 252
characters. -/
theorem file_sync_cut (ha : a.editor.At False t p) (hrows : a.editor.doc.rowCount < 65536)
    (hb : b.app.editor.doc.Freeable) (ample : b.app.editor.doc.heap.Ample) (idle : Idle b.dec)
    (stackAt : Nat → Stack) :
    ∃ a' b', executeSync a.flush = some a' ∧
      b.deliverAll (withStacks a'.sent stackAt) = some b' ∧
      b'.app.editor.doc.text = a.editor.doc.text.map (List.map (List.take 252)) := by
  have hcount := ha.rowCount_eq
  obtain ⟨a', b', hsync, hdeliver, htext⟩ :=
    file_sync_rows ha (by omega) hb ample idle stackAt
  exact ⟨a', b', hsync, hdeliver, by rw [htext, ha.holds.shows.text_eq]; rfl⟩

/-- A file with an empty last row. -/
theorem file_sync_cut_empty_row : ∃ a' b',
    executeSync (Peer.sharing ⟨[['a'.toUInt8], []], ⟨0, 1⟩, ⟨1, 0⟩⟩ .zeros).app.flush = some a' ∧
      (Peer.sharing ⟨[[]], ⟨0, 0⟩, ⟨0, 0⟩⟩ .zeros).deliverAll
        (withStacks a'.sent fun _ _ => 255) = some b' ∧
      b'.app.editor.doc.text = some [['a'.toUInt8], []] := by
  have ha := (sharing_models (r := ⟨[['a'.toUInt8], []], ⟨0, 1⟩, ⟨1, 0⟩⟩) (by decide) (by decide)
    Heap.zeros_ample).own
  have hb := (sharing_models (r := ⟨[[]], ⟨0, 0⟩, ⟨0, 0⟩⟩) (by decide) (by decide)
    Heap.zeros_ample).own
  obtain ⟨a', b', hsync, hdeliver, htext⟩ := file_sync_cut ha (by decide)
    hb.holds.shows.freeable hb.ample sharing_idle fun _ _ => 255
  refine ⟨a', b', hsync, hdeliver, ?_⟩
  rw [htext, ha.holds.shows.text_eq]
  rfl

theorem file_sync_longer {x : List UInt8} (hx : 252 < x.length) : ∃ a' b',
    executeSync (Peer.sharing ⟨[x], ⟨0, 0⟩, ⟨0, 0⟩⟩ .zeros).app.flush = some a' ∧
      (Peer.sharing ⟨[[]], ⟨0, 0⟩, ⟨0, 0⟩⟩ .zeros).deliverAll
        (withStacks a'.sent fun _ _ => 0) = some b' ∧
      b'.app.editor.doc.text ≠
        (Peer.sharing ⟨[x], ⟨0, 0⟩, ⟨0, 0⟩⟩ .zeros).app.editor.doc.text := by
  have hvalid : Text.Valid [x] ⟨0, 0⟩ := ⟨Nat.zero_lt_one, Nat.zero_le _⟩
  have ha := (sharing_models (r := ⟨[x], ⟨0, 0⟩, ⟨0, 0⟩⟩) hvalid hvalid Heap.zeros_ample).own
  have hb := (sharing_models (r := ⟨[[]], ⟨0, 0⟩, ⟨0, 0⟩⟩) (by decide) (by decide)
    Heap.zeros_ample).own
  obtain ⟨a', b', hsync, hdeliver, htext⟩ := file_sync_rows ha (by simp)
    hb.holds.shows.freeable hb.ample sharing_idle fun _ _ => 0
  refine ⟨a', b', hsync, hdeliver, ?_⟩
  rw [htext, ha.holds.shows.text_eq]
  intro heq
  have hcut : x.take 252 = x := by simpa using heq
  have := congrArg List.length hcut
  rw [List.length_take] at this
  omega

/-- A row of 253 characters loses the last one. -/
theorem file_sync_long_row : ∃ a' b',
    executeSync (Peer.sharing ⟨[List.replicate 253 'a'.toUInt8], ⟨0, 0⟩, ⟨0, 0⟩⟩
        .zeros).app.flush = some a' ∧
      (Peer.sharing ⟨[[]], ⟨0, 0⟩, ⟨0, 0⟩⟩ .zeros).deliverAll
        (withStacks a'.sent fun _ _ => 0) = some b' ∧
      b'.app.editor.doc.text ≠
        (Peer.sharing ⟨[List.replicate 253 'a'.toUInt8], ⟨0, 0⟩, ⟨0, 0⟩⟩
          .zeros).app.editor.doc.text :=
  file_sync_longer (by rw [List.length_replicate]; decide)

/-! ## Saving the replica -/

theorem holding_at {t : List (List UInt8)} (h : t ≠ []) : (holding t).editor.At True t ⟨0, 0⟩ :=
  ⟨holding_holds t, Heap.zeros_ample, rfl, rfl, List.length_pos_iff.2 h, Nat.zero_le _⟩

/-- The byte of the stack right behind the payload of the packet. -/
def behind (m : Message × Stack) : UInt8 := m.2 (Fin.ofNat 256 m.1.body.length)

/-- What the receiver loads from the packets of a file. -/
theorem replica_rows (ha : a.editor.At False t p) (hrows : t.length < 65536)
    (hshort : ∀ x ∈ t, x.length ≤ 252) (hb : b.app.editor.doc.Freeable)
    (ample : b.app.editor.doc.heap.Ample) (idle : Idle b.dec) {on : List (Message × Stack)}
    (hon : on.map Prod.fst = fileMessages a.bar.filename t p) :
    ∃ b' ys, b.deliverAll (handled on) = some b' ∧
      b'.app.editor.doc.Rows (fun ln (y : List UInt8 × UInt8) => ln.Ends y.1 y.2) ys ∧
      ys.map Prod.fst = t ∧
      ((∀ y ∈ ys, y.2 = 0) ↔ ∀ m ∈ on, m.1.cmd = .fileLine → behind m = 0) := by
  obtain ⟨on₁, on₂, rfl, hfile, hlast⟩ := List.map_eq_append_iff.1 hon
  obtain ⟨⟨m, stack⟩, lines, rfl, rfl, hlines⟩ := List.map_eq_cons_iff.1 hfile
  obtain ⟨⟨m', stack'⟩, _, rfl, rfl, hnil⟩ := List.map_eq_cons_iff.1 hlast
  obtain rfl := List.map_eq_nil_iff.1 hnil
  have hlen : ∀ m ∈ (fileStartMessage a.bar.filename t.length, stack) :: lines ++
      [(moveMessage p, stack')], m.1.body.length < 256 := by
    intro m hm
    have := List.mem_map_of_mem (f := Prod.fst) hm
    rw [hon] at this
    exact fileMessages_length this
  obtain ⟨dec, hrun, -⟩ := run_handled idle hlen
  let ys := lines.map fun m => (m.1.body, behind m)
  have hfst : ys.map Prod.fst = t := by
    have hbody : ys.map Prod.fst = (lines.map Prod.fst).map Message.body := by
      simp only [ys, List.map_map]
      rfl
    rw [hbody, hlines, List.map_map]
    conv_rhs => rw [← List.map_id t]
    exact List.map_congr_left fun x hx => List.take_of_length_le (hshort x hx)
  have hcmd : ∀ m ∈ lines, m.1.cmd = .fileLine := by
    intro m hm
    have := List.mem_map_of_mem (f := Prod.fst) hm
    rw [hlines] at this
    obtain ⟨x, -, hx⟩ := List.mem_map.1 this
    rw [← hx]
    rfl
  have hevs : List.Forall₂ (LineEvent fun ln (y : List UInt8 × UInt8) => ln.Ends y.1 y.2) ys
      (lines.map fun m => frameEvent m.1.cmd.code m.1.body m.2) := by
    refine List.forall₂_map_left_iff.2 (List.forall₂_map_right_iff.2 (List.forall₂_same.2 ?_))
    intro m hm
    rw [hcmd m hm]
    exact lineEvent_frame (hlen m (by simp [hm])) m.2 fun ln hln => hln
  have hcount : ys.length = t.length := by
    have := congrArg List.length hfst
    rwa [List.length_map] at this
  have hstart : (fileStartMessage a.bar.filename ys.length).Event
      (frameEvent SerialCommand.fileStart.code (fileStartMessage a.bar.filename t.length).body
        stack) := by
    rw [hcount]
    exact frameEvent_carries (hlen (fileStartMessage a.bar.filename t.length, stack) (by simp)) stack
  have hmove : (moveMessage p).Event
      (frameEvent SerialCommand.moveCursor.code (moveMessage p).body stack') :=
    frameEvent_carries (hlen (moveMessage p, stack') (by simp)) stack'
  have hne : ys ≠ [] := by
    intro hnil
    have hpos := ha.valid.1
    rw [hnil, List.length_nil] at hcount
    omega
  obtain ⟨app', hrecv, hheld⟩ := file_arrives hb ample hstart hevs hmove hne (by omega)
  refine ⟨⟨app', dec⟩, ys, ?_, hheld, hfst, ?_⟩
  · rw [deliverAll_eq hrun]
    simp only [List.map_append, List.map_cons, List.map_nil]
    exact congrArg (Option.map _) hrecv
  · constructor
    · intro hzero m hm hcmd'
      rcases List.mem_append.1 hm with hm | hm
      · rcases List.mem_cons.1 hm with rfl | hm
        · cases hcmd'
        · exact hzero _ (List.mem_map_of_mem hm)
      · rw [List.mem_singleton.1 hm] at hcmd'
        cases hcmd'
    · intro hzero y hy
      obtain ⟨m, hm, rfl⟩ := List.mem_map.1 hy
      exact hzero m (by simp [hm]) (hcmd m hm)

/-- The receiver of a file saves what the sender saves exactly if the stack held a
zero behind every row. -/
theorem save_synced_iff (ha : a.editor.At True t p) (h0 : Text.All (· ≠ 0) t)
    (hrows : a.editor.doc.rowCount < 65536) (hshort : ∀ x ∈ t, x.length ≤ 252)
    (hb : b.app.editor.doc.Freeable) (ample : b.app.editor.doc.heap.Ample) (idle : Idle b.dec) :
    ∃ a', executeSync a.flush = some a' ∧
      a'.sent = stream (fileMessages a.bar.filename t p) ∧
      ∀ on : List (Message × Stack), on.map Prod.fst = fileMessages a.bar.filename t p →
        ∃ b', b.deliverAll (handled on) = some b' ∧
          ∀ name, name ≠ [] → a.files.writable name = true → b'.app.files.writable name = true →
            ∃ saved, executeSave a name = some saved ∧
              ((∃ copied, executeSave b'.app name = some copied ∧
                  copied.files.read name = saved.files.read name) ↔
                ∀ m ∈ on, m.1.cmd = .fileLine → behind m = 0) := by
  have ha' : a.editor.At False t p := ⟨ha.holds.imp fun _ _ h => h.mono nofun, ha.ample, ha.row,
    ha.col, ha.valid⟩
  have hcount := ha.rowCount_eq
  obtain ⟨hsync, hsent⟩ := executeSync_sent ha
  refine ⟨_, hsync, hsent, fun on hon => ?_⟩
  obtain ⟨b', ys, hdeliver, hheld, hfst, hzero⟩ :=
    replica_rows ha' (by omega) hshort hb ample idle hon
  refine ⟨b', hdeliver, fun name hname hw hw' => ⟨_, executeSave_eq ha.holds h0 hname hw, ?_⟩⟩
  have hsave := saveRows_iff (a := []) hheld (hfst ▸ h0) (rfl : (0 : Int) = _)
  rw [hfst] at hsave
  rw [← hzero, ← hsave]
  have hrow := hheld.rowCount_eq
  have hread (app : App) (contents : List UInt8) :
      (({ app with files := app.files.write name contents }.setFile name).files.read name) =
        some contents := by
    simp [App.setFile, Files.write]
  simp only [executeSave, hname, if_false, hw', Bool.not_true, Bool.false_eq_true, hrow,
    Int.toNat_natCast, hread]
  cases saveRows b'.app.editor 0 ys.length with
  | none => simp
  | some contents => simp [hread]

/-- On a stack of zeros the copy of one row is saved as the row. -/
theorem save_synced_iff_zeros : ∃ b saved copied,
    Peer.deliverAll ⟨holding [[]], .start⟩
        (handled ((fileMessages (ascii "untitled") [['a'.toUInt8]] ⟨0, 0⟩).map
          fun m => (m, fun _ => 0))) = some b ∧
      executeSave (holding [['a'.toUInt8]]) (ascii "f") = some saved ∧
      executeSave b.app (ascii "f") = some copied ∧
      copied.files.read (ascii "f") = saved.files.read (ascii "f") := by
  have ha : (holding [['a'.toUInt8]]).editor.At True [['a'.toUInt8]] ⟨0, 0⟩ :=
    holding_at (by simp)
  have hb : (holding [[]]).editor.At True [[]] ⟨0, 0⟩ := holding_at (by simp)
  obtain ⟨-, -, -, hrecv⟩ := save_synced_iff (b := ⟨holding [[]], .start⟩) ha (by decide)
    (by decide) (by decide) hb.holds.shows.freeable hb.ample ⟨rfl, List.length_replicate⟩
  obtain ⟨b, hdeliver, hsave⟩ := hrecv ((fileMessages (ascii "untitled") [['a'.toUInt8]]
    ⟨0, 0⟩).map fun m => (m, fun _ => 0)) (by rw [List.map_map]; exact List.map_id _)
  have hw : b.app.files.writable (ascii "f") = true := by
    have heval : ((Peer.deliverAll ⟨holding [[]], .start⟩ (handled ((fileMessages
        (ascii "untitled") [['a'.toUInt8]] ⟨0, 0⟩).map fun m => (m, fun _ => 0)))).map
          fun b => b.app.files.writable (ascii "f")) = some true := by
      decide +kernel
    rw [hdeliver] at heval
    exact Option.some.inj heval
  obtain ⟨saved, hsaved, hiff⟩ := hsave (ascii "f") (by decide) rfl hw
  obtain ⟨copied, hcopied, hsame⟩ := hiff.2 (by
    intro m hm _
    obtain ⟨m, -, rfl⟩ := List.mem_map.1 hm
    rfl)
  exact ⟨b, saved, copied, hdeliver, hsaved, hcopied, hsame⟩

/-- A byte of the stack is saved behind the row. -/
theorem save_synced_garbage : ∃ a b saved copied,
    executeSync (holding [['a'.toUInt8]]).flush = some a ∧
      Peer.deliverAll ⟨holding [[]], .start⟩ (withStacks a.sent fun _ _ => 255) = some b ∧
      executeSave (holding [['a'.toUInt8]]) (ascii "f") = some saved ∧
      executeSave b.app (ascii "f") = some copied ∧
      saved.files.read (ascii "f") = some ['a'.toUInt8, newline] ∧
      copied.files.read (ascii "f") = some ['a'.toUInt8, 255, newline] := by
  have hsaved : ((executeSave (holding [['a'.toUInt8]]) (ascii "f")).map
      fun a => a.files.read (ascii "f")) = some (some ['a'.toUInt8, newline]) := by
    decide +kernel
  have hcopied : ((executeSync (holding [['a'.toUInt8]]).flush).bind fun a =>
      (Peer.deliverAll ⟨holding [[]], .start⟩ (withStacks a.sent fun _ _ => 255)).bind fun b =>
        (executeSave b.app (ascii "f")).map fun a => a.files.read (ascii "f")) =
      some (some ['a'.toUInt8, 255, newline]) := by
    decide +kernel
  obtain ⟨saved, hsaved, hread⟩ := Option.map_eq_some_iff.1 hsaved
  obtain ⟨a, hsync, hcopied⟩ := Option.bind_eq_some_iff.1 hcopied
  obtain ⟨b, hdeliver, hcopied⟩ := Option.bind_eq_some_iff.1 hcopied
  obtain ⟨copied, hcopied, hread'⟩ := Option.map_eq_some_iff.1 hcopied
  exact ⟨a, b, saved, copied, hsync, hdeliver, hsaved, hcopied, hread, hread'⟩

end Sync

end LCode
