import LCode.Editor.Verify.Edit

/-!
# Whole documents and blocks of rows

What a document holds after `editor_init`, while a file is loaded line by line,
and after the block edits of the peer. During a load the last row in use is a
fresh one; after a block edit the inserted rows are fresh until their lines
arrive.
-/

namespace LCode

namespace Doc

/-! ## Loading -/

/-- The rows loaded so far, and the fresh row behind them. Before the first
line that row is the empty one of `editor_init`. -/
def Loading {β : Type} (R : Line → β → Prop) (d : Doc) (t : List β) : Prop :=
  ∃ ls last dead heap, d = slots (ls ++ last :: dead) (ls.length + 1) heap ∧ dead ≠ [] ∧
    List.Forall₂ R ls t ∧ last.Shows True [] ∧ (t = [] → last.Holds True [])

section Loading

variable {β : Type} {R : Line → β → Prop} {d : Doc} {t : List β}

/-- `editor_load_line`: `e` is the byte that follows the text in memory. -/
theorem Loading.loadLine {text x : List UInt8} {e : UInt8} {y : β} {len : Int}
    (h : d.Loading R t) (ample : d.heap.Ample) (hlen : len = x.length)
    (htext : Block.slice text 0 (len + 1) = some (x ++ [e]))
    (hR : ∀ ln : Line, ln.Ends x e → R ln y) :
    ∃ d', d.loadLine text len = some (.ok, d') ∧ d'.Loading R (t ++ [y]) ∧ d'.heap.Ample ∧
      d'.line (d'.rowCount - 1) = some Line.zero := by
  obtain ⟨ls, last, dead, heap, rfl, hne, hf, hlast, -⟩ := h
  rw [slots_heap] at ample
  obtain ⟨ln, heap₁, he, ample₁, hln, hcap⟩ := hlast.ensureCap ample (n := len) (by omega)
  have hrow : (ls.length + 1 - 1 : Int) = ls.length := by omega
  obtain ⟨buf, hstore, hends⟩ := Line.Holds.write (u := []) (v := []) (k := 0) (n := len)
    (y := x) (t := e) hln rfl (by omega) (by omega)
  generalize hloaded : ({ ln with buf, len } : Line) = loaded at hends
  obtain ⟨dead', heap₂, hgrow, ample₂, hroom⟩ := slots_linesEnsureCap (l := ls ++ [loaded])
    (e := dead) (n := ls.length + 1) (by simp) ample₁ (ls.length + 1 + 1)
  have hdead : 2 ≤ dead'.length := by
    simp only [List.length_append, List.length_cons, List.length_nil] at hroom
    omega
  obtain ⟨next, dead', rfl⟩ := List.exists_cons_of_length_pos (show 0 < dead'.length by omega)
  refine ⟨slots (ls ++ [loaded] ++ Line.zero :: dead') (ls.length + 1 + 1) heap₂, ?_,
    ⟨ls ++ [loaded], Line.zero, dead', heap₂, by simp, ?_,
      List.rel_append hf (.cons (hR _ hends) .nil), Line.zero_shows, by simp⟩, ample₂,
    slots_line rfl (by simp)⟩
  · simp only [List.append_assoc, List.singleton_append] at hgrow
    have hset := slots_setLine (l := ls ++ loaded :: next :: dead') (a := ls ++ [loaded])
      (x := next) (z := dead') (n := ls.length + 1) (η := heap₂) (r := ls.length + 1)
      (by simp) (by simp) Line.zero
    simp only [Doc.loadLine, slots_rowCount, hrow, slots_lineEnsureCap rfl rfl he,
      slots_line rfl rfl, htext, hstore, hloaded, slots_setLine rfl rfl, hgrow, hset,
      Option.bind_eq_bind, Option.bind_some, Bool.not_true, Bool.false_eq_true, if_false,
      Option.pure_def]
    rfl
  · rintro rfl
    simp only [List.length_cons, List.length_nil] at hdead
    omega

/-- `editor_load_finalize` drops the fresh row, unless it is the only one. -/
theorem Loading.loadFinalize (h : d.Loading R t) (hne : t ≠ []) :
    ∃ d', d.loadFinalize = some d' ∧ d'.Rows R t ∧ d'.heap = d.heap := by
  obtain ⟨ls, last, dead, heap, rfl, -, hf, hlast, -⟩ := h
  have hpos : 0 < ls.length := by
    rw [hf.length_eq]
    exact List.length_pos_iff.2 hne
  have hrow : (ls.length + 1 - 1 : Int) = ls.length := by omega
  refine ⟨slots (ls ++ last :: dead) ls.length heap, ?_, ⟨ls, last :: dead, heap, rfl, by simp, hf⟩,
    rfl⟩
  have hlen : last.len = 0 := hlast.len_eq
  simp only [Doc.loadFinalize, slots_rowCount, hrow, slots_line rfl rfl, hlen, if_true,
    Option.bind_eq_bind, Option.bind_some, Option.pure_def]
  rw [if_pos (by omega)]
  rfl

/-- With no line loaded the document is the empty row it started from. -/
theorem Loading.loadFinalize_nil {T : Prop} (h : d.Loading R []) :
    d.loadFinalize = some d ∧ d.Holds T [[]] := by
  obtain ⟨ls, last, dead, heap, rfl, hne, hf, -, hlast⟩ := h
  obtain rfl := List.forall₂_nil_right_iff.1 hf
  exact ⟨by simp [Doc.loadFinalize], Rows.mk_slots (l := [last]) rfl hne
    (.cons ((hlast rfl).mono fun _ => trivial) .nil)⟩

end Loading

/-! ## Starting over -/

section Init

variable {β : Type} {R : Line → β → Prop} {T : Prop} {d : Doc} {t : List (List UInt8)}

/-- There is no line array, or the rows in use can all be freed. -/
def Freeable (d : Doc) : Prop := (∃ t, d.Shows False t) ∨ (d.lines = none ∧ d.rowCap = 0)

theorem Shows.freeable (h : d.Shows T t) : d.Freeable :=
  Or.inl ⟨t, h.imp fun _ _ hx => hx.imp (fun hh => hh.mono (nofun)) id⟩

/-- The rows in use can all be freed. -/
theorem Shows.freeLines (h : d.Shows T t) :
    ∃ ls, d.freeLines 0 d.rowCount.toNat = some (slots ls d.rowCount d.heap) := by
  obtain ⟨ls, dead, heap, rfl, -, hf⟩ := h
  obtain ⟨freed, -, hfree⟩ := slots_freeLines (l := ls ++ dead) (a := []) (m := ls) (z := dead)
    (n := ls.length) (η := heap) (r := 0) (k := ls.length) rfl rfl rfl
    (forall₂_ne_dangling (fun _ _ hx => hx.ne_dangling) hf)
  exact ⟨_, hfree⟩

/-- Without a line array, the calls of `editor_init` make one with an empty row. -/
theorem loading_init {heap : Heap} (ample : heap.Ample) :
    ∃ d₁ d₂ d₃, (⟨none, 0, 1, heap⟩ : Doc).linesEnsureCap 0 = some (true, d₁) ∧
      d₁.setLine 0 Line.zero = some d₂ ∧ d₂.lineEnsureCap 0 0 = some (true, d₃) ∧
      d₃.Loading R [] ∧ d₃.heap.Ample := by
  obtain ⟨junk, hjunk⟩ := Option.isSome_iff_exists.1 (ample 0)
  have hgrow : growCap 0 1 linesInitCap = 16 := by decide
  obtain ⟨ln, heap', hzero, ample', hln, -⟩ :=
    Line.ensureCap_zero ample.next (n := 0) (by omega)
  refine ⟨slots (List.replicate 16 Line.uninit) 1 heap.next, _, _, ?_, slots_setLine (a := []) rfl
    rfl _, slots_lineEnsureCap (a := []) rfl rfl hzero, ⟨[], ln, List.replicate 15 Line.uninit,
      heap', rfl, by simp, .nil, hln.shows, fun _ => hln⟩, ample'⟩
  simp [Doc.linesEnsureCap, hgrow, hjunk, slots]

end Init

/-! ## Blocks of the peer -/

section Blocks

variable {d : Doc}

/-- The rows below a block moved to where the block of `k` inserted rows ends;
`slots_moveUp` and `slots_moveDown` in one statement. -/
theorem slots_shift (la freed lz : List Line) {dead : List Line} {n : Int} {η : Heap} {k : Nat}
    (hroom : k < freed.length + dead.length) :
    ∃ gap dead', gap.length = k ∧ dead' ≠ [] ∧
      (slots (la ++ freed ++ lz ++ dead) n η).moveLines (la.length + k)
          (la.length + freed.length) lz.length =
        some (slots (la ++ gap ++ lz ++ dead') n η) := by
  by_cases hk : freed.length ≤ k
  · obtain ⟨y, hy, hmove⟩ := slots_moveUp (l := la ++ freed ++ lz ++ dead) (a := la ++ freed)
      (m := lz) (x := dead.take (k - freed.length)) (z := dead.drop (k - freed.length))
      (n := n) (η := η) (i := la.length + k) (j := la.length + freed.length)
      (k := lz.length) (by simp) (by simp) (by simp [List.length_take]; omega) rfl
    refine ⟨freed ++ y, dead.drop (k - freed.length), ?_, ?_, ?_⟩
    · rw [List.length_append, hy, List.length_take]
      omega
    · intro h
      have := List.length_drop (l := dead) (i := k - freed.length)
      rw [h, List.length_nil] at this
      omega
    · rw [hmove]
      simp
  · obtain ⟨w, hw, hmove⟩ := slots_moveDown (l := la ++ freed ++ lz ++ dead)
      (a := la ++ freed.take k) (g := freed.drop k) (m := lz) (z := dead) (n := n) (η := η)
      (i := la.length + k) (j := la.length + freed.length) (k := lz.length)
      (by simp) (by simp [List.length_take]; omega)
      (by simp [List.length_drop]; omega) rfl
    refine ⟨freed.take k, w ++ dead, ?_, ?_, ?_⟩
    · rw [List.length_take]
      omega
    · intro h
      have := congrArg List.length h
      rw [List.length_append, hw, List.length_drop, List.length_nil] at this
      omega
    · rw [hmove]
      simp

/-- `editor_remote_replace_block`, with room in the array: the rows `m` give way to
fresh rows. -/
theorem Rows.replaceBlock_grows {β : Type} {R : Line → β → Prop} {a m z new : List β}
    {startRow deleted inserted : Int} (h : d.Rows R (a ++ m ++ z))
    (hgrows : 0 < inserted - m.length → d.Grows (d.rowCount + (inserted - m.length)))
    (hlive : ∀ ln y, R ln y → ln.buf ≠ .dangling) (hfresh : ∀ y ∈ new, R Line.zero y)
    (hr : startRow = a.length) (hm : d.actualDeleted startRow deleted = m.length)
    (hk : inserted = new.length) :
    ∃ d', d.replaceBlock startRow deleted inserted = some (.ok, d') ∧
      d'.Rows R (a ++ new ++ z) ∧ (d.heap.Ample → d'.heap.Ample) := by
  obtain ⟨ls, dead, heap, rfl, hne, hf⟩ := h
  obtain ⟨lam, lz, rfl, ham, hz⟩ := forall₂_append.1 hf
  obtain ⟨la, lm, rfl, ha, hlm⟩ := forall₂_append.1 ham
  rw [slots_heap]
  have hrow : startRow = la.length := by rw [hr, ha.length_eq]
  have hactual : (m.length : Int) = lm.length := by rw [hlm.length_eq]
  obtain ⟨freed, hfreed, hfree⟩ := slots_freeLines (l := la ++ lm ++ lz ++ dead) (a := la)
    (m := lm) (z := lz ++ dead) (n := (la ++ lm ++ lz).length) (η := heap) (r := startRow)
    (k := m.length) (by simp) hrow (by omega) (forall₂_ne_dangling hlive hlm)
  generalize hn : ((la ++ lm ++ lz).length : Int) = n at hfree hm hgrows ⊢
  simp only [List.length_append] at hn
  generalize hlen : new.length = k at hk
  -- room for the inserted rows
  obtain ⟨dead', heap', hgrow, ample', hroom⟩ : ∃ dead' heap',
      (if 0 < inserted - m.length then
          (slots (la ++ freed ++ (lz ++ dead)) n heap).linesEnsureCap (n + (inserted - m.length))
        else some (true, slots (la ++ freed ++ (lz ++ dead)) n heap)) =
        some (true, slots (la ++ freed ++ lz ++ dead') n heap') ∧
      (heap.Ample → heap'.Ample) ∧ k < freed.length + dead'.length := by
    split
    · next hpos =>
      have hgrows' : (slots (la ++ freed ++ lz ++ dead) n heap).Grows
          (n + (inserted - m.length)) := by
        have hsize : (la ++ freed ++ lz ++ dead).length = (la ++ lm ++ lz ++ dead).length := by
          simp [hfreed]
        rw [slots_grows_iff, hsize]
        exact hgrows hpos
      obtain ⟨dead', heap', hgrow, ample', hlt⟩ := slots_linesEnsureCap_grows
        (by simp [← hn, hfreed]; omega) hgrows'
      refine ⟨dead', heap', by simpa using hgrow, ample', ?_⟩
      simp only [List.length_append] at hlt
      omega
    · have := List.length_pos_iff.2 hne
      exact ⟨dead, heap, by simp, id, by omega⟩
  obtain ⟨gap, dead'', hgap, hne'', hmove⟩ := slots_shift la freed lz
    (n := n) (η := heap') hroom
  -- no row below the block is moved by no bytes
  have hremaining : n - (startRow + m.length) = lz.length := by omega
  have hshift : (if 0 < (lz.length : Int) then
      (slots (la ++ freed ++ lz ++ dead') n heap').moveLines (startRow + inserted)
        (startRow + m.length) lz.length
      else some (slots (la ++ freed ++ lz ++ dead') n heap')) =
      some (slots (la ++ gap ++ lz ++ dead'') n heap') := by
    have hdst : startRow + inserted = la.length + k := by omega
    have hsrc : startRow + (m.length : Int) = la.length + freed.length := by omega
    rw [hdst, hsrc, ← hmove]
    split
    · rfl
    · have : (lz.length : Int) = 0 := by omega
      rw [this, slots_moveZero]
  have hzero := slots_zeroLines (l := la ++ gap ++ lz ++ dead'') (a := la) (m := gap)
    (z := lz ++ dead'') (n := n) (η := heap') (r := startRow) (k := k) (by simp) hrow
    hgap.symm
  refine ⟨slots (la ++ List.replicate k Line.zero ++ lz ++ dead'')
    (n + (inserted - m.length)) heap', ?_, Rows.mk_slots ?_ hne'' ?_, ample'⟩
  · simp only [Doc.replaceBlock, hm, Int.toNat_natCast, hfree, ite_bind, Option.bind_eq_bind]
    simp only [slots_rowCount, Option.bind_some, hgrow, hremaining, hshift, Bool.not_true,
      Bool.false_eq_true, if_false, Option.pure_def]
    simp only [hk, Int.toNat_natCast, hzero, Option.bind_some]
    simp [slots]
  · simp only [List.length_append, List.length_replicate]
    omega
  · refine List.rel_append (List.rel_append ha ?_) hz
    rw [List.forall₂_iff_get]
    simp only [List.length_replicate, List.get_eq_getElem, List.getElem_replicate]
    exact ⟨hlen.symm, fun i _ hi => hfresh _ (List.getElem_mem hi)⟩

/-- `editor_remote_replace_block`: the rows `m` give way to fresh rows. -/
theorem Rows.replaceBlock {β : Type} {R : Line → β → Prop} {a m z new : List β}
    {startRow deleted inserted : Int} (h : d.Rows R (a ++ m ++ z)) (ample : d.heap.Ample)
    (hlive : ∀ ln y, R ln y → ln.buf ≠ .dangling) (hfresh : ∀ y ∈ new, R Line.zero y)
    (hr : startRow = a.length) (hm : d.actualDeleted startRow deleted = m.length)
    (hk : inserted = new.length) :
    ∃ d', d.replaceBlock startRow deleted inserted = some (.ok, d') ∧
      d'.Rows R (a ++ new ++ z) ∧ d'.heap.Ample := by
  obtain ⟨d', hrep, hrows, ample'⟩ :=
    h.replaceBlock_grows (fun _ => grows_of_ample ample _) hlive hfresh hr hm hk
  exact ⟨d', hrep, hrows, ample' ample⟩

/-- `editor_remote_update_line`: the row gets the text, and a terminator. -/
theorem Rows.updateLine {β : Type} {R : Line → β → Prop} {a z : List β} {x x' : β}
    {y text : List UInt8} {row len : Int} (h : d.Rows R (a ++ x :: z)) (ample : d.heap.Ample)
    (hx : ∀ ln, R ln x → ∃ w, ln.Shows False w) (hx' : ∀ ln : Line, ln.Holds True y → R ln x')
    (hr : row = a.length) (hlen : len = y.length) (htext : Block.slice text 0 len = some y) :
    ∃ d', d.updateLine row text len = some (.ok, d') ∧ d'.Rows R (a ++ x' :: z) ∧
      d'.heap.Ample := by
  obtain ⟨la, ln, lz, dead, heap, rfl, hne, ha, hln, hz⟩ := h.around
  have hrow : row = la.length := by rw [hr, ha.length_eq]
  rw [slots_heap] at ample
  obtain ⟨w, hw⟩ := hx ln hln
  obtain ⟨ln', heap', he, ample', hw', hcap⟩ := hw.ensureCap ample (n := len) (by omega)
  obtain ⟨buf, buf', hstore, hend, hy⟩ := Line.Holds.writeSeg (S := True) (u := []) (v := w)
    (k := 0) (y := y) (n := len) hw' rfl (by omega) (by omega)
  refine ⟨_, ?_, Rows.of_around hne ha (hx' _ (by simpa using hy)) hz, ample'⟩
  simp only [Doc.updateLine, slots_lineEnsureCap rfl hrow he, slots_line rfl hrow, htext, hstore,
    hend, slots_setLine rfl hrow, Option.bind_eq_bind, Option.bind_some, Bool.not_true,
    Bool.false_eq_true, if_false, Option.pure_def]

end Blocks

end Doc

namespace Editor

/-- The state `editor_init` returns in, with the document `doc`. -/
def afterInit (ed : Editor) (doc : Doc) : Editor :=
  { ed with
    doc
    cursorRow := 0
    cursorCol := 0
    scrollRow := 0
    scrollCol := 0
    scrollDirty := false
    selActive := false
    selDirty := false
    remote := false
    clipboard := none }

/-- `editor_init` over a document whose rows can be freed, or over none. -/
theorem init_eq {β : Type} {R : Line → β → Prop} {ed : Editor} (h : ed.doc.Freeable)
    (ample : ed.doc.heap.Ample) :
    ∃ doc, ed.init = some (true, ed.afterInit doc) ∧ doc.Loading R [] ∧ doc.heap.Ample := by
  have hclean : ∃ n, ed.cleanup =
      some { ed with doc := ⟨none, 0, n, ed.doc.heap⟩, clipboard := none } := by
    rcases h with ⟨t, ht⟩ | ⟨hl, hc⟩
    · obtain ⟨ls, hfree⟩ := ht.freeLines
      obtain ⟨ls', dead, heap, hd, -⟩ := ht
      refine ⟨ed.doc.rowCount, ?_⟩
      simp only [cleanup, hfree, Option.bind_eq_bind, Option.bind_some]
      rw [hd]
      rfl
    · refine ⟨ed.doc.rowCount, ?_⟩
      simp only [cleanup, hl, ← hc, Option.bind_eq_bind, Option.bind_some, Option.pure_def]
      rw [← hl]
  obtain ⟨n, hclean⟩ := hclean
  obtain ⟨d₁, d₂, d₃, hgrow, hset, hcap, hload, ample'⟩ := Doc.loading_init (R := R) ample
  refine ⟨d₃, ?_, hload, ample'⟩
  simp only [Editor.init, hclean, hgrow, hset, hcap, afterInit, Option.bind_eq_bind,
    Option.bind_some, Bool.not_true, Bool.false_eq_true, if_false, Option.pure_def]

end Editor

end LCode
