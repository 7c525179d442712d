import LCode.Editor.Verify.Atomic
import LCode.View.PointerCache
import LCode.View.Verify.HighlightCache

/-!
# Ownership in the highlight cache

Every row owns the array it points to: no array is in two rows, and none that a row
points to has been freed. While the rows are moved one pointer stands twice for a
moment; what is freed then is another one. With the pointers erased the cache is the
one whose rows are the arrays themselves.
-/

namespace LCode

namespace PointerCache

/-- The row that a pointer makes. -/
def rowOf (a : Arena (List UInt32)) (q : Option Nat) : RowColors := (a.look q).elim .null .block

/-- The cache without its pointers. -/
def erase (b : PointerCache) : HighlightCache where
  currentLang := b.currentLang
  blockCommentOpen := b.blockCommentOpen
  lineColors := b.lineColors.map (rowOf b.arrays)
  lastRowCount := b.lastRowCount
  heap := b.heap

/-- The rows own their arrays, and the capacities are the sizes of these. -/
structure Owned (b : PointerCache) : Prop where
  owns : b.arrays.Owns b.lineColors
  caps : b.lineColorsCap = b.lineColors.map fun q => (rowOf b.arrays q).cap

/-- The cache with other arrays, and rows that point to them. -/
def withRows (b : PointerCache) (a : Arena (List UInt32)) (rows : List (Option Nat)) :
    PointerCache :=
  { b with
    arrays := a
    lineColors := rows
    lineColorsCap := rows.map fun q => (rowOf a q).cap }

section Rows

variable {b : PointerCache} {a a' : Arena (List UInt32)} {rows rows' : List (Option Nat)}

theorem rowOf_congr {q : Option Nat} (h : a'.look q = a.look q) : rowOf a' q = rowOf a q := by
  rw [rowOf, h, rowOf]

theorem Owned.withRows_self (h : b.Owned) : b.withRows b.arrays b.lineColors = b := by
  rw [withRows, ← h.caps]

theorem owned_withRows (h : a.Owns rows) : (b.withRows a rows).Owned := ⟨h, rfl⟩

theorem erase_withRows :
    (b.withRows a rows).erase = { b.erase with lineColors := rows.map (rowOf a) } := rfl

theorem static_owned (heap : Heap) : (static heap).Owned := ⟨.nil _, rfl⟩

/-- Rows of which one is set, and what is seen of the others through `f` and `g`. -/
theorem map_set_congr {α β : Type*} {f g : α → β} {l : List α} {r : Nat} {x : α}
    (h : ∀ k x', k ≠ r → l[k]? = some x' → g x' = f x') :
    (l.set r x).map g = (l.map f).set r (g x) := by
  refine List.ext_getElem? fun k => ?_
  rw [List.getElem?_map, List.getElem?_set, List.getElem?_set, List.length_map, List.getElem?_map]
  split
  · split <;> rfl
  · next hne =>
    cases hk : l[k]? with
    | none => rfl
    | some x' => exact congrArg some (h k x' (Ne.symm hne) hk)

/-- `setRow` of NULL. -/
theorem setRow_none {r : Nat} (h : r < rows.length) :
    (b.withRows a rows).setRow r none 0 = .ok (b.withRows a (rows.set r none)) ∧
      (b.withRows a rows).erase.setRow r .null = some (b.withRows a (rows.set r none)).erase := by
  have hcaps : (b.withRows a rows).lineColorsCap.set r 0 =
      (rows.set r none).map fun q => (rowOf a q).cap :=
    (map_set_congr (l := rows) (x := none) (g := fun q => (rowOf a q).cap) fun _ _ _ _ => rfl).symm
  constructor
  · have hstore : Block.store (b.withRows a rows).lineColors r [none] = some (rows.set r none) :=
      Block.store_set h none
    have hstore' : Block.store (b.withRows a rows).lineColorsCap r [0] =
        some ((rows.set r none).map fun q => (rowOf a q).cap) := by
      rw [Block.store_set (by simpa [withRows] using h), hcaps]
    rw [setRow, hstore, hstore']
    rfl
  · rw [erase_withRows, HighlightCache.setRow]
    dsimp only
    rw [Block.store_set (by simpa using h), erase_withRows, map_set_congr fun _ _ _ _ => rfl]
    rfl

/-- `memmove` in the rows. -/
theorem moveRows_withRows {dst src n : Int} (h : Block.move rows dst src n = some rows') :
    (b.withRows a rows).moveRows dst src n = .ok (b.withRows a rows') ∧
      (b.withRows a rows).erase.moveRows dst src n = some (b.withRows a rows').erase := by
  constructor
  · have hcaps : Block.move (b.withRows a rows).lineColorsCap dst src n =
        some (b.withRows a rows').lineColorsCap := by
      rw [withRows, Block.move_map, h]
      rfl
    have hmove : Block.move (b.withRows a rows).lineColors dst src n = some rows' := h
    rw [moveRows, hmove, hcaps]
    rfl
  · rw [erase_withRows, HighlightCache.moveRows]
    dsimp only
    rw [Block.move_map, h]
    rfl

/-- `highlight_cache_free_row`, where the other rows hold on to their arrays. -/
theorem freeRow_withRows {r : Nat} {q : Option Nat} (hr : rows[r]? = some q)
    (hfree : a.free q = some a')
    (hlook : ∀ (k : Nat) q', k ≠ r → rows[k]? = some q' → a'.look q' = a.look q') :
    (b.withRows a rows).freeRow r = .ok (b.withRows a' (rows.set r none)) ∧
      (b.withRows a rows).erase.freeRow r = some (b.withRows a' (rows.set r none)).erase := by
  obtain ⟨hlt, -⟩ := List.getElem?_eq_some_iff.1 hr
  have hrows : ∀ (k : Nat) q', k ≠ r → rows[k]? = some q' → rowOf a' q' = rowOf a q' :=
    fun k q' hne hk => rowOf_congr (hlook k q' hne hk)
  constructor
  · have hpointer : (b.withRows a rows).pointer r = .ok q := by
      have hread : Block.read (b.withRows a rows).lineColors r = some q := by
        rw [Block.read_natCast]
        exact hr
      rw [pointer, hread]
      rfl
    have harrays : (b.withRows a rows).free q = .ok { b.withRows a rows with arrays := a' } := by
      have : (b.withRows a rows).arrays.free q = some a' := hfree
      rw [free, this]
      rfl
    have hcaps : Block.store (b.withRows a rows).lineColorsCap r [0] =
        some ((rows.set r none).map fun q => (rowOf a' q).cap) := by
      rw [Block.store_set (by simpa [withRows] using hlt),
        map_set_congr (f := fun q => (rowOf a q).cap)
          fun k q' hne hk => congrArg RowColors.cap (hrows k q' hne hk)]
      rfl
    have hstore : Block.store (b.withRows a rows).lineColors r [none] = some (rows.set r none) :=
      Block.store_set hlt none
    have hin : ¬ ((r : Int) < 0 ∨ ((b.withRows a rows).lineColors.length : Int) ≤ r) := by
      show ¬ ((r : Int) < 0 ∨ (rows.length : Int) ≤ r)
      omega
    rw [freeRow, if_neg hin, hpointer]
    show ((b.withRows a rows).free q).bind _ = _
    rw [harrays]
    show setRow _ _ _ _ = _
    rw [setRow]
    dsimp only
    rw [hstore, hcaps]
    rfl
  · have hin : ¬ ((r : Int) < 0 ∨ ((b.withRows a rows).erase.lineColors.length : Int) ≤ r) := by
      rw [erase_withRows]
      simp only [List.length_map]
      omega
    rw [HighlightCache.freeRow, if_neg hin, erase_withRows, HighlightCache.setRow]
    dsimp only
    rw [Block.store_set (by simpa using hlt), erase_withRows,
      map_set_congr (f := rowOf a) fun k q' hne hk => hrows k q' hne hk]
    rfl

/-- Beyond the rows nothing is freed. -/
theorem freeRow_out (b : PointerCache) {r : Int} (h : r < 0 ∨ (b.lineColors.length : Int) ≤ r) :
    b.freeRow r = .ok b ∧ b.erase.freeRow r = some b.erase := by
  refine ⟨by rw [freeRow, if_pos h], ?_⟩
  rw [HighlightCache.freeRow, if_pos]
  simpa [erase] using h

/-- `highlight_cache_free_row`. -/
theorem freeRow_owned (h : a.Owns rows) (b : PointerCache) (r : Nat) :
    ∃ a', (b.withRows a rows).freeRow r = .ok (b.withRows a' (rows.set r none)) ∧
      (b.withRows a rows).erase.freeRow r = some (b.withRows a' (rows.set r none)).erase ∧
      a'.Owns (rows.set r none) ∧
      ∀ (k : Nat) q', k ≠ r → rows[k]? = some q' → a'.look q' = a.look q' := by
  by_cases hr : r < rows.length
  · obtain ⟨a', hfree, howns, hlook⟩ := h.free (List.getElem?_eq_getElem hr)
    obtain ⟨hrun, herase⟩ := freeRow_withRows (b := b) (List.getElem?_eq_getElem hr) hfree hlook
    exact ⟨a', hrun, herase, howns, hlook⟩
  · have hout := (b.withRows a rows).freeRow_out (r := r) (Or.inr (by
      show (rows.length : Int) ≤ r
      omega))
    rw [List.set_eq_of_length_le (Nat.not_lt.1 hr)]
    exact ⟨a, hout.1, hout.2, h, fun _ _ _ _ => rfl⟩

/-- `line_colors_cache_grow`. -/
theorem Owned.growRows (h : b.Owned) (needed : Int) :
    ∃ ok heap rows', b.growRows needed = (ok, { b with heap := heap }.withRows b.arrays rows') ∧
      b.erase.growRows needed = (ok, ({ b with heap := heap }.withRows b.arrays rows').erase) ∧
      b.arrays.Owns rows' ∧ (ok = true → needed ≤ rows'.length) ∧
      (∀ k : Nat, rows'[k]?.join = b.lineColors[k]?.join) ∧
      (b.heap.Ample → ok = true ∧ heap.Ample) := by
  have hlen : b.erase.lineColors.length = b.lineColors.length := List.length_map _
  have hheap : b.erase.heap = b.heap := rfl
  unfold PointerCache.growRows HighlightCache.growRows
  rw [hlen, hheap]
  split
  · next hfits =>
    refine ⟨true, b.heap, b.lineColors, ?_, ?_, h.owns, fun _ => hfits, fun _ => rfl,
      fun ample => ⟨rfl, ample⟩⟩
    · exact congrArg (Prod.mk true) h.withRows_self.symm
    · exact congrArg (fun b : PointerCache => (true, b.erase)) h.withRows_self.symm
  · cases hfirst : b.heap.outcome 0 with
    | none =>
      refine ⟨false, b.heap.next, b.lineColors, ?_, rfl, h.owns, nofun, fun _ => rfl,
        fun ample => absurd (ample 0) (by rw [hfirst]; nofun)⟩
      rw [withRows, ← h.caps]
    | some _ =>
      dsimp only
      cases hsecond : b.heap.next.outcome 0 with
      | none =>
        refine ⟨false, b.heap.next.next, b.lineColors, ?_, rfl, h.owns, nofun, fun _ => rfl,
          fun ample => absurd (ample.next 0) (by rw [hsecond]; nofun)⟩
        rw [withRows, ← h.caps]
      | some _ =>
        refine ⟨true, b.heap.next.next, b.lineColors ++ List.replicate
          ((cacheCap b.lineColors.length needed).toNat - b.lineColors.length) none, ?_, ?_,
          h.owns.grow _, fun _ => ?_, fun k => ?_, fun ample => ⟨rfl, ample.next.next⟩⟩
        · rw [withRows, List.map_append, List.map_replicate, ← h.caps]
          rfl
        · rw [erase_withRows, List.map_append, List.map_replicate]
          rfl
        · have hcap := cacheCap_enough b.lineColors.length needed
          rw [List.length_append, List.length_replicate]
          omega
        · rw [List.getElem?_append]
          split
          · rfl
          · next hout =>
            rw [List.getElem?_replicate, List.getElem?_eq_none (Nat.not_lt.1 hout)]
            split <;> rfl

/-- `line_colors_cache_invalidate_all` frees every row once. -/
theorem freeRows_owned (h : a.Owns rows) (b : PointerCache) :
    ∃ a', (List.range rows.length).foldlM (fun (b : PointerCache) (row : Nat) => b.freeRow row)
        (b.withRows a rows) = .ok (b.withRows a' (List.replicate rows.length none)) ∧
      a'.Owns (List.replicate rows.length none) := by
  have hround : ∀ n ≤ rows.length, ∃ a', (List.range n).foldlM
      (fun (b : PointerCache) (row : Nat) => b.freeRow row) (b.withRows a rows) =
        .ok (b.withRows a' (List.replicate n none ++ rows.drop n)) ∧
      a'.Owns (List.replicate n none ++ rows.drop n) := by
    intro n
    induction n with
    | zero => exact fun _ => ⟨a, rfl, h⟩
    | succ n ih =>
      intro hn
      obtain ⟨a₁, hrun, howns⟩ := ih (by omega)
      obtain ⟨a₂, hfree, -, howns', -⟩ := freeRow_owned howns b n
      have hset : (List.replicate n none ++ rows.drop n).set n none =
          List.replicate (n + 1) none ++ rows.drop (n + 1) := by
        rw [List.set_append_right _ _ (List.length_replicate ▸ Nat.le_refl n), List.length_replicate,
          Nat.sub_self, List.drop_eq_getElem_cons (by omega), List.set_cons_zero,
          List.replicate_succ', List.append_assoc]
        rfl
      rw [hset] at hfree howns'
      refine ⟨a₂, ?_, howns'⟩
      rw [List.range_succ, List.foldlM_append, hrun]
      exact congrArg (fun x : Except CacheFault PointerCache => x.bind .ok) hfree
  obtain ⟨a', hrun, howns⟩ := hround rows.length (Nat.le_refl _)
  rw [List.drop_length, List.append_nil] at hrun howns
  exact ⟨a', hrun, howns⟩

theorem Owned.invalidateAll (h : b.Owned) :
    ∃ b', b.invalidateAll = .ok b' ∧ b.erase.invalidateAll = b'.erase ∧ b'.Owned := by
  obtain ⟨a', hrun, howns⟩ := freeRows_owned h.owns b
  rw [h.withRows_self] at hrun
  refine ⟨{ b with lastRowCount := 0 }.withRows a' (List.replicate b.lineColors.length none), ?_,
    ?_, owned_withRows howns⟩
  · rw [PointerCache.invalidateAll, hrun]
    rfl
  · rw [erase_withRows, HighlightCache.invalidateAll, List.map_replicate]
    show ({ b.erase with
      lineColors := (b.lineColors.map (rowOf b.arrays)).map _
      lastRowCount := 0 } : HighlightCache) = _
    rw [List.map_map]
    exact congrArg (fun l => ({ b.erase with lineColors := l, lastRowCount := 0 } : HighlightCache))
      (List.map_const' ..)

/-- A `memmove` in the rows that is left out where it moves nothing. -/
theorem moved (b : PointerCache) (a : Arena (List UInt32)) (rows : List (Option Nat)) {i j m : Int}
    {dst src : Nat} (hi : i = dst) (hj : j = src) (hdst : 0 < m → dst + m ≤ rows.length)
    (hsrc : 0 < m → src + m ≤ rows.length) :
    ∃ rows' : List (Option Nat), rows'.length = rows.length ∧
      (∀ k : Nat, rows'[k]? =
        if dst ≤ k ∧ k < dst + m.toNat then rows[src + (k - dst)]? else rows[k]?) ∧
      (∀ f : PointerCache → Except CacheFault PointerCache,
        (if 0 < m then ((b.withRows a rows).moveRows i j m).bind f
          else (Except.ok (b.withRows a rows)).bind f) = f (b.withRows a rows')) ∧
      ∀ g : HighlightCache → Option HighlightCache,
        (if 0 < m then ((b.withRows a rows).erase.moveRows i j m).bind g
          else (some (b.withRows a rows).erase).bind g) = g (b.withRows a rows').erase := by
  subst hi hj
  by_cases hm : 0 < m
  · have hdst' : dst + m.toNat ≤ rows.length := by
      have := hdst hm
      omega
    have hsrc' : src + m.toNat ≤ rows.length := by
      have := hsrc hm
      omega
    obtain ⟨rows', hmove, hlen, hcells⟩ := Block.move_getElem? (by omega) hdst' hsrc'
    rw [Int.toNat_of_nonneg (by omega)] at hmove
    obtain ⟨hrun, herase⟩ := moveRows_withRows (b := b) (a := a) hmove
    refine ⟨rows', hlen, hcells, fun f => ?_, fun g => ?_⟩
    · rw [if_pos hm, hrun]
      rfl
    · rw [if_pos hm, herase]
      rfl
  · refine ⟨rows, rfl, fun k => by rw [if_neg (by omega)], fun f => ?_, fun g => ?_⟩
    · rw [if_neg hm]
      rfl
    · rw [if_neg hm]
      rfl

end Rows

/-! ## Synchronisation -/

/-- An entry of `line_colors_cache` and of `line_colors_cache_cap`; NULL and 0 beyond. -/
def slot (b : PointerCache) (r : Nat) : Option Nat × Int :=
  (b.lineColors[r]?.join, b.lineColorsCap[r]?.getD 0)

section Sync

variable {b b' : PointerCache} {a a' : Arena (List UInt32)} {rows rows' : List (Option Nat)}

theorem Owned.slot_eq (h : b.Owned) (r : Nat) :
    b.slot r = (b.lineColors[r]?.join, (rowOf b.arrays b.lineColors[r]?.join).cap) := by
  rw [slot, h.caps, List.getElem?_map]
  cases b.lineColors[r]? <;> rfl

/-- A row that holds the pointer another one held, to what it pointed to then. -/
theorem Owned.slot_moved (h : b.Owned) (h' : b'.Owned) {k j : Nat}
    (hrow : b'.lineColors[k]?.join = b.lineColors[j]?.join)
    (hlook : b'.arrays.look b.lineColors[j]?.join = b.arrays.look b.lineColors[j]?.join) :
    b'.slot k = b.slot j := by
  rw [h.slot_eq, h'.slot_eq, hrow, rowOf_congr hlook]

theorem Owned.slot_none (h : b.Owned) {k : Nat} (hrow : b.lineColors[k]?.join = none) :
    b.slot k = (none, 0) := by
  rw [h.slot_eq, hrow]
  rfl

theorem look_join {r k : Nat} (hne : k ≠ r)
    (h : ∀ (k : Nat) q', k ≠ r → rows[k]? = some q' → a'.look q' = a.look q') :
    a'.look rows[k]?.join = a.look rows[k]?.join := by
  cases hk : rows[k]? with
  | none => rfl
  | some q => exact h k q hne hk

/-- A row inserted: the rows from the cursor on move down, and both halves of the row
that was split are empty. -/
theorem Owned.syncInserted (h : b.Owned) {new cursor old : Int} (hnew : new = old + 1)
    (hcursor : cursor < new) :
    ∃ b', b.syncInserted new cursor old = .ok b' ∧
      b.erase.syncInserted new cursor old = some b'.erase ∧ b'.Owned ∧
      (b.heap.Ample → 1 ≤ cursor → ∀ k : Nat, (k : Int) ≤ old → b'.slot k =
        if (k : Int) + 1 < cursor then b.slot k
        else if (k : Int) ≤ cursor then (none, 0) else b.slot (k - 1)) := by
  unfold PointerCache.syncInserted HighlightCache.syncInserted
  simp only [bind, pure, Except.pure]
  by_cases h0 : cursor - 1 < 0
  · rw [if_pos h0, if_pos h0]
    exact ⟨b, rfl, rfl, h, fun _ hpos => absurd hpos (by omega)⟩
  rw [if_neg h0, if_neg h0]
  obtain ⟨ok, heap, rows, hgrow, hgrow', howns, hlen, hptr, hample⟩ := h.growRows new
  rw [hgrow, hgrow']
  cases ok with
  | false => exact ⟨_, rfl, rfl, owned_withRows howns, fun ample => nomatch (hample ample).1⟩
  | true =>
    obtain ⟨split, rfl⟩ : ∃ split : Nat, cursor = split + 1 := ⟨(cursor - 1).toNat, by omega⟩
    have hrows := hlen rfl
    simp only [Bool.not_true, Bool.false_eq_true, if_false, Int.add_sub_cancel]
    obtain ⟨rows₂, hlen₂, hcells, hmove, hmove'⟩ := moved { b with heap := heap } b.arrays rows
      (show (split : Int) + 2 = (split + 2 : Nat) from rfl)
      (show (split : Int) + 1 = (split + 1 : Nat) from rfl)
      (m := old - split - 1) (by omega) (by omega)
    rw [hmove, hmove']
    -- the row that was split is not among those moved, so its array is in no other row
    have hin : split < rows.length := by omega
    obtain ⟨a', hfree, hfreed, hlook⟩ := howns.free (List.getElem?_eq_getElem hin)
    obtain ⟨hrun, hrun'⟩ := freeRow_withRows (b := { b with heap := heap })
      (show rows₂[split]? = some rows[split] by
        rw [hcells, if_neg (by omega), List.getElem?_eq_getElem hin]) hfree
      (fun k q' hne hk => by
        rw [hcells] at hk
        split at hk
        · exact hlook _ q' (by omega) hk
        · exact hlook _ q' hne hk)
    rw [hrun, hrun']
    obtain ⟨hset, hset'⟩ := setRow_none (b := { b with heap := heap }) (a := a')
      (show split + 1 < (rows₂.set split none).length by rw [List.length_set]; omega)
    have howns' : a'.Owns ((rows₂.set split none).set (split + 1) none) := by
      refine hfreed.insertAt (n := (old - split - 1).toNat) fun k => ?_
      by_cases hk : k = split
      · rw [hk, List.getElem?_set_self (by omega), if_neg (by omega), List.getElem?_set_self hin]
      · rw [List.getElem?_set_ne (Ne.symm hk), List.getElem?_set_ne (Ne.symm hk), hcells]
        split
        · rw [List.getElem?_set_ne (by omega)]
          congr 1
          omega
        · rfl
    refine ⟨_, hset, hset', owned_withRows howns', fun _ _ k hk => ?_⟩
    have hrow : ((rows₂.set split none).set (split + 1) none)[k]?.join =
        if k = split + 1 then none else if k = split then none else rows₂[k]?.join := by
      rw [Arena.join_set_none, Arena.join_set_none]
    have hsame (j : Nat) (hj : j ≠ split) :
        a'.look b.lineColors[j]?.join = b.arrays.look b.lineColors[j]?.join :=
      hptr j ▸ look_join hj hlook
    by_cases hlt : (k : Int) + 1 < split + 1
    · rw [if_pos hlt]
      refine h.slot_moved (owned_withRows howns') (hrow.trans ?_) (hsame k (by omega))
      rw [if_neg (by omega), if_neg (by omega), hcells, if_neg (by omega), hptr]
    rw [if_neg hlt]
    by_cases hle : (k : Int) ≤ split + 1
    · rw [if_pos hle]
      refine (owned_withRows howns').slot_none (hrow.trans ?_)
      split
      · rfl
      · rw [if_pos (by omega)]
    · rw [if_neg hle]
      refine h.slot_moved (owned_withRows howns') (hrow.trans ?_) (hsame (k - 1) (by omega))
      rw [if_neg (by omega), if_neg (by omega), hcells, if_pos (by omega), ← hptr,
        show split + 1 + (k - (split + 2)) = k - 1 by omega]

/-- Two rows are freed, and every other one still points to what it pointed to. -/
theorem Owned.freeTwo (h : b.Owned) (c : Nat) :
    ∃ b₁ a, b.freeRow c = .ok b₁ ∧ b.erase.freeRow c = some b₁.erase ∧
      b₁.freeRow (c + 1 : Nat) = .ok (b.withRows a ((b.lineColors.set c none).set (c + 1) none)) ∧
      b₁.erase.freeRow (c + 1 : Nat) =
        some (b.withRows a ((b.lineColors.set c none).set (c + 1) none)).erase ∧
      a.Owns ((b.lineColors.set c none).set (c + 1) none) ∧ ∀ j, j ≠ c → j ≠ c + 1 →
        a.look b.lineColors[j]?.join = b.arrays.look b.lineColors[j]?.join := by
  obtain ⟨a₁, hfree₁, hfree₁', howns₁, hlook₁⟩ := freeRow_owned h.owns b c
  obtain ⟨a₂, hfree₂, hfree₂', howns₂, hlook₂⟩ := freeRow_owned howns₁ b (c + 1)
  rw [h.withRows_self] at hfree₁ hfree₁'
  refine ⟨_, a₂, hfree₁, hfree₁', hfree₂, hfree₂', howns₂, fun j hj hj' => ?_⟩
  rw [← look_join hj hlook₁]
  have hold := look_join hj' hlook₂
  rwa [List.getElem?_set_ne (Ne.symm hj)] at hold

/-- A row deleted: the rows behind the one below the cursor move up, and the cursor row
is empty. -/
theorem Owned.syncDeleted (h : b.Owned) {new cursor old : Int} (hnew : new = old - 1)
    (hcursor : cursor < new) :
    ∃ b', b.syncDeleted cursor old = .ok b' ∧ b.erase.syncDeleted cursor old = some b'.erase ∧
      b'.Owned ∧ (0 ≤ cursor → ∀ k : Nat, (k : Int) < new → b'.slot k =
        if (k : Int) < cursor then b.slot k
        else if (k : Int) = cursor then (none, 0) else b.slot (k + 1)) := by
  have hlength : b.erase.lineColors.length = b.lineColors.length := List.length_map _
  unfold PointerCache.syncDeleted HighlightCache.syncDeleted
  simp only [bind, pure, Except.pure, hlength]
  obtain ⟨eff, heff, hcases⟩ : ∃ eff : Int, (if old < b.lineColors.length then old
      else (b.lineColors.length : Int)) = eff ∧ eff ≤ b.lineColors.length ∧
      (eff = old ∨ eff = b.lineColors.length) := by
    split
    · exact ⟨old, rfl, by omega, Or.inl rfl⟩
    · exact ⟨_, rfl, Int.le_refl _, Or.inr rfl⟩
  simp only [heff]
  by_cases hout : cursor < 0 ∨ eff ≤ cursor
  · rw [if_pos hout, if_pos hout]
    refine ⟨b, rfl, rfl, h, fun _ k hk => ?_⟩
    have hbeyond : ∀ k : Nat, cursor ≤ k → b.slot k = (none, 0) := fun k hk =>
      h.slot_none (by rw [List.getElem?_eq_none (by omega)]; rfl)
    split
    · rfl
    · split
      · exact hbeyond k (by omega)
      · rw [hbeyond k (by omega), hbeyond (k + 1) (by omega)]
  rw [if_neg hout, if_neg hout]
  obtain ⟨c, rfl⟩ : ∃ c : Nat, cursor = c := ⟨cursor.toNat, by omega⟩
  obtain ⟨b₁, a₂, hfree₁, hfree₁', hfree₂, hfree₂', howns₂, hsame⟩ := h.freeTwo c
  rw [hfree₁, ok_bind, hfree₁', Option.bind_some, show (c : Int) + 1 = (c + 1 : Nat) from rfl,
    hfree₂, ok_bind, hfree₂', Option.bind_some]
  obtain ⟨rows, hlen, hcells, hmove, hmove'⟩ := moved b a₂ ((b.lineColors.set c none).set (c + 1) none)
    (m := eff - c - 2) (show ((c + 1 : Nat) : Int) = (c + 1 : Nat) from rfl)
    (show (c : Int) + 2 = (c + 2 : Nat) from rfl)
    (by rw [List.length_set, List.length_set]; omega)
    (by rw [List.length_set, List.length_set]; omega)
  rw [List.length_set, List.length_set] at hlen
  have hvacated : (eff - 1).toNat < rows.length := by omega
  obtain ⟨hset, hset'⟩ := setRow_none (b := b) (a := a₂) hvacated
  rw [Int.toNat_of_nonneg (by omega)] at hset hset'
  have hin : 0 ≤ eff - 1 ∧ eff - 1 < ((b.withRows a₂ rows).lineColors.length : Int) := by
    show 0 ≤ eff - 1 ∧ eff - 1 < (rows.length : Int)
    omega
  have hin' : 0 ≤ eff - 1 ∧ eff - 1 < ((b.withRows a₂ rows).erase.lineColors.length : Int) := by
    rw [erase_withRows, List.length_map]
    exact hin
  rw [hmove, if_pos hin, hmove', if_pos hin']
  have howns : a₂.Owns (rows.set (eff - 1).toNat none) := by
    by_cases hmoves : 0 < eff - c - 2
    · rw [show (eff - 1).toNat = c + 1 + (eff - c - 2).toNat by omega]
      refine howns₂.deleteAt fun k => ?_
      rw [hcells]
      split
      · congr 1
        omega
      · rfl
    · refine Arena.Owns.setNone (howns₂.shrink fun k p hk => ?_) _
      rwa [hcells, if_neg (by omega)] at hk
  refine ⟨_, hset, hset', owned_withRows howns, fun _ k hk => ?_⟩
  have hrow : (rows.set (eff - 1).toNat none)[k]?.join =
      if k = (eff - 1).toNat then none else rows[k]?.join := Arena.join_set_none ..
  have hfreed (j : Nat) : ((b.lineColors.set c none).set (c + 1) none)[j]?.join =
      if j = c + 1 then none else if j = c then none else b.lineColors[j]?.join := by
    rw [Arena.join_set_none, Arena.join_set_none]
  by_cases hlt : (k : Int) < c
  · rw [if_pos hlt]
    refine h.slot_moved (owned_withRows howns) (hrow.trans ?_) (hsame k (by omega) (by omega))
    rw [if_neg (by omega), hcells, if_neg (by omega), hfreed, if_neg (by omega), if_neg (by omega)]
  rw [if_neg hlt]
  by_cases heq : (k : Int) = c
  · rw [if_pos heq]
    refine (owned_withRows howns).slot_none (hrow.trans ?_)
    split
    · rfl
    · rw [hcells, if_neg (by omega), hfreed, if_neg (by omega), if_pos (by omega)]
  rw [if_neg heq]
  by_cases hlast : (k : Int) + 1 < eff
  · refine h.slot_moved (owned_withRows howns) (hrow.trans ?_) (hsame (k + 1) (by omega) (by omega))
    rw [if_neg (by omega), hcells, if_pos (by omega), show c + 2 + (k - (c + 1)) = k + 1 by omega,
      hfreed, if_neg (by omega), if_neg (by omega)]
  · -- what would move here comes from beyond the cache
    rw [h.slot_none (k := k + 1) (by rw [List.getElem?_eq_none (by omega)]; rfl)]
    refine (owned_withRows howns).slot_none (hrow.trans ?_)
    split
    · rfl
    · rw [List.getElem?_eq_none (by omega)]
      rfl

/-- `highlight_cache_sync`, where the cursor is in the document. -/
theorem Owned.sync (h : b.Owned) {new cursor : Int} (hcursor : cursor < new) :
    ∃ b', b.sync new cursor = .ok b' ∧ b.erase.sync new cursor = some b'.erase ∧ b'.Owned := by
  have hold : b.erase.lastRowCount = b.lastRowCount := rfl
  unfold PointerCache.sync HighlightCache.sync
  simp only [bind, pure, Except.pure, hold]
  by_cases hsame : new = b.lastRowCount
  · rw [if_pos hsame, if_pos hsame]
    exact ⟨b, rfl, rfl, h⟩
  rw [if_neg hsame, if_neg hsame]
  by_cases hempty : b.lastRowCount = 0
  · rw [if_pos hempty, if_pos hempty]
    exact ⟨_, rfl, rfl, h.owns, h.caps⟩
  rw [if_neg hempty, if_neg hempty]
  by_cases hins : new = b.lastRowCount + 1
  · obtain ⟨b', hrun, hrun', howned, -⟩ := h.syncInserted hins hcursor
    rw [if_pos hins, if_pos hins, hrun, hrun']
    exact ⟨_, rfl, rfl, howned.owns, howned.caps⟩
  rw [if_neg hins, if_neg hins]
  by_cases hdel : new = b.lastRowCount - 1
  · obtain ⟨b', hrun, hrun', howned, -⟩ := h.syncDeleted hdel hcursor
    rw [if_pos hdel, if_pos hdel, hrun, hrun']
    exact ⟨_, rfl, rfl, howned.owns, howned.caps⟩
  rw [if_neg hdel, if_neg hdel]
  obtain ⟨b', hrun, hrun', howned⟩ := h.invalidateAll
  rw [hrun, hrun']
  exact ⟨_, rfl, rfl, howned.owns, howned.caps⟩

end Sync

/-! ## Highlighting -/

section Highlight

variable {b : PointerCache}

theorem Owned.grown (h : b.Owned) (needed : Int) :
    ∃ ok b', b.growRows needed = (ok, b') ∧ b.erase.growRows needed = (ok, b'.erase) ∧ b'.Owned ∧
      b'.blockCommentOpen = b.blockCommentOpen ∧ (ok = true → needed ≤ b'.lineColors.length) := by
  obtain ⟨ok, heap, rows, hgrow, hgrow', howns, hfits, -⟩ := h.growRows needed
  exact ⟨ok, _, hgrow, hgrow', owned_withRows howns, rfl, hfits⟩

/-- A row that points to its array. -/
theorem Owned.row_eq (h : b.Owned) {r : Nat} (hr : r < b.lineColors.length) :
    b.pointer r = .ok b.lineColors[r] ∧
      Block.read b.lineColorsCap r = some (rowOf b.arrays b.lineColors[r]).cap ∧
      b.erase.row r = some (rowOf b.arrays b.lineColors[r]) := by
  have hread : b.lineColors[r]? = some b.lineColors[r] := List.getElem?_eq_getElem hr
  refine ⟨?_, ?_, ?_⟩
  · rw [pointer, Block.read_natCast, hread]
    rfl
  · rw [h.caps, Block.read_natCast, List.getElem?_map, hread]
    rfl
  · rw [HighlightCache.row, Block.read_natCast]
    show (b.lineColors.map (rowOf b.arrays))[r]? = _
    rw [List.getElem?_map, hread]
    rfl

/-- The array of a row that has one. -/
theorem Owned.array_eq (h : b.Owned) {r p : Nat} (hr : b.lineColors[r]? = some (some p)) :
    ∃ colors, b.arrays.get p = some colors ∧ rowOf b.arrays (some p) = .block colors := by
  obtain ⟨colors, hcolors⟩ := Option.isSome_iff_exists.1 (h.owns.live r p hr)
  exact ⟨colors, hcolors, by rw [rowOf, Arena.look_some, hcolors]; rfl⟩

/-- A row gets a new array, and the one it had is freed. -/
theorem Owned.newRow (h : b.Owned) {r : Nat} (hr : r < b.lineColors.length) (heap : Heap)
    (colors : List UInt32) :
    ∃ b₁ b', { b with arrays := b.arrays ++ [some colors], heap := heap }.free b.lineColors[r] =
        .ok b₁ ∧
      b₁.setRow r (some b.arrays.length) colors.length = .ok b' ∧
      { b.erase with heap := heap }.setRow r (.block colors) = some b'.erase ∧ b'.Owned ∧
      b'.blockCommentOpen = b.blockCommentOpen ∧
      b'.lineColors[r]? = some (some b.arrays.length) ∧
      b'.arrays.get b.arrays.length = some colors := by
  obtain ⟨a', hfree, howns, hnew, hlook⟩ := h.owns.replace (List.getElem?_eq_getElem hr) colors
  have hrow : rowOf a' (some b.arrays.length) = .block colors := by
    rw [rowOf, Arena.look_some, hnew]
    rfl
  have hrows : ∀ (k : Nat) q', k ≠ r → b.lineColors[k]? = some q' →
      rowOf a' q' = rowOf b.arrays q' := fun k q' hne hk => rowOf_congr (hlook k q' hne hk)
  refine ⟨{ b with arrays := a', heap := heap },
    { b with heap := heap }.withRows a' (b.lineColors.set r (some b.arrays.length)), ?_, ?_, ?_,
    owned_withRows howns, rfl, List.getElem?_set_self hr, hnew⟩
  · rw [free]
    dsimp only
    rw [hfree]
    rfl
  · have hcaps : Block.store b.lineColorsCap r [(colors.length : Int)] =
        some ((b.lineColors.set r (some b.arrays.length)).map fun q => (rowOf a' q).cap) := by
      rw [Block.store_set (by rw [h.caps, List.length_map]; exact hr), h.caps,
        map_set_congr (f := fun q => (rowOf b.arrays q).cap)
          fun k q' hne hk => congrArg RowColors.cap (hrows k q' hne hk), hrow]
      rfl
    rw [setRow]
    dsimp only
    rw [Block.store_set hr, hcaps]
    rfl
  · rw [HighlightCache.setRow, erase_withRows, map_set_congr (f := rowOf b.arrays)
      fun k q' hne hk => hrows k q' hne hk, hrow]
    show (Block.store (b.lineColors.map (rowOf b.arrays)) r [_]).bind _ = _
    rw [Block.store_set (by rw [List.length_map]; exact hr)]
    rfl

/-- `ensure_row_cap`: the row has the array it returns, of at least `len` colours. -/
theorem Owned.ensureRowCap (h : b.Owned) (r : Nat) (len : Int) :
    ∃ q b', b.ensureRowCap r len = .ok (q, b') ∧
      b.erase.ensureRowCap r len = some (q.isSome, b'.erase) ∧ b'.Owned ∧
      b'.blockCommentOpen = b.blockCommentOpen ∧
      ∀ p, q = some p → b'.lineColors[r]? = some (some p) ∧
        ∃ block, b'.arrays.get p = some block ∧ len ≤ block.length := by
  unfold PointerCache.ensureRowCap HighlightCache.ensureRowCap
  by_cases hlen : len ≤ 0
  · rw [if_pos hlen, if_pos hlen]
    exact ⟨none, b, rfl, rfl, h, rfl, nofun⟩
  rw [if_neg hlen, if_neg hlen]
  obtain ⟨ok, b₁, hgrow, hgrow', h₁, hflags, hfits⟩ := h.grown (r + 1)
  simp only [bind, pure, Except.pure]
  rw [hgrow, hgrow']
  cases ok with
  | false => exact ⟨none, b₁, rfl, rfl, h₁, hflags, nofun⟩
  | true =>
    have hr : r < b₁.lineColors.length := by
      have := hfits rfl
      omega
    obtain ⟨hpointer, hcap, hrow⟩ := h₁.row_eq hr
    simp only [Bool.not_true, Bool.false_eq_true, if_false]
    rw [hcap, hrow, Option.bind_some, hpointer]
    show ∃ q b', (if (rowOf b₁.arrays b₁.lineColors[r]).cap < len then _ else _) = _ ∧ _
    by_cases hshort : (rowOf b₁.arrays b₁.lineColors[r]).cap < len
    · rw [if_pos hshort, if_pos hshort, show b₁.erase.heap = b₁.heap from rfl]
      cases hp : b₁.heap.mallocColors len with
      | none =>
        exact ⟨none, { b₁ with heap := b₁.heap.next }, rfl, rfl, ⟨h₁.owns, h₁.caps⟩, hflags, nofun⟩
      | some colors =>
        have hcolors : (colors.length : Int) = len := by
          rw [Heap.length_mallocColors hp]
          omega
        obtain ⟨b₂, b₃, hfree, hset, hset', h₃, hflags', hslot, hget⟩ := h₁.newRow hr b₁.heap.next colors
        rw [hcolors] at hset
        refine ⟨some b₁.arrays.length, b₃, ?_, ?_, h₃, hflags'.trans hflags, fun p hp => ?_⟩
        · show (({ b₁ with arrays := b₁.arrays ++ [some colors], heap := b₁.heap.next } :
            PointerCache).free b₁.lineColors[r]).bind _ = _
          rw [hfree, ok_bind]
          show (b₂.setRow r (some b₁.arrays.length) len).bind _ = _
          rw [hset]
          rfl
        · dsimp only
          rw [hset']
          rfl
        · obtain rfl := Option.some.inj hp
          exact ⟨hslot, colors, hget, by omega⟩
    · rw [if_neg hshort, if_neg hshort]
      refine ⟨b₁.lineColors[r], b₁, rfl, ?_, h₁, hflags, fun p hp => ?_⟩
      · cases hq : b₁.lineColors[r] with
        | none => rfl
        | some p =>
          obtain ⟨colors, -, hblock⟩ := h₁.array_eq ((List.getElem?_eq_getElem hr).trans (by rw [hq]))
          rw [hblock]
          rfl
      · have hslot : b₁.lineColors[r]? = some (some p) := by
          rw [List.getElem?_eq_getElem hr, hp]
        obtain ⟨colors, hcolors, hblock⟩ := h₁.array_eq hslot
        rw [hp, hblock] at hshort
        exact ⟨hslot, colors, hcolors, Int.not_lt.1 hshort⟩

/-- The stores of `syntax_highlight_line` through the pointer of a row. -/
theorem Owned.writeColors (h : b.Owned) {r p : Nat} (hr : b.lineColors[r]? = some (some p))
    {block colors : List UInt32} (hget : b.arrays.get p = some block)
    (hlen : colors.length ≤ block.length) :
    ∃ b', b.writeColors p colors = .ok b' ∧ b.erase.writeColors r colors = some b'.erase ∧
      b'.Owned ∧ b'.lineColors = b.lineColors := by
  obtain ⟨hwrite, howns, hnew, hlook⟩ := h.owns.write hr (colors ++ block.drop colors.length)
  obtain ⟨hlt, -⟩ := List.getElem?_eq_some_iff.1 hr
  have hrow : rowOf (b.arrays.set p (some (colors ++ block.drop colors.length))) (some p) =
      .block (colors ++ block.drop colors.length) := by
    rw [rowOf, Arena.look_some, hnew]
    rfl
  have hold : rowOf b.arrays (some p) = .block block := by
    rw [rowOf, Arena.look_some, hget]
    rfl
  have hptr : b.lineColors[r] = some p :=
    Option.some.inj ((List.getElem?_eq_getElem hlt).symm.trans hr)
  have hset : b.lineColors.set r (some p) = b.lineColors := by
    rw [← hptr, List.set_getElem_self]
  have hrows : ∀ (k : Nat) q', k ≠ r → b.lineColors[k]? = some q' →
      rowOf (b.arrays.set p (some (colors ++ block.drop colors.length))) q' = rowOf b.arrays q' :=
    fun k q' hne hk => rowOf_congr (hlook k q' hne hk)
  refine ⟨{ b with arrays := b.arrays.set p (some (colors ++ block.drop colors.length)) }, ?_, ?_,
    ⟨howns, ?_⟩, rfl⟩
  · rw [PointerCache.writeColors, hget]
    show ((orFault .outside (Block.store block 0 colors)).bind _ : Except CacheFault _) = _
    rw [Block.store_prefix hlen]
    show ((orFault .freed (b.arrays.write p _)).bind _ : Except CacheFault _) = _
    rw [hwrite]
    rfl
  · have hmap := map_set_congr (x := some p) hrows
    rw [hset, hrow] at hmap
    obtain ⟨-, -, hread⟩ := h.row_eq hlt
    rw [HighlightCache.writeColors, hread, hptr, hold]
    show (Block.store block 0 colors).bind _ = _
    rw [Block.store_prefix hlen, Option.bind_some, HighlightCache.setRow]
    show (Block.store (b.lineColors.map (rowOf b.arrays)) r [_]).bind _ = _
    rw [Block.store_set (by rw [List.length_map]; exact hlt), ← hmap]
    rfl
  · refine h.caps.trans (List.ext_getElem? fun k => ?_)
    rw [List.getElem?_map, List.getElem?_map]
    cases hk : b.lineColors[k]? with
    | none => rfl
    | some q' =>
      by_cases hne : k = r
      · subst hne
        obtain rfl := Option.some.inj (hk.symm.trans hr)
        have hsize : ((colors ++ block.drop colors.length).length : Int) = block.length := by
          rw [List.length_append, List.length_drop]
          omega
        rw [Option.map_some, Option.map_some, hrow, hold]
        exact congrArg some hsize.symm
      · rw [Option.map_some, Option.map_some, hrows k q' hne hk]

/-- Every row of the editor can be asked for. -/
def Readable (ed : Editor) : Prop :=
  ∀ row : Nat, (ed.getLineLen row).isSome ∧ (HighlightCache.lineText ed row).isSome

/-- The fault is the editor's. -/
def ByEditor (ed : Editor) (e : CacheFault) : Prop := e = .editor ∧ ¬ Readable ed

theorem byEditor_len {ed : Editor} {r : Nat} (h : ed.getLineLen r = none) :
    ByEditor ed .editor := by
  refine ⟨rfl, fun hread => ?_⟩
  have := (hread r).1
  rw [h] at this
  nomatch this

theorem byEditor_text {ed : Editor} {r : Nat} (h : HighlightCache.lineText ed r = none) :
    ByEditor ed .editor := by
  refine ⟨rfl, fun hread => ?_⟩
  have := (hread r).2
  rw [h] at this
  nomatch this

/-- An editor that holds a text can be asked for every row of it, and beyond. -/
theorem readable_of_at {T : Prop} {ed : Editor} {t : List (List UInt8)} {p : Pos}
    (h : ed.At T t p) : Readable ed := by
  intro row
  rw [Editor.getLineLen_row h.holds.shows, HighlightCache.lineText_eq h]
  exact ⟨rfl, rfl⟩

/-- The cache with its pointers and without. -/
def Erases (b : PointerCache) (c : HighlightCache) : Prop := b.Owned ∧ c = b.erase

/-- A line highlighted in the array that `ensure_row_cap` gave. -/
theorem Owned.paint (h : b.Owned) {ed : Editor} {r p : Nat} {len : Int} {line : List UInt8}
    (hrow : b.lineColors[r]? = some (some p) ∧
      ∃ block, b.arrays.get p = some block ∧ len ≤ block.length)
    (hlen : ed.getLineLen r = some len) (hline : HighlightCache.lineText ed r = some line)
    (lang : SyntaxLanguage) (inBlockComment : Bool) :
    ∃ b', b.writeColors p (Syntax.lineColors lang inBlockComment line) = .ok b' ∧
      b.erase.writeColors r (Syntax.lineColors lang inBlockComment line) = some b'.erase ∧
      b'.Owned ∧ b'.lineColors = b.lineColors := by
  obtain ⟨hslot, block, hget, hfits⟩ := hrow
  refine h.writeColors hslot hget ?_
  have hcolors := Syntax.lineColors_length lang inBlockComment line
  have hlength := HighlightCache.lineText_length hlen hline
  omega

/-- A row highlighted. -/
theorem Owned.highlightRow (h : b.Owned) (ed : Editor) (r : Nat) (inBlockComment : Bool) :
    Mirrors (ByEditor ed)
      (fun x y => y.1 = x.1.isSome ∧ y.2.1 = x.2.1 ∧ Erases x.2.2 y.2.2)
      (b.highlightRow ed r inBlockComment) (b.erase.highlightRow ed r inBlockComment) := by
  unfold PointerCache.highlightRow HighlightCache.highlightRow
  simp only [bind, pure, Except.pure, Syntax.highlightLine_eq]
  refine Mirrors.read byEditor_len fun len hlen => ?_
  obtain ⟨q, b', hcap, hcap', h', -, hrow⟩ := h.ensureRowCap r len
  rw [hcap, ok_bind, hcap', Option.bind_some]
  refine Mirrors.read byEditor_text fun line hline => ?_
  cases q with
  | none => exact ⟨rfl, rfl, h', rfl⟩
  | some p =>
    obtain ⟨b'', hwrite, hwrite', h'', -⟩ := h'.paint (hrow p rfl) hlen hline b'.currentLang
      inBlockComment
    have hlang : b'.erase.currentLang = b'.currentLang := rfl
    simp only [Option.isSome_some, if_true]
    rw [hwrite, ok_bind, hlang, hwrite']
    exact ⟨rfl, rfl, h'', rfl⟩

/-! ## Comment flags -/

/-- `block_comment_open_grow`. -/
theorem Owned.growFlags (h : b.Owned) (needed : Int) :
    ∃ ok b', b.growFlags needed = (ok, b') ∧ b.erase.growFlags needed = (ok, b'.erase) ∧
      b'.Owned ∧ (ok = true → needed ≤ b'.blockCommentOpen.length) := by
  have hflags : b.erase.blockCommentOpen = b.blockCommentOpen := rfl
  have hheap : b.erase.heap = b.heap := rfl
  unfold PointerCache.growFlags HighlightCache.growFlags
  rw [hflags, hheap]
  split
  · next hfits => exact ⟨true, b, rfl, rfl, h, fun _ => hfits⟩
  · cases b.heap.outcome 0 with
    | none => exact ⟨false, { b with heap := b.heap.next }, rfl, rfl, ⟨h.owns, h.caps⟩, nofun⟩
    | some _ =>
      refine ⟨true, _, rfl, rfl, ⟨h.owns, h.caps⟩, fun _ => ?_⟩
      have hcap := cacheCap_enough b.blockCommentOpen.length needed
      simp only [List.length_append, List.length_replicate]
      omega

theorem Owned.setFlag (h : b.Owned) {r : Nat} (hr : r < b.blockCommentOpen.length) (flag : Bool) :
    ∃ b', b.setFlag r flag = .ok b' ∧ b.erase.setFlag r flag = some b'.erase ∧ b'.Owned ∧
      b'.blockCommentOpen.length = b.blockCommentOpen.length := by
  refine ⟨{ b with blockCommentOpen := b.blockCommentOpen.set r flag }, ?_, ?_, ⟨h.owns, h.caps⟩,
    List.length_set⟩
  · rw [PointerCache.setFlag, Block.store_set hr]
    rfl
  · have hstore : Block.store b.erase.blockCommentOpen r [flag] =
        some (b.blockCommentOpen.set r flag) := Block.store_set hr flag
    rw [HighlightCache.setFlag, hstore]
    rfl

/-- The loop of `rebuild_block_comment_open_full`. -/
theorem Owned.rebuildFullLoop (ed : Editor) {n r : Nat} (h : b.Owned)
    (hfits : r + n ≤ b.blockCommentOpen.length) (inBlockComment : Bool) :
    Mirrors (ByEditor ed) Erases (rebuildFullLoop ed n r inBlockComment b)
      (HighlightCache.rebuildFullLoop ed n r inBlockComment b.erase) := by
  induction n generalizing r inBlockComment b with
  | zero => exact ⟨h, rfl⟩
  | succ n ih =>
    obtain ⟨b', hset, hset', h', hlen⟩ := h.setFlag (show r < _ by omega) inBlockComment
    unfold PointerCache.rebuildFullLoop HighlightCache.rebuildFullLoop
    simp only [bind, Syntax.highlightLine_eq]
    rw [hset, ok_bind, hset', Option.bind_some]
    refine Mirrors.read byEditor_text fun line _ => ?_
    exact ih (r := r + 1) h' (by omega) _

theorem Owned.rebuildFull (h : b.Owned) (ed : Editor) :
    Mirrors (ByEditor ed) Erases (b.rebuildFull ed) (b.erase.rebuildFull ed) := by
  obtain ⟨ok, b', hgrow, hgrow', h', hfits⟩ := h.growFlags (ed.doc.rowCount + 1)
  unfold PointerCache.rebuildFull HighlightCache.rebuildFull
  dsimp only
  rw [hgrow, hgrow']
  cases ok with
  | false => exact ⟨h', rfl⟩
  | true =>
    have := hfits rfl
    exact Owned.rebuildFullLoop (r := 0) ed h' (by omega) false

/-- A round of `highlight_cache_rebuild_from` frees the next row and no other. -/
theorem Owned.rebuildLoop (ed : Editor) {n r : Nat} (h : b.Owned) (inBlockComment : Bool) :
    Mirrors (ByEditor ed) Erases (rebuildLoop ed n r inBlockComment b)
      (HighlightCache.rebuildLoop ed n r inBlockComment b.erase) := by
  induction n generalizing r inBlockComment b with
  | zero => exact ⟨h, rfl⟩
  | succ n ih =>
    unfold PointerCache.rebuildLoop HighlightCache.rebuildLoop
    refine (h.highlightRow ed r inBlockComment).bind fun x y hxy => ?_
    obtain ⟨q, out, b'⟩ := x
    obtain ⟨dst, out', c⟩ := y
    obtain ⟨-, hout, h', hc⟩ := hxy
    obtain rfl : out' = out := hout
    obtain rfl : c = b'.erase := hc
    have hflags : b'.erase.blockCommentOpen = b'.blockCommentOpen := rfl
    dsimp only
    rw [hflags]
    split
    · next hin =>
      have hread : Block.read b'.blockCommentOpen ((r : Int) + 1) =
          some b'.blockCommentOpen[r + 1] := by
        rw [show (r : Int) + 1 = (r + 1 : Nat) from rfl, Block.read_natCast,
          List.getElem?_eq_getElem (by omega)]
      simp only [bind, pure, Except.pure]
      rw [hread, Option.bind_some]
      show Mirrors _ _ (if b'.blockCommentOpen[r + 1] = out' then _ else _) _
      refine .ite ⟨h', rfl⟩ ?_
      obtain ⟨a', hfree, hfree', howns, -⟩ := freeRow_owned h'.owns b' (r + 1)
      rw [h'.withRows_self] at hfree hfree'
      obtain ⟨b'', hset, hset', h'', -⟩ := (owned_withRows howns).setFlag (b := b'.withRows a' _)
        (show r + 1 < b'.blockCommentOpen.length by omega) out'
      rw [show (r : Int) + 1 = (r + 1 : Nat) from rfl, hfree, ok_bind, hfree', Option.bind_some,
        hset, ok_bind, hset', Option.bind_some]
      exact ih h'' out'
    · exact ih (r := r + 1) h' out'

theorem Owned.rebuildFrom (h : b.Owned) (ed : Editor) (row : Int) :
    Mirrors (ByEditor ed) Erases (b.rebuildFrom ed row) (b.erase.rebuildFrom ed row) := by
  unfold PointerCache.rebuildFrom HighlightCache.rebuildFrom
  dsimp only
  split
  · exact ⟨h, rfl⟩
  · next hin =>
    obtain ⟨ok, b', hgrow, hgrow', h', hfits⟩ := h.growFlags (ed.doc.rowCount + 1)
    obtain ⟨r, rfl⟩ : ∃ r : Nat, row = r := ⟨row.toNat, by omega⟩
    rw [hgrow, hgrow']
    cases ok with
    | false => exact ⟨h', rfl⟩
    | true =>
      have hlen := hfits rfl
      have hread : Block.read b'.blockCommentOpen r = some b'.blockCommentOpen[r] := by
        rw [Block.read_natCast, List.getElem?_eq_getElem (by omega)]
      have hread' : Block.read b'.erase.blockCommentOpen r = some b'.blockCommentOpen[r] := hread
      simp only [Bool.not_true, Bool.false_eq_true, if_false, bind]
      rw [hread, hread']
      exact Owned.rebuildLoop ed h' _

end Highlight

/-! ## Calls -/

section Calls

variable {b : PointerCache}

/-- `highlight_cache_get_line` returns the pointer of the row, or NULL. -/
theorem Owned.getLine (h : b.Owned) (ed : Editor) (r : Nat) :
    Follows (ByEditor ed)
      (fun x => x.2.Owned ∧ (x.1 = none ∨ x.2.lineColors[r]? = some x.1))
      (fun x y => y.1 = x.2.arrays.look x.1 ∧ y.2 = x.2.erase)
      (b.getLine ed r) (b.erase.getLine ed r) := by
  unfold PointerCache.getLine HighlightCache.getLine HighlightCache.highlightRow
  simp only [bind, pure, Except.pure, Syntax.highlightLine_eq]
  obtain ⟨ok, b₁, hgrow, hgrow', h₁, -, hfits⟩ := h.grown (r + 1)
  rw [hgrow, hgrow']
  cases ok with
  | false => exact .ok ⟨h₁, Or.inl rfl⟩ ⟨rfl, rfl⟩
  | true =>
    have hr : r < b₁.lineColors.length := by
      have := hfits rfl
      omega
    obtain ⟨hpointer, -, hrow⟩ := h₁.row_eq hr
    simp only [Bool.not_true, Bool.false_eq_true, if_false]
    rw [hpointer, ok_bind, hrow, Option.bind_some]
    cases hq : b₁.lineColors[r] with
    | some p =>
      have hslot : b₁.lineColors[r]? = some (some p) := by
        rw [List.getElem?_eq_getElem hr, hq]
      obtain ⟨colors, hcolors, hblock⟩ := h₁.array_eq hslot
      rw [hblock]
      exact .ok ⟨h₁, Or.inr hslot⟩ ⟨hcolors.symm, rfl⟩
    | none =>
      show Follows _ _ _ ((orFault CacheFault.editor (ed.getLineLen r)).bind _)
        (Option.bind (Option.bind (ed.getLineLen r) _) _)
      cases hlen : ed.getLineLen r with
      | none => exact ⟨byEditor_len hlen, rfl⟩
      | some len =>
        obtain ⟨q, b₂, hcap, hcap', h₂, hflags, hrow₂⟩ := h₁.ensureRowCap r len
        show Follows _ _ _ ((b₁.ensureRowCap r len).bind _)
          (Option.bind (Option.bind (b₁.erase.ensureRowCap r len) _) _)
        rw [hcap, ok_bind, hcap', Option.bind_some]
        cases q with
        | none =>
          refine ⟨⟨h₂, Or.inl rfl⟩, fun y hy => ?_⟩
          cases hline : HighlightCache.lineText ed r with
          | none =>
            rw [hline] at hy
            nomatch hy
          | some line =>
            rw [hline] at hy
            obtain rfl := Option.some.inj hy
            exact ⟨rfl, rfl⟩
        | some p =>
          cases hline : HighlightCache.lineText ed r with
          | none => exact ⟨byEditor_text hline, rfl⟩
          | some line =>
            obtain ⟨b₃, hwrite, hwrite', h₃, hrows⟩ := h₂.paint (hrow₂ p rfl) hlen hline
              b₂.currentLang (b₂.blockCommentOpenAt r)
            have hflag : b₁.erase.blockCommentOpenAt r = b₂.blockCommentOpenAt r := by
              rw [PointerCache.blockCommentOpenAt, hflags]
              rfl
            have hlang : b₂.erase.currentLang = b₂.currentLang := rfl
            have hslot : b₃.lineColors[r]? = some (some p) := hrows ▸ (hrow₂ p rfl).1
            obtain ⟨hlt, hget⟩ := List.getElem?_eq_some_iff.1 hslot
            obtain ⟨-, -, hread⟩ := h₃.row_eq hlt
            obtain ⟨colors, hcolors, hblock⟩ := h₃.array_eq hslot
            rw [hget, hblock] at hread
            simp only [orFault, ok_bind, Option.bind_some, Option.isSome_some, if_true, hwrite, hflag,
              hlang, hwrite', Bool.not_true, Bool.false_eq_true, if_false, hread]
            exact .ok ⟨h₃, Or.inr hslot⟩ ⟨hcolors.symm, rfl⟩

/-- The rows of the arguments are in range, the cursor is in the document. -/
def Proper : HighlightCache.Call → Prop
  | .sync newCount cursorRow => cursorRow < newCount
  | .freeRow row => 0 ≤ row
  | .getLine _ row => 0 ≤ row
  | .rebuildFrom _ row => 0 ≤ row
  | _ => True

/-- The editor of the call, if there is one, can be asked for its rows. -/
def Reads : HighlightCache.Call → Prop
  | .getLine ed _ => Readable ed
  | .setLanguage ed _ => Readable ed
  | .rebuildFrom ed _ => Readable ed
  | _ => True

theorem Owned.call (h : b.Owned) {k : HighlightCache.Call} (hk : Proper k) :
    Follows (fun e => e = .editor ∧ ¬ Reads k) Owned (fun b c => c = b.erase) (b.call k)
      (b.erase.call k) := by
  cases k with
  | sync newCount cursorRow =>
    obtain ⟨b', hrun, hrun', h'⟩ := h.sync hk
    show Follows _ _ _ (b.sync newCount cursorRow) (b.erase.sync newCount cursorRow)
    rw [hrun, hrun']
    exact .ok h' rfl
  | freeRow row =>
    obtain ⟨r, rfl⟩ : ∃ r : Nat, row = r := ⟨row.toNat, (Int.toNat_of_nonneg hk).symm⟩
    obtain ⟨a', hrun, hrun', howns, -⟩ := freeRow_owned h.owns b r
    rw [h.withRows_self] at hrun hrun'
    show Follows _ _ _ (b.freeRow r) (b.erase.freeRow r)
    rw [hrun, hrun']
    exact .ok (owned_withRows howns) rfl
  | getLine ed row =>
    obtain ⟨r, rfl⟩ : ∃ r : Nat, row = r := ⟨row.toNat, (Int.toNat_of_nonneg hk).symm⟩
    exact (h.getLine ed r).map (fun _ hx => hx.1) fun _ _ hxy => hxy.2
  | setLanguage ed lang =>
    have h₁ : ({ b with currentLang := lang } : PointerCache).Owned := ⟨h.owns, h.caps⟩
    obtain ⟨b', hrun, hrun', h'⟩ := h₁.invalidateAll
    show Follows _ _ _ (({ b with currentLang := lang } : PointerCache).invalidateAll.bind _)
      (({ b with currentLang := lang } : PointerCache).erase.invalidateAll.rebuildFull ed)
    rw [hrun, hrun', ok_bind]
    exact .of_mirrors (h'.rebuildFull ed)
  | rebuildFrom ed row => exact .of_mirrors (h.rebuildFrom ed row)
  | cleanup =>
    obtain ⟨b', hrun, hrun', h'⟩ := h.invalidateAll
    show Follows _ _ _ (b.invalidateAll.bind _)
      (some { b.erase.invalidateAll with lineColors := [], blockCommentOpen := [] })
    rw [hrun, hrun', ok_bind]
    exact .ok ⟨.nil _, rfl⟩ rfl

/-- Calls one after the other, as `foldlM` runs them. -/
theorem Owned.calls (h : b.Owned) {ks : List HighlightCache.Call} (hks : ∀ k ∈ ks, Proper k) :
    Follows (fun e => e = .editor ∧ ∃ k ∈ ks, ¬ Reads k) Owned (fun b c => c = b.erase)
      (ks.foldlM PointerCache.call b) (ks.foldlM HighlightCache.call b.erase) := by
  induction ks generalizing b with
  | nil => exact .ok h rfl
  | cons k ks ih =>
    obtain ⟨hk, hks⟩ := List.forall_mem_cons.1 hks
    rw [List.foldlM_cons, List.foldlM_cons]
    have hrest : ∀ b' : PointerCache, b'.Owned →
        Follows (fun e => e = .editor ∧ ∃ k' ∈ k :: ks, ¬ Reads k') Owned (fun b c => c = b.erase)
          (ks.foldlM PointerCache.call b') (ks.foldlM HighlightCache.call b'.erase) :=
      fun b' h' => (ih h' hks).imp fun e ⟨he, k', hk', hreads⟩ =>
        ⟨he, k', List.mem_cons_of_mem k hk', hreads⟩
    refine Follows.bind ((h.call hk).imp fun e ⟨he, hreads⟩ => ⟨he, k, List.mem_cons_self, hreads⟩)
      (fun b' c h' hc => ?_) fun b' h' => (hrest b' h').alone
    rw [hc]
    exact hrest b' h'

/-- `highlight_cache_sync` when a row was split. -/
theorem Owned.sync_inserted (h : b.Owned) (ample : b.heap.Ample) {old cursor : Nat}
    (hold : b.lastRowCount = old) (hpos : 1 ≤ cursor) (hle : cursor ≤ old) :
    ∃ b', b.sync (old + 1) cursor = .ok b' ∧ (∀ r, r < cursor - 1 → b'.slot r = b.slot r) ∧
      b'.slot (cursor - 1) = (none, 0) ∧ b'.slot cursor = (none, 0) ∧
      ∀ r, cursor ≤ r → r < old → b'.slot (r + 1) = b.slot r := by
  obtain ⟨b', hrun, -, -, hslot⟩ := h.syncInserted (show (old : Int) + 1 = old + 1 from rfl)
    (show (cursor : Int) < old + 1 by omega)
  have hslot := hslot ample (by omega)
  refine ⟨{ b' with lastRowCount := old + 1 }, ?_, fun r hr => ?_, ?_, ?_, fun r hr hr' => ?_⟩
  · unfold PointerCache.sync
    dsimp only
    rw [hold, if_neg (by omega), if_neg (by omega), if_pos rfl, hrun]
    rfl
  · exact (hslot r (by omega)).trans (if_pos (by omega))
  · exact (hslot _ (by omega)).trans (by rw [if_neg (by omega), if_pos (by omega)])
  · exact (hslot _ (by omega)).trans (by rw [if_neg (by omega), if_pos (by omega)])
  · exact (hslot _ (by omega)).trans (by rw [if_neg (by omega), if_neg (by omega)]; rfl)

/-- `highlight_cache_sync` when two rows were joined. -/
theorem Owned.sync_deleted (h : b.Owned) {old cursor : Nat} (hold : b.lastRowCount = old)
    (hle : cursor + 1 < old) :
    ∃ b', b.sync (old - 1) cursor = .ok b' ∧ (∀ r, r < cursor → b'.slot r = b.slot r) ∧
      b'.slot cursor = (none, 0) ∧
      ∀ r, cursor + 1 < r → r < old → b'.slot (r - 1) = b.slot r := by
  obtain ⟨b', hrun, -, -, hslot⟩ := h.syncDeleted (show (old : Int) - 1 = old - 1 from rfl)
    (show (cursor : Int) < old - 1 by omega)
  have hslot := hslot (by omega)
  refine ⟨{ b' with lastRowCount := old - 1 }, ?_, fun r hr => ?_, ?_, fun r hr hr' => ?_⟩
  · unfold PointerCache.sync
    dsimp only
    rw [hold, if_neg (by omega), if_neg (by omega), if_neg (by omega), if_pos rfl, hrun]
    rfl
  · exact (hslot r (by omega)).trans (if_pos (by omega))
  · exact (hslot _ (by omega)).trans (by rw [if_neg (by omega), if_pos (by omega)])
  · refine (hslot _ (by omega)).trans ?_
    rw [if_neg (by omega), if_neg (by omega), Nat.sub_add_cancel (by omega)]

/-- In any sequence of calls the rows own their arrays, nothing outside an array and
nothing freed is touched, and a row inserted or deleted shifts pointers and capacities
with the document. -/
theorem rows_shift_owned (heap : Heap) (ks : List HighlightCache.Call)
    (hks : ∀ k ∈ ks, Proper k) :
    (∀ e, ks.foldlM call (static heap) = .error e → e = .editor ∧ ∃ k ∈ ks, ¬ Reads k) ∧
    ∀ b, ks.foldlM call (static heap) = .ok b → b.Owned ∧ ∀ old : Nat, b.lastRowCount = old →
      (∀ cursor, b.heap.Ample → 1 ≤ cursor → cursor ≤ old → ∃ b', b.sync (old + 1) cursor = .ok b' ∧
        (∀ r, r < cursor - 1 → b'.slot r = b.slot r) ∧
        b'.slot (cursor - 1) = (none, 0) ∧ b'.slot cursor = (none, 0) ∧
        ∀ r, cursor ≤ r → r < old → b'.slot (r + 1) = b.slot r) ∧
      ∀ cursor, cursor + 1 < old → ∃ b', b.sync (old - 1) cursor = .ok b' ∧
        (∀ r, r < cursor → b'.slot r = b.slot r) ∧ b'.slot cursor = (none, 0) ∧
        ∀ r, cursor + 1 < r → r < old → b'.slot (r - 1) = b.slot r := by
  have hrun := (static_owned heap).calls hks
  refine ⟨fun e he => ?_, fun b hb => ?_⟩
  · rw [he] at hrun
    exact hrun.1
  · rw [hb] at hrun
    have howned : b.Owned := hrun.1
    exact ⟨howned, fun old hold =>
      ⟨fun cursor ample hpos hle => howned.sync_inserted ample hold hpos hle,
        fun cursor hle => howned.sync_deleted hold hle⟩⟩

/-- Two rows, of which the second is highlighted. -/
def highlighted : List HighlightCache.Call :=
  [.setLanguage (Editor.standing [ascii "a", ascii "b"] ⟨0, 0⟩ ⟨1, 0⟩ none) .c, .sync 2 0,
    .getLine (Editor.standing [ascii "a", ascii "b"] ⟨0, 0⟩ ⟨1, 0⟩ none) 1]

/-- They are joined. -/
theorem rows_shift_owned_join : ∃ b b', highlighted.foldlM call (static .zeros) = .ok b ∧
    b.Owned ∧ b.sync 1 0 = .ok b' ∧ b'.slot 0 = (none, 0) := by
  have hread : Readable (Editor.standing [ascii "a", ascii "b"] ⟨0, 0⟩ ⟨1, 0⟩ none) :=
    readable_of_at (Editor.standing_at (p := ⟨0, 0⟩) (by decide) _ _)
  obtain ⟨hfault, hok⟩ := rows_shift_owned .zeros highlighted (by simp [highlighted, Proper])
  have hcount : (match highlighted.foldlM call (static .zeros) with
    | .ok b => b.lastRowCount
    | .error _ => 2) = 2 := by
    decide +kernel
  cases hrun : highlighted.foldlM call (static .zeros) with
  | error e =>
    obtain ⟨-, k, hk, hreads⟩ := hfault e hrun
    simp only [highlighted, List.mem_cons, List.not_mem_nil, or_false] at hk
    rcases hk with rfl | rfl | rfl
    · exact absurd hread hreads
    · exact absurd trivial hreads
    · exact absurd hread hreads
  | ok b =>
    rw [hrun] at hcount
    obtain ⟨howned, hshift⟩ := hok b hrun
    obtain ⟨b', hsync, -, hslot, -⟩ := (hshift 2 hcount).2 0 (by decide)
    exact ⟨b, b', rfl, howned, hsync, hslot⟩

end Calls

end PointerCache

end LCode
