import LCode.Editor.Verify.Cursor
import LCode.Lib.Scan
import LCode.View.HighlightCache
import LCode.View.Verify.Syntax

/-!
# The operations of the highlight cache

What each operation leaves in the cache, row by row: `entry c r` is the array of row
`r`, and no array beyond the cache. The document is one the editor holds, and the
heap does not run out.
-/

namespace LCode

/-- The array, if there is one, begins with `colors`. -/
def RowColors.Begins (e : RowColors) (colors : List UInt32) : Prop :=
  ∀ block ∈ e.colors, colors <+: block

/-- The array, if there is one, has room for `n` colours. -/
def RowColors.Fits (e : RowColors) (n : Nat) : Prop := e.colors.isSome → (n : Int) ≤ e.cap

theorem RowColors.begins_null (colors : List UInt32) : RowColors.null.Begins colors := nofun

theorem RowColors.begins_nil (e : RowColors) : e.Begins [] := fun block _ => block.nil_prefix

theorem RowColors.Begins.fits {e : RowColors} {colors : List UInt32} (h : e.Begins colors) :
    e.Fits colors.length := by
  intro hsome
  obtain ⟨block, hblock⟩ := Option.isSome_iff_exists.1 hsome
  have hle := (h block hblock).length_le
  rw [e.sized, hblock, Option.getD_some]
  omega

theorem Heap.Ample.mallocColors {h : Heap} (ample : h.Ample) (n : Int) :
    ∃ p, h.mallocColors n = some p ∧ p.length = n.toNat := by
  obtain ⟨junk, hjunk⟩ := Option.isSome_iff_exists.1 (ample 0)
  exact ⟨_, by rw [Heap.mallocColors, hjunk]; rfl, by simp⟩

theorem Heap.length_mallocColors {h : Heap} {n : Int} {p : List UInt32}
    (hp : h.mallocColors n = some p) : p.length = n.toNat := by
  rw [Heap.mallocColors, Option.map_eq_some_iff] at hp
  obtain ⟨junk, -, rfl⟩ := hp
  rw [List.length_map, List.length_range]

/-- The capacity the two growing functions allocate is enough. -/
theorem cacheCap_enough (cap : Nat) (needed : Int) : needed ≤ cacheCap cap needed := by
  have hpos : 0 < if cap ≠ 0 then (cap : Int) * 2 else cacheInitCap := by
    simp only [cacheInitCap]
    split <;> omega
  have h : needed - 1 < cacheCap cap needed := growCap_gt hpos (by omega)
  omega

namespace HighlightCache

/-- The colours of row `r`. -/
def entry (c : HighlightCache) (r : Nat) : RowColors := c.lineColors[r]?.getD .null

/-- The colours and the heap apart the cache is as it was. -/
structure Recolored (c c' : HighlightCache) : Prop where
  lang : c'.currentLang = c.currentLang
  flags : c'.blockCommentOpen = c.blockCommentOpen
  ample : c'.heap.Ample

theorem Recolored.trans {c c' c'' : HighlightCache} (h : c.Recolored c') (h' : c'.Recolored c'') :
    c.Recolored c'' :=
  ⟨h'.lang.trans h.lang, h'.flags.trans h.flags, h'.ample⟩

section Rows

variable {c : HighlightCache} {r : Nat}

theorem entry_beyond (h : c.lineColors.length ≤ r) : c.entry r = .null := by
  rw [entry, List.getElem?_eq_none h, Option.getD_none]

theorem lt_of_isSome (h : (c.entry r).colors.isSome) : r < c.lineColors.length := by
  by_contra hout
  rw [entry_beyond (Nat.not_lt.1 hout)] at h
  nomatch h

theorem row_eq (h : r < c.lineColors.length) : c.row r = some (c.entry r) := by
  rw [row, Block.read_natCast, entry, List.getElem?_eq_getElem h, Option.getD_some]

/-- A row overwritten. -/
theorem setRow_eq (h : r < c.lineColors.length) (e : RowColors) :
    ∃ c', c.setRow r e = some c' ∧ c'.lineColors.length = c.lineColors.length ∧
      (∀ k, c'.entry k = if k = r then e else c.entry k) ∧
      (c.heap.Ample → c.Recolored c') := by
  refine ⟨{ c with lineColors := c.lineColors.set r e }, ?_, List.length_set, fun k => ?_,
    fun ample => ⟨rfl, rfl, ample⟩⟩
  · rw [setRow, Block.store_set h]
    rfl
  · simp only [entry, List.getElem?_set]
    split
    · next heq =>
      subst heq
      simp
    · next hne => rw [if_neg (Ne.symm hne)]

/-- `highlight_cache_free_row`. -/
theorem freeRow_eq (c : HighlightCache) (ample : c.heap.Ample) (r : Nat) :
    ∃ c', c.freeRow r = some c' ∧ c'.lineColors.length = c.lineColors.length ∧
      (∀ k, c'.entry k = if k = r then .null else c.entry k) ∧ c.Recolored c' := by
  unfold freeRow
  split
  · next hout =>
    refine ⟨c, rfl, rfl, fun k => ?_, rfl, rfl, ample⟩
    split
    · next heq => exact heq ▸ entry_beyond (by omega)
    · rfl
  · next hin =>
    have hr : r < c.lineColors.length := by omega
    obtain ⟨c', hset, hlen, hentry, hsame⟩ := setRow_eq hr .null
    exact ⟨c', hset, hlen, hentry, hsame ample⟩

/-- `line_colors_cache_grow`. -/
theorem growRows_eq (c : HighlightCache) (ample : c.heap.Ample) (needed : Int) :
    ∃ c', c.growRows needed = (true, c') ∧ needed ≤ c'.lineColors.length ∧
      (∀ k, c'.entry k = c.entry k) ∧ c.Recolored c' := by
  unfold growRows
  split
  · next hfits => exact ⟨c, rfl, hfits, fun _ => rfl, rfl, rfl, ample⟩
  · obtain ⟨junk, hjunk⟩ := Option.isSome_iff_exists.1 (ample 0)
    obtain ⟨junk', hjunk'⟩ := Option.isSome_iff_exists.1 (ample.next 0)
    rw [hjunk]
    dsimp only
    rw [hjunk']
    refine ⟨_, rfl, ?_, fun k => ?_, rfl, rfl, ample.next.next⟩
    · have hcap := cacheCap_enough c.lineColors.length needed
      simp only [List.length_append, List.length_replicate]
      omega
    · simp only [entry, List.getElem?_append, List.getElem?_replicate]
      split
      · rfl
      · next hout =>
        rw [List.getElem?_eq_none (Nat.not_lt.1 hout), Option.getD_none]
        split <;> rfl

/-- `ensure_row_cap`: a row with colours gets an array for them. -/
theorem ensureRowCap_eq (c : HighlightCache) (ample : c.heap.Ample) (r len : Nat) :
    ∃ c', c.ensureRowCap r len = some (decide (0 < len), c') ∧
      (∀ k, (k = r → len = 0) → c'.entry k = c.entry k) ∧ c.Recolored c' ∧
      (0 < len → r < c'.lineColors.length ∧
        ∃ block, (c'.entry r).colors = some block ∧ len ≤ block.length) := by
  unfold ensureRowCap
  by_cases hlen : len = 0
  · subst hlen
    exact ⟨c, rfl, fun _ _ => rfl, ⟨rfl, rfl, ample⟩, fun h => absurd h (Nat.lt_irrefl 0)⟩
  · obtain ⟨c₁, hgrow, hrows, hentry, hsame⟩ := c.growRows_eq ample (r + 1)
    have hr : r < c₁.lineColors.length := by omega
    rw [if_neg (by omega), decide_eq_true (by omega), hgrow]
    simp only [Bool.not_true, Bool.false_eq_true, if_false, row_eq hr, Option.bind_eq_bind,
      Option.bind_some]
    split
    · obtain ⟨p, hp, hplen⟩ := hsame.ample.mallocColors len
      have hr' : r < { c₁ with heap := c₁.heap.next }.lineColors.length := hr
      obtain ⟨c₂, hset, hlength, hentry', hsame'⟩ := setRow_eq hr' (.block p)
      have hkeep := hsame' hsame.ample.next
      rw [hp]
      refine ⟨c₂, by simp only [hset]; rfl, fun k hk => ?_,
        ⟨hkeep.lang.trans hsame.lang, hkeep.flags.trans hsame.flags, hkeep.ample⟩, fun _ => ?_⟩
      · rw [hentry', if_neg fun heq => hlen (hk heq)]
        exact hentry k
      · refine ⟨hlength ▸ hr, p, by rw [hentry', if_pos rfl]; rfl, ?_⟩
        rw [hplen]
        omega
    · next hcap =>
      obtain ⟨block, hblock⟩ : ∃ block, (c₁.entry r).colors = some block := by
        cases hnone : (c₁.entry r).colors with
        | none =>
          have hsized := (c₁.entry r).sized
          rw [hnone, Option.getD_none, List.length_nil] at hsized
          omega
        | some block => exact ⟨block, rfl⟩
      have hsized := (c₁.entry r).sized
      rw [hblock, Option.getD_some] at hsized
      refine ⟨c₁, by rw [hblock]; rfl, fun k _ => hentry k, hsame, fun _ => ⟨hr, block, hblock, ?_⟩⟩
      omega

/-- The stores to an array that is long enough. -/
theorem writeColors_eq {block colors : List UInt32} (ample : c.heap.Ample)
    (h : r < c.lineColors.length) (hblock : (c.entry r).colors = some block)
    (hlen : colors.length ≤ block.length) :
    ∃ c', c.writeColors r colors = some c' ∧ c'.lineColors.length = c.lineColors.length ∧
      (∀ k, k ≠ r → c'.entry k = c.entry k) ∧
      (∃ block', (c'.entry r).colors = some block' ∧ colors <+: block') ∧ c.Recolored c' := by
  obtain ⟨c', hset, hlength, hentry, hsame⟩ :=
    c.setRow_eq h (.block (colors ++ block.drop colors.length))
  refine ⟨c', ?_, hlength, fun k hk => by rw [hentry, if_neg hk],
    ⟨colors ++ block.drop colors.length, ?_, List.prefix_append _ _⟩, hsame ample⟩
  · simp only [writeColors, row_eq h, hblock, Option.bind_eq_bind, Option.bind_some,
      Block.store_prefix hlen, hset]
  · rw [hentry, if_pos rfl]
    rfl

end Rows

/-! ## Comment flags -/

/-- The flags and the heap apart the cache is as it was. -/
structure Reflagged (c c' : HighlightCache) : Prop where
  lang : c'.currentLang = c.currentLang
  rows : c'.lineColors = c.lineColors
  ample : c'.heap.Ample

section Flags

variable {c : HighlightCache} {r : Nat}

theorem blockCommentOpenAt_natCast (c : HighlightCache) (r : Nat) :
    c.blockCommentOpenAt r = c.blockCommentOpen[r]?.getD false := by
  rw [blockCommentOpenAt, Int.toNat_natCast]
  split
  · rw [List.getElem?_eq_none (by omega), Option.getD_none]
  · rfl

theorem Recolored.flag {c' : HighlightCache} (h : c.Recolored c') (r : Nat) :
    c'.blockCommentOpenAt r = c.blockCommentOpenAt r := by
  rw [blockCommentOpenAt_natCast, blockCommentOpenAt_natCast, h.flags]

theorem Reflagged.entry {c' : HighlightCache} (h : c.Reflagged c') (r : Nat) :
    c'.entry r = c.entry r := by
  rw [HighlightCache.entry, HighlightCache.entry, h.rows]

/-- `block_comment_open_grow`: new slots are clean. -/
theorem growFlags_eq (c : HighlightCache) (ample : c.heap.Ample) (needed : Int) :
    ∃ c', c.growFlags needed = (true, c') ∧ needed ≤ c'.blockCommentOpen.length ∧
      (∀ r : Nat, c'.blockCommentOpenAt r = c.blockCommentOpenAt r) ∧ c.Reflagged c' := by
  unfold growFlags
  split
  · next hfits => exact ⟨c, rfl, hfits, fun _ => rfl, rfl, rfl, ample⟩
  · obtain ⟨junk, hjunk⟩ := Option.isSome_iff_exists.1 (ample 0)
    rw [hjunk]
    refine ⟨_, rfl, ?_, fun r => ?_, rfl, rfl, ample.next⟩
    · have hcap := cacheCap_enough c.blockCommentOpen.length needed
      simp only [List.length_append, List.length_replicate]
      omega
    · simp only [blockCommentOpenAt_natCast, List.getElem?_append, List.getElem?_replicate]
      split
      · rfl
      · next hout =>
        rw [List.getElem?_eq_none (Nat.not_lt.1 hout), Option.getD_none]
        split <;> rfl

theorem setFlag_eq (ample : c.heap.Ample) (h : r < c.blockCommentOpen.length) (b : Bool) :
    ∃ c', c.setFlag r b = some c' ∧
      c'.blockCommentOpen.length = c.blockCommentOpen.length ∧
      (∀ k : Nat, c'.blockCommentOpenAt k = if k = r then b else c.blockCommentOpenAt k) ∧
      c.Reflagged c' := by
  refine ⟨{ c with blockCommentOpen := c.blockCommentOpen.set r b }, ?_, List.length_set,
    fun k => ?_, rfl, rfl, ample⟩
  · rw [setFlag, Block.store_set h]
    rfl
  · simp only [blockCommentOpenAt_natCast, List.getElem?_set]
    split
    · next heq =>
      subst heq
      simp
    · next hne => rw [if_neg (Ne.symm hne)]

end Flags

/-! ## Synchronisation -/

/-- The row whose colours `highlight_cache_sync` leaves to row `r`. -/
def keptFrom (oldCount newCount cursorRow : Int) (r : Nat) : Option Nat :=
  if newCount = oldCount ∨ oldCount = 0 then some r
  else if newCount = oldCount + 1 then
    if cursorRow = 0 ∨ r + 1 < cursorRow then some r
    else if r ≤ cursorRow then none else some (r - 1)
  else if newCount = oldCount - 1 then
    if r < cursorRow then some r else if r = cursorRow then none else some (r + 1)
  else none

section Sync

variable {c : HighlightCache}

theorem moveRows_eq {dst src n : Nat} {i j m : Int} (ample : c.heap.Ample) (hi : i = dst)
    (hj : j = src) (hm : m = n) (hn : 0 < n) (hdst : dst + n ≤ c.lineColors.length)
    (hsrc : src + n ≤ c.lineColors.length) :
    ∃ c', c.moveRows i j m = some c' ∧ c'.lineColors.length = c.lineColors.length ∧
      (∀ k, c'.entry k = if dst ≤ k ∧ k < dst + n then c.entry (src + (k - dst)) else c.entry k) ∧
      c.Recolored c' := by
  obtain ⟨b, hmove, hlen, hcells⟩ := Block.move_getElem? hn hdst hsrc
  subst hi hj hm
  refine ⟨{ c with lineColors := b }, by rw [moveRows, hmove]; rfl, hlen, fun k => ?_, rfl, rfl,
    ample⟩
  simp only [entry, hcells]
  split <;> rfl

theorem syncInserted_eq (ample : c.heap.Ample) {new cursor : Nat} {old : Int}
    (hold : (new : Int) = old + 1) (hcursor : cursor < new) :
    ∃ c', c.syncInserted new cursor old = some c' ∧ c.Recolored c' ∧ ∀ r < new,
      c'.entry r = if cursor = 0 ∨ r + 1 < cursor then c.entry r
        else if r ≤ cursor then .null else c.entry (r - 1) := by
  unfold syncInserted
  by_cases h0 : cursor = 0
  · exact ⟨c, by rw [if_pos (by omega)]; rfl, ⟨rfl, rfl, ample⟩, fun r _ => by rw [if_pos (.inl h0)]⟩
  obtain ⟨c₁, hgrow, hlen₁, hentry₁, hsame₁⟩ := c.growRows_eq ample new
  have hsplit : (cursor : Int) - 1 = (cursor - 1 : Nat) := by omega
  rw [if_neg (by omega), hgrow]
  simp only [Bool.not_true, Bool.false_eq_true, if_false]
  obtain ⟨c₂, hmove, hlen₂, hentry₂, hsame₂⟩ : ∃ c₂,
      (if 0 < old - ((cursor : Int) - 1) - 1 then
        c₁.moveRows ((cursor : Int) - 1 + 2) ((cursor : Int) - 1 + 1) (old - ((cursor : Int) - 1) - 1)
      else some c₁) = some c₂ ∧ c₂.lineColors.length = c₁.lineColors.length ∧
      (∀ k < new, c₂.entry k = if cursor + 1 ≤ k then c₁.entry (k - 1) else c₁.entry k) ∧
      c₁.Recolored c₂ := by
    split
    · obtain ⟨c₂, hmove, hlen₂, hentry₂, hsame₂⟩ := moveRows_eq hsame₁.ample
        (show (cursor : Int) - 1 + 2 = (cursor + 1 : Nat) by omega)
        (show (cursor : Int) - 1 + 1 = cursor by omega)
        (show old - ((cursor : Int) - 1) - 1 = (new - 1 - cursor : Nat) by omega)
        (by omega) (by omega) (by omega)
      refine ⟨c₂, hmove, hlen₂, fun k hk => ?_, hsame₂⟩
      rw [hentry₂]
      by_cases hk' : cursor + 1 ≤ k
      · rw [if_pos (by omega), if_pos hk']
        congr 1
        omega
      · rw [if_neg (by omega), if_neg hk']
    · exact ⟨c₁, rfl, rfl, fun k hk => by rw [if_neg (by omega)], rfl, rfl, hsame₁.ample⟩
  obtain ⟨c₃, hfree, hlen₃, hentry₃, hsame₃⟩ := c₂.freeRow_eq hsame₂.ample (cursor - 1)
  have hrow : cursor < c₃.lineColors.length := by omega
  obtain ⟨c₄, hset, -, hentry₄, hsame₄⟩ := c₃.setRow_eq hrow .null
  refine ⟨c₄, ?_, ((hsame₁.trans hsame₂).trans hsame₃).trans (hsame₄ hsame₃.ample), fun r hr => ?_⟩
  · simp only [Option.bind_eq_bind]
    rw [ite_bind, hmove, Option.bind_some, hsplit, hfree, Option.bind_some,
      show ((cursor - 1 : Nat) : Int) + 1 = cursor by omega, hset]
  · rw [hentry₄, hentry₃, hentry₂ r hr, hentry₁, hentry₁]
    by_cases hlt : r + 1 < cursor
    · rw [if_neg (by omega), if_neg (by omega), if_neg (by omega), if_pos (.inr hlt)]
    · rw [if_neg (c := cursor = 0 ∨ r + 1 < cursor) (by omega)]
      by_cases hle : r ≤ cursor
      · rw [if_pos hle]
        split
        · rfl
        · rw [if_pos (by omega)]
      · rw [if_neg (by omega), if_neg (by omega), if_pos (by omega), if_neg hle]

theorem syncDeleted_eq (ample : c.heap.Ample) {new cursor : Nat} {old : Int}
    (hold : (new : Int) = old - 1) (hcursor : cursor < new) :
    ∃ c', c.syncDeleted cursor old = some c' ∧ c.Recolored c' ∧ ∀ r < new,
      c'.entry r = if r < cursor then c.entry r else if r = cursor then .null
        else c.entry (r + 1) := by
  obtain ⟨eff, heff, hle, hcases⟩ : ∃ eff : Nat, (if old < c.lineColors.length then old
      else (c.lineColors.length : Int)) = eff ∧ eff ≤ c.lineColors.length ∧
      (eff = new + 1 ∨ eff = c.lineColors.length) := by
    split
    · exact ⟨new + 1, by omega, by omega, .inl rfl⟩
    · exact ⟨_, rfl, Nat.le_refl _, .inr rfl⟩
  unfold syncDeleted
  simp only [heff]
  by_cases hin : eff ≤ cursor
  · refine ⟨c, by rw [if_pos (by omega)]; rfl, ⟨rfl, rfl, ample⟩, fun r hr => ?_⟩
    by_cases hlt : r < cursor
    · rw [if_pos hlt]
    · rw [if_neg hlt, entry_beyond (by omega : c.lineColors.length ≤ r)]
      split
      · rfl
      · rw [entry_beyond (by omega)]
  obtain ⟨c₁, hfree₁, hlen₁, hentry₁, hsame₁⟩ := c.freeRow_eq ample cursor
  obtain ⟨c₂, hfree₂, hlen₂, hentry₂, hsame₂⟩ := c₁.freeRow_eq hsame₁.ample (cursor + 1)
  obtain ⟨c₃, hmove, hlen₃, hentry₃, hsame₃⟩ : ∃ c₃,
      (if 0 < (eff : Int) - cursor - 2 then
        c₂.moveRows ((cursor : Int) + 1) ((cursor : Int) + 2) ((eff : Int) - cursor - 2)
      else some c₂) = some c₃ ∧ c₃.lineColors.length = c₂.lineColors.length ∧
      (∀ k, c₃.entry k = if cursor < k ∧ k + 1 < eff then c₂.entry (k + 1) else c₂.entry k) ∧
      c₂.Recolored c₃ := by
    split
    · obtain ⟨c₃, hmove, hlen₃, hentry₃, hsame₃⟩ := moveRows_eq hsame₂.ample
        (show (cursor : Int) + 1 = (cursor + 1 : Nat) by omega)
        (show (cursor : Int) + 2 = (cursor + 2 : Nat) by omega)
        (show (eff : Int) - cursor - 2 = (eff - cursor - 2 : Nat) by omega)
        (by omega) (by omega) (by omega)
      refine ⟨c₃, hmove, hlen₃, fun k => ?_, hsame₃⟩
      rw [hentry₃]
      by_cases hk : cursor < k ∧ k + 1 < eff
      · rw [if_pos (by omega), if_pos hk]
        congr 1
        omega
      · rw [if_neg (by omega), if_neg hk]
    · exact ⟨c₂, rfl, rfl, fun k => by rw [if_neg (by omega)], rfl, rfl, hsame₂.ample⟩
  have hvacated : eff - 1 < c₃.lineColors.length := by omega
  obtain ⟨c₄, hset, -, hentry₄, hsame₄⟩ := setRow_eq hvacated .null
  refine ⟨c₄, ?_, ((hsame₁.trans hsame₂).trans hsame₃).trans (hsame₄ hsame₃.ample), fun r hr => ?_⟩
  · simp only [Option.bind_eq_bind]
    rw [if_neg (by omega), hfree₁, Option.bind_some, show (cursor : Int) + 1 = (cursor + 1 : Nat)
      by omega, hfree₂, Option.bind_some, ite_bind, ← show (cursor : Int) + 1 = (cursor + 1 : Nat)
      by omega, hmove, Option.bind_some, if_pos (by omega),
      show (eff : Int) - 1 = (eff - 1 : Nat) by omega, hset]
  · rw [hentry₄, hentry₃, hentry₂, hentry₂, hentry₁, hentry₁]
    by_cases hlt : r < cursor
    · rw [if_neg (by omega), if_neg (by omega), if_neg (by omega), if_neg (by omega), if_pos hlt]
    · rw [if_neg hlt]
      by_cases heq : r = cursor
      · subst heq
        rw [if_neg (c := r < r ∧ r + 1 < eff) (by omega), if_neg (c := r = r + 1) (by omega)]
        simp only [if_true, ite_self]
      · by_cases hlast : r + 1 < eff
        · rw [if_neg (by omega), if_pos (by omega), if_neg (by omega), if_neg (by omega),
            if_neg heq]
        · -- what moves into the last slot comes from beyond the cache
          have hbeyond : c.entry (r + 1) = .null := entry_beyond (by omega)
          rw [hbeyond, ite_self]
          split
          · rfl
          · rw [if_neg (by omega)]
            split
            · rfl
            · exact entry_beyond (by omega)

/-- `highlight_cache_sync` frees rows and moves the others. -/
theorem sync_eq (ample : c.heap.Ample) {new cursor : Nat} (hcursor : cursor < new) :
    ∃ c', c.sync new cursor = some c' ∧ c.Recolored c' ∧ ∀ r < new,
      c'.entry r = ((keptFrom c.lastRowCount new cursor r).map c.entry).getD .null := by
  have hcounted {c' : HighlightCache} (h : c.Recolored c') (n : Int) :
      c.Recolored { c' with lastRowCount := n } := ⟨h.lang, h.flags, h.ample⟩
  unfold sync keptFrom
  dsimp only
  by_cases hsame : (new : Int) = c.lastRowCount
  · exact ⟨c, by rw [if_pos hsame], ⟨rfl, rfl, ample⟩, fun r _ => by rw [if_pos (.inl hsame)]; rfl⟩
  rw [if_neg hsame]
  by_cases hempty : c.lastRowCount = 0
  · exact ⟨_, by rw [if_pos hempty], hcounted ⟨rfl, rfl, ample⟩ _,
      fun r _ => by rw [if_pos (.inr hempty)]; rfl⟩
  have hneither : ¬ ((new : Int) = c.lastRowCount ∨ c.lastRowCount = 0) := by omega
  rw [if_neg hempty]
  by_cases hmore : (new : Int) = c.lastRowCount + 1
  · obtain ⟨c', hsync, hkeep, hentry⟩ := syncInserted_eq ample hmore hcursor
    refine ⟨_, by simp only [if_pos hmore, hsync]; rfl, hcounted hkeep _, fun r hr => ?_⟩
    rw [if_neg hneither, if_pos hmore]
    refine (hentry r hr).trans ?_
    have habove : ((cursor : Int) = 0 ∨ (r : Int) + 1 < cursor) ↔ cursor = 0 ∨ r + 1 < cursor := by
      omega
    simp only [habove, Int.ofNat_le]
    split
    · rfl
    · split <;> rfl
  by_cases hless : (new : Int) = c.lastRowCount - 1
  · obtain ⟨c', hsync, hkeep, hentry⟩ := syncDeleted_eq ample hless hcursor
    refine ⟨_, by simp only [if_neg hmore, if_pos hless, hsync]; rfl, hcounted hkeep _,
      fun r hr => ?_⟩
    rw [if_neg hneither, if_neg hmore, if_pos hless]
    refine (hentry r hr).trans ?_
    simp only [Int.ofNat_lt, Int.natCast_inj]
    split
    · rfl
    · split <;> rfl
  · have hcleared : c.Recolored c.invalidateAll := ⟨rfl, rfl, ample⟩
    refine ⟨_, by simp only [if_neg hmore, if_neg hless]; rfl, hcounted hcleared _,
      fun r _ => ?_⟩
    rw [if_neg hneither, if_neg hmore, if_neg hless]
    simp only [entry, invalidateAll, List.getElem?_map]
    cases c.lineColors[r]? with
    | none => rfl
    | some e => rfl

end Sync

/-! ## Highlighting from the top -/

/-- Whether row `r` of the text begins inside a block comment. -/
def commentAt (lang : SyntaxLanguage) (t : List (List UInt8)) (r : Nat) : Bool :=
  Scan.before (Syntax.commentAfter lang) false t r

theorem commentAt_succ {lang : SyntaxLanguage} {t : List (List UInt8)} {r : Nat}
    (h : r < t.length) :
    commentAt lang t (r + 1) = Syntax.commentAfter lang (commentAt lang t r) (Text.row t r) := by
  rw [commentAt, Scan.before_succ h, Text.row_eq_getElem h]
  rfl

/-- The colours of row `r`, the text highlighted from the top down to it. -/
def colorsAt (lang : SyntaxLanguage) (t : List (List UInt8)) (r : Nat) : List UInt32 :=
  Syntax.lineColors lang (commentAt lang t r) (Text.row t r)

/-! ## Rows of a text -/

section Text

variable {T : Prop} {ed : Editor} {t : List (List UInt8)} {p : Pos} {c : HighlightCache} {r : Nat}

/-- As much is read as the row is long. -/
theorem lineText_length {row len : Int} {line : List UInt8} (hlen : ed.getLineLen row = some len)
    (hline : lineText ed row = some line) : (line.length : Int) = len := by
  simp only [lineText, Option.bind_eq_bind, Option.bind_eq_some_iff] at hline
  obtain ⟨buf, -, len', hlen', hslice⟩ := hline
  rw [hlen] at hlen'
  exact (Buf.slice_length hslice).trans (Option.some.inj hlen').symm

/-- The tokenizer reads the text of the row; beyond the text there is none. -/
theorem lineText_eq (h : ed.At T t p) (r : Nat) : lineText ed r = some (Text.row t r) := by
  have hcount := h.rowCount_eq
  by_cases hr : r < t.length
  · obtain ⟨ln, hline, z, rest, hbuf, -, -⟩ := h.holds.line_row hr
    simp only [lineText, Editor.getLine, if_neg (show ¬ ((r : Int) < 0 ∨ ed.doc.rowCount ≤ r) by
      omega), hline, Editor.getLineLen_row h.holds.shows r, Option.bind_eq_bind,
      Option.bind_some, Option.pure_def]
    rw [hbuf]
    exact Buf.slice_prefix rfl rfl
  · have hout : (r : Int) < 0 ∨ ed.doc.rowCount ≤ r := by omega
    simp only [lineText, Editor.getLine, Editor.getLineLen, if_pos hout, Option.bind_eq_bind,
      Option.bind_some, Text.row_beyond (Nat.not_lt.1 hr)]
    rfl

/-- A row highlighted anew: its array, if it needs one, begins with its colours. -/
theorem highlightRow_eq (h : ed.At T t p) (ample : c.heap.Ample) (r : Nat) (b : Bool) :
    ∃ c', c.highlightRow ed r b = some (decide (0 < (Text.row t r).length),
        Syntax.commentAfter c.currentLang b (Text.row t r), c') ∧
      (∀ k, (k = r → (Text.row t r).length = 0) → c'.entry k = c.entry k) ∧
      (c'.entry r).Begins (Syntax.lineColors c.currentLang b (Text.row t r)) ∧
      (0 < (Text.row t r).length → r < c'.lineColors.length ∧ (c'.entry r).colors.isSome) ∧
      c.Recolored c' := by
  have hcolors := Syntax.lineColors_length c.currentLang b (Text.row t r)
  obtain ⟨c₁, hcap, hentry, hsame, harray⟩ := c.ensureRowCap_eq ample r (Text.row t r).length
  simp only [highlightRow, Editor.getLineLen_row h.holds.shows r, Option.bind_eq_bind,
    Option.bind_some, hcap, lineText_eq h r]
  rw [hsame.lang, Syntax.highlightLine_eq]
  by_cases hlen : (Text.row t r).length = 0
  · rw [decide_eq_false (by omega)]
    refine ⟨c₁, rfl, hentry, ?_, fun hpos => by omega, hsame⟩
    rw [List.eq_nil_of_length_eq_zero (hcolors.trans hlen)]
    exact RowColors.begins_nil _
  · obtain ⟨hrow, block, hblock, hroom⟩ := harray (by omega)
    obtain ⟨c₂, hwrite, hlength, hentry', ⟨block', hblock', hprefix⟩, hsame'⟩ :=
      writeColors_eq hsame.ample hrow hblock (hcolors ▸ hroom)
    rw [decide_eq_true (by omega)]
    refine ⟨c₂, by simp only [if_true, hwrite]; rfl, fun k hk => ?_, fun x hx => ?_, fun _ => ?_,
      hsame.trans hsame'⟩
    · rw [hentry' k fun heq => hlen (hk heq), hentry k hk]
    · rw [hblock', Option.mem_some_iff] at hx
      exact hx ▸ hprefix
    · exact ⟨hlength ▸ hrow, by rw [hblock']; rfl⟩

/-- `highlight_cache_get_line`: the array the row has, or one made for it. -/
theorem getLine_eq (h : ed.At T t p) (ample : c.heap.Ample) (r : Nat) :
    ∃ c', c.getLine ed r = some ((c'.entry r).colors, c') ∧
      (∀ k, (k = r → (c.entry r).colors.isSome) → c'.entry k = c.entry k) ∧
      (c'.entry r = c.entry r ∨ (c'.entry r).Begins
        (Syntax.lineColors c.currentLang (c.blockCommentOpenAt r) (Text.row t r))) ∧
      c.Recolored c' := by
  obtain ⟨c₁, hgrow, hlen, hentry, hsame⟩ := c.growRows_eq ample (r + 1)
  have hrow : r < c₁.lineColors.length := by omega
  simp only [getLine, hgrow, Bool.not_true, Bool.false_eq_true, if_false, row_eq hrow,
    Option.bind_eq_bind, Option.bind_some]
  by_cases hsome : (c₁.entry r).colors.isSome
  · exact ⟨c₁, by rw [if_pos hsome]; rfl, fun k _ => hentry k, .inl (hentry r), hsame⟩
  have hnone : ¬ (c.entry r).colors.isSome := hentry r ▸ hsome
  have hflag : c₁.blockCommentOpenAt r = c.blockCommentOpenAt r := by
    simp only [blockCommentOpenAt, hsame.flags]
  obtain ⟨c₂, hline, hentry₂, hbegins, harray, hsame₂⟩ :=
    highlightRow_eq h hsame.ample r (c.blockCommentOpenAt r)
  rw [if_neg hsome, hflag, hline]
  rw [hsame.lang] at hbegins
  have hkeep (k : Nat) (hk : k = r → (c.entry r).colors.isSome) : c₂.entry k = c.entry k := by
    rw [hentry₂ k fun heq => absurd (hk heq) hnone, hentry k]
  by_cases hlen₀ : (Text.row t r).length = 0
  · rw [decide_eq_false (by omega)]
    have heq : c₂.entry r = c.entry r := (hentry₂ r fun _ => hlen₀).trans (hentry r)
    have hcolors : (c₂.entry r).colors = none := by
      rw [heq]
      exact Option.not_isSome_iff_eq_none.1 hnone
    exact ⟨c₂, by rw [hcolors]; rfl, hkeep, .inl heq, hsame.trans hsame₂⟩
  · obtain ⟨hrow₂, -⟩ := harray (by omega)
    rw [decide_eq_true (by omega)]
    refine ⟨c₂, ?_, hkeep, .inr hbegins, hsame.trans hsame₂⟩
    simp only [Option.bind_some, Bool.not_true, Bool.false_eq_true, if_false, row_eq hrow₂]
    rfl

/-- The loop of `rebuild_block_comment_open_full`, in the state in which the scan of the
text meets row `r`. -/
theorem rebuildFullLoop_eq (h : ed.At T t p) (ample : c.heap.Ample) {n : Nat}
    (hn : r + n = t.length) (hlen : t.length ≤ c.blockCommentOpen.length)
    (hflags : ∀ k < r, c.blockCommentOpenAt (k : Nat) = commentAt c.currentLang t k) :
    ∃ c', rebuildFullLoop ed n r (commentAt c.currentLang t r) c = some c' ∧
      (∀ k < t.length, c'.blockCommentOpenAt (k : Nat) = commentAt c.currentLang t k) ∧
      c.Reflagged c' := by
  induction n generalizing r c with
  | zero => exact ⟨c, rfl, fun k hk => hflags k (by omega), rfl, rfl, ample⟩
  | succ n ih =>
    have hr : r < t.length := by omega
    have hr' : r < c.blockCommentOpen.length := by omega
    obtain ⟨c₁, hset, hlength, hflag, hsame⟩ := setFlag_eq ample hr' (commentAt c.currentLang t r)
    have hbefore (k : Nat) (hk : k < r + 1) :
        c₁.blockCommentOpenAt k = commentAt c₁.currentLang t k := by
      rw [hflag, hsame.lang]
      split
      · next heq => rw [heq]
      · exact hflags k (by omega)
    obtain ⟨c₂, hloop, hall, hsame'⟩ := ih hsame.ample (by omega) (hlength ▸ hlen) hbefore
    rw [hsame.lang] at hloop hall
    refine ⟨c₂, ?_, hall, hsame'.lang.trans hsame.lang, hsame'.rows.trans hsame.rows, hsame'.ample⟩
    simp only [rebuildFullLoop, hset, Option.bind_eq_bind, Option.bind_some, lineText_eq h r,
      hsame.lang, Syntax.highlightLine_eq]
    rw [← commentAt_succ hr]
    exact hloop

/-- `highlight_cache_set_language`: no colours, and the right flags. -/
theorem setLanguage_eq (h : ed.At T t p) (ample : c.heap.Ample) (lang : SyntaxLanguage) :
    ∃ c', c.setLanguage ed lang = some c' ∧ c'.currentLang = lang ∧ (∀ k, c'.entry k = .null) ∧
      (∀ k < t.length, c'.blockCommentOpenAt (k : Nat) = commentAt lang t k) ∧ c'.heap.Ample := by
  obtain ⟨c₁, hgrow, hlen, -, hsame⟩ :=
    ({ c with currentLang := lang }.invalidateAll).growFlags_eq ample (t.length + 1)
  have hlang : c₁.currentLang = lang := hsame.lang
  obtain ⟨c₂, hloop, hflags, hsame'⟩ := rebuildFullLoop_eq h hsame.ample
    (Nat.zero_add t.length) (by omega) fun k hk => absurd hk (Nat.not_lt_zero k)
  rw [hlang] at hloop hflags
  refine ⟨c₂, ?_, hsame'.lang.trans hlang, fun k => ?_, hflags, hsame'.ample⟩
  · simp only [setLanguage, rebuildFull, h.rowCount_eq, hgrow, Bool.not_true, Bool.false_eq_true,
      if_false, Int.toNat_natCast]
    exact hloop
  · simp only [entry, hsame'.rows, hsame.rows, invalidateAll, List.getElem?_map]
    cases c.lineColors[k]? with
    | none => rfl
    | some e => rfl

/-- A round of `highlight_cache_rebuild_from`: it stops where the next flag is right,
else the next row loses its colours and gets its flag. -/
theorem rebuildLoop_succ (h : ed.At T t p) (ample : c.heap.Ample) (hr : r < t.length)
    (hflags : t.length < c.blockCommentOpen.length) (n : Nat) (b : Bool) :
    ∃ c', (∀ k, (k = r → (Text.row t r).length = 0) → c'.entry k = c.entry k) ∧
      (c'.entry r).Begins (Syntax.lineColors c.currentLang b (Text.row t r)) ∧
      c.Recolored c' ∧
      (if c.blockCommentOpenAt (r + 1 : Nat) =
          Syntax.commentAfter c.currentLang b (Text.row t r) then
        rebuildLoop ed (n + 1) r b c = some c'
      else ∃ c'', (∀ k, c''.entry k = if k = r + 1 then .null else c'.entry k) ∧
        c''.blockCommentOpen.length = c.blockCommentOpen.length ∧
        (∀ k : Nat, c''.blockCommentOpenAt k = if k = r + 1 then
          Syntax.commentAfter c.currentLang b (Text.row t r) else c.blockCommentOpenAt k) ∧
        c''.currentLang = c.currentLang ∧ c''.heap.Ample ∧
        rebuildLoop ed (n + 1) r b c = rebuildLoop ed n (r + 1 : Nat)
          (Syntax.commentAfter c.currentLang b (Text.row t r)) c'') := by
  obtain ⟨c', hline, hentry, hbegins, -, hsame⟩ := highlightRow_eq h ample r b
  have hlen : r + 1 < c'.blockCommentOpen.length := by
    rw [hsame.flags]
    omega
  have hread : Block.read c'.blockCommentOpen ((r : Int) + 1) =
      some (c.blockCommentOpenAt (r + 1 : Nat)) := by
    rw [← hsame.flag, blockCommentOpenAt_natCast, show (r : Int) + 1 = (r + 1 : Nat) from rfl,
      Block.read_natCast, List.getElem?_eq_getElem hlen, Option.getD_some]
  refine ⟨c', hentry, hbegins, hsame, ?_⟩
  simp only [rebuildLoop, hline, Option.bind_eq_bind, Option.bind_some,
    if_pos (show (r : Int) + 1 < c'.blockCommentOpen.length by omega), hread]
  split
  · rfl
  · obtain ⟨c₁, hfree, -, hentry₁, hsame₁⟩ := c'.freeRow_eq hsame.ample (r + 1)
    have hlen₁ : r + 1 < c₁.blockCommentOpen.length := by rwa [hsame₁.flags]
    obtain ⟨c₂, hset, hlength, hflag, hkeep⟩ := setFlag_eq hsame₁.ample hlen₁
      (Syntax.commentAfter c.currentLang b (Text.row t r))
    refine ⟨c₂, fun k => (hkeep.entry k).trans (hentry₁ k), ?_, fun k => ?_,
      (hkeep.lang.trans hsame₁.lang).trans hsame.lang, hkeep.ample, ?_⟩
    · rw [hlength, hsame₁.flags, hsame.flags]
    · rw [hflag, hsame₁.flag, hsame.flag]
    · rw [show (r : Int) + 1 = (r + 1 : Nat) from rfl, hfree, Option.bind_some, hset]
      rfl

end Text

end HighlightCache

end LCode
