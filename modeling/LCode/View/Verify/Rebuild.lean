import LCode.Editor.Verify.Atomic
import LCode.View.Verify.Coherence

/-!
# A rebuild from a row

`highlight_cache_rebuild_from` stops at the first row whose comment flag comes out as it
was. After a change of one row it leaves all the same what a rebuild of the whole
document computes: `Fresh` is that, stated with the full rebuild.
-/

namespace LCode

namespace HighlightCache

/-- The flags of the rows are those of a full rebuild, and an array of a row begins with
the colours the row is given, highlighted from its flag. -/
structure Fresh (ed : Editor) (t : List (List UInt8)) (c : HighlightCache) : Prop where
  flags : ∃ full, c.rebuildFull ed = some full ∧
    c.blockCommentOpen.take t.length = full.blockCommentOpen.take t.length
  rows : ∀ r < t.length, (c.entry r).Begins
    (Syntax.lineColors c.currentLang (c.blockCommentOpenAt (r : Nat)) (Text.row t r))

section Fresh

variable {T : Prop} {ed : Editor} {t : List (List UInt8)} {p : Pos} {c : HighlightCache} {r : Nat}

/-- Flags allocated for the text are the same if they are read the same. -/
theorem take_flags_eq_iff {c c' : HighlightCache} {n : Nat} (hlen' : n ≤ c'.blockCommentOpen.length) :
    c.blockCommentOpen.take n = c'.blockCommentOpen.take n ↔ n ≤ c.blockCommentOpen.length ∧
      ∀ k < n, c.blockCommentOpenAt (k : Nat) = c'.blockCommentOpenAt (k : Nat) := by
  constructor
  · intro htake
    have hlen := congrArg List.length htake
    rw [List.length_take, List.length_take] at hlen
    refine ⟨by omega, fun k hk => ?_⟩
    have hget := congrArg (·[k]?) htake
    simp only [List.getElem?_take_of_lt hk] at hget
    rw [blockCommentOpenAt_natCast, blockCommentOpenAt_natCast, hget]
  · rintro ⟨hlen, hflag⟩
    refine List.ext_getElem? fun k => ?_
    by_cases hk : k < n
    · have hread := hflag k hk
      rw [blockCommentOpenAt_natCast, blockCommentOpenAt_natCast,
        List.getElem?_eq_getElem (by omega), List.getElem?_eq_getElem (by omega), Option.getD_some,
        Option.getD_some] at hread
      rw [List.getElem?_take_of_lt hk, List.getElem?_take_of_lt hk,
        List.getElem?_eq_getElem (by omega), List.getElem?_eq_getElem (by omega), hread]
    · rw [List.getElem?_eq_none (by rw [List.length_take]; omega),
        List.getElem?_eq_none (by rw [List.length_take]; omega)]

theorem setFlag_length {c' : HighlightCache} {row : Int} {b : Bool}
    (h : c.setFlag row b = some c') : c'.blockCommentOpen.length = c.blockCommentOpen.length := by
  simp only [setFlag, Option.bind_eq_bind, Option.bind_eq_some_iff, Option.pure_def,
    Option.some.injEq] at h
  obtain ⟨flags, hstore, rfl⟩ := h
  exact Block.store_length hstore

theorem rebuildFullLoop_length {n : Nat} {row : Int} {b : Bool} {c' : HighlightCache}
    (h : rebuildFullLoop ed n row b c = some c') :
    c'.blockCommentOpen.length = c.blockCommentOpen.length := by
  induction n generalizing c row b with
  | zero => rw [← Option.some.inj h]
  | succ n ih =>
    obtain ⟨c₁, hset, h⟩ := Option.bind_eq_some_iff.1 h
    obtain ⟨line, -, h⟩ := Option.bind_eq_some_iff.1 h
    exact (ih h).trans (setFlag_length hset)

theorem rebuildLoop_length (h : ed.At T t p) {n : Nat} {b : Bool} {c c' : HighlightCache}
    (ample : c.heap.Ample) (hn : r + n = t.length) (hlen : t.length < c.blockCommentOpen.length)
    (hloop : rebuildLoop ed n r b c = some c') :
    c'.blockCommentOpen.length = c.blockCommentOpen.length := by
  induction n generalizing r b c with
  | zero => rw [← Option.some.inj hloop]
  | succ n ih =>
    obtain ⟨c₁, -, -, hsame, hround⟩ := rebuildLoop_succ h ample (show r < t.length by omega) hlen n b
    split at hround
    · rw [hround, Option.some.injEq] at hloop
      rw [← hloop, hsame.flags]
    · obtain ⟨c₂, -, hlength, -, -, ample₂, hnext⟩ := hround
      rw [hnext] at hloop
      exact (ih ample₂ (by omega) (by omega) hloop).trans hlength

/-- `rebuild_block_comment_open_full`. -/
theorem rebuildFull_eq (h : ed.At T t p) (ample : c.heap.Ample) :
    ∃ full, c.rebuildFull ed = some full ∧ t.length < full.blockCommentOpen.length ∧
      ∀ k < t.length, full.blockCommentOpenAt (k : Nat) = commentAt c.currentLang t k := by
  obtain ⟨c₁, hgrow, hlen, -, hsame⟩ := c.growFlags_eq ample (t.length + 1)
  obtain ⟨c₂, hloop, hflags, -⟩ := rebuildFullLoop_eq h hsame.ample
    (Nat.zero_add t.length) (by omega) fun k hk => absurd hk (Nat.not_lt_zero k)
  have hlength := rebuildFullLoop_length hloop
  rw [hsame.lang] at hloop hflags
  refine ⟨c₂, ?_, by omega, hflags⟩
  simp only [rebuildFull, h.rowCount_eq, hgrow, Bool.not_true, Bool.false_eq_true, if_false,
    Int.toNat_natCast]
  exact hloop

/-- A cache is fresh if its flags are allocated and right, and its colours are. -/
theorem fresh_iff (h : ed.At T t p) (ample : c.heap.Ample) :
    Fresh ed t c ↔ t.length ≤ c.blockCommentOpen.length ∧ Coherent c.currentLang t c := by
  obtain ⟨full, hfull, hlen, hright⟩ := rebuildFull_eq h ample
  constructor
  · rintro ⟨⟨full', hfull', htake⟩, hrows⟩
    obtain rfl := Option.some.inj (hfull.symm.trans hfull')
    obtain ⟨hroom, hsame⟩ := (take_flags_eq_iff (by omega)).1 htake
    have hflag (k : Nat) (hk : k < t.length) :
        c.blockCommentOpenAt (k : Nat) = commentAt c.currentLang t k :=
      (hsame k hk).trans (hright k hk)
    refine ⟨hroom, ample, rfl, hflag, fun k => ?_⟩
    by_cases hk : k < t.length
    · have hbegins := hrows k hk
      rwa [hflag k hk] at hbegins
    · rw [colorsAt_beyond (Nat.not_lt.1 hk)]
      exact RowColors.begins_nil _
  · rintro ⟨hroom, hcoherent⟩
    refine ⟨⟨full, hfull, (take_flags_eq_iff (by omega)).2 ⟨hroom, fun k hk => ?_⟩⟩, fun k hk => ?_⟩
    · rw [hcoherent.flag k hk, hright k hk]
    · rw [hcoherent.flag k hk]
      exact hcoherent.entry k

/-- One row of a text replaced. -/
theorem row_set {x : List UInt8} (hr : r < t.length) (k : Nat) :
    Text.row (t.set r x) k = if k = r then x else Text.row t k := by
  by_cases hk : k < t.length
  · have hk' : k < (t.set r x).length := by rwa [List.length_set]
    rw [Text.row_eq_getElem hk', List.getElem_set, Text.row_eq_getElem hk]
    split
    · next heq => rw [if_pos heq.symm]
    · next hne => rw [if_neg (Ne.symm hne)]
  · rw [Text.row_beyond (by rw [List.length_set]; omega), if_neg (by omega),
      Text.row_beyond (by omega)]

/-- A cache that is fresh for a document is fresh for the one with row `r` replaced, once
that row has been freed and the flags rebuilt from it, whatever stands in the row and
however many rows its comment state reaches. -/
theorem rebuildFrom_fresh {S : Prop} {ed' : Editor} {q : Pos} (h : ed.At S t q)
    (ample : c.heap.Ample) (hfresh : Fresh ed t c) (hr : r < t.length) (x : List UInt8)
    (h' : ed'.At T (t.set r x) p) :
    ∃ c₁ c₂, c.freeRow r = some c₁ ∧ c₁.rebuildFrom ed' r = some c₂ ∧
      Fresh ed' (t.set r x) c₂ := by
  obtain ⟨hroom, hcoherent⟩ := (fresh_iff h ample).1 hfresh
  have hlen : (t.set r x).length = t.length := List.length_set
  obtain ⟨c₁, hfree, -, hentry, hsame⟩ := c.freeRow_eq ample r
  have hbefore (k : Nat) (hk : k ≤ r) : commentAt c.currentLang (t.set r x) k =
      commentAt c.currentLang t k :=
    commentAt_congr (by omega) (by omega) fun j hj => by rw [row_set hr, if_neg (by omega)]
  have hbut : CoherentBut c.currentLang (t.set r x) r c₁ := by
    refine ⟨hsame.ample, hsame.lang, fun k hk hle => ?_, fun k hk hle hk' => ?_,
      fun k hk hne => ?_⟩
    · rw [hsame.flag, hcoherent.flag k (by omega), hbefore k hle]
    · -- below the row that was replaced the text, and so the chain of flags, is the old one
      rw [List.getElem_set_ne (by omega)]
      simp only [hsame.flag]
      exact Scan.chained_before hcoherent.flag k (by omega) (Nat.zero_le k) (by omega)
    · rw [hentry, if_neg hne, hsame.flag, row_set hr, if_neg hne, hcoherent.flag k (by omega)]
      exact hcoherent.entry k
  obtain ⟨c₂, hbuild, hcoherent₂⟩ := hbut.rebuildFrom h' (by omega)
  refine ⟨c₁, c₂, hfree, hbuild, (fresh_iff h' hcoherent₂.ample).2 ⟨?_, ?_⟩⟩
  · have hcount := h'.rowCount_eq
    obtain ⟨c₃, hgrow, hlen₃, -, hsame₃⟩ := c₁.growFlags_eq hsame.ample (ed'.doc.rowCount + 1)
    have hn : (ed'.doc.rowCount - r).toNat = t.length - r := by omega
    unfold HighlightCache.rebuildFrom at hbuild
    dsimp only at hbuild
    rw [if_neg (by omega), hgrow, hn] at hbuild
    obtain ⟨b, -, hloop⟩ := Option.bind_eq_some_iff.1 hbuild
    have hlength := rebuildLoop_length h' hsame₃.ample (by omega) (by omega) hloop
    omega
  · rwa [hcoherent₂.current]

/-- The cache of two rows of C, nothing highlighted yet. -/
def blank : HighlightCache := ⟨.c, List.replicate 64 false, [], 2, .zeros⟩

/-- A comment opened in the first of two rows. -/
theorem rebuildFrom_fresh_opened :
    ∃ c₁ c₂, blank.freeRow (0 : Nat) = some c₁ ∧
      c₁.rebuildFrom (Editor.standing [ascii "/*", ascii "b"] ⟨0, 2⟩ ⟨1, 0⟩ none) (0 : Nat) =
        some c₂ ∧
      Fresh (Editor.standing [ascii "/*", ascii "b"] ⟨0, 2⟩ ⟨1, 0⟩ none)
        ([ascii "a", ascii "b"].set 0 (ascii "/*")) c₂ := by
  have hold : (Editor.standing [ascii "a", ascii "b"] ⟨0, 0⟩ ⟨1, 0⟩ none).At True
      [ascii "a", ascii "b"] ⟨0, 0⟩ := Editor.standing_at (by decide) _ _
  have hnew : (Editor.standing [ascii "/*", ascii "b"] ⟨0, 2⟩ ⟨1, 0⟩ none).At True
      ([ascii "a", ascii "b"].set 0 (ascii "/*")) ⟨0, 2⟩ := Editor.standing_at (by decide) _ _
  have hfresh : Fresh (Editor.standing [ascii "a", ascii "b"] ⟨0, 0⟩ ⟨1, 0⟩ none)
      [ascii "a", ascii "b"] blank := by
    refine (fresh_iff hold Heap.zeros_ample).2 ⟨by decide, Heap.zeros_ample, rfl, by decide, ?_⟩
    intro k
    have hnull : blank.entry k = .null := entry_beyond (Nat.zero_le k)
    rw [hnull]
    exact RowColors.begins_null _
  exact rebuildFrom_fresh hold Heap.zeros_ample hfresh (by decide) (ascii "/*") hnew

end Fresh

end HighlightCache

end LCode
