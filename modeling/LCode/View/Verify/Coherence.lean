import LCode.Commands.Verify.Files
import LCode.View.Verify.Capacity

/-!
# Colours that are those of the document

The cache is coherent with a text if its comment flags are right and every array
begins with the colours a scan of the text from the top gives the row. A line redraw
restores coherence after a change of the cursor row; the other redraws keep what
they find, so it takes an event that leaves flags and kept rows as they were.
-/

namespace LCode

open HighlightCache

/-- The fetched array agrees with a scan of the text from the top. -/
def Fetch.Agrees (lang : SyntaxLanguage) (t : List (List UInt8)) (f : Fetch) : Prop :=
  colorsAt lang t f.row.toNat <+: f.colors

instance (lang : SyntaxLanguage) (t : List (List UInt8)) : DecidablePred (Fetch.Agrees lang t) :=
  fun f => inferInstanceAs (Decidable (_ <+: f.colors))

/-! ## Texts that differ in one row -/

section Text

variable {lang : SyntaxLanguage} {t t' : List (List UInt8)} {r : Nat}

theorem commentAt_congr (ht : r ≤ t.length) (ht' : r ≤ t'.length)
    (h : ∀ k < r, Text.row t' k = Text.row t k) : commentAt lang t' r = commentAt lang t r := by
  induction r with
  | zero => rfl
  | succ r ih =>
    rw [commentAt_succ ht, commentAt_succ ht', h r (Nat.lt_succ_self r),
      ih (by omega) (by omega) fun k hk => h k (by omega)]

theorem colorsAt_beyond (h : t.length ≤ r) : colorsAt lang t r = [] := by
  refine List.eq_nil_of_length_eq_zero ?_
  rw [colorsAt, Syntax.lineColors_length, Text.row_beyond h, List.length_nil]

end Text

namespace HighlightCache

variable {T : Prop} {ed : Editor} {lang : SyntaxLanguage} {t : List (List UInt8)} {p : Pos}
  {c : HighlightCache} {r : Nat}

/-! ## Coherence -/

/-- The cache is right for the text `t`. -/
structure Coherent (lang : SyntaxLanguage) (t : List (List UInt8)) (c : HighlightCache) : Prop where
  ample : c.heap.Ample
  current : c.currentLang = lang
  flag : ∀ k < t.length, c.blockCommentOpenAt (k : Nat) = commentAt lang t k
  entry : ∀ k, (c.entry k).Begins (colorsAt lang t k)

/-- The cache is right up to the flag of row `r`; below, flags and colours are right if
row `r` ends as the next flag says. -/
structure CoherentBut (lang : SyntaxLanguage) (t : List (List UInt8)) (r : Nat)
    (c : HighlightCache) : Prop where
  ample : c.heap.Ample
  current : c.currentLang = lang
  flag : ∀ k < t.length, k ≤ r → c.blockCommentOpenAt (k : Nat) = commentAt lang t k
  chained : Scan.Chained (Syntax.commentAfter lang) t (fun k => c.blockCommentOpenAt (k : Nat))
    (r + 1)
  entry : ∀ k < t.length, k ≠ r →
    (c.entry k).Begins (Syntax.lineColors lang (c.blockCommentOpenAt (k : Nat)) (Text.row t k))

theorem Coherent.but (h : Coherent lang t c) (r : Nat) : CoherentBut lang t r c where
  ample := h.ample
  current := h.current
  flag k hk _ := h.flag k hk
  chained := (Scan.chained_before h.flag).mono (Nat.zero_le _)
  entry k hk _ := by
    rw [h.flag k hk]
    exact h.entry k

theorem Coherent.withHeap (h : Coherent lang t c) {heap : Heap} (ample : heap.Ample) :
    Coherent lang t (c.withHeap heap) :=
  ⟨ample, h.current, h.flag, h.entry⟩

/-- Row `r` highlighted, the next flag is compared. -/
theorem CoherentBut.coherent (h : CoherentBut lang t r c)
    (hentry : (c.entry r).Begins (colorsAt lang t r))
    (hnext : r + 1 < t.length →
      c.blockCommentOpenAt (r + 1 : Nat) = commentAt lang t (r + 1)) : Coherent lang t c := by
  have hflag (k : Nat) (hk : k < t.length) : c.blockCommentOpenAt k = commentAt lang t k := by
    by_cases hle : k ≤ r
    · exact h.flag k hk hle
    · exact h.chained.eq_before (hnext (by omega)) (Nat.lt_of_not_le hle) hk
  refine ⟨h.ample, h.current, hflag, fun k => ?_⟩
  by_cases hk : k < t.length
  · by_cases heq : k = r
    · exact heq ▸ hentry
    · have hbegins := h.entry k hk heq
      rwa [hflag k hk] at hbegins
  · rw [colorsAt_beyond (Nat.not_lt.1 hk)]
    exact RowColors.begins_nil _

theorem CoherentBut.rebuildLoop (h : ed.At T t p) (hbut : CoherentBut lang t r c) {n : Nat}
    (hn : r + n = t.length) (hr : r < t.length) (hlen : t.length < c.blockCommentOpen.length) :
    ∃ c', HighlightCache.rebuildLoop ed n r (commentAt lang t r) c = some c' ∧
      Coherent lang t c' := by
  induction n generalizing r c with
  | zero => omega
  | succ n ih =>
    obtain ⟨c₁, hentry, hbegins, hsame, hround⟩ :=
      rebuildLoop_succ h hbut.ample hr hlen n (commentAt lang t r)
    rw [hbut.current] at hbegins hround
    rw [← commentAt_succ hr] at hround
    have hrow (k : Nat) (hk : k ≠ r) : c₁.entry k = c.entry k :=
      hentry k fun heq => absurd heq hk
    have hbut₁ : CoherentBut lang t r c₁ := by
      refine ⟨hsame.ample, hsame.lang.trans hbut.current, fun k hk hle => ?_, ?_, fun k hk hne => ?_⟩
      · rw [hsame.flag, hbut.flag k hk hle]
      · simp only [hsame.flag]
        exact hbut.chained
      · rw [hsame.flag, hrow k hne]
        exact hbut.entry k hk hne
    split at hround
    · next hnext => exact ⟨c₁, hround, hbut₁.coherent hbegins fun _ => by rw [hsame.flag, hnext]⟩
    · obtain ⟨c₂, hentry₂, hlength, hflag₂, hlang₂, ample₂, hloop⟩ := hround
      by_cases hlast : r + 1 < t.length
      · have hbut₂ : CoherentBut lang t (r + 1) c₂ := by
          refine ⟨ample₂, hlang₂, fun k hk hle => ?_, fun k hk hle hk' => ?_,
            fun k hk hne => ?_⟩
          · rw [hflag₂]
            split
            · next heq => rw [heq]
            · exact hbut.flag k hk (by omega)
          · simp only [hflag₂, if_neg (show ¬ k + 1 = r + 1 by omega),
              if_neg (show ¬ k = r + 1 by omega)]
            exact hbut.chained k hk (by omega) hk'
          · rw [hentry₂, hflag₂, if_neg hne, if_neg hne]
            by_cases heq : k = r
            · subst heq
              rw [hbut.flag k hk (Nat.le_refl k)]
              exact hbegins
            · rw [hrow k heq]
              exact hbut.entry k hk heq
        rw [hloop]
        exact ih hbut₂ (by omega) hlast (hlength ▸ hlen)
      · -- the flag behind the last row is set, and the loop ends
        obtain rfl : n = 0 := by omega
        refine ⟨c₂, hloop, ample₂, hlang₂, fun k hk => ?_, fun k => ?_⟩
        · rw [hflag₂, if_neg (by omega)]
          exact hbut.flag k hk (by omega)
        · rw [hentry₂]
          split
          · exact RowColors.begins_null _
          · have hcoherent := hbut₁.coherent hbegins fun hlt => absurd hlt hlast
            exact hcoherent.entry k

/-- `highlight_cache_rebuild_from` restores coherence. -/
theorem CoherentBut.rebuildFrom (h : ed.At T t p) (hbut : CoherentBut lang t r c)
    (hr : r < t.length) : ∃ c', c.rebuildFrom ed r = some c' ∧ Coherent lang t c' := by
  have hcount := h.rowCount_eq
  obtain ⟨c₁, hgrow, hlen, hflag, hsame⟩ := c.growFlags_eq hbut.ample (ed.doc.rowCount + 1)
  have hr₁ : r < c₁.blockCommentOpen.length := by omega
  have hbut₁ : CoherentBut lang t r c₁ := by
    refine ⟨hsame.ample, hsame.lang.trans hbut.current, fun k hk hle => ?_, ?_, fun k hk hne => ?_⟩
    · rw [hflag, hbut.flag k hk hle]
    · simp only [hflag]
      exact hbut.chained
    · rw [hflag, hsame.entry]
      exact hbut.entry k hk hne
  have hread : c₁.blockCommentOpen[r]? = some (commentAt lang t r) := by
    have heq := hbut₁.flag r hr (Nat.le_refl r)
    rw [blockCommentOpenAt_natCast, List.getElem?_eq_getElem hr₁, Option.getD_some] at heq
    rw [List.getElem?_eq_getElem hr₁, heq]
  have hn : (ed.doc.rowCount - r).toNat = t.length - r := by omega
  unfold HighlightCache.rebuildFrom
  dsimp only
  rw [if_neg (by omega), hgrow, hn]
  simp only [Bool.not_true, Bool.false_eq_true, if_false, Block.read_natCast, hread,
    Option.bind_eq_bind, Option.bind_some]
  exact hbut₁.rebuildLoop h (by omega) hr (by omega)

theorem Coherent.fetch (h : ed.At T t p) (hcoherent : Coherent lang t c) (r : Nat)
    (first last : Int) :
    ∃ fs c', Desk.fetch ed c r first last = some (fs, c') ∧ Coherent lang t c' ∧
      ∀ f ∈ fs, f.Agrees lang t := by
  obtain ⟨c₁, hline, hentry, hnew, hsame⟩ := getLine_eq h hcoherent.ample r
  have hbegins : (c₁.entry r).Begins (colorsAt lang t r) := by
    rcases hnew with hold | hbegins
    · exact hold ▸ hcoherent.entry r
    · by_cases hr : r < t.length
      · rwa [hcoherent.current, hcoherent.flag r hr] at hbegins
      · rw [colorsAt_beyond (Nat.not_lt.1 hr)]
        exact RowColors.begins_nil _
  have hcoherent₁ : Coherent lang t c₁ := by
    refine ⟨hsame.ample, hsame.lang.trans hcoherent.current, fun k hk => ?_, fun k => ?_⟩
    · rw [hsame.flag]
      exact hcoherent.flag k hk
    · by_cases hk : k = r
      · exact hk ▸ hbegins
      · rw [hentry k fun heq => absurd heq hk]
        exact hcoherent.entry k
  simp only [Desk.fetch, hline, Option.bind_eq_bind, Option.bind_some]
  cases hcolors : (c₁.entry r).colors with
  | none => exact ⟨[], c₁, rfl, hcoherent₁, by simp⟩
  | some colors =>
    have hsome : (c₁.entry r).colors.isSome := by rw [hcolors]; rfl
    rw [row_eq (lt_of_isSome hsome)]
    refine ⟨_, c₁, rfl, hcoherent₁, fun f hf => ?_⟩
    obtain rfl := List.mem_singleton.1 hf
    exact hbegins colors hcolors

/-- Drawing keeps coherence and shows the right colours. -/
theorem painter_coherent (h : ed.At T t p) :
    Painter ed t (Coherent lang t) (Fetch.Agrees lang t) where
  fetch _ r first last hcoherent _ := hcoherent.fetch h r first last
  rebuild c r hcoherent := by
    by_cases hr : r < t.length
    · exact (hcoherent.but r).rebuildFrom h hr
    · have hcount := h.rowCount_eq
      exact ⟨c, by unfold HighlightCache.rebuildFrom; exact if_pos (by omega), hcoherent⟩

end HighlightCache

/-! ## Rounds of the main loop -/

namespace Desk

/-- The event leaves the colours that the redraw keeps those of the document: for a
line redraw only the cursor row has changed; for another the comment flags are right
as they are, and what a kept array shows is still so. -/
def Carries (s s' : Desk) : Prop :=
  if s'.app.renderMode = .line then
    s'.rows.length = s.rows.length ∧ ∀ k < s'.rows.length,
      (k : Int) ≠ s'.app.editor.cursorRow → Text.row s'.rows k = Text.row s.rows k
  else
    (∀ r < s'.rows.length,
      s'.cache.blockCommentOpenAt (r : Nat) = commentAt s'.cache.currentLang s'.rows r) ∧
    ∀ r < s'.rows.length, ∀ k ∈ s'.keptBy r, (s'.cache.entry k).colors.isSome →
      colorsAt s'.cache.currentLang s'.rows r <+: colorsAt s'.cache.currentLang s.rows k

instance (s s' : Desk) : Decidable (s.Carries s') :=
  have (r : Nat) : Decidable (∀ k ∈ s'.keptBy r, (s'.cache.entry k).colors.isSome →
      colorsAt s'.cache.currentLang s'.rows r <+: colorsAt s'.cache.currentLang s.rows k) :=
    inferInstanceAs (Decidable (∀ k ∈ s'.keptBy r, _ → _ <+: _))
  inferInstanceAs (Decidable (if s'.app.renderMode = .line then _ ∧ (∀ k < s'.rows.length, _)
    else (∀ r < s'.rows.length, _) ∧ ∀ r < s'.rows.length, _))

/-- The event is one the redraw after it copes with. -/
def Traces (s : Desk) (r : Round) : Prop := ∀ s' ∈ s.handle r.event, s.Carries s'

instance (s : Desk) (r : Round) : Decidable (s.Traces r) :=
  inferInstanceAs (Decidable (∀ s' ∈ s.handle r.event, _))

/-- The round is drawn in the colours of the document it leaves. -/
def Coloured (s : Desk) (r : Round) : Prop :=
  ∃ q ∈ s.round r, ∀ f ∈ q.2, f.Agrees q.1.cache.currentLang q.1.rows

instance (s : Desk) (r : Round) : Decidable (s.Coloured r) :=
  inferInstanceAs (Decidable (∃ q ∈ s.round r, ∀ f ∈ q.2, _))

variable {s s' : Desk} {lang : SyntaxLanguage} {t t' : List (List UInt8)} {p p' : Pos}

/-- What the redraw needs of the cache. -/
structure Ready (s : Desk) (lang : SyntaxLanguage) (t : List (List UInt8)) (p : Pos) : Prop where
  current : s.cache.currentLang = lang
  line : s.app.renderMode = .line →
    CoherentBut lang t p.row (s.cache.withHeap s.app.editor.doc.heap)
  flag : s.app.renderMode ≠ .line → ∀ k < t.length,
    s.cache.blockCommentOpenAt (k : Nat) = commentAt lang t k
  kept : s.app.renderMode ≠ .line → ∀ r < t.length, ∀ k ∈ s.keptBy r,
    (s.cache.entry k).Begins (colorsAt lang t r)

/-- A blank cache is coherent. -/
theorem Blank.coherent {c : HighlightCache} (h : Blank c t) {heap : Heap} (ample : heap.Ample) :
    Coherent c.currentLang t (c.withHeap heap) := by
  refine ⟨ample, rfl, h.flag, fun k => ?_⟩
  have hnull : (c.withHeap heap).entry k = .null := h.entry k
  rw [hnull]
  exact RowColors.begins_null _

theorem begins_beyond (e : RowColors) {r : Nat} (h : t.length ≤ r) :
    e.Begins (colorsAt lang t r) := by
  rw [colorsAt_beyond h]
  exact RowColors.begins_nil e

/-- Where the whole text is redrawn, the cache synchronised with it is coherent. -/
theorem Ready.sync (hready : s.Ready lang t p) (h : s.Sound t p)
    (hfull : s.app.renderMode = .full) :
    ∃ c, (s.cache.withHeap s.app.editor.doc.heap).sync t.length p.row = some c ∧
      Coherent lang t c := by
  have hat := h.good.sound.at'
  have ample : (s.cache.withHeap s.app.editor.doc.heap).heap.Ample := hat.ample
  have hline : s.app.renderMode ≠ .line := by
    rw [hfull]
    nofun
  obtain ⟨c, hsync, hsame, hentry⟩ := sync_eq ample hat.valid.1
  refine ⟨c, hsync, hsame.ample, hsame.lang.trans hready.current, fun k hk => ?_, fun r => ?_⟩
  · rw [hsame.flag]
    exact hready.flag hline k hk
  · by_cases hr : r < t.length
    · rw [hentry r hr]
      have hk := hready.kept hline r hr
      rw [keptBy, hfull, hat.rowCount_eq, hat.row] at hk
      cases hfrom : keptFrom (s.cache.withHeap s.app.editor.doc.heap).lastRowCount t.length
          p.row r with
      | none => exact RowColors.begins_null _
      | some k => exact hk k hfrom
    · exact begins_beyond _ (Nat.not_lt.1 hr)

/-- Where a line is redrawn, the cache rebuilt from it on is coherent. -/
theorem Ready.rebuild (hready : s.Ready lang t p) (h : s.Sound t p)
    (hline : s.app.renderMode = .line) :
    ∃ c₁ c₂, (s.cache.withHeap s.app.editor.doc.heap).freeRow p.row = some c₁ ∧
      c₁.rebuildFrom s.app.editor p.row = some c₂ ∧ Coherent lang t c₂ := by
  have hat := h.good.sound.at'
  have hbut := hready.line hline
  obtain ⟨c₁, hfree, -, hentry, hsame⟩ := freeRow_eq _ hbut.ample p.row
  have hbut₁ : CoherentBut lang t p.row c₁ := by
    refine ⟨hsame.ample, hsame.lang.trans hbut.current, fun k hk hle => ?_, ?_, fun k hk hne => ?_⟩
    · rw [hsame.flag]
      exact hbut.flag k hk hle
    · simp only [hsame.flag]
      exact hbut.chained
    · rw [hentry, if_neg hne, hsame.flag]
      exact hbut.entry k hk hne
  obtain ⟨c₂, hbuild, hcoherent₂⟩ := hbut₁.rebuildFrom hat hat.valid.1
  exact ⟨c₁, c₂, hfree, hbuild, hcoherent₂⟩

/-- Elsewhere the cache is coherent as it is. -/
theorem Ready.coherent (hready : s.Ready lang t p) (h : s.Sound t p)
    (hfull : s.app.renderMode ≠ .full) (hline : s.app.renderMode ≠ .line) :
    Coherent lang t (s.cache.withHeap s.app.editor.doc.heap) := by
  refine ⟨h.good.sound.at'.ample, hready.current, hready.flag hline, fun r => ?_⟩
  by_cases hr : r < t.length
  · refine hready.kept hline r hr r ?_
    rw [keptBy]
    cases hmode : s.app.renderMode <;> first | exact absurd hmode ‹_› | rfl
  · exact begins_beyond _ (Nat.not_lt.1 hr)

/-- A redraw of a cache that is ready shows the right colours. -/
theorem Sound.viewRender_coherent (h : s.Sound t p) (hready : s.Ready lang t p) :
    ∃ s' fs, s.viewRender = some (s', fs) ∧ s'.Sound t p ∧
      Coherent lang t (s'.cache.withHeap s'.app.editor.doc.heap) ∧ ∀ f ∈ fs, f.Agrees lang t := by
  have hat := h.good.sound.at'
  obtain ⟨r₀, hprev⟩ := Int.eq_ofNat_of_zero_le h.prev
  obtain ⟨fs, c, hdraw, hcoherent, hfs⟩ := (painter_coherent hat).renderEditorUi hat h.scrolled
    hprev (hready.sync h) (hready.rebuild h) (hready.coherent h)
  obtain ⟨s', hview, hsound', rfl⟩ := h.viewRender hdraw hcoherent.ample
  exact ⟨s', fs, hview, hsound', hcoherent.withHeap hsound'.good.sound.at'.ample, hfs⟩

/-- An event the redraw copes with leaves a coherent cache ready. -/
theorem Carries.ready (h : s.Sound t p) (h' : s'.Sound t' p')
    (hcoherent : Coherent lang t (s.cache.withHeap s.app.editor.doc.heap))
    (hcache : s'.cache = s.cache) (hcarries : s.Carries s') : s'.Ready lang t' p' := by
  have hcurrent : s'.cache.currentLang = lang := by
    rw [hcache]
    exact hcoherent.current
  rw [Carries, h.rows_eq, h'.rows_eq, hcurrent, h'.good.sound.at'.row] at hcarries
  refine ⟨hcurrent, fun hline => ?_, fun hline => ?_, fun hline r hr k hk => ?_⟩
  · rw [if_pos hline] at hcarries
    obtain ⟨hlen, hrows⟩ := hcarries
    have hrow (k : Nat) (hk : k < t'.length) (hne : k ≠ p'.row) :
        Text.row t' k = Text.row t k := hrows k hk (by omega)
    have hflag (k : Nat) : (s'.cache.withHeap s'.app.editor.doc.heap).blockCommentOpenAt (k : Nat) =
        (s.cache.withHeap s.app.editor.doc.heap).blockCommentOpenAt (k : Nat) := by
      rw [hcache]
      rfl
    refine ⟨h'.good.sound.at'.ample, hcurrent, fun k hk hle => ?_, fun k hk hle hk' => ?_,
      fun k hk hne => ?_⟩
    · rw [hflag, hcoherent.flag k (hlen ▸ hk)]
      exact (commentAt_congr (by omega) (by omega) fun j hj => hrow j (by omega) (by omega)).symm
    · have hk₀ : k < t.length := hlen ▸ hk
      have hat : t'[k] = t[k] := by
        rw [← Text.row_eq_getElem hk, ← Text.row_eq_getElem hk₀, hrow k hk (by omega)]
      simp only [hflag]
      rw [hat]
      exact Scan.chained_before hcoherent.flag k hk₀ (Nat.zero_le k) (hlen ▸ hk')
    · rw [hflag, hrow k hk hne, hcoherent.flag k (hlen ▸ hk), hcache]
      exact hcoherent.entry k
  · rw [if_neg hline] at hcarries
    exact hcarries.1
  · rw [if_neg hline] at hcarries
    intro block hblock
    have hsome : (s'.cache.entry k).colors.isSome := by
      rw [Option.mem_def.1 hblock]
      rfl
    refine (hcarries.2 r hr k hk hsome).trans (hcoherent.entry k block ?_)
    rw [hcache] at hblock
    exact hblock

/-- What a run that the redraws cope with keeps. -/
def CoherentRun (s : Desk) : Prop :=
  ∃ t p, s.Sound t p ∧
    Coherent s.cache.currentLang t (s.cache.withHeap s.app.editor.doc.heap)

/-- After the event the cache is ready for the redraw. -/
theorem CoherentRun.handle (h : s.CoherentRun) {r : Round} (htraces : s.Traces r) :
    ∃ s₁ t₁ p₁, s.handle r.event = some s₁ ∧ s₁.Sound t₁ p₁ ∧
      s₁.Ready s₁.cache.currentLang t₁ p₁ := by
  obtain ⟨t, p, hsound, hcoherent⟩ := h
  obtain ⟨s₁, t₁, p₁, hhandle, hsound₁, hcache⟩ := hsound.handle r.event
  refine ⟨s₁, t₁, p₁, hhandle, hsound₁, ?_⟩
  rcases hcache with heq | hblank
  · have hready := (htraces s₁ hhandle).ready hsound hsound₁ hcoherent heq
    rwa [← heq] at hready
  · have hcoherent₁ := hblank.coherent hsound₁.good.sound.at'.ample
    refine ⟨rfl, fun _ => hcoherent₁.but p₁.row, fun _ => hblank.flag, fun _ r _ k _ => ?_⟩
    rw [hblank.entry k]
    exact RowColors.begins_null _

theorem CoherentRun.round (h : s.CoherentRun) {r : Round} (htraces : s.Traces r) :
    ∃ s' fs, s.round r = some (s', fs) ∧ s'.CoherentRun ∧
      ∀ f ∈ fs, f.Agrees s'.cache.currentLang s'.rows := by
  obtain ⟨s₁, t₁, p₁, hhandle, hsound₁, hready⟩ := h.handle htraces
  simp only [Desk.round, hhandle, Option.bind_eq_bind, Option.bind_some]
  split
  · next hidle =>
    have hline : s₁.app.renderMode ≠ .line := by
      rw [hidle.1]
      decide
    refine ⟨s₁, [], rfl, ⟨t₁, p₁, hsound₁, hsound₁.good.sound.at'.ample, rfl, hready.flag hline,
      fun k => ?_⟩, by simp⟩
    by_cases hk : k < t₁.length
    · refine hready.kept hline k hk k ?_
      rw [keptBy, hidle.1]
      rfl
    · exact begins_beyond _ (Nat.not_lt.1 hk)
  · obtain ⟨s₂, fs, hview, hsound₂, hcoherent₂, hfs⟩ := hsound₁.viewRender_coherent hready
    have hcurrent : s₂.cache.currentLang = s₁.cache.currentLang := hcoherent₂.current
    rw [← hcurrent] at hcoherent₂ hfs
    exact ⟨s₂, fs, hview, ⟨t₁, p₁, hsound₂, hcoherent₂⟩, hsound₂.rows_eq.symm ▸ hfs⟩

theorem CoherentRun.next (h : s.CoherentRun) {r : Round} (htraces : s.Traces r)
    (hnext : s.next r = some s') : s'.CoherentRun := by
  obtain ⟨s₁, fs, hround, hrun, -⟩ := h.round htraces
  rw [Desk.next, hround] at hnext
  exact Option.some.inj hnext ▸ hrun

theorem CoherentRun.coloured (h : s.CoherentRun) {r : Round} (htraces : s.Traces r) :
    s.Coloured r := by
  obtain ⟨s₁, fs, hround, -, hfs⟩ := h.round htraces
  exact ⟨(s₁, fs), hround, hfs⟩

/-- `scene_set_language` sets the language it was called with. -/
theorem Sound.setLanguage_current (h : s.Sound t p) (hset : s.app.languageSet = true)
    (hs' : s.setLanguage = some s') : s'.cache.currentLang = s.app.language := by
  obtain ⟨c, hlang, hcur, -⟩ := setLanguage_eq (c := s.cache.withHeap s.app.editor.doc.heap)
    h.good.sound.at' h.good.sound.at'.ample s.app.language
  rw [Desk.setLanguage, hset, hlang] at hs'
  obtain rfl := Option.some.inj hs'
  exact hcur

/-- `execute_open` of a file that is there leaves a cache that is right for it. -/
theorem Sound.executeOpen (h : s.Sound t p) {name contents : List UInt8} (hname : name ≠ [])
    (hread : s.app.files.read name = some contents) :
    ∃ s', s.executeOpen name = some s' ∧ s'.cache.currentLang = syntaxDetectLanguage name ∧
      s'.CoherentRun := by
  obtain ⟨doc, hopen, -⟩ := Commands.executeOpen_eq h.good.sound.at'.holds.shows.freeable
    h.good.sound.at'.ample hname hread
  obtain ⟨app, happ, hopens⟩ := executeOpen_opens h.good name
  obtain rfl := Option.some.inj (hopen.symm.trans happ)
  obtain ⟨t', p', hsound⟩ : ∃ t' p', Desk.Sound { s with app :=
      ({ s.app with editor := s.app.editor.afterInit doc }.setFile name) } t' p' := by
    rcases hopens with hdid | ⟨t', hdid⟩
    · exact ⟨t, p, hdid.good, hdid.scrolled h.scrolled, h.prev⟩
    · exact ⟨t', ⟨0, 0⟩, hdid.good, hdid.scrolled h.scrolled, h.prev⟩
  obtain ⟨s', hset, hsound', hcache⟩ := hsound.setLanguage
  refine ⟨s', by simp only [Desk.executeOpen, hopen, Option.bind_eq_bind, Option.bind_some, hset],
    hsound.setLanguage_current rfl hset, t', p', hsound', ?_⟩
  rcases hcache with ⟨-, hfalse⟩ | hblank
  · nomatch hfalse
  · exact hblank.coherent hsound'.good.sound.at'.ample

end Desk

/-- From a C file opened on, while the events are ones the redraws cope with, the
colours drawn are those of the document. -/
theorem drawn_coherent {s : Desk} {t : List (List UInt8)} {p : Pos} (h : s.Sound t p)
    {name contents : List UInt8} (hname : name ≠ [])
    (hread : s.app.files.read name = some contents) (hlang : syntaxDetectLanguage name = .c) :
    ∃ s', s.executeOpen name = some s' ∧ s'.cache.currentLang = .c ∧
      ∀ rounds, Along Desk.next Desk.Traces s' rounds →
        Along Desk.next Desk.Coloured s' rounds := by
  obtain ⟨s', hopen, hcurrent, hrun⟩ := h.executeOpen hname hread
  refine ⟨s', hopen, hcurrent.trans hlang, fun rounds => Along.of_invariant ?_ ?_ hrun⟩
  · intro s r s' hrun htraces hnext
    exact hrun.next htraces hnext
  · intro s r hrun htraces
    exact hrun.coloured htraces

/-- A disk with one C file. -/
def cDisk : Files :=
  { Commands.emptyDisk with
    read := fun name => if name = ascii "a.c" then some (ascii "1\n") else none }

/-- The desk with that file opened. -/
def cDesk : Option Desk := do
  let app ← App.start cDisk .zeros (ascii "a.c")
  (← Desk.start app).executeOpen (ascii "a.c")

/-- The desk whose file is not yet opened. -/
theorem cDesk_opens : ∃ app s t p, App.start cDisk .zeros (ascii "a.c") = some app ∧
    Desk.start app = some s ∧ s.Sound t p ∧ s.app.files.read (ascii "a.c") = some (ascii "1\n") ∧
    cDesk = s.executeOpen (ascii "a.c") := by
  obtain ⟨app, happ, good⟩ := start_good True cDisk Heap.zeros_ample (ascii "a.c")
  obtain ⟨s, hstart, t, p, hsound, -⟩ :=
    Desk.start_roomy good (start_scrolled Heap.zeros_ample happ)
  have hread : ((App.start cDisk .zeros (ascii "a.c")).bind Desk.start).map
      (fun s => s.app.files.read (ascii "a.c")) = some (some (ascii "1\n")) := by
    decide +kernel
  rw [happ, Option.bind_some, hstart, Option.map_some] at hread
  refine ⟨app, s, t, p, happ, hstart, hsound, Option.some.inj hread, ?_⟩
  simp only [cDesk, happ, hstart, Option.bind_eq_bind, Option.bind_some]

/-- Typing, Enter and Backspace without a selection. -/
theorem drawn_coherent_typing : ∃ s, cDesk = some s ∧ s.cache.currentLang = .c ∧
    Along Desk.next Desk.Coloured s (typed [{ KeyEvent.none with c := 'x'.toUInt8 },
      { KeyEvent.none with enter := true }, { KeyEvent.none with backspace := true }]) := by
  obtain ⟨-, s, t, p, -, -, hsound, hread, hcDesk⟩ := cDesk_opens
  obtain ⟨s', hopen, hcurrent, hdrawn⟩ := drawn_coherent hsound (by decide) hread (by decide)
  have hdesk : cDesk = some s' := hcDesk.trans hopen
  refine ⟨s', hdesk, hcurrent, hdrawn _ ?_⟩
  have htraces : cDesk.map (fun s => decide (Along Desk.next Desk.Traces s (typed
      [{ KeyEvent.none with c := 'x'.toUInt8 }, { KeyEvent.none with enter := true },
        { KeyEvent.none with backspace := true }]))) = some true := by
    decide +kernel
  rw [hdesk, Option.map_some, Option.some.injEq] at htraces
  exact of_decide_eq_true htraces

/-- The number of the file selected and a letter typed over it: the letter is drawn in
the colour of a number. -/
theorem typed_over_stale : ∃ s, cDesk = some s ∧
    ¬ Along Desk.next Desk.Coloured s (typed [{ KeyEvent.none with dir := .right, shift := true },
      { KeyEvent.none with c := 'x'.toUInt8 }]) := by
  have hrun : cDesk.map (fun s => decide (Along Desk.next Desk.Coloured s (typed
      [{ KeyEvent.none with dir := .right, shift := true },
        { KeyEvent.none with c := 'x'.toUInt8 }]))) = some false := by
    decide +kernel
  obtain ⟨s, hs, hrun⟩ := Option.map_eq_some_iff.1 hrun
  exact ⟨s, hs, of_decide_eq_false hrun⟩

end LCode
