import LCode.Lib.Along
import LCode.Peer.Verify.Integrity
import LCode.View.Verify.Render

/-!
# The room in the colour arrays

An array is made for a row when the row is first drawn and kept while the cache has
it, so it has room as long as no row that keeps an array grows. A full redraw keeps
the arrays of all rows but those a change of the row count points at; a line redraw
gives the cursor row a new one; the other redraws keep all arrays.
-/

namespace LCode

open HighlightCache

/-- Every read of `colors[c]` is within the array the cache has allocated. -/
def Fetch.InBounds (f : Fetch) : Prop := ∀ c : Int, f.first ≤ c → c < f.last → c < f.cap

theorem Fetch.inBounds_iff (f : Fetch) :
    (f.first < f.last → f.last ≤ f.cap) ↔ f.InBounds := by
  constructor
  · intro h c hfirst hlast
    have := h (by omega)
    omega
  · intro h hlt
    have := h (f.last - 1) (by omega) (by omega)
    omega

instance : DecidablePred Fetch.InBounds := fun f => decidable_of_iff _ f.inBounds_iff

namespace Desk

/-- The rows of the document. -/
def rows (s : Desk) : List (List UInt8) := s.app.editor.doc.text.getD []

/-- The row that had the array with which the scheduled redraw begins at row `r`. -/
def keptBy (s : Desk) (r : Nat) : Option Nat :=
  match s.app.renderMode with
  | .full => keptFrom s.cache.lastRowCount s.app.editor.doc.rowCount s.app.editor.cursorRow r
  | .line => if (r : Int) = s.app.editor.cursorRow then none else some r
  | _ => some r

/-- From `s` to `s'` no row has become longer than the row whose array it keeps. -/
def KeepsShort (s s' : Desk) : Prop :=
  ∀ r < s'.rows.length, ∀ k ∈ s'.keptBy r, (s'.cache.entry k).colors.isSome →
    (Text.row s'.rows r).length ≤ (Text.row s.rows k).length

instance (s s' : Desk) : Decidable (s.KeepsShort s') :=
  inferInstanceAs (Decidable (∀ r < s'.rows.length, ∀ k ∈ s'.keptBy r, _ → _))

/-- The event lengthens no row whose array the redraw after it keeps. -/
def Spares (s : Desk) (r : Round) : Prop := ∀ s' ∈ s.handle r.event, s.KeepsShort s'

instance (s : Desk) (r : Round) : Decidable (s.Spares r) :=
  inferInstanceAs (Decidable (∀ s' ∈ s.handle r.event, _))

/-- The round is drawn with reads inside the arrays. -/
def ReadsInBounds (s : Desk) (r : Round) : Prop :=
  ∃ fs ∈ (s.round r).map Prod.snd, ∀ f ∈ fs, f.InBounds

instance (s : Desk) (r : Round) : Decidable (s.ReadsInBounds r) :=
  inferInstanceAs (Decidable (∃ fs ∈ (s.round r).map Prod.snd, ∀ f ∈ fs, f.InBounds))

end Desk

/-! ## Arrays with room for their rows -/

namespace HighlightCache

/-- Every array has room for its row of the text `t`. -/
structure Roomy (t : List (List UInt8)) (c : HighlightCache) : Prop where
  ample : c.heap.Ample
  fits : ∀ r, (c.entry r).Fits (Text.row t r).length

variable {T : Prop} {ed : Editor} {t : List (List UInt8)} {p : Pos} {c : HighlightCache} {r : Nat}

theorem fits_null (n : Nat) : RowColors.null.Fits n := nofun

theorem begins_fits {e : RowColors} {lang : SyntaxLanguage} {b : Bool} {x : List UInt8}
    (h : e.Begins (Syntax.lineColors lang b x)) : e.Fits x.length :=
  Syntax.lineColors_length lang b x ▸ h.fits

theorem Roomy.rebuildLoop (h : ed.At T t p) (hroomy : Roomy t c) {n : Nat} (hn : r + n = t.length)
    (hflags : t.length < c.blockCommentOpen.length) (b : Bool) :
    ∃ c', HighlightCache.rebuildLoop ed n r b c = some c' ∧ Roomy t c' := by
  induction n generalizing r b c with
  | zero => exact ⟨c, rfl, hroomy⟩
  | succ n ih =>
    have hr : r < t.length := by omega
    obtain ⟨c₁, hentry, hbegins, hsame, hround⟩ := rebuildLoop_succ h hroomy.ample hr hflags n b
    have hroomy₁ : Roomy t c₁ := by
      refine ⟨hsame.ample, fun k => ?_⟩
      by_cases hk : k = r
      · exact hk ▸ begins_fits hbegins
      · rw [hentry k fun heq => absurd heq hk]
        exact hroomy.fits k
    split at hround
    · exact ⟨c₁, hround, hroomy₁⟩
    · obtain ⟨c₂, hentry₂, hlen, -, -, ample₂, hloop⟩ := hround
      rw [hloop]
      refine ih ⟨ample₂, fun k => ?_⟩ (by omega) (hlen ▸ hflags) _
      rw [hentry₂]
      split
      · exact fits_null _
      · exact hroomy₁.fits k

theorem Roomy.rebuildFrom (h : ed.At T t p) (hroomy : Roomy t c) (r : Nat) :
    ∃ c', c.rebuildFrom ed r = some c' ∧ Roomy t c' := by
  have hcount := h.rowCount_eq
  unfold HighlightCache.rebuildFrom
  dsimp only
  split
  · exact ⟨c, rfl, hroomy⟩
  · obtain ⟨c₁, hgrow, hlen, -, hsame⟩ := c.growFlags_eq hroomy.ample (ed.doc.rowCount + 1)
    have hr : r < c₁.blockCommentOpen.length := by omega
    have hroomy₁ : Roomy t c₁ := ⟨hsame.ample, fun k => hsame.entry k ▸ hroomy.fits k⟩
    have hn : (ed.doc.rowCount - r).toNat = t.length - r := by omega
    rw [hgrow, hn]
    simp only [Bool.not_true, Bool.false_eq_true, if_false, Block.read_natCast,
      List.getElem?_eq_getElem hr, Option.bind_eq_bind, Option.bind_some]
    exact hroomy₁.rebuildLoop h (by omega) (by omega) _

theorem Roomy.fetch (h : ed.At T t p) (hroomy : Roomy t c) {first last : Int}
    (hlast : last ≤ ((Text.row t r).length : Int)) :
    ∃ fs c', Desk.fetch ed c r first last = some (fs, c') ∧ Roomy t c' ∧ ∀ f ∈ fs, f.InBounds := by
  obtain ⟨c₁, hline, hentry, hnew, hsame⟩ := getLine_eq h hroomy.ample r
  have hfits : (c₁.entry r).Fits (Text.row t r).length := by
    rcases hnew with hold | hbegins
    · exact hold ▸ hroomy.fits r
    · exact begins_fits hbegins
  have hroomy₁ : Roomy t c₁ := by
    refine ⟨hsame.ample, fun k => ?_⟩
    by_cases hk : k = r
    · exact hk ▸ hfits
    · rw [hentry k fun heq => absurd heq hk]
      exact hroomy.fits k
  simp only [Desk.fetch, hline, Option.bind_eq_bind, Option.bind_some]
  cases hcolors : (c₁.entry r).colors with
  | none => exact ⟨[], c₁, rfl, hroomy₁, nofun⟩
  | some colors =>
    have hsome : (c₁.entry r).colors.isSome := by rw [hcolors]; rfl
    rw [row_eq (lt_of_isSome hsome)]
    refine ⟨_, c₁, rfl, hroomy₁, fun f hf c hfirst hlt => ?_⟩
    obtain rfl := List.mem_singleton.1 hf
    have hcap := hfits hsome
    dsimp only at hlt ⊢
    omega

/-- Drawing keeps the room and reads within it. -/
theorem painter_roomy (h : ed.At T t p) : Painter ed t (Roomy t) Fetch.InBounds where
  fetch _ _ _ _ hroomy hlast := hroomy.fetch h hlast
  rebuild _ r hroomy := hroomy.rebuildFrom h r

end HighlightCache

/-! ## Rounds of the main loop -/

namespace Desk

variable {s s' : Desk} {t t' : List (List UInt8)} {p p' : Pos}

theorem Sound.rows_eq (h : s.Sound t p) : s.rows = t := by
  rw [rows, h.good.sound.at'.holds.shows.text_eq, Option.getD_some]

theorem fits_beyond (e : RowColors) {r : Nat} (h : t.length ≤ r) :
    e.Fits (Text.row t r).length := by
  intro _
  have hsized := e.sized
  rw [Text.row_beyond h, List.length_nil]
  omega

/-- Where every kept array has room, the redraw keeps to the arrays. -/
theorem Sound.viewRender_roomy (h : s.Sound t p)
    (hkept : ∀ r < t.length, ∀ k ∈ s.keptBy r, (s.cache.entry k).Fits (Text.row t r).length) :
    ∃ s' fs, s.viewRender = some (s', fs) ∧ s'.Sound t p ∧
      (∀ r, (s'.cache.entry r).Fits (Text.row t r).length) ∧ ∀ f ∈ fs, f.InBounds := by
  have hat := h.good.sound.at'
  have hvalid : p.row < t.length := hat.valid.1
  have ample : (s.cache.withHeap s.app.editor.doc.heap).heap.Ample := hat.ample
  obtain ⟨r₀, hprev⟩ := Int.eq_ofNat_of_zero_le h.prev
  obtain ⟨fs, c, hdraw, hroomy, hfs⟩ : ∃ fs c,
      s.renderEditorUi (s.cache.withHeap s.app.editor.doc.heap) = some (fs, c) ∧ Roomy t c ∧
      ∀ f ∈ fs, f.InBounds := by
    refine (painter_roomy hat).renderEditorUi hat h.scrolled hprev (fun hfull => ?_)
      (fun hline => ?_) (fun hfull hline => ⟨ample, fun r => ?_⟩)
    · obtain ⟨c, hsync, hsame, hentry⟩ := sync_eq ample hvalid
      refine ⟨c, hsync, hsame.ample, fun r => ?_⟩
      by_cases hr : r < t.length
      · rw [hentry r hr]
        have hk := hkept r hr
        rw [keptBy, hfull, hat.rowCount_eq, hat.row] at hk
        cases hfrom : keptFrom (s.cache.withHeap s.app.editor.doc.heap).lastRowCount t.length
            p.row r with
        | none => exact fits_null _
        | some k => exact hk k hfrom
      · exact fits_beyond _ (Nat.not_lt.1 hr)
    · obtain ⟨c₁, hfree, -, hentry, hsame⟩ := freeRow_eq _ ample p.row
      have hroomy₁ : Roomy t c₁ := by
        refine ⟨hsame.ample, fun r => ?_⟩
        rw [hentry]
        split
        · exact fits_null _
        · next hne =>
          by_cases hr : r < t.length
          · refine hkept r hr r ?_
            rw [keptBy, hline, hat.row]
            exact if_neg (by omega)
          · exact fits_beyond _ (Nat.not_lt.1 hr)
      obtain ⟨c₂, hbuild, hroomy₂⟩ := hroomy₁.rebuildFrom hat p.row
      exact ⟨c₁, c₂, hfree, hbuild, hroomy₂⟩
    · by_cases hr : r < t.length
      · refine hkept r hr r ?_
        rw [keptBy]
        cases hmode : s.app.renderMode <;> first | exact absurd hmode ‹_› | rfl
      · exact fits_beyond _ (Nat.not_lt.1 hr)
  obtain ⟨s', hview, hsound', rfl⟩ := h.viewRender hdraw hroomy.ample
  exact ⟨s', fs, hview, hsound', hroomy.fits, hfs⟩

/-- What a run that spares the kept arrays keeps. -/
def RoomyRun (s : Desk) : Prop :=
  ∃ t p, s.Sound t p ∧ ∀ r, (s.cache.entry r).Fits (Text.row t r).length

theorem RoomyRun.round (h : s.RoomyRun) {r : Round} (hspares : s.Spares r) :
    ∃ s' fs, s.round r = some (s', fs) ∧ s'.RoomyRun ∧ ∀ f ∈ fs, f.InBounds := by
  obtain ⟨t, p, hsound, hfits⟩ := h
  obtain ⟨s₁, t₁, p₁, hhandle, hsound₁, hcache⟩ := hsound.handle r.event
  have hkept (r : Nat) (hr : r < t₁.length) (k : Nat) (hk : k ∈ s₁.keptBy r) :
      (s₁.cache.entry k).Fits (Text.row t₁ r).length := by
    intro hsome
    have hshort := hspares s₁ hhandle r (hsound₁.rows_eq.symm ▸ hr) k hk hsome
    rw [hsound₁.rows_eq, hsound.rows_eq] at hshort
    rcases hcache with heq | hblank
    · rw [heq] at hsome ⊢
      have := hfits k hsome
      omega
    · rw [hblank.entry k] at hsome
      nomatch hsome
  simp only [Desk.round, hhandle, Option.bind_eq_bind, Option.bind_some]
  split
  · next hidle =>
    refine ⟨s₁, [], rfl, ⟨t₁, p₁, hsound₁, fun k => ?_⟩, nofun⟩
    by_cases hk : k < t₁.length
    · refine hkept k hk k ?_
      rw [keptBy, hidle.1]
      rfl
    · exact fits_beyond _ (Nat.not_lt.1 hk)
  · obtain ⟨s₂, fs, hview, hsound₂, hfits₂, hfs⟩ := hsound₁.viewRender_roomy hkept
    exact ⟨s₂, fs, hview, ⟨t₁, p₁, hsound₂, hfits₂⟩, hfs⟩

theorem RoomyRun.next (h : s.RoomyRun) {r : Round} (hspares : s.Spares r)
    (hnext : s.next r = some s') : s'.RoomyRun := by
  obtain ⟨s₁, fs, hround, hrun, -⟩ := h.round hspares
  rw [Desk.next, hround] at hnext
  exact Option.some.inj hnext ▸ hrun

theorem RoomyRun.reads (h : s.RoomyRun) {r : Round} (hspares : s.Spares r) : s.ReadsInBounds r := by
  obtain ⟨s₁, fs, hround, -, hfs⟩ := h.round hspares
  exact ⟨fs, by rw [hround]; exact rfl, hfs⟩

/-- The first desk has no arrays. -/
theorem start_roomy {app : App} (good : app.Good True t p) (hscroll : app.editor.Scrolled) :
    ∃ s, start app = some s ∧ s.RoomyRun := by
  have hsound : Desk.Sound ⟨app, .static app.editor.doc.heap, 0, 0⟩ t p :=
    ⟨good, hscroll, Int.le_refl 0⟩
  obtain ⟨s', hset, hsound', hcache⟩ := hsound.setLanguage
  refine ⟨s', hset, t, p, hsound', fun r => ?_⟩
  have hnull : s'.cache.entry r = .null := by
    rcases hcache with ⟨heq, -⟩ | hblank
    · rw [heq]
      rfl
    · exact hblank.entry r
  rw [hnull]
  exact fits_null _

end Desk

/-- `editor_init` scrolls to the top. -/
theorem start_scrolled {files : Files} {heap : Heap} (ample : heap.Ample) {name : List UInt8}
    {app : App} (hstart : App.start files heap name = some app) : app.editor.Scrolled := by
  have hstatic : (Editor.static heap).doc.Freeable := .inr ⟨rfl, rfl⟩
  obtain ⟨doc, hinit, -⟩ := Editor.init_eq (R := Line.Holds True) hstatic ample
  simp only [App.start, App.static, hinit] at hstart
  obtain rfl := Option.some.inj hstart
  exact ⟨Int.le_refl 0, Int.le_refl 0⟩

/-- From the start on, while no row that keeps its array grows, the colours are read
within the arrays. -/
theorem drawn_within_capacity (files : Files) {heap : Heap} (ample : heap.Ample)
    (name : List UInt8) :
    ∃ app s, App.start files heap name = some app ∧ Desk.start app = some s ∧
      ∀ rounds, Along Desk.next Desk.Spares s rounds →
        Along Desk.next Desk.ReadsInBounds s rounds := by
  obtain ⟨app, happ, good⟩ := start_good True files ample name
  obtain ⟨s, hstart, hroomy⟩ := Desk.start_roomy good (start_scrolled ample happ)
  refine ⟨app, s, happ, hstart, fun rounds => Along.of_invariant ?_ ?_ hroomy⟩
  · intro s r s' hrun hspares hnext
    exact hrun.next hspares hnext
  · intro s r hrun hspares
    exact hrun.reads hspares

/-- A round for each key, drawn if the key schedules a redraw. -/
def typed (keys : List KeyEvent) : List Desk.Round := keys.map fun ev => ⟨.key ev, false⟩

/-- A row that grows under a cursor that only moves along it. -/
theorem drawn_within_capacity_typing : ∃ app s,
    App.start Commands.emptyDisk .zeros (ascii "a.c") = some app ∧ Desk.start app = some s ∧
    Along Desk.next Desk.ReadsInBounds s (typed [{ KeyEvent.none with c := 'a'.toUInt8 },
      { KeyEvent.none with dir := .left }, { KeyEvent.none with c := 'b'.toUInt8 },
      { KeyEvent.none with enter := true }, { KeyEvent.none with backspace := true }]) := by
  obtain ⟨app, s, happ, hstart, hdrawn⟩ :=
    drawn_within_capacity Commands.emptyDisk Heap.zeros_ample (ascii "a.c")
  refine ⟨app, s, happ, hstart, hdrawn _ ?_⟩
  have hspares : ((App.start Commands.emptyDisk .zeros (ascii "a.c")).bind Desk.start).map
      (fun s => decide (Along Desk.next Desk.Spares s (typed
        [{ KeyEvent.none with c := 'a'.toUInt8 }, { KeyEvent.none with dir := .left },
          { KeyEvent.none with c := 'b'.toUInt8 }, { KeyEvent.none with enter := true },
          { KeyEvent.none with backspace := true }]))) = some true := by
    decide +kernel
  rw [happ, Option.bind_some, hstart, Option.map_some, Option.some.injEq] at hspares
  exact of_decide_eq_true hspares

/-- A paste into the row it was copied from: the row is longer than its array. -/
theorem paste_read_beyond : ∃ app s,
    App.start Commands.emptyDisk .zeros (ascii "a.c") = some app ∧ Desk.start app = some s ∧
    ¬ Along Desk.next Desk.ReadsInBounds s (typed [{ KeyEvent.none with c := 'a'.toUInt8 },
      { KeyEvent.none with dir := .left, shift := true },
      { KeyEvent.none with c := 'c'.toUInt8, ctrl := true }, { KeyEvent.none with dir := .right },
      { KeyEvent.none with c := 'v'.toUInt8, ctrl := true }]) := by
  have hrun : ((App.start Commands.emptyDisk .zeros (ascii "a.c")).bind Desk.start).map
      (fun s => decide (Along Desk.next Desk.ReadsInBounds s (typed
        [{ KeyEvent.none with c := 'a'.toUInt8 }, { KeyEvent.none with dir := .left, shift := true },
          { KeyEvent.none with c := 'c'.toUInt8, ctrl := true },
          { KeyEvent.none with dir := .right },
          { KeyEvent.none with c := 'v'.toUInt8, ctrl := true }]))) = some false := by
    decide +kernel
  obtain ⟨s, hs, hrun⟩ := Option.map_eq_some_iff.1 hrun
  obtain ⟨app, happ, hstart⟩ := Option.bind_eq_some_iff.1 hs
  exact ⟨app, s, happ, hstart, of_decide_eq_false hrun⟩

end LCode
