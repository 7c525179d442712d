import LCode.Peer.Verify.Local
import LCode.View.Render
import LCode.View.Verify.HighlightCache

/-!
# What rendering keeps

`Painter` is what an invariant of the cache needs in order to survive the drawing of
a text: rebuilding keeps it, and so does drawing a row, whose reads meet `Q`. A frame
of any kind keeps it then, once the cache has been brought up to the new text. The
process itself stays good throughout.
-/

namespace LCode

open HighlightCache

/-! ## Drawing -/

/-- An invariant `Inv` of the cache and a property `Q` of the reads, for the text `t`. -/
structure Painter (ed : Editor) (t : List (List UInt8)) (Inv : HighlightCache → Prop)
    (Q : Fetch → Prop) : Prop where
  fetch : ∀ (c : HighlightCache) (r : Nat) (first last : Int), Inv c →
    last ≤ ((Text.row t r).length : Int) → ∃ fs c', Desk.fetch ed c r first last = some (fs, c') ∧
      Inv c' ∧ ∀ f ∈ fs, Q f
  rebuild : ∀ (c : HighlightCache) (r : Nat), Inv c → ∃ c', c.rebuildFrom ed r = some c' ∧ Inv c'

section Painter

variable {T : Prop} {ed : Editor} {t : List (List UInt8)} {p : Pos} {Inv : HighlightCache → Prop}
  {Q : Fetch → Prop} {c : HighlightCache}

/-- Above the text there is nothing to draw. -/
theorem Painter.drawTextLines (paint : Painter ed t Inv Q) (h : ed.At T t p) (hinv : Inv c)
    {scrollCol : Int} (hcol : 0 ≤ scrollCol) (n : Nat) (row : Int) :
    ∃ fs c', Desk.drawTextLines ed scrollCol n row c = some (fs, c') ∧ Inv c' ∧
      ∀ f ∈ fs, Q f := by
  induction n generalizing row c with
  | zero => exact ⟨[], c, rfl, hinv, nofun⟩
  | succ n ih =>
    obtain ⟨len, hlen, hrow⟩ : ∃ len, ed.getLineLen row = some len ∧
        (scrollCol < len → ∃ r : Nat, row = r ∧ len = (Text.row t r).length) := by
      by_cases hneg : row < 0
      · exact ⟨0, by rw [Editor.getLineLen, if_pos (.inl hneg)], fun hlt => by omega⟩
      · obtain ⟨r, rfl⟩ := Int.eq_ofNat_of_zero_le (Int.not_lt.1 hneg)
        exact ⟨_, Editor.getLineLen_row h.holds.shows r, fun _ => ⟨r, rfl, rfl⟩⟩
    simp only [Desk.drawTextLines, hlen, Option.bind_eq_bind, Option.bind_some]
    split
    · exact ih hinv (row + 1)
    · next hlt =>
      obtain ⟨r, rfl, rfl⟩ := hrow (by omega)
      obtain ⟨fs, c₁, hfetch, hinv₁, hfs⟩ := paint.fetch c r scrollCol _ hinv (Int.le_refl _)
      obtain ⟨fs', c₂, hdraw, hinv₂, hfs'⟩ := ih hinv₁ ((r : Int) + 1)
      refine ⟨fs ++ fs', c₂, ?_, hinv₂, fun f hf => ?_⟩
      · rw [hfetch, Option.bind_some, hdraw]
        rfl
      · exact (List.mem_append.1 hf).elim (hfs f) (hfs' f)

/-- RENDER_WORD and RENDER_CHAR: the row of the old cursor position is brought up. -/
theorem Painter.renderWord (paint : Painter ed t Inv Q) (h : ed.At T t p) (hinv : Inv c)
    (prevRow : Nat) (prevCol : Int) :
    ∃ fs c', Desk.renderWord ed prevRow prevCol c = some (fs, c') ∧ Inv c' ∧ ∀ f ∈ fs, Q f := by
  obtain ⟨c₁, hbuild, hinv₁⟩ := paint.rebuild c prevRow hinv
  simp only [Desk.renderWord, hbuild, Editor.getLineLen_row h.holds.shows, Option.bind_eq_bind,
    Option.bind_some]
  refine paint.fetch c₁ prevRow _ _ hinv₁ ?_
  split <;> omega

theorem Painter.renderChar (paint : Painter ed t Inv Q) (h : ed.At T t p) (hinv : Inv c)
    (scene : Scene) (prevRow : Nat) (prevCol : Int) :
    ∃ fs c', Desk.renderChar ed scene prevRow prevCol c = some (fs, c') ∧ Inv c' ∧
      ∀ f ∈ fs, Q f := by
  unfold Desk.renderChar
  split
  · obtain ⟨c₁, hbuild, hinv₁⟩ := paint.rebuild c prevRow hinv
    simp only [hbuild, Editor.getLineLen_row h.holds.shows, Option.bind_eq_bind, Option.bind_some]
    split
    · exact paint.fetch c₁ prevRow _ _ hinv₁ (by omega)
    · exact ⟨[], c₁, rfl, hinv₁, nofun⟩
  · exact ⟨[], c, rfl, hinv, nofun⟩

/-- RENDER_LINE, where the cursor row rebuilt leaves a cache with the invariant. -/
theorem Painter.renderLine (paint : Painter ed t Inv Q) (h : ed.At T t p)
    (hinv : ∃ c₁ c₂, c.freeRow p.row = some c₁ ∧ c₁.rebuildFrom ed p.row = some c₂ ∧ Inv c₂) :
    ∃ fs c', Desk.renderLine ed c = some (fs, c') ∧ Inv c' ∧ ∀ f ∈ fs, Q f := by
  obtain ⟨c₁, c₂, hfree, hbuild, hinv₂⟩ := hinv
  simp only [Desk.renderLine, h.row, hfree, hbuild, Editor.getLineLen_row h.holds.shows,
    Option.bind_eq_bind, Option.bind_some]
  split
  · exact paint.fetch c₂ p.row _ _ hinv₂ (Int.le_refl _)
  · exact ⟨[], c₂, rfl, hinv₂, nofun⟩

/-- RENDER_FULL, where the synchronised cache has the invariant. -/
theorem Painter.renderFull (paint : Painter ed t Inv Q) (h : ed.At T t p)
    (hscroll : ed.Scrolled) (hinv : ∃ c', c.sync t.length p.row = some c' ∧ Inv c')
    (visRows : Int) :
    ∃ fs c', Desk.renderFull ed visRows c = some (fs, c') ∧ Inv c' ∧ ∀ f ∈ fs, Q f := by
  obtain ⟨c₁, hsync, hinv₁⟩ := hinv
  simp only [Desk.renderFull, h.rowCount_eq, h.row, hsync, Option.bind_eq_bind, Option.bind_some]
  exact paint.drawTextLines h hinv₁ hscroll.col _ _

/-- `render_editor_ui`, where the cache is brought up as the mode does it. -/
theorem Painter.renderEditorUi {s : Desk} (paint : Painter s.app.editor t Inv Q)
    (h : s.app.editor.At T t p) (hscroll : s.app.editor.Scrolled) {r : Nat}
    (hprev : s.prevRow = r)
    (full : s.app.renderMode = .full → ∃ c', c.sync t.length p.row = some c' ∧ Inv c')
    (line : s.app.renderMode = .line → ∃ c₁ c₂, c.freeRow p.row = some c₁ ∧
      c₁.rebuildFrom s.app.editor p.row = some c₂ ∧ Inv c₂)
    (other : s.app.renderMode ≠ .full → s.app.renderMode ≠ .line → Inv c) :
    ∃ fs c', s.renderEditorUi c = some (fs, c') ∧ Inv c' ∧ ∀ f ∈ fs, Q f := by
  unfold Desk.renderEditorUi
  rw [hprev]
  cases hmode : s.app.renderMode with
  | full => exact paint.renderFull h hscroll (full hmode) _
  | line => exact paint.renderLine h (line hmode)
  | word => exact paint.renderWord h (other (by simp [hmode]) (by simp [hmode])) r _
  | char => exact paint.renderChar h (other (by simp [hmode]) (by simp [hmode])) _ r _
  | remoteLine | status | mouse | none =>
    exact ⟨[], c, rfl, other (by simp [hmode]) (by simp [hmode]), nofun⟩

end Painter

/-! ## The process -/

section Process

variable {T : Prop} {app : App} {t : List (List UInt8)} {p : Pos} {heap : Heap}

theorem App.Good.withHeap (h : app.Good T t p) (ample : heap.Ample) :
    (app.withHeap heap).Good T t p := by
  have hat := h.sound.at'
  refine ⟨⟨⟨hat.holds.withHeap heap, ample, hat.row, hat.col, hat.valid⟩, fun hactive => ?_,
    h.sound.clip⟩, h.nul, h.tree, h.res, h.window⟩
  obtain ⟨s, hs⟩ := h.sound.selected hactive
  exact ⟨s, hs.active, hs.row, hs.col, hs.valid⟩

end Process

namespace Desk

/-- The process is good, and the cursor was last drawn at a place that can be. -/
structure Sound (s : Desk) (t : List (List UInt8)) (p : Pos) : Prop where
  good : s.app.Good True t p
  scrolled : s.app.editor.Scrolled
  prev : 0 ≤ s.prevRow

/-- The cache has no colours, and the flags of the text `t`. -/
structure Blank (c : HighlightCache) (t : List (List UInt8)) : Prop where
  entry : ∀ k, c.entry k = .null
  flag : ∀ k < t.length, c.blockCommentOpenAt (k : Nat) = commentAt c.currentLang t k

variable {s s' : Desk} {t : List (List UInt8)} {p : Pos}

/-- `scene_set_language`, if it was called, blanks the cache. -/
theorem Sound.setLanguage (h : s.Sound t p) :
    ∃ s', s.setLanguage = some s' ∧ s'.Sound t p ∧
      (s'.cache = s.cache ∧ s.app.languageSet = false ∨ Blank s'.cache t) := by
  unfold Desk.setLanguage
  cases hset : s.app.languageSet with
  | false => exact ⟨s, rfl, h, .inl ⟨rfl, rfl⟩⟩
  | true =>
    obtain ⟨c, hlang, hcur, hentry, hflag, ample⟩ := setLanguage_eq
      (c := s.cache.withHeap s.app.editor.doc.heap) h.good.sound.at' h.good.sound.at'.ample
      s.app.language
    rw [hlang]
    have hgood := h.good.withHeap ample
    exact ⟨_, rfl, ⟨⟨hgood.sound, hgood.nul, hgood.tree, hgood.res, hgood.window⟩,
      ⟨h.scrolled.row, h.scrolled.col⟩, h.prev⟩, .inr ⟨hentry, hcur ▸ hflag⟩⟩

/-- The event handlers leave the cache alone, or blank it for the text they leave. -/
theorem Sound.handle (h : s.Sound t p) (e : Event) :
    ∃ s' t' p', s.handle e = some s' ∧ s'.Sound t' p' ∧ (s'.cache = s.cache ∨ Blank s'.cache t') := by
  have hinput {app : App} (hgood : app.Good True t p) (hscroll : app.editor.Scrolled) (i : Input) :
      ∃ s' t' p', ((app.handle i).bind fun app => Desk.setLanguage { s with app }) = some s' ∧
        s'.Sound t' p' ∧ (s'.cache = s.cache ∨ Blank s'.cache t') := by
    obtain ⟨app', happ, hacts⟩ | ⟨hfalse, -⟩ := handle_acts hgood i
    · obtain ⟨t', p', hgood', hscroll'⟩ := hacts.scrolled hscroll
      have hsound : Desk.Sound { s with app := app' } t' p' := ⟨hgood', hscroll', h.prev⟩
      obtain ⟨s', hset, hs', hcache⟩ := hsound.setLanguage
      exact ⟨s', t', p', by rw [happ]; exact hset, hs', hcache.imp And.left id⟩
    · exact absurd trivial hfalse
  cases e with
  | key ev => exact hinput h.good h.scrolled (.key ev)
  | mouse me moved =>
    cases moved with
    | false => exact hinput h.good h.scrolled (.mouse me)
    | true =>
      have hgood : (s.app.setRender .mouse).Good True t p :=
        ⟨h.good.sound, h.good.nul, h.good.tree, h.good.res, h.good.window⟩
      exact hinput hgood ⟨h.scrolled.row, h.scrolled.col⟩ (.mouse me)
  | pointer =>
    exact ⟨_, t, p, rfl, ⟨⟨h.good.sound, h.good.nul, h.good.tree, h.good.res, h.good.window⟩,
      ⟨h.scrolled.row, h.scrolled.col⟩, h.prev⟩, .inl rfl⟩

/-- `view_render` after a drawing that succeeded. -/
theorem Sound.viewRender (h : s.Sound t p) {fs : List Fetch} {c : HighlightCache}
    (hdraw : s.renderEditorUi (s.cache.withHeap s.app.editor.doc.heap) = some (fs, c))
    (ample : c.heap.Ample) :
    ∃ s', s.viewRender = some (s', fs) ∧ s'.Sound t p ∧ s'.cache = c := by
  have hdid := viewRender_did h.good
  have hgood := hdid.good.withHeap ample
  have hscroll : (s.app.viewRender.withHeap c.heap).editor.Scrolled :=
    ⟨(hdid.scrolled h.scrolled).row, (hdid.scrolled h.scrolled).col⟩
  unfold Desk.viewRender
  rw [hdraw]
  simp only [Option.bind_eq_bind, Option.bind_some]
  split
  · refine ⟨_, rfl, ⟨hgood, hscroll, show 0 ≤ s.app.editor.cursorRow from ?_⟩, rfl⟩
    rw [h.good.sound.at'.row]
    omega
  · exact ⟨_, rfl, ⟨hgood, hscroll, h.prev⟩, rfl⟩

end Desk

end LCode
