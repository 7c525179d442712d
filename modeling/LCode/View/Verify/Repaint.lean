import LCode.View.Verify.MouseCursor
import LCode.View.Verify.Redraws

/-!
# The screen along a run

The main loop with its drawing refines a loop that knows no pixels: its screen is a grid,
of which a full redraw makes the grid of the document and a redraw of a part changes that
part. The pointer lies over it, and what is under the pointer is never lost.
-/

namespace LCode

open HighlightCache Scene

variable {font : Font}

namespace Desk

/-- A round of the loop that knows no pixels. -/
def gridRound (s : Desk × Grid) (r : Round) : Option (Desk × Grid) := do
  let desk ← s.1.handle r.event
  if desk.app.renderMode = .none ∧ r.always = false then return (desk, s.2)
  else
    let (desk', _) ← desk.viewRender
    return (desk', if desk.app.renderMode = .full then desk.grid else desk.redraw s.2)

/-- The event leaves the colours that the redraw after it keeps those of the document, and
its frame is one of those that local input schedules. -/
def Drawn (times : Times) (s : Desk) (r : Round) : Prop :=
  s.Traces r ∧ ∀ s₁ ∈ s.handle r.event, s₁.FullFrame times ∨ s₁.PartFrame times

variable {s s' : Desk} {times : Times} {g : Grid} {img : XpmImage} {cursor : MouseCursor img}
  {bb : BackBuffer Screen.resolution}

theorem setLanguage_scene (hs' : s.setLanguage = some s') : s'.app.scene = s.app.scene := by
  unfold Desk.setLanguage at hs'
  split at hs'
  · obtain rfl := Option.some.inj hs'
    rfl
  · obtain ⟨c, -, hc⟩ := Option.bind_eq_some_iff.1 hs'
    obtain rfl := Option.some.inj hc
    rfl

theorem inert_scene (sc : Scene) : Commands.Inert fun app => app.scene = sc where
  editor _ h := h
  sent _ h := h
  status _ h := h
  render _ h := h
  bar _ h := h
  tree _ h := h
  files _ h := h
  language _ _ h := h
  quit _ h := h
  remote _ h := h
  lines _ _ h := h

/-- The event handlers leave the layout alone. -/
theorem handle_scene (e : Event) (hs' : s.handle e = some s') : s'.app.scene = s.app.scene := by
  have hinert := inert_scene s.app.scene
  cases e with
  | key ev =>
    obtain ⟨app, happ, hset⟩ := Option.bind_eq_some_iff.1 hs'
    have hkept : app.scene = s.app.scene := hinert.dispatch rfl ev app happ
    exact (setLanguage_scene hset).trans hkept
  | mouse me moved =>
    obtain ⟨app, happ, hset⟩ := Option.bind_eq_some_iff.1 hs'
    have hmoved : (if moved then s.app.setRender .mouse else s.app).scene = s.app.scene := by
      split <;> rfl
    have hkept : app.scene = s.app.scene := hinert.dispatchMouse hmoved me app happ
    exact (setLanguage_scene hset).trans hkept
  | pointer =>
    obtain rfl := Option.some.inj hs'
    rfl

/-- The grid under the pointer. -/
def Canvas.Displays (c : Canvas img Screen.resolution) (font : Font) (g : Grid) : Prop :=
  c.desk.app.scene.Displays font (c.cursor.hide c.bb) g

/-- What is drawn and then covered is under the pointer. -/
theorem Canvas.displays_showAt (transparent : UInt32) {x : Int} (hx : 0 ≤ x) (y : Int)
    (hd : s.app.scene.Displays font bb g) :
    Canvas.Displays ⟨s, (cursor.showAt transparent x y bb).1, (cursor.showAt transparent x y bb).2⟩
      font g := by
  rw [Canvas.Displays, MouseCursor.hide_showAt transparent cursor hx bb]
  exact hd

/-- One round on the screen is one on the grid it shows. -/
theorem PicturedRun.paintRound (h : s.PicturedRun) (transparent : UInt32)
    {r : Pointed Screen.resolution} (hdrawn : s.Drawn times r.toRound)
    (hd : Canvas.Displays ⟨s, cursor, bb⟩ font g) :
    ∃ s' cursor' bb' g', s.next r.toRound = some s' ∧
      paintRound font times transparent ⟨s, cursor, bb⟩ r = some ⟨s', cursor', bb'⟩ ∧
      gridRound (s, g) r.toRound = some (s', g') ∧ Canvas.Displays ⟨s', cursor', bb'⟩ font g' := by
  obtain ⟨htraces, hframes⟩ := hdrawn
  obtain ⟨s₁, t, p, hhandle, hsound, hready⟩ := h.run.handle htraces
  have hd₁ : s₁.app.scene.Displays font (cursor.hide bb) g := by
    rw [handle_scene r.event hhandle]
    exact hd
  have hcomputed := handle_computed h.computed r.event hhandle
  have hx : 0 ≤ r.x := r.onScreen.1
  simp only [Desk.next, Desk.round, Desk.paintRound, gridRound, hhandle, Option.bind_eq_bind,
    Option.bind_some]
  split
  · exact ⟨s₁, cursor, bb, g, rfl, rfl, rfl, hd₁⟩
  · obtain ⟨s₂, fs, bb', g', hview, hpaint, hgrid, hd₂⟩ : ∃ s₂ fs bb' g',
        s₁.viewRender = some (s₂, fs) ∧ s₁.paint font times fs (cursor.hide bb) = some bb' ∧
          (if s₁.app.renderMode = .full then s₁.grid else s₁.redraw g) = g' ∧
          s₂.app.scene.Displays font bb' g' := by
      rcases hframes s₁ hhandle with hfull | hpart
      · obtain ⟨s₂, fs, hview, hpainted⟩ := hsound.pictured hcomputed hready hfull
        obtain ⟨bb', hpaint, hd₂⟩ := hpainted (cursor.hide bb)
        exact ⟨s₂, fs, bb', _, hview, hpaint, if_pos hfull.mode, hd₂⟩
      · obtain ⟨s₂, fs, hview, hpainted⟩ := hsound.redrawn hready hpart
        obtain ⟨bb', hpaint, hd₂⟩ := hpainted (cursor.hide bb) g hd₁
        have hmode : s₁.app.renderMode ≠ .full := by
          intro hfull
          have hpart := hpart.mode
          rw [hfull] at hpart
          exact absurd hpart (by decide)
        exact ⟨s₂, fs, bb', _, hview, hpaint, if_neg hmode, hd₂⟩
    refine ⟨s₂, (cursor.showAt transparent r.x r.y bb').1,
      (cursor.showAt transparent r.x r.y bb').2, g', by rw [hview]; rfl,
      by rw [hview]; simp [hpaint], ?_, Canvas.displays_showAt transparent hx r.y hd₂⟩
    rw [hview, ← hgrid]
    rfl

/-- And so is a run. -/
theorem PicturedRun.paintRounds (h : s.PicturedRun) (transparent : UInt32)
    {rounds : List (Pointed Screen.resolution)}
    (hdrawn : Along Desk.next (Desk.Drawn times) s (rounds.map (·.toRound)))
    (hd : Canvas.Displays ⟨s, cursor, bb⟩ font g) :
    ∃ c' g', rounds.foldlM (Desk.paintRound font times transparent) ⟨s, cursor, bb⟩ = some c' ∧
      (rounds.map (·.toRound)).foldlM gridRound (s, g) = some (c'.desk, g') ∧
      c'.Displays font g' := by
  induction rounds generalizing s cursor bb g with
  | nil => exact ⟨⟨s, cursor, bb⟩, g, rfl, rfl, hd⟩
  | cons r rounds ih =>
    rw [List.map_cons] at hdrawn
    obtain ⟨s₁, cursor₁, bb₁, g₁, hnext, hpaint, hgrid, hd₁⟩ :=
      h.paintRound transparent hdrawn.1 hd
    obtain ⟨c', g', hpaints, hgrids, hd'⟩ :=
      ih (h.next hdrawn.1.1 hnext) (hdrawn.2 s₁ hnext) hd₁
    refine ⟨c', g', ?_, ?_, hd'⟩
    · rw [List.foldlM_cons, hpaint]
      exact hpaints
    · rw [List.map_cons, List.foldlM_cons, hgrid]
      exact hgrids

end Desk

/-- From a file opened on, the main loop with its drawing refines the loop on a grid: where
the screen under the pointer shows a grid, the run succeeds, wherever the pointer goes, and
under the pointer the screen shows what the same run makes of the grid. -/
theorem screen_refines_grid (font : Font) (times : Times) (transparent : UInt32) {img : XpmImage}
    {s : Desk} {t : List (List UInt8)} {p : Pos} (h : s.Sound t p) (hcomputed : s.app.Computed)
    {name contents : List UInt8} (hname : name ≠ [])
    (hread : s.app.files.read name = some contents) :
    ∃ s', s.executeOpen name = some s' ∧
      ∀ rounds : List (Desk.Pointed Screen.resolution),
        Along Desk.next (Desk.Drawn times) s' (rounds.map (·.toRound)) →
        ∀ (cursor : MouseCursor img) (bb : BackBuffer Screen.resolution) (g : Grid),
          Desk.Canvas.Displays ⟨s', cursor, bb⟩ font g →
          ∃ c' g', rounds.foldlM (Desk.paintRound font times transparent) ⟨s', cursor, bb⟩ =
              some c' ∧
            (rounds.map (·.toRound)).foldlM Desk.gridRound (s', g) = some (c'.desk, g') ∧
            c'.Displays font g' := by
  obtain ⟨s', hopen, -, hrun⟩ := h.executeOpen hname hread
  have hs' : s'.PicturedRun := ⟨hrun, Desk.executeOpen_computed hcomputed name hopen⟩
  exact ⟨s', hopen, fun rounds hdrawn cursor bb g hd => hs'.paintRounds transparent hdrawn hd⟩

/-- The back buffer as it is allocated. -/
def blackScreen (s : Resolution) : BackBuffer s := Vector.replicate _ 0

theorem displays_black (sc : Scene) (res : Resolution) :
    sc.Displays font (blackScreen res) fun _ _ => ⟨none, 0⟩ := by
  intro i j x y _
  rw [blackScreen, Raster.cell, Vector.getElem_replicate]
  rfl

/-- A short document in the layout of one, and a frame that local input schedules. -/
def Desk.Plain (times : Times) (s : Desk) : Prop :=
  (s.app.renderMode = .full ∨ s.app.renderMode ∈ [.line, .char, .status, .mouse, .none] ∧
      (s.app.renderMode = .line → s.app.editor.scrollRow ≤ s.app.editor.cursorRow ∧
        s.app.editor.cursorRow < s.app.editor.scrollRow + s.app.scene.visRows)) ∧
    (s.app.editor.doc.rowCount ≤ 2500000 ∧ s.app.editor.scrollRow ≤ 2500000) ∧
    s.app.scene = static.updateLayout s.app.tree.visible 1 ∧
    (s.app.bar.input.length ≤ 4000 ∧ s.app.bar.statusMsg.length ≤ 4000 ∧
      s.app.bar.filename.length ≤ 4000) ∧ times.clock.length ≤ 4000 ∧ times.session.length ≤ 4000

instance (times : Times) (s : Desk) : Decidable (s.Plain times) :=
  inferInstanceAs (Decidable (_ ∧ _ ∧ _ ∧ _ ∧ _ ∧ _))

theorem Desk.Plain.frame {times : Times} {s : Desk} (h : s.Plain times) :
    s.FullFrame times ∨ s.PartFrame times := by
  obtain ⟨hmode, ⟨hrows, hscroll⟩, hscene, hbar, htimes⟩ := h
  rcases hmode with hfull | ⟨hpart, hline⟩
  · exact .inl ⟨hfull, hrows, hscroll, hbar, htimes⟩
  · exact .inr ⟨⟨_, 1, by decide, hscene⟩, hpart, hline, hbar, htimes⟩

/-- A pointer of one pixel. -/
def dot : XpmImage := ⟨1, 1, Vector.replicate _ 0xFFFFFF⟩

/-- Two letters and Enter, while the pointer comes from the corner into the text. -/
def pointing : List (Desk.Pointed Screen.resolution) :=
  [⟨⟨.key { KeyEvent.none with c := 'x'.toUInt8 }, false⟩, 0, 0, by decide⟩,
    ⟨⟨.key { KeyEvent.none with c := 'y'.toUInt8 }, false⟩, 60, 20, by decide⟩,
    ⟨⟨.key { KeyEvent.none with enter := true }, false⟩, 200, 10, by decide⟩]

/-- They are typed into a C file of one row, on a black screen: a full redraw, that of a
line, and a full one. -/
theorem screen_refines_grid_typing : ∃ s, cDesk = some s ∧ ∃ c' g',
    pointing.foldlM (Desk.paintRound solidFont noon 0)
        ⟨s, (MouseCursor.init (some (Vector.replicate _ 0)) : MouseCursor dot),
          blackScreen Screen.resolution⟩ = some c' ∧
    (typed [{ KeyEvent.none with c := 'x'.toUInt8 }, { KeyEvent.none with c := 'y'.toUInt8 },
      { KeyEvent.none with enter := true }]).foldlM Desk.gridRound
        (s, fun _ _ => ⟨none, 0⟩) = some (c'.desk, g') ∧
    c'.Displays solidFont g' := by
  obtain ⟨app, s, t, p, happ, hstart, hsound, hread, hcDesk⟩ := cDesk_opens
  have hcomputed := cDesk_computed happ hstart
  obtain ⟨s', hopen, hrefines⟩ :=
    screen_refines_grid solidFont noon 0 hsound hcomputed (by decide) hread
  have hdesk : cDesk = some s' := hcDesk.trans hopen
  have hplain : cDesk.map (fun s => decide (Along Desk.next
      (fun s r => s.Traces r ∧ ∀ s₁ ∈ s.handle r.event, s₁.Plain noon) s (typed
        [{ KeyEvent.none with c := 'x'.toUInt8 }, { KeyEvent.none with c := 'y'.toUInt8 },
          { KeyEvent.none with enter := true }]))) = some true := by
    decide +kernel
  rw [hdesk, Option.map_some, Option.some.injEq] at hplain
  have hdrawn := Along.of_invariant (I := fun _ => True) (fun _ _ _ _ _ _ => trivial)
    (fun s r _ h => (⟨h.1, fun s₁ hs₁ => (h.2 s₁ hs₁).frame⟩ : s.Drawn noon r)) trivial
    (of_decide_eq_true hplain)
  exact ⟨s', hdesk, hrefines pointing hdrawn (.init (some (Vector.replicate _ 0))) _ _
    (displays_black _ _)⟩

end LCode
