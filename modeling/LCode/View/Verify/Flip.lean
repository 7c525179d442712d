import LCode.Commands.Verify.Files
import LCode.Commands.Verify.Keeps
import LCode.View.Flip
import Mathlib.Algebra.Group.Int.Defs

/-!
# Every flip is inside the frame

The flips of the pointer, of the status bar and of a character are inside the frame
in every run: the layout leaves room for them, and a character is flipped only where
it is in the viewport. The flip of a row is not checked against the viewport. A row
above it, or too far below, gives a `y` that does not fit: `vg_flip_region` then
leaves the video memory, or never ends.
-/

namespace LCode

/-! ## Video memory -/

namespace Region

/-- The region is inside the frame. -/
structure Inside (m : VideoMode) (r : Region) : Prop where
  right : r.x.toNat + r.w.toNat ≤ m.hRes.toNat
  bottom : r.y.toNat + r.h.toNat ≤ m.vRes.toNat

/-- The flip is inside the frame, ends, and writes video memory only. -/
structure Safe (m : VideoMode) (r : Region) : Prop extends r.Inside m where
  ends : ∃ fuel copies, r.vgFlipRegion m fuel = some copies ∧
    ∀ c ∈ copies, c.offset.toNat + c.bytes.toNat ≤ m.frameSize.toNat

variable {r : Region}

/-- The rows left to copy are counted down. -/
theorem Inside.flipLoop_eq (h : r.Inside videoMode) {n : Nat} {row : UInt16}
    (hrow : row.toNat + n = r.y.toNat + r.h.toNat) :
    ∃ copies, r.flipLoop videoMode (n + 1) row = some copies ∧
      ∀ c ∈ copies, c.offset.toNat + c.bytes.toNat ≤ videoMode.frameSize.toNat := by
  obtain ⟨hright, hbottom⟩ := h
  have hres : videoMode.hRes.toNat = 1152 ∧ videoMode.vRes.toNat = 864 := ⟨rfl, rfl⟩
  induction n generalizing row with
  | zero => exact ⟨[], by rw [flipLoop, if_neg (by omega)], nofun⟩
  | succ n ih =>
    have hnext : (row + 1).toNat = row.toNat + 1 := by
      rw [UInt16.toNat_add, show (1 : UInt16).toNat = 1 from rfl]
      omega
    have hcount : (row + 1).toNat + n = r.y.toNat + r.h.toNat := by omega
    obtain ⟨copies, hloop, hcopies⟩ := ih hcount
    refine ⟨_, by rw [flipLoop, if_pos (by omega), hloop]; rfl, ?_⟩
    rintro c (_ | ⟨_, hc⟩)
    · have hframe : videoMode.frameSize.toNat = 3981312 := rfl
      have hsizes : videoMode.hRes = 1152 ∧ videoMode.bytesPerPixel = 4 := ⟨rfl, rfl⟩
      rw [hframe, hsizes.1, hsizes.2]
      simp only [UInt32.toNat_mul, UInt32.toNat_add, UInt16.toNat_toUInt32,
        UInt32.reduceToNat]
      -- nothing overflows 32 bits
      rw [Nat.mod_eq_of_lt (a := row.toNat * 1152) (by omega),
        Nat.mod_eq_of_lt (a := row.toNat * 1152 + r.x.toNat) (by omega),
        Nat.mod_eq_of_lt (a := (row.toNat * 1152 + r.x.toNat) * 4) (by omega),
        Nat.mod_eq_of_lt (a := r.w.toNat * 4) (by omega)]
      omega
    · exact hcopies c hc

theorem safe_iff : r.Safe videoMode ↔ r.Inside videoMode := by
  constructor
  · exact Safe.toInside
  · intro h
    obtain ⟨copies, hloop, hcopies⟩ := h.flipLoop_eq (Eq.refl (r.y.toNat + r.h.toNat))
    exact ⟨h, _, copies, hloop, hcopies⟩

/-- A 16-bit row never gets past 65535. -/
theorem flipLoop_diverges {m : VideoMode} (h : 65536 ≤ r.y.toNat + r.h.toNat) (fuel : Nat)
    (row : UInt16) : r.flipLoop m fuel row = none := by
  induction fuel generalizing row with
  | zero => rfl
  | succ fuel ih =>
    have := row.toNat_lt
    rw [flipLoop, if_pos (by omega), ih]
    rfl

theorem toNat_ofInt (n : Int) : ((UInt16.ofInt n).toNat : Int) = n % 65536 := by
  rw [UInt16.ofInt, UInt16.toNat_ofNat']
  omega

/-- What the conversion to 16 bits leaves of the arguments. -/
theorem inside_ofInt {x y w h : Int} : (ofInt x y w h).Inside videoMode ↔
    x % 65536 + w % 65536 ≤ 1152 ∧ y % 65536 + h % 65536 ≤ 864 := by
  have hres : videoMode.hRes.toNat = 1152 ∧ videoMode.vRes.toNat = 864 := ⟨rfl, rfl⟩
  have hx := toNat_ofInt x
  have hy := toNat_ofInt y
  have hw := toNat_ofInt w
  have hh := toNat_ofInt h
  constructor
  · rintro ⟨hright, hbottom⟩
    simp only [ofInt] at hright hbottom
    omega
  · intro hlt
    constructor
    all_goals
      simp only [ofInt]
      omega

end Region

/-! ## The layout -/

namespace Scene

theorem countDigits_le {fuel k : Nat} {n digits : Int} (h : n < 10 ^ (k + 1)) :
    countDigits fuel n digits ≤ digits + k := by
  induction fuel generalizing n digits k with
  | zero =>
    simp only [countDigits]
    omega
  | succ fuel ih =>
    simp only [countDigits]
    split
    · next hten =>
      cases k with
      | zero =>
        rw [Int.pow_succ, Int.pow_zero] at h
        omega
      | succ k =>
        have hdiv : n.tdiv 10 < 10 ^ (k + 1) := by
          rw [Int.tdiv_eq_ediv_of_nonneg (by omega)]
          rw [Int.pow_succ] at h
          omega
        have hrest : countDigits fuel (n.tdiv 10) (digits + 1) ≤ digits + 1 + k := ih hdiv
        omega
    · omega

/-- A layout that `scene_update_layout` computed for an `int` of rows. -/
def Laid (s : Scene) : Prop :=
  ∃ visible rowCount, rowCount ≤ Screen.intMax ∧ s = static.updateLayout visible rowCount

variable {s : Scene}

theorem Laid.updateLayout (h : s.Laid) {rowCount : Int} (hrows : rowCount ≤ Screen.intMax)
    (visible : Bool) : (s.updateLayout visible rowCount).Laid := by
  obtain ⟨_, _, -, rfl⟩ := h
  exact ⟨visible, rowCount, hrows, rfl⟩

/-- The editor is between the gutter, of at most ten digits, and the scrollbar. -/
theorem Laid.eqs (h : s.Laid) : ∃ x, 40 ≤ x ∧ x ≤ 256 ∧ s.editor = ⟨x, 10, 1144 - x, 838⟩ ∧
    s.visRows = 52 ∧ s.visCols = (1144 - x) / 8 ∧ s.statusBar = ⟨0, 848, 1152, 16⟩ := by
  obtain ⟨visible, rowCount, hrows, rfl⟩ := h
  have hcount : countDigits rowCount.toNat rowCount 1 ≤ 1 + (9 : Nat) :=
    countDigits_le (Int.lt_of_le_of_lt hrows (by decide))
  obtain ⟨digits, hdigits, hfew⟩ : ∃ digits,
      (if countDigits rowCount.toNat rowCount 1 < gutterDigitsMin then gutterDigitsMin
        else countDigits rowCount.toNat rowCount 1) = digits ∧ 3 ≤ digits ∧ digits ≤ 10 := by
    refine ⟨_, rfl, ?_⟩
    rw [show gutterDigitsMin = 3 from rfl]
    split <;> omega
  obtain ⟨panel, hpanel, hwidth⟩ : ∃ panel,
      (if visible then filetreeWPx else 0) = panel ∧ (panel = 0 ∨ panel = 160) := by
    cases visible
    · exact ⟨0, rfl, .inl rfl⟩
    · exact ⟨160, rfl, .inr rfl⟩
  have hw : (1152 : Int) - 8 - (panel + 8 * (digits + 2)) = 1144 - (panel + 8 * (digits + 2)) := by
    omega
  refine ⟨panel + 8 * (digits + 2), by omega, by omega, ?_⟩
  simp only [Scene.updateLayout]
  rw [hdigits, hpanel]
  simp only [static, editorY, fontH, fontW, gutterPad, scrollbarW, hw]
  refine ⟨rfl, rfl, Int.tdiv_eq_ediv_of_nonneg (by omega), rfl⟩

end Scene

/-! ## A frame -/

/-- What the handlers leave alone: the layout, and that no redraw of a word is
scheduled. -/
structure App.Settled (app : App) : Prop where
  laid : app.scene.Laid
  mode : app.renderMode ≠ .word

theorem setRenderMode_ne {scheduled mode : RenderMode} (h : scheduled ≠ .word)
    (hmode : mode ≠ .word) : setRenderMode scheduled mode ≠ .word := by
  have hjoined : (if (scheduled = .line ∧ mode = .remoteLine) ∨
      (scheduled = .remoteLine ∧ mode = .line) then RenderMode.full else scheduled) ≠ .word := by
    split
    · exact nofun
    · exact h
  unfold setRenderMode
  dsimp only
  generalize (if (scheduled = .line ∧ mode = .remoteLine) ∨
      (scheduled = .remoteLine ∧ mode = .line) then RenderMode.full else scheduled) = joined
    at hjoined ⊢
  split
  · exact hmode
  · exact hjoined

theorem App.inert_settled : Commands.Inert App.Settled where
  editor _ h := ⟨h.laid, h.mode⟩
  sent _ h := ⟨h.laid, h.mode⟩
  status _ h := ⟨h.laid, h.mode⟩
  render hmode h := ⟨h.laid, setRenderMode_ne h.mode hmode⟩
  bar _ h := ⟨h.laid, h.mode⟩
  tree _ h := ⟨h.laid, h.mode⟩
  files _ h := ⟨h.laid, h.mode⟩
  language _ _ h := ⟨h.laid, h.mode⟩
  quit _ h := ⟨h.laid, h.mode⟩
  remote _ h := ⟨h.laid, h.mode⟩
  lines _ _ h := ⟨h.laid, h.mode⟩

namespace Screen

open Scene

/-- The row is not above the viewport and at most one below it, up to a multiple of
the 4096 rows that 16 bits of pixels can tell apart. -/
def RowFits (app : App) (row : Int) : Prop :=
  (row - app.editor.scrollRow) % 4096 ≤ app.scene.visRows

/-- The row to be redrawn on its own, if there is one, fits. -/
def Fits (app : App) : Prop :=
  (app.renderMode = .line → RowFits app app.editor.cursorRow) ∧
    (app.renderMode = .remoteLine → RowFits app app.editor.remoteCursorRow)

instance (app : App) (row : Int) : Decidable (RowFits app row) :=
  inferInstanceAs (Decidable (_ ≤ _))

instance (app : App) : Decidable (Fits app) := inferInstanceAs (Decidable (_ ∧ _))

section Frame

variable {app : App} {s : Screen}

theorem flipRow_inside (h : app.Settled) (row : Int) :
    (flipRow app row).Inside videoMode ↔ RowFits app row := by
  obtain ⟨x, hlo, hhi, heditor, hrows, -⟩ := h.laid.eqs
  rw [flipRow, Region.inside_ofInt, RowFits, heditor, hrows]
  simp only [editorY, fontH]
  omega

theorem flipCursorRegion_inside (sprite : XpmImage) (x y : Int) :
    ∀ r ∈ flipCursorRegion sprite x y, r.Inside videoMode := by
  have hres : hRes = 1152 ∧ vRes = 864 := ⟨rfl, rfl⟩
  have hclip (v : Int) : 0 ≤ (if v < 0 then 0 else v) := by split <;> omega
  have hcut (res v n : Int) : (if res < v + n then res - v else n) ≤ res - v := by
    split <;> omega
  unfold flipCursorRegion
  dsimp only
  have hx := hclip x
  have hy := hclip y
  generalize (if x < 0 then 0 else x) = x at hx ⊢
  generalize (if y < 0 then 0 else y) = y at hy ⊢
  have hw := hcut hRes x sprite.width.toNat
  have hh := hcut vRes y sprite.height.toNat
  generalize (if hRes < x + (sprite.width.toNat : Int) then hRes - x else _) = w at hw ⊢
  generalize (if vRes < y + (sprite.height.toNat : Int) then vRes - y else _) = h at hh ⊢
  intro r hr
  split at hr
  · rw [List.mem_singleton.1 hr, Region.inside_ofInt]
    omega
  · exact nomatch hr

theorem flipChar_inside (h : app.Settled) (row col : Int) :
    ∀ r ∈ (if visible app row col then [Region.ofInt (modelToPx app col) (modelToPy app row)
      fontW fontH] else []), r.Inside videoMode := by
  obtain ⟨x, hlo, hhi, heditor, hrows, hcols, -⟩ := h.laid.eqs
  split
  · next hvis =>
    intro r hr
    simp only [visible, hrows, hcols, Bool.and_eq_true, decide_eq_true_eq] at hvis
    rw [List.mem_singleton.1 hr, Region.inside_ofInt, modelToPx, modelToPy, heditor]
    simp only [fontW, fontH]
    omega
  · exact nofun

/-- The flips of `flip_editor_ui`. -/
theorem flipEditorUi_inside (h : s.proj.app.Settled) :
    (∀ r ∈ s.flipEditorUi, r.Inside videoMode) ↔ Fits s.proj.app := by
  unfold flipEditorUi Fits
  dsimp only
  cases hmode : s.proj.app.renderMode with
  | word => exact absurd hmode h.mode
  | line => simp [flipRow_inside h]
  | remoteLine => simp [flipRow_inside h]
  | char =>
    refine iff_of_true (fun r hr => ?_) ⟨nofun, nofun⟩
    exact (List.mem_append.1 hr).elim (flipChar_inside h _ _ r) (flipChar_inside h _ _ r)
  | status =>
    obtain ⟨_, -, -, -, -, -, hbar⟩ := h.laid.eqs
    simp [hbar, Region.inside_ofInt]
  | full => simp
  | mouse => simp
  | none => simp

/-- The flips of a frame. -/
theorem flips_inside (sprite : XpmImage) (h : s.proj.app.Settled) :
    (∀ r ∈ s.flips sprite, r.Inside videoMode) ↔ Fits s.proj.app := by
  unfold flips
  split
  · next hmode => simp [Fits, hmode]
  · rw [← flipEditorUi_inside h]
    constructor
    · intro hall r hr
      exact hall r (List.mem_append_right _ hr)
    · intro hall r hr
      rcases List.mem_append.1 hr with hr | hr
      · rcases List.mem_append.1 hr with hr | hr
        · split at hr
          · exact flipCursorRegion_inside _ _ _ r hr
          · exact nomatch hr
        · exact flipCursorRegion_inside _ _ _ r hr
      · exact hall r hr

end Frame

end Screen

/-! ## Rounds -/

namespace Proj

variable {P : App → Prop} {s : Proj}

theorem onIrq_sat {handler : Proj → Option (Proj × List InputEvent)}
    (hhandler : ∀ s : Proj, P s.app → Sat (fun r => P r.1.app) (handler s)) (irq mask : UInt32)
    (h : P s.app) : Sat (fun r => P r.1.app) (onIrq irq mask handler s) :=
  .ite (.some h) ((hhandler s h).bind fun _ h => .some h)

theorem timerHandler_app (hP : Commands.Inert P) (h : P s.app) : P s.timerHandler.app := by
  have hredraw (c : Prop) [Decidable c] {app : App} (h : P app) :
      P (if c then app.setRender .status else app) := by
    split
    · exact hP.render nofun h
    · exact h
  exact hredraw _ (hredraw _ (hP.bar _ h))

theorem mouseHandler_sat (hP : Commands.Inert P) (h : P s.app) (port : KbcPort) :
    Sat (fun r => P r.1.app) (s.mouseHandler port) := by
  refine Sat.of_bind fun mouse => .ite (.some h) (Sat.of_bind fun pp => .some ?_)
  dsimp only
  split
  · exact hP.render nofun h
  · exact h

theorem interruptsHandler_sat (hP : Commands.Inert P) (h : P s.app) (n : Notify) :
    Sat (fun r => P r.1.app) (s.interruptsHandler n) := by
  refine Sat.bind (P := fun r : Proj × List InputEvent => P r.1.app) ?_ fun ⟨s, _⟩ h => ?_
  · exact onIrq_sat (fun s h => .some (timerHandler_app hP h)) _ _ h
  refine Sat.bind (P := fun r : Proj × List InputEvent => P r.1.app) ?_ fun ⟨s, _⟩ h => ?_
  · exact onIrq_sat (fun s h => .some h) _ _ h
  refine Sat.bind (P := fun r : Proj × List InputEvent => P r.1.app) ?_ fun ⟨s, _⟩ h => ?_
  · exact onIrq_sat (fun s h => Sat.of_bind fun _ => .some h) _ _ h
  refine Sat.bind (P := fun r : Proj × List InputEvent => P r.1.app) ?_ fun ⟨s, _⟩ h => .some h
  exact onIrq_sat (fun s h => mouseHandler_sat hP h _) _ _ h

theorem dispatchEvent_sat (hP : Commands.Inert P) {app : App} (h : P app) (ev : InputEvent) :
    Sat P (dispatchEvent app ev) := by
  cases ev with
  | key ev => exact hP.dispatch h ev
  | mouse me => exact hP.dispatchMouse h me
  | serial se => exact hP.dispatchSerial h se

theorem dispatchLoop_sat (hP : Commands.Inert P) {fuel : Nat} {app : App} (h : P app)
    (q : EventQueue) : Sat (fun r => P r.1) (dispatchLoop fuel app q) := by
  induction fuel generalizing app q with
  | zero => exact .none
  | succ fuel ih =>
    rw [dispatchLoop]
    split
    · exact .some h
    · exact (dispatchEvent_sat hP h _).bind fun app h => ih h _

theorem inputDispatch_sat (hP : Commands.Inert P) (h : P s.app) :
    Sat (fun s => P s.app) s.inputDispatch :=
  (dispatchLoop_sat hP h _).bind fun _ h => .some h

end Proj

theorem Doc.linesEnsureCap_rowCount (d : Doc) (needed : Int) :
    Sat (fun r => r.2.rowCount = d.rowCount) (d.linesEnsureCap needed) := by
  unfold linesEnsureCap
  refine .ite (.some rfl) ?_
  dsimp only
  split
  · exact .some rfl
  · split
    · exact Sat.of_bind fun _ => Sat.of_bind fun _ => .some rfl
    · exact .some rfl

theorem Doc.setLine_rowCount (d : Doc) (row : Int) (ln : Line) :
    Sat (fun d' => d'.rowCount = d.rowCount) (d.setLine row ln) :=
  Sat.of_bind fun _ => Sat.of_bind fun _ => .some rfl

theorem Doc.lineEnsureCap_rowCount (d : Doc) (row needed : Int) :
    Sat (fun r => r.2.rowCount = d.rowCount) (d.lineEnsureCap row needed) :=
  Sat.of_bind fun _ => Sat.of_bind fun _ => (d.setLine_rowCount _ _).bind fun _ h => .some h

/-- A fresh document has one row. -/
theorem Editor.init_rowCount (ed : Editor) : Sat (fun r => r.2.doc.rowCount = 1) ed.init := by
  refine Sat.of_bind fun ed => (Doc.linesEnsureCap_rowCount _ 0).bind fun ⟨ok, doc⟩ hdoc => ?_
  refine .ite (.some hdoc) ((doc.setLine_rowCount _ _).bind fun doc' hset => ?_)
  refine (doc'.lineEnsureCap_rowCount _ _).bind fun ⟨ok, doc''⟩ hline => ?_
  have hrows : doc''.rowCount = 1 := hline.trans (hset.trans hdoc)
  exact .ite (.some hrows) (.some hrows)

theorem App.start_settled (files : Files) (heap : Heap) (name : List UInt8) :
    Sat App.Settled (App.start files heap name) := by
  refine (Editor.init_rowCount _).bind fun ⟨ok, editor⟩ hrows => ?_
  have hint : editor.doc.rowCount ≤ Screen.intMax := by
    rw [show editor.doc.rowCount = 1 from hrows]
    decide
  exact .ite .none (.some ⟨⟨_, editor.doc.rowCount, hint, rfl⟩, nofun⟩)

namespace Screen

/-- `view_render` computes the layout for the rows there are. -/
theorem viewRender_settled {app : App} (h : app.Settled)
    (hrows : app.editor.doc.rowCount ≤ intMax) : app.viewRender.Settled := by
  unfold App.viewRender
  split
  · exact ⟨h.laid.updateLayout hrows _, nofun⟩
  · exact ⟨h.laid, nofun⟩

theorem render_settled {s : Screen} (h : s.proj.app.Settled) :
    Sat (fun r => r.1.proj.app.Settled ∧ ∀ v ∈ r.2, v.proj.app.Settled) s.render := by
  unfold render
  split
  · exact .none
  · next hrows =>
    refine .ite (.some ⟨h, List.forall_mem_nil _⟩)
      (.some ⟨viewRender_settled h (Int.not_lt.1 hrows), ?_⟩)
    intro v hv
    rw [List.mem_singleton.1 hv]
    exact h

theorem round_settled (s : Screen) (msg : Proj.Message) (h : s.proj.app.Settled) :
    Sat (fun r => r.1.proj.app.Settled ∧ ∀ v ∈ r.2, v.proj.app.Settled) (s.round msg) := by
  have hP := App.inert_settled
  unfold round
  refine .ite (.some ⟨h, List.forall_mem_nil _⟩) ?_
  cases msg with
  | failed => exact .some ⟨h, List.forall_mem_nil _⟩
  | other => exact (Proj.inputDispatch_sat hP h).bind fun proj h => render_settled h
  | notify n =>
    refine (Proj.interruptsHandler_sat hP h n).bind fun ⟨proj, _⟩ h => ?_
    exact (Proj.inputDispatch_sat hP h).bind fun proj h => render_settled h

/-! ## The main loop -/

/-- A round is one of the main loop. -/
theorem round_proj {s : Screen} (hquit : s.proj.app.quit = false) (msg : Proj.Message) :
    Sat (fun r => ∃ evs, s.proj.round msg = some (r.1.proj, evs)) (s.round msg) := by
  have hrender (s : Screen) : Sat (fun r => r.1.proj = s.proj.render) s.render := by
    unfold render Proj.render
    refine .ite .none ?_
    split
    · exact .some rfl
    · exact .some rfl
  unfold round
  rw [hquit, if_neg Bool.false_ne_true]
  rintro ⟨s', views⟩ h
  cases msg with
  | failed =>
    obtain ⟨rfl, -⟩ := Prod.mk.inj (Option.some.inj h)
    exact ⟨[], rfl⟩
  | other =>
    obtain ⟨proj, hdispatch, h⟩ := Option.bind_eq_some_iff.1 h
    exact ⟨[], by rw [hrender _ _ h]; simp [Proj.round, hdispatch]⟩
  | notify n =>
    obtain ⟨⟨proj₁, evs⟩, hhandler, h⟩ := Option.bind_eq_some_iff.1 h
    obtain ⟨proj, hdispatch, h⟩ := Option.bind_eq_some_iff.1 h
    exact ⟨evs, by rw [hrender _ _ h]; simp [Proj.round, hhandler, hdispatch]⟩

/-- A run is one of the main loop. -/
theorem run_mainLoop {s : Screen} (msgs : List Proj.Message) :
    Sat (fun r => s.proj.mainLoop msgs = some r.1.proj) (Machine.run round s msgs) := by
  induction msgs generalizing s with
  | nil => exact .some rfl
  | cons msg msgs ih =>
    rintro ⟨s', views⟩ h
    obtain ⟨⟨s₁, views₁⟩, hround, h⟩ := Option.bind_eq_some_iff.1 h
    obtain ⟨⟨s₂, views₂⟩, hrun, h⟩ := Option.bind_eq_some_iff.1 h
    obtain ⟨rfl, -⟩ := Prod.mk.inj (Option.some.inj h)
    have hrest := ih _ hrun
    rw [Proj.mainLoop]
    cases hquit : s.proj.app.quit with
    | true =>
      unfold round at hround
      rw [if_pos hquit] at hround
      obtain ⟨rfl, -⟩ := Prod.mk.inj (Option.some.inj hround)
      cases msgs with
      | nil => exact hrest
      | cons => rwa [Proj.mainLoop, if_pos hquit] at hrest
    | false =>
      obtain ⟨evs, hproj⟩ := round_proj hquit msg _ hround
      simp [hproj, hrest]

/-- In every run, whatever the user and the peer do, the flips of a frame are inside
the frame, end, and write video memory only, exactly when the row of a RENDER_LINE or
a RENDER_REMOTE_LINE fits. -/
theorem flips_safe_iff {files : Files} {heap : Heap} {name : List UInt8} {app : App}
    {id : UInt8} {sprite : XpmImage} {msgs : List Proj.Message} {s v : Screen}
    {views : List Screen} (happ : App.start files heap name = some app)
    (hrun : Machine.run round (start app id) msgs = some (s, views)) (hv : v ∈ views) :
    (∀ r ∈ v.flips sprite, r.Safe videoMode) ↔ Fits v.proj.app := by
  have happ := App.start_settled files heap name app happ
  have h := (Machine.run_sat round_settled happ msgs _ hrun).2 v hv
  rw [← flips_inside sprite h]
  exact forall_congr' fun r => imp_congr_right fun _ => Region.safe_iff

/-! ## Two runs -/

/-- A notification with one interrupt. -/
def interrupt (irq : UInt32) : Notify where
  interrupts := irq
  keyboard := ⟨fun _ => none, none⟩
  mouse := ⟨fun _ => none, none⟩
  arrivals := []
  rxInterrupt := false
  stackAt := fun _ _ => 0

def keyByte (code : UInt8) : Proj.Message :=
  .notify { interrupt irqKeyboard with keyboard := ⟨fun _ => some 1, some code⟩ }

def mouseByte (byte : UInt8) : Proj.Message :=
  .notify { interrupt irqMouse with mouse := ⟨fun _ => some 33, some byte⟩ }

def packetBytes (bytes : List UInt8) : Proj.Message :=
  .notify { interrupt irqSerial with
    arrivals := bytes.map (⟨·, false⟩)
    rxInterrupt := true }

def pointerSprite : XpmImage := ⟨8, 14, Vector.replicate _ 0⟩

/-- Enter and a character, in a window with room for both rows. -/
theorem flips_safe_typed : ∃ app s a b,
    App.start Commands.emptyDisk .zeros (ascii "a.c") = some app ∧
    Machine.run round (start app 3) [keyByte 0x1C, keyByte 0x1E] = some (s, [a, b]) ∧
    b.proj.app.renderMode = .line ∧ ∀ r ∈ b.flips pointerSprite, r.Safe videoMode := by
  have hrun : ((App.start Commands.emptyDisk .zeros (ascii "a.c")).bind fun app =>
      (Machine.run round (start app 3) [keyByte 0x1C, keyByte 0x1E]).map fun r =>
        r.2.map fun v => (v.proj.app.renderMode, decide (Fits v.proj.app))) =
      some [(.full, true), (.line, true)] := by
    decide +kernel
  obtain ⟨app, happ, hrun⟩ := Option.bind_eq_some_iff.1 hrun
  obtain ⟨⟨s, views⟩, hrun, hviews⟩ := Option.map_eq_some_iff.1 hrun
  obtain ⟨a, views, rfl, -, hviews⟩ := List.map_eq_cons_iff.1 hviews
  obtain ⟨b, views, rfl, hb, hviews⟩ := List.map_eq_cons_iff.1 hviews
  obtain rfl := List.map_eq_nil_iff.1 hviews
  obtain ⟨hmode, hfits⟩ := Prod.mk.inj hb
  refine ⟨app, s, a, b, happ, hrun, hmode, ?_⟩
  exact (flips_safe_iff happ hrun (List.mem_cons_of_mem _ (List.mem_singleton_self b))).2
    (of_decide_eq_true hfits)

/-- The wheel takes the first of two rows out of the window. The peer's cursor is in
it, and the second character that it types there hangs the process. -/
theorem scrolled_peer_hangs : ∃ app s views v r,
    App.start Commands.emptyDisk .zeros (ascii "a.c") = some app ∧
    Machine.run round (start app 3) [keyByte 0x1C,
      packetBytes (Serial.packet .moveCursor [0, 0, 0, 0]),
      mouseByte 8, mouseByte 0, mouseByte 0, mouseByte 1,
      packetBytes (Serial.packet .insertChar [97]),
      packetBytes (Serial.packet .insertChar [97])] = some (s, views) ∧
    v ∈ views ∧ v.proj.app.editor.remoteCursorRow = 0 ∧ v.proj.app.editor.remoteCursorCol = 2 ∧
    v.proj.app.editor.doc.text = some [[97, 97], []] ∧
    r ∈ v.flips pointerSprite ∧ ¬ r.Inside videoMode ∧
    ∀ fuel, r.vgFlipRegion videoMode fuel = none := by
  have hrun : ((App.start Commands.emptyDisk .zeros (ascii "a.c")).bind fun app =>
      (Machine.run round (start app 3) [keyByte 0x1C,
        packetBytes (Serial.packet .moveCursor [0, 0, 0, 0]),
        mouseByte 8, mouseByte 0, mouseByte 0, mouseByte 1,
        packetBytes (Serial.packet .insertChar [97]),
        packetBytes (Serial.packet .insertChar [97])]).map fun r =>
        (r.2.drop 4).map fun v => decide (v.proj.app.editor.remoteCursorRow = 0 ∧
          v.proj.app.editor.remoteCursorCol = 2 ∧
          v.proj.app.editor.doc.text = some [[97, 97], []] ∧
          v.flips pointerSprite = [⟨576, 432, 8, 14⟩, ⟨576, 432, 8, 14⟩, ⟨200, 65530, 944, 16⟩])) =
      some [true] := by
    decide +kernel
  obtain ⟨app, happ, hrun⟩ := Option.bind_eq_some_iff.1 hrun
  obtain ⟨⟨s, views⟩, hrun, hviews⟩ := Option.map_eq_some_iff.1 hrun
  obtain ⟨v, _, hdrop, hv, -⟩ := List.map_eq_cons_iff.1 hviews
  obtain ⟨hrow, hcol, htext, hflips⟩ := of_decide_eq_true hv
  have hmem : v ∈ views := List.mem_of_mem_drop (hdrop ▸ List.mem_cons_self)
  refine ⟨app, s, views, v, ⟨200, 65530, 944, 16⟩, happ, hrun, hmem, hrow, hcol, htext, ?_, ?_,
    fun fuel => Region.flipLoop_diverges (by decide) fuel _⟩
  · rw [hflips]
    exact List.mem_cons_of_mem _ (List.mem_cons_of_mem _ (List.mem_singleton_self _))
  · rintro ⟨-, hbottom⟩
    exact absurd hbottom (by decide)

end Screen

end LCode
