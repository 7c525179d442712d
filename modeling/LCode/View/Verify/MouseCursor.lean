import LCode.View.MouseCursor

/-!
# The mouse cursor leaves no trail

`show` saves every pixel before it draws over it, and no two cells of the sprite
cover one pixel, so `hide` puts back what was there. A run of frames with the
cursor is then, after each `hide`, the run without one.
-/

namespace LCode

variable {s : Resolution} {img : XpmImage}

namespace MouseCursor

/-- Cell `(i, j)` of a sprite at `(x, y)` covers pixel `(u, v)`. -/
def Covers (x y : Int) (i j u v : Nat) : Prop := x + i = u ∧ y + j = v

theorem Covers.inBounds {x y : Int} {i j : Nat} {u : Fin s.hRes.toNat} {v : Fin s.vRes.toNat}
    (h : Covers x y i j u v) : InBounds s (x + i) (y + j) := by
  obtain ⟨hu, hv⟩ := h
  have := u.isLt
  have := v.isLt
  refine ⟨?_, ?_, ?_, ?_⟩ <;> omega

theorem Covers.inj {x y : Int} {i i' j j' u v : Nat} (h : Covers x y i j u v)
    (h' : Covers x y i' j' u v) : i = i' ∧ j = j' := by
  obtain ⟨hu, hv⟩ := h
  obtain ⟨hu', hv'⟩ := h'
  exact ⟨by omega, by omega⟩

/-- A position in bounds is one pixel. -/
theorem InBounds.covers {x y : Int} {i j : Nat} (h : InBounds s (x + i) (y + j)) :
    ∃ (u : Fin s.hRes.toNat) (v : Fin s.vRes.toNat), Covers x y i j u v := by
  obtain ⟨hx, hu, hy, hv⟩ := h
  refine ⟨⟨(x + i).toNat, by omega⟩, ⟨(y + j).toNat, by omega⟩, ?_, ?_⟩
  · exact (Int.toNat_of_nonneg hx).symm
  · exact (Int.toNat_of_nonneg hy).symm

end MouseCursor

namespace BackBuffer

theorem ofInt_toNat {p : Int} {u : Nat} {n : UInt16} (hp : p = u) (hu : u < n.toNat) :
    (UInt16.ofInt p).toNat = u := by
  have := n.toNat_lt
  subst hp
  have hmod : ((u : Int) % 2 ^ 16).toNat = u := by omega
  rw [UInt16.ofInt, hmod]
  exact UInt16.toNat_ofNat_of_lt' (show u < 2 ^ 16 by omega)

theorem bbDrawPixel_eq (bb : BackBuffer s) {px py : Int} {u : Fin s.hRes.toNat}
    {v : Fin s.vRes.toNat} (hx : px = u.val) (hy : py = v.val) (color : UInt32) :
    bb.bbDrawPixel (UInt16.ofInt px) (UInt16.ofInt py) color = bb.put u v color := by
  have hu := ofInt_toNat hx u.isLt
  have hv := ofInt_toNat hy v.isLt
  have hin : ¬ (s.hRes ≤ UInt16.ofInt px ∨ s.vRes ≤ UInt16.ofInt py) := by
    have := u.isLt
    have := v.isLt
    simp only [UInt16.le_iff_toNat_le]
    omega
  rw [bbDrawPixel, dif_neg hin]
  congr 1
  · exact Fin.ext hu
  · exact Fin.ext hv

theorem bbGetPixel_eq (bb : BackBuffer s) {px py : Int} {u : Fin s.hRes.toNat}
    {v : Fin s.vRes.toNat} (hx : px = u.val) (hy : py = v.val) :
    bb.bbGetPixel (UInt16.ofInt px) (UInt16.ofInt py) = bb.cell u v := by
  have hu := ofInt_toNat hx u.isLt
  have hv := ofInt_toNat hy v.isLt
  have hin : ¬ (s.hRes ≤ UInt16.ofInt px ∨ s.vRes ≤ UInt16.ofInt py) := by
    have := u.isLt
    have := v.isLt
    simp only [UInt16.le_iff_toNat_le]
    omega
  rw [bbGetPixel, dif_neg hin]
  congr 1
  · exact Fin.ext hu
  · exact Fin.ext hv

end BackBuffer

namespace MouseCursor

section Overlay

variable {bg : Raster UInt32 img.width.toNat img.height.toNat} {bb scene : BackBuffer s} {x y : Int}

/-- Outside the cells of `cover`, the buffer shows the scene. -/
def Shows (x y : Int) (cover : Fin img.width.toNat → Fin img.height.toNat → Prop)
    (scene bb : BackBuffer s) : Prop :=
  ∀ u v, bb.cell u v = scene.cell u v ∨ ∃ i j, cover i j ∧ Covers x y i j u v

/-- Every cell of the sprite. -/
def everyCell (img : XpmImage) (_ : Fin img.width.toNat) (_ : Fin img.height.toNat) : Prop := True

/-- The cells of `cover` hold the pixels of the scene they cover. -/
def Saves (x y : Int) (cover : Fin img.width.toNat → Fin img.height.toNat → Prop)
    (scene : BackBuffer s) (bg : Raster UInt32 img.width.toNat img.height.toNat) : Prop :=
  ∀ i j, cover i j → ∀ (u : Fin s.hRes.toNat) (v : Fin s.vRes.toNat),
    Covers x y i j u v → bg.cell i j = scene.cell u v

theorem savePixel_saves (transparent : UInt32)
    {done : Fin img.width.toNat → Fin img.height.toNat → Prop}
    {st : Raster UInt32 img.width.toNat img.height.toNat × BackBuffer s}
    {i : Fin img.width.toNat} {j : Fin img.height.toNat}
    (hinv : Saves x y done scene st.1 ∧ Shows x y done scene st.2) (hnew : ¬ done i j) :
    let cover := fun i' j' => done i' j' ∨ (i = i' ∧ j = j')
    let st' := savePixel transparent x y st i j
    Saves x y cover scene st'.1 ∧ Shows x y cover scene st'.2 := by
  obtain ⟨bg, bb⟩ := st
  obtain ⟨hsaves, hshows⟩ := hinv
  -- what the new slot must hold for the saved pixels to be right
  have hput : ∀ a, (∀ (u : Fin s.hRes.toNat) (v : Fin s.vRes.toNat),
      Covers x y i j u v → a = scene.cell u v) →
      Saves x y (fun i' j' => done i' j' ∨ (i = i' ∧ j = j')) scene (bg.put i j a) := by
    intro a ha i' j' hover u v hcov
    rw [Raster.cell_put]
    split
    · next heq =>
      obtain ⟨rfl, rfl⟩ := heq
      exact ha u v hcov
    · next hne => exact hsaves i' j' (hover.resolve_right hne) u v hcov
  have hkeep : Shows x y (fun i' j' => done i' j' ∨ (i = i' ∧ j = j')) scene bb := by
    intro u v
    refine (hshows u v).imp_right ?_
    rintro ⟨i', j', hdone, hcov⟩
    exact ⟨i', j', .inl hdone, hcov⟩
  unfold savePixel
  by_cases hin : InBounds s (x + i) (y + j)
  · simp only [hin, not_true, if_false]
    obtain ⟨u, v, hu, hv⟩ := hin.covers
    refine ⟨hput _ fun u' v' hcov => ?_, ?_⟩
    · -- no cell done so far covers the pixel, so it still shows the scene
      obtain rfl : u = u' := Fin.ext (by have := hcov.1; omega)
      obtain rfl : v = v' := Fin.ext (by have := hcov.2; omega)
      rw [BackBuffer.bbGetPixel_eq bb hu hv]
      refine (hshows u v).resolve_right ?_
      rintro ⟨i', j', hdone, hcov'⟩
      obtain ⟨hi, hj⟩ := hcov'.inj hcov
      exact hnew (Fin.ext hi ▸ Fin.ext hj ▸ hdone)
    · split
      · intro u' v'
        rw [BackBuffer.bbDrawPixel_eq bb hu hv, Raster.cell_put]
        split
        · next heq =>
          obtain ⟨rfl, rfl⟩ := heq
          exact .inr ⟨i, j, .inr ⟨rfl, rfl⟩, hu, hv⟩
        · exact hkeep u' v'
      · exact hkeep
  · simp only [hin, not_false_iff, if_true]
    exact ⟨hput 0 fun u v hcov => absurd hcov.inBounds hin, hkeep⟩

/-- After `show`, every cell has saved what it covers. -/
theorem showAt_saves (transparent : UInt32) (bg : Raster UInt32 img.width.toNat img.height.toNat)
    (x y : Int) (scene : BackBuffer s) :
    let st := Raster.loop img.width.toNat img.height.toNat (savePixel transparent x y) (bg, scene)
    Saves x y (everyCell img) scene st.1 ∧ Shows x y (everyCell img) scene st.2 := by
  refine Raster.loop_invariant
    (I := fun done (st : Raster UInt32 img.width.toNat img.height.toNat × BackBuffer s) =>
      Saves x y done scene st.1 ∧ Shows x y done scene st.2) ?_ ?_
  · intro done st i j hinv hnew
    exact savePixel_saves transparent hinv hnew
  · exact ⟨fun i j h => h.elim, fun u v => .inl rfl⟩

theorem restorePixel_shows {done : Fin img.width.toNat → Fin img.height.toNat → Prop}
    {i : Fin img.width.toNat} {j : Fin img.height.toNat}
    (hsaves : Saves x y (everyCell img) scene bg)
    (hshows : Shows x y (fun i' j' => ¬ done i' j') scene bb) :
    Shows x y (fun i' j' => ¬ (done i' j' ∨ (i = i' ∧ j = j'))) scene
      (restorePixel bg x y bb i j) := by
  intro u' v'
  -- a pixel shows the scene unless a cell other than `(i, j)` is still over it
  have hrest : ¬ Covers x y i.val j.val u'.val v'.val → bb.cell u' v' = scene.cell u' v' ∨
      ∃ i' j', ¬ (done i' j' ∨ (i = i' ∧ j = j')) ∧ Covers x y i' j' u' v' := by
    intro hnot
    refine (hshows u' v').imp_right ?_
    rintro ⟨i', j', hdone, hcov⟩
    refine ⟨i', j', ?_, hcov⟩
    rintro (h | ⟨rfl, rfl⟩)
    · exact hdone h
    · exact hnot hcov
  unfold restorePixel
  by_cases hin : InBounds s (x + i) (y + j)
  · obtain ⟨u, v, hu, hv⟩ := hin.covers
    rw [if_pos hin, BackBuffer.bbDrawPixel_eq bb hu hv, Raster.cell_put]
    split
    · next heq =>
      obtain ⟨rfl, rfl⟩ := heq
      exact .inl (hsaves i j trivial u v ⟨hu, hv⟩)
    · next hne =>
      refine hrest fun hcov => hne ⟨Fin.ext ?_, Fin.ext ?_⟩
      · have := hcov.1
        omega
      · have := hcov.2
        omega
  · rw [if_neg hin]
    exact hrest fun hcov => hin hcov.inBounds

/-- What was saved everywhere, `hide` puts back. -/
theorem restore_eq (hsaves : Saves x y (everyCell img) scene bg)
    (hshows : Shows x y (everyCell img) scene bb) :
    Raster.loop _ _ (restorePixel bg x y) bb = scene := by
  have hall := Raster.loop_invariant (f := restorePixel bg x y)
    (I := fun done bb => Shows x y (fun i j => ¬ done i j) scene bb)
    (fun done bb i j hinv _ => restorePixel_shows hsaves hinv) (s := bb)
    (by simp only [not_false_iff]; exact hshows)
  refine Raster.ext_cell fun u v => (hall u v).resolve_right ?_
  rintro ⟨i, j, hnot, -⟩
  exact hnot trivial

end Overlay

/-- `hide` undoes the `show` before it. -/
theorem hide_showAt (transparent : UInt32) (m : MouseCursor img) {x y : Int} (hx : 0 ≤ x)
    (scene : BackBuffer s) :
    (m.showAt transparent x y scene).1.hide (m.showAt transparent x y scene).2 = scene := by
  obtain ⟨_ | bg, px, py⟩ := m
  · rfl
  · obtain ⟨hsaves, hshows⟩ := showAt_saves transparent bg x y scene
    simp only [showAt, hide, not_lt.2 hx, if_false]
    exact restore_eq hsaves hshows

end MouseCursor

namespace Frame

/-- Of a run whose buffer is the scene once the cursor is hidden. -/
theorem hidden_eq (transparent : UInt32) (frames : List (Frame s)) (m : MouseCursor img)
    {bb scene : BackBuffer s} (hscene : m.hide bb = scene) :
    hidden transparent frames m bb = bare frames scene := by
  induction frames generalizing m bb scene with
  | nil => rfl
  | cons f frames ih =>
    subst hscene
    simp only [hidden, bare]
    refine congrArg (_ :: ·) (ih _ ?_)
    exact MouseCursor.hide_showAt transparent m f.onScreen.1 _

end Frame

/-- The sprite never disturbs the scene: right after each hide the back buffer is
that of the run which never shows a cursor. -/
theorem mouse_cursor_leaves_no_trail (transparent : UInt32)
    (bgBuf : Option (Raster UInt32 img.width.toNat img.height.toNat)) (bb : BackBuffer s)
    (frames : List (Frame s)) :
    Frame.hidden transparent frames (MouseCursor.init bgBuf) bb = Frame.bare frames bb := by
  refine Frame.hidden_eq transparent frames _ ?_
  obtain _ | bg := bgBuf <;> rfl

end LCode
