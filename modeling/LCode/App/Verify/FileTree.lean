import LCode.App.FileTree
import Mathlib.Data.List.TakeWhile

/-!
# The file tree stays in range

Cursor and scroll position of the file tree under everything that changes them.
The window is never empty: its height follows from the screen alone. While a listing
is shown, a scroll may carry the window away from the cursor, and the next move of
the cursor brings it back.
-/

namespace LCode

theorem strncpy_eq_take {s : List UInt8} (h0 : 0 ∉ s) (n : Nat) : strncpy s n = s.take n := by
  rw [strncpy, List.takeWhile_eq_self_iff.2 fun c hc => ?_]
  simpa using fun h : c = 0 => h0 (h ▸ hc)

namespace FileTree

/-- The cursor is on an entry, or there is none, and the window does not start
below the entries. -/
structure InRange (ft : FileTree) : Prop where
  scroll_nonneg : 0 ≤ ft.scroll
  scroll_le : ft.scroll ≤ ft.entryCount
  cursor_nonneg : 0 ≤ ft.cursor
  cursor_lt : ft.cursor < ft.entryCount ∨ ft.cursor = 0

theorem entryCount_nonneg (ft : FileTree) : 0 ≤ ft.entryCount := Int.natCast_nonneg _

section InRange

variable {ft : FileTree} {fs : Files} {visRows : Int}

theorem refresh_inRange (hscroll : ft.scroll = 0) (hcursor : ft.cursor = 0) :
    (ft.refresh fs).2.InRange := by
  unfold refresh
  split
  · exact ⟨by simp [setError, hscroll], by simp [setError, hscroll, entryCount],
      by simp [setError, hcursor], Or.inr (by simp [setError, hcursor])⟩
  · next names hnames =>
    generalize List.mergeSort _ _ = entries
    refine ⟨by simp [hscroll], by simp [hscroll, entryCount], ?_, ?_⟩
    · simp only [hcursor]
      split
      · split <;> omega
      · omega
    · simp only [hcursor, entryCount]
      split
      · split <;> omega
      · omega

theorem init_inRange (hscroll : ft.scroll = 0) (hcursor : ft.cursor = 0) :
    (ft.init fs).InRange := by
  unfold init
  split
  · exact refresh_inRange hscroll hcursor
  · exact refresh_inRange hscroll hcursor

theorem InRange.setFocus (h : ft.InRange) (focused : Bool) : { ft with focused }.InRange :=
  ⟨h.scroll_nonneg, h.scroll_le, h.cursor_nonneg, h.cursor_lt⟩

theorem InRange.setVisible (h : ft.InRange) (visible : Bool) : { ft with visible }.InRange :=
  ⟨h.scroll_nonneg, h.scroll_le, h.cursor_nonneg, h.cursor_lt⟩

theorem InRange.moveUp (h : ft.InRange) (hvis : 0 < visRows) : (ft.moveUp visRows).InRange := by
  obtain ⟨hs, hs', hc, hc'⟩ := h
  simp only [entryCount] at hs' hc'
  constructor
  all_goals simp only [FileTree.moveUp, entryCount]; omega

theorem InRange.moveDown (h : ft.InRange) (hvis : 0 < visRows) :
    (ft.moveDown visRows).InRange := by
  obtain ⟨hs, hs', hc, hc'⟩ := h
  simp only [entryCount] at hs' hc'
  constructor
  all_goals simp only [FileTree.moveDown, entryCount]; omega

theorem InRange.setCursor (h : ft.InRange) (idx : Int) (hvis : 0 < visRows) :
    (ft.setCursor idx visRows).InRange := by
  obtain ⟨hs, hs', -, -⟩ := h
  unfold FileTree.setCursor
  split
  · next hcount =>
    refine ⟨Int.le_refl _, Int.le_of_eq hcount.symm, Int.le_refl _, Or.inr rfl⟩
  · next hcount =>
    have := ft.entryCount_nonneg
    simp only [entryCount] at hs' hcount this ⊢
    constructor
    all_goals simp only [entryCount]; omega

theorem InRange.scrollBy (h : ft.InRange) (delta : Int) (hvis : 0 < visRows) :
    (ft.scrollBy delta visRows).InRange := by
  obtain ⟨-, -, hc, hc'⟩ := h
  have := ft.entryCount_nonneg
  unfold FileTree.scrollBy
  simp only [entryCount] at hc' this ⊢
  constructor
  all_goals simp only [entryCount]; omega

theorem InRange.goParent (h : ft.InRange) (fs : Files) : (ft.goParent fs).2.InRange := by
  unfold FileTree.goParent
  split
  · exact h
  · exact refresh_inRange rfl rfl

/-- The entry under the cursor. -/
theorem InRange.selected (h : ft.InRange) (hne : ft.entryCount ≠ 0) :
    ∃ e, Block.read ft.entries ft.cursor = some e := by
  obtain ⟨-, -, hc, hc'⟩ := h
  have hcount := ft.entryCount_nonneg
  have hlt : ft.cursor.toNat < ft.entries.length := by
    unfold entryCount at hne hc' hcount
    omega
  exact ⟨ft.entries[ft.cursor.toNat], by simp [Block.read, hc, hlt]⟩

/-- `filetree_enter_selected` finds an entry, or there is none. -/
theorem InRange.enterSelected (h : ft.InRange) (fs : Files) :
    ∃ r tree, ft.enterSelected fs = some (r, tree) ∧ tree.InRange := by
  unfold FileTree.enterSelected
  split
  · exact ⟨_, _, rfl, h⟩
  · next hne =>
    obtain ⟨e, he⟩ := h.selected hne
    simp only [he, Option.bind_eq_bind, Option.bind_some]
    split
    · exact ⟨_, _, rfl, h⟩
    · split
      · exact ⟨_, _, rfl, h.goParent fs⟩
      · split
        · exact ⟨_, _, rfl, h.scroll_nonneg, h.scroll_le, h.cursor_nonneg, h.cursor_lt⟩
        · exact ⟨_, _, rfl, refresh_inRange rfl rfl⟩

/-- `filetree_get_selected_path`. -/
theorem InRange.getSelectedPath (h : ft.InRange) (size : Nat) :
    ∃ path, ft.getSelectedPath size = some path := by
  unfold FileTree.getSelectedPath
  split
  · exact ⟨_, rfl⟩
  · next hne =>
    obtain ⟨e, he⟩ := h.selected hne
    exact ⟨_, by simp only [he]; rfl⟩

end InRange

/-! ## The window over one listing -/

section Window

variable {ft : FileTree} {visRows : Int}

/-- The calls that move the cursor or the window. -/
inductive Move where
  | up
  | down
  | setCursor (idx : Int)
  | scrollBy (delta : Int)

/-- The tree after the call. -/
def move (visRows : Int) (ft : FileTree) : Move → FileTree
  | .up => ft.moveUp visRows
  | .down => ft.moveDown visRows
  | .setCursor idx => ft.setCursor idx visRows
  | .scrollBy delta => ft.scrollBy delta visRows

/-- The cursor is on an entry, and the window does not reach past the last one
unless they all fit into it. -/
structure Windowed (visRows : Int) (ft : FileTree) : Prop where
  cursor_nonneg : 0 ≤ ft.cursor
  cursor_lt : ft.cursor < ft.entryCount
  scroll_nonneg : 0 ≤ ft.scroll
  scroll_le : ft.scroll ≤ max 0 (ft.entryCount - visRows)

/-- The cursor is in the window. -/
def CursorVisible (visRows : Int) (ft : FileTree) : Prop :=
  ft.scroll ≤ ft.cursor ∧ ft.cursor < ft.scroll + visRows

theorem Windowed.moveUp (h : ft.Windowed visRows) (hvis : 1 ≤ visRows) :
    (ft.moveUp visRows).Windowed visRows ∧ (ft.moveUp visRows).CursorVisible visRows := by
  obtain ⟨hc, hc', hs, hs'⟩ := h
  simp only [entryCount] at hc' hs'
  refine ⟨?_, ?_⟩
  · constructor
    all_goals simp only [FileTree.moveUp, entryCount]; omega
  · simp only [CursorVisible, FileTree.moveUp]
    omega

theorem Windowed.moveDown (h : ft.Windowed visRows) (hvis : 1 ≤ visRows) :
    (ft.moveDown visRows).Windowed visRows ∧ (ft.moveDown visRows).CursorVisible visRows := by
  obtain ⟨hc, hc', hs, hs'⟩ := h
  simp only [entryCount] at hc' hs'
  refine ⟨?_, ?_⟩
  · constructor
    all_goals simp only [FileTree.moveDown, entryCount]; omega
  · simp only [CursorVisible, FileTree.moveDown, entryCount]
    omega

theorem Windowed.setCursor (h : ft.Windowed visRows) (idx : Int) (hvis : 1 ≤ visRows) :
    (ft.setCursor idx visRows).Windowed visRows ∧
      (ft.setCursor idx visRows).CursorVisible visRows := by
  obtain ⟨hc, hc', hs, hs'⟩ := h
  have hne : ¬ ft.entryCount = 0 := by omega
  simp only [entryCount] at hc' hs'
  rw [FileTree.setCursor, if_neg hne]
  simp only [entryCount]
  refine ⟨?_, ?_⟩
  · constructor
    all_goals simp only [entryCount]; omega
  · simp only [CursorVisible]
    omega

theorem Windowed.scrollBy (h : ft.Windowed visRows) (delta : Int) :
    (ft.scrollBy delta visRows).Windowed visRows := by
  obtain ⟨hc, hc', hs, hs'⟩ := h
  simp only [entryCount] at hc' hs'
  constructor
  all_goals simp only [FileTree.scrollBy, entryCount]; omega

theorem Windowed.move (h : ft.Windowed visRows) (hvis : 1 ≤ visRows) (m : Move) :
    (move visRows ft m).Windowed visRows := by
  cases m with
  | up => exact (h.moveUp hvis).1
  | down => exact (h.moveDown hvis).1
  | setCursor idx => exact (h.setCursor idx hvis).1
  | scrollBy delta => exact h.scrollBy delta

theorem Windowed.moves (h : ft.Windowed visRows) (hvis : 1 ≤ visRows) (moves : List Move) :
    (moves.foldl (FileTree.move visRows) ft).Windowed visRows := by
  induction moves generalizing ft with
  | nil => exact h
  | cons m moves ih => exact ih (h.move hvis m)

/-- Whatever moves the cursor and the window over a listing, both stay in range, and
a call that moves the cursor leaves it in view. -/
theorem window_follows_cursor (ft : FileTree) (hcount : 1 ≤ ft.entryCount) (hvis : 1 ≤ visRows)
    (hcursor : ft.cursor = 0) (hscroll : ft.scroll = 0) (moves : List Move) :
    (moves.foldl (FileTree.move visRows) ft).Windowed visRows ∧
      ((moves.foldl (FileTree.move visRows) ft).moveUp visRows).CursorVisible visRows ∧
      ((moves.foldl (FileTree.move visRows) ft).moveDown visRows).CursorVisible visRows ∧
      ∀ idx, ((moves.foldl (FileTree.move visRows) ft).setCursor idx visRows).CursorVisible
        visRows := by
  have hstart : ft.Windowed visRows :=
    ⟨by omega, by omega, by omega, by omega⟩
  have h := hstart.moves hvis moves
  exact ⟨h, (h.moveUp hvis).2, (h.moveDown hvis).2, fun idx => (h.setCursor idx hvis).2⟩

/-- Five entries. -/
def fiveFiles : FileTree := { static with entries := List.replicate 5 ⟨ascii "a", false⟩ }

/-- In a window of two rows, scrolled to the end of the entries. -/
theorem window_follows_cursor_scrolled :
    1 ≤ fiveFiles.entryCount ∧ (move 2 fiveFiles (.scrollBy 9)).scroll = 3 ∧
    (move 2 fiveFiles (.scrollBy 9)).Windowed 2 ∧
    ((move 2 fiveFiles (.scrollBy 9)).moveUp 2).CursorVisible 2 ∧
    ((move 2 fiveFiles (.scrollBy 9)).moveDown 2).CursorVisible 2 ∧
    ∀ idx, ((move 2 fiveFiles (.scrollBy 9)).setCursor idx 2).CursorVisible 2 :=
  ⟨by decide, by decide, window_follows_cursor fiveFiles (by decide) (by decide) rfl rfl
    [.scrollBy 9]⟩

end Window

end FileTree

end LCode
