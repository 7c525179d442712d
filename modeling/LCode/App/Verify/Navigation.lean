import LCode.App.Verify.FileTree
import LCode.Lib.Path

/-!
# Navigation in the file tree

The working directory of the tree is the path of a stack of components, and its
calls push and pop: `Located ft cs` says so, `Nav.after` is the stack that a call
leaves. The guard against long paths counts one byte too many at the root, where no
name reaches the limit.

A directory that cannot be opened has been moved to before that is known: `Opens` is
exactly when a failing call leaves the tree where it was.
-/

namespace LCode

namespace FileTree

open LCode.Path (render Component)

/-! ## The path stack -/

/-- The directories list names as components. -/
def Lists (fs : Files) : Prop :=
  ∀ path names, fs.opendir path = some names → ∀ n ∈ names, Component slash n ∧ 0 ∉ n

/-- The path of the tree is the stack `cs`. -/
structure Located (ft : FileTree) (cs : List (List UInt8)) : Prop where
  stack : ∀ c ∈ cs, Component slash c
  cwd : ft.cwd = render slash cs
  fits : ft.cwd.length < pathMax
  names : ∀ e ∈ ft.entries, Component slash e.name ∧ e.name.length < filetreeNameLen
  inRange : ft.InRange

/-- The entry under the cursor. -/
def selected (ft : FileTree) : Option FileEntry := Block.read ft.entries ft.cursor

/-- The calls that change the tree, each with the file system it finds. -/
inductive Nav where
  | enterSelected (fs : Files)
  | goParent (fs : Files)
  | moveUp (visRows : Int)
  | moveDown (visRows : Int)
  | setCursor (idx visRows : Int)
  | scrollBy (delta visRows : Int)

namespace Nav

/-- The tree after the call. -/
def run (ft : FileTree) : Nav → Option FileTree
  | enterSelected fs => (ft.enterSelected fs).map Prod.snd
  | goParent fs => some (ft.goParent fs).2
  | moveUp visRows => some (ft.moveUp visRows)
  | moveDown visRows => some (ft.moveDown visRows)
  | setCursor idx visRows => some (ft.setCursor idx visRows)
  | scrollBy delta visRows => some (ft.scrollBy delta visRows)

/-- Listings of components, and a window of at least one row. -/
def Ok : Nav → Prop
  | enterSelected fs | goParent fs => Lists fs
  | moveUp visRows | moveDown visRows | setCursor _ visRows | scrollBy _ visRows => 0 < visRows

/-- The stack after the call. -/
def after (ft : FileTree) (cs : List (List UInt8)) : Nav → List (List UInt8)
  | goParent _ => cs.dropLast
  | enterSelected _ =>
    match ft.selected with
    | none => cs
    | some e =>
      if !e.isDir then cs
      else if e.name = ascii ".." then cs.dropLast
      else if (render slash (cs ++ [e.name])).length < pathMax then cs ++ [e.name]
      else cs
  | _ => cs

end Nav

section Stack

variable {ft : FileTree} {fs : Files} {cs : List (List UInt8)} {e : FileEntry}

@[simp] theorem refresh_cwd (fs : Files) (ft : FileTree) : (ft.refresh fs).2.cwd = ft.cwd := by
  unfold FileTree.refresh
  split <;> rfl

theorem readEntry_name {name : List UInt8} (cwd : List UInt8) (h : Component slash name)
    (h0 : 0 ∉ name) : Component slash (readEntry fs cwd name).name ∧
      (readEntry fs cwd name).name.length < filetreeNameLen := by
  have hname : (readEntry fs cwd name).name = name.take (filetreeNameLen - 1) :=
    strncpy_eq_take h0 _
  rw [hname]
  refine ⟨⟨?_, fun hmem => h.2 (List.mem_of_mem_take hmem)⟩, ?_⟩
  · rw [Ne, List.take_eq_nil_iff]
    rintro (hlen | hnil)
    · exact absurd hlen (by decide)
    · exact h.1 hnil
  · have hlen := List.length_take_le (filetreeNameLen - 1) name
    exact Nat.lt_of_le_of_lt hlen (by decide)

/-- What `filetree_refresh` lists. -/
theorem refresh_names (hfs : Lists fs) : ∀ e ∈ (ft.refresh fs).2.entries,
    Component slash e.name ∧ e.name.length < filetreeNameLen := by
  intro e he
  unfold FileTree.refresh at he
  split at he
  · simp [setError] at he
  · next names hnames =>
    rw [List.mem_mergeSort] at he
    obtain ⟨name, hname, rfl⟩ := List.mem_map.1 he
    have hmem := (List.mem_filter.1 (List.mem_of_mem_take hname)).1
    obtain ⟨hcomp, h0⟩ := hfs _ _ hnames _ hmem
    exact readEntry_name ft.cwd hcomp h0

/-- The tree refreshed at the top of its window. -/
theorem located_refresh (stack : ∀ c ∈ cs, Component slash c) (cwd : ft.cwd = render slash cs)
    (fits : ft.cwd.length < pathMax) (hscroll : ft.scroll = 0) (hcursor : ft.cursor = 0)
    (hfs : Lists fs) : (ft.refresh fs).2.Located cs where
  stack := stack
  cwd := by rw [refresh_cwd, cwd]
  fits := by rwa [refresh_cwd]
  names := refresh_names hfs
  inRange := refresh_inRange hscroll hcursor

theorem parentPath_eq (cwd : List UInt8) :
    parentPath cwd = if Path.above slash cwd = [] then [slash] else Path.above slash cwd := rfl

/-- The path cut at the last slash is the stack without its last component. -/
theorem parentPath_render (h : ∀ c ∈ cs, Component slash c) (hne : cs ≠ []) :
    parentPath (render slash cs) = render slash cs.dropLast := by
  rcases List.eq_nil_or_concat cs with rfl | ⟨ds, d, rfl⟩
  · exact absurd rfl hne
  · rw [List.concat_eq_append] at h ⊢
    rw [parentPath_eq, Path.above_render (h d (by simp)), List.dropLast_concat]
    by_cases hds : ds = []
    · subst hds
      rfl
    · rw [if_neg (Path.written_ne_nil hds), Path.render_of_ne hds]

theorem dropLast_length (cs : List (List UInt8)) (hne : cs ≠ []) :
    (render slash cs.dropLast).length ≤ (render slash cs).length := by
  rcases List.eq_nil_or_concat cs with rfl | ⟨ds, d, rfl⟩
  · exact absurd rfl hne
  · rw [List.concat_eq_append, List.dropLast_concat, Path.render_concat]
    by_cases hds : ds = []
    · subst hds
      simp [Path.written]
    · rw [Path.render_of_ne hds, List.length_append]
      omega

/-- `filetree_go_parent` pops. -/
theorem Located.goParent (h : ft.Located cs) (hfs : Lists fs) :
    (ft.goParent fs).2.Located cs.dropLast := by
  unfold FileTree.goParent
  split
  · next hroot =>
    obtain rfl := (Path.render_eq_sep_iff h.stack).1 (h.cwd ▸ hroot)
    exact h
  · next hroot =>
    have hne : cs ≠ [] := by
      rintro rfl
      exact hroot h.cwd
    have hparent : parentPath ft.cwd = render slash cs.dropLast := by
      rw [h.cwd, parentPath_render h.stack hne]
    have hle := dropLast_length cs hne
    have hfits := h.fits
    rw [h.cwd] at hfits
    exact located_refresh (fun c hc => h.stack c (List.dropLast_subset cs hc)) hparent
      (show (parentPath ft.cwd).length < pathMax by rw [hparent]; omega) rfl rfl hfs

/-- The guard against long paths is exact on the names of a listing. -/
theorem Located.guard (h : ft.Located cs) (he : e ∈ ft.entries) :
    pathMax ≤ ft.cwd.length + 1 + e.name.length ↔
      ¬ (render slash (cs ++ [e.name])).length < pathMax := by
  by_cases hcs : cs = []
  · subst hcs
    have hname := (h.names e he).2
    have hcwd : ft.cwd.length = 1 := by rw [h.cwd]; rfl
    have hlen : (render slash ([] ++ [e.name])).length = e.name.length + 1 := by
      simp [render, Path.written]
    have : filetreeNameLen + 2 ≤ pathMax := by decide
    omega
  · rw [Path.render_push hcs, ← h.cwd]
    simp only [List.length_append, List.length_cons, List.length_nil]
    omega

/-- The directory `filetree_enter_selected` goes to. -/
theorem Located.childPath_eq (h : ft.Located cs) (e : FileEntry) :
    (if ft.cwd = [slash] then slash :: e.name else ft.cwd ++ [slash] ++ e.name) =
      render slash (cs ++ [e.name]) := by
  by_cases hcs : cs = []
  · subst hcs
    have hroot : ft.cwd = [slash] := h.cwd
    rw [if_pos hroot]
    simp [render, Path.written]
  · rw [if_neg fun hroot => hcs ((Path.render_eq_sep_iff h.stack).1 (h.cwd ▸ hroot)), h.cwd,
      Path.render_push hcs]

/-- `filetree_enter_selected` pushes the directory under the cursor. -/
theorem Located.enterSelected (h : ft.Located cs) (hfs : Lists fs) :
    ∃ ft', (Nav.enterSelected fs).run ft = some ft' ∧
      ft'.Located ((Nav.enterSelected fs).after ft cs) := by
  simp only [Nav.run, Nav.after, FileTree.enterSelected]
  by_cases hcount : ft.entryCount = 0
  · have hnone : ft.selected = none := by
      have hnil : ft.entries = [] := by
        rw [entryCount] at hcount
        exact List.eq_nil_of_length_eq_zero (by omega)
      simp [selected, Block.read, hnil]
    rw [if_pos hcount, hnone]
    exact ⟨ft, rfl, h⟩
  · obtain ⟨e, he⟩ := h.inRange.selected hcount
    have hmem : e ∈ ft.entries := by
      rw [Block.read] at he
      split at he
      · exact List.mem_of_getElem? he
      · cases he
    rw [if_neg hcount, selected, he]
    simp only [Option.bind_eq_bind, Option.bind_some, Option.pure_def]
    split
    · exact ⟨ft, rfl, h⟩
    · split
      · exact ⟨_, rfl, h.goParent hfs⟩
      · rw [h.childPath_eq e]
        by_cases hfits : (render slash (cs ++ [e.name])).length < pathMax
        · rw [if_neg fun hlong => (h.guard hmem).1 hlong hfits, if_pos hfits]
          have stack : ∀ c ∈ cs ++ [e.name], Component slash c := by
            intro c hc
            rcases List.mem_append.1 hc with hc | hc
            · exact h.stack c hc
            · rw [List.mem_singleton.1 hc]
              exact (h.names e hmem).1
          exact ⟨_, rfl, located_refresh stack rfl hfits rfl rfl hfs⟩
        · rw [if_pos ((h.guard hmem).2 hfits), if_neg hfits]
          exact ⟨_, rfl, h.stack, h.cwd, h.fits, h.names, ⟨h.inRange.scroll_nonneg,
            h.inRange.scroll_le, h.inRange.cursor_nonneg, h.inRange.cursor_lt⟩⟩

/-- A call that keeps path and listing. -/
theorem Located.frame (h : ft.Located cs) {ft' : FileTree} (hcwd : ft'.cwd = ft.cwd)
    (hentries : ft'.entries = ft.entries) (hrange : ft'.InRange) : ft'.Located cs :=
  ⟨h.stack, hcwd.trans h.cwd, hcwd ▸ h.fits, hentries ▸ h.names, hrange⟩

theorem setCursor_frame (ft : FileTree) (idx visRows : Int) :
    (ft.setCursor idx visRows).cwd = ft.cwd ∧
      (ft.setCursor idx visRows).entries = ft.entries := by
  unfold FileTree.setCursor
  split
  · exact ⟨rfl, rfl⟩
  · exact ⟨rfl, rfl⟩

/-- One call: the stack of the tree is the one it had with the call applied. -/
theorem Located.run (h : ft.Located cs) {nav : Nav} (hok : nav.Ok) :
    ∃ ft', nav.run ft = some ft' ∧ ft'.Located (nav.after ft cs) := by
  cases nav with
  | enterSelected fs => exact h.enterSelected hok
  | goParent fs => exact ⟨_, rfl, h.goParent hok⟩
  | moveUp visRows => exact ⟨_, rfl, h.frame rfl rfl (h.inRange.moveUp hok)⟩
  | moveDown visRows => exact ⟨_, rfl, h.frame rfl rfl (h.inRange.moveDown hok)⟩
  | setCursor idx visRows =>
    obtain ⟨hcwd, hentries⟩ := setCursor_frame ft idx visRows
    exact ⟨_, rfl, h.frame hcwd hentries (h.inRange.setCursor idx hok)⟩
  | scrollBy delta visRows => exact ⟨_, rfl, h.frame rfl rfl (h.inRange.scrollBy delta hok)⟩

/-- A run of calls keeps the path of the tree the path of a stack. -/
theorem Located.runs (h : ft.Located cs) {navs : List Nav} (hok : ∀ nav ∈ navs, nav.Ok) :
    ∃ ft' ds, navs.foldlM Nav.run ft = some ft' ∧ ft'.Located ds := by
  induction navs generalizing ft cs with
  | nil => exact ⟨ft, cs, rfl, h⟩
  | cons nav navs ih =>
    obtain ⟨hnav, hnavs⟩ := List.forall_mem_cons.1 hok
    obtain ⟨ft₁, hrun, h₁⟩ := h.run hnav
    obtain ⟨ft', ds, hruns, h'⟩ := ih h₁ hnavs
    refine ⟨ft', ds, ?_, h'⟩
    simp only [List.foldlM_cons, hrun, Option.bind_eq_bind, Option.bind_some, hruns]

theorem located_init (hcwd : fs.getcwd = some (render slash cs))
    (hcs : ∀ c ∈ cs, Component slash c) (hfits : (render slash cs).length < pathMax)
    (hfs : Lists fs) : (FileTree.static.init fs).Located cs := by
  unfold FileTree.init
  rw [hcwd]
  exact located_refresh hcs rfl hfits rfl rfl hfs

/-- Entering a directory and going to the parent comes back. -/
theorem Located.enter_goParent (h : ft.Located cs) {fs' : Files} (hfs : Lists fs)
    (hfs' : Lists fs') (he : ft.selected = some e) (hdir : e.isDir = true)
    (hup : e.name ≠ ascii "..") (hfits : (render slash (cs ++ [e.name])).length < pathMax) :
    ∃ ft₁ ft₂, (Nav.enterSelected fs).run ft = some ft₁ ∧
      ft₁.cwd = render slash (cs ++ [e.name]) ∧
      (Nav.goParent fs').run ft₁ = some ft₂ ∧ ft₂.cwd = ft.cwd := by
  obtain ⟨ft₁, hrun, h₁⟩ := h.enterSelected hfs
  simp only [Nav.after, he, hdir, hup, hfits, Bool.not_true, Bool.false_eq_true, if_false,
    if_true] at h₁
  refine ⟨ft₁, _, hrun, h₁.cwd, rfl, ?_⟩
  rw [(h₁.goParent hfs').cwd, List.dropLast_concat, h.cwd]

/-- From a normalised working directory on, whatever calls are made over listings of
components: the path is that of a stack of components and fits, each further call leaves
the path of `Nav.after`, and a directory entered is left to where it was entered from. -/
theorem cwd_is_stack (hcwd : fs.getcwd = some (render slash cs))
    (hcs : ∀ c ∈ cs, Component slash c) (hfits : (render slash cs).length < pathMax)
    (hfs : Lists fs) {navs : List Nav} (hok : ∀ nav ∈ navs, nav.Ok) :
    ∃ ft ds, navs.foldlM Nav.run (FileTree.static.init fs) = some ft ∧
      (∀ d ∈ ds, Component slash d) ∧ ft.cwd = render slash ds ∧ ft.cwd.length < pathMax ∧
      (∀ nav : Nav, nav.Ok → ∃ ft', nav.run ft = some ft' ∧
        ft'.cwd = render slash (nav.after ft ds)) ∧
      ∀ fs₁ fs₂ e, Lists fs₁ → Lists fs₂ → ft.selected = some e → e.isDir = true →
        e.name ≠ ascii ".." → (render slash (ds ++ [e.name])).length < pathMax →
        ∃ ft₁ ft₂, (Nav.enterSelected fs₁).run ft = some ft₁ ∧
          ft₁.cwd = render slash (ds ++ [e.name]) ∧
          (Nav.goParent fs₂).run ft₁ = some ft₂ ∧ ft₂.cwd = ft.cwd := by
  obtain ⟨ft, ds, hrun, h⟩ := (located_init hcwd hcs hfits hfs).runs hok
  refine ⟨ft, ds, hrun, h.stack, h.cwd, h.fits, fun nav hnav => ?_, ?_⟩
  · obtain ⟨ft', hstep, h'⟩ := h.run hnav
    exact ⟨ft', hstep, h'.cwd⟩
  · intro fs₁ fs₂ e hfs₁ hfs₂ he hdir hup hroom
    exact h.enter_goParent hfs₁ hfs₂ he hdir hup hroom

end Stack

/-- A file system in which every directory has one directory, "b". -/
def nested : Files where
  getcwd := some (ascii "/a")
  opendir := fun _ => some [ascii ".", ascii "..", ascii "b"]
  isDir := fun _ => true
  read := fun _ => none
  writable := fun _ => false
  strerror := []

theorem nested_lists : Lists nested := by
  intro path names hnames
  obtain rfl := Option.some.inj hnames
  decide +kernel

/-- Down into "b" and back. -/
theorem cwd_is_stack_nested :
    ∃ ft ds, [Nav.setCursor 1 10, .enterSelected nested, .goParent nested].foldlM Nav.run
        (FileTree.static.init nested) = some ft ∧
      ft.cwd = render slash ds ∧ ft.cwd.length < pathMax := by
  have hok : ∀ nav ∈ [Nav.setCursor 1 10, .enterSelected nested, .goParent nested], nav.Ok := by
    intro nav hnav
    simp only [List.mem_cons, List.not_mem_nil, or_false] at hnav
    rcases hnav with rfl | rfl | rfl
    · exact (by decide : (0 : Int) < 10)
    · exact nested_lists
    · exact nested_lists
  have hcwd : nested.getcwd = some (render slash [ascii "a"]) := by decide +kernel
  obtain ⟨ft, ds, hrun, -, hcwd, hfits, -⟩ :=
    cwd_is_stack hcwd (by decide +kernel) (by decide +kernel) nested_lists hok
  exact ⟨ft, ds, hrun, hcwd, hfits⟩

/-! ## Failing calls -/

/-- Path, listing, cursor and window of `ft'` are those of `ft`. -/
structure Stays (ft ft' : FileTree) : Prop where
  cwd : ft'.cwd = ft.cwd
  entries : ft'.entries = ft.entries
  count : ft'.entryCount = ft.entryCount
  cursor : ft'.cursor = ft.cursor
  scroll : ft'.scroll = ft.scroll

/-- The directory above can be opened, or there is none. -/
def ParentOpens (fs : Files) (ft : FileTree) : Prop :=
  ft.cwd = [slash] ∨ (fs.opendir (parentPath ft.cwd)).isSome

/-- The directory below. -/
def childPath (cwd name : List UInt8) : List UInt8 :=
  if cwd = [slash] then slash :: name else cwd ++ [slash] ++ name

/-- If a directory is selected that can be moved to, it can be opened. -/
def SelectedOpens (fs : Files) (ft : FileTree) : Prop :=
  ∀ e, ft.selected = some e → e.isDir = true →
    if e.name = ascii ".." then ParentOpens fs ft
    else ft.cwd.length + 1 + e.name.length < pathMax →
      (fs.opendir (childPath ft.cwd e.name)).isSome

section Failure

variable {ft : FileTree} {fs : Files} {e : FileEntry}

theorem parentPath_ne {cwd : List UInt8} (h : cwd ≠ [slash]) : parentPath cwd ≠ cwd := by
  rw [parentPath_eq]
  split
  · exact Ne.symm h
  · next hne =>
    intro heq
    have hlen := congrArg List.length heq
    have hpos := List.length_pos_iff.2 hne
    have hle := List.length_dropWhile_le (fun x => decide (x ≠ slash)) cwd.reverse
    simp only [Path.above, List.length_reverse, List.length_tail] at hlen hpos hle
    omega

/-- A directory that does not open leaves an empty listing. -/
theorem refresh_err_iff (ft : FileTree) : (ft.refresh fs).1 = .err ↔ fs.opendir ft.cwd = none := by
  unfold FileTree.refresh
  split
  · next h => simp [h]
  · next h => simp [h]

theorem refresh_err_entries (h : (ft.refresh fs).1 = .err) : (ft.refresh fs).2.entries = [] := by
  unfold FileTree.refresh
  rw [(refresh_err_iff ft).1 h]
  rfl

/-- A tree that has moved away comes back nowhere: the directory has to open. -/
theorem refresh_stays_iff {moved : FileTree}
    (h : (moved.refresh fs).1 = .err → ¬ ft.Stays (moved.refresh fs).2) :
    (∀ ft', moved.refresh fs = (.err, ft') → ft.Stays ft') ↔
      (fs.opendir moved.cwd).isSome := by
  constructor
  · intro hstays
    refine Option.isSome_iff_ne_none.2 fun hnone => ?_
    have herr := (refresh_err_iff moved).2 hnone
    exact h herr (hstays _ (Prod.ext herr rfl))
  · intro hopens ft' hrefresh
    have herr := (refresh_err_iff moved).1 (congrArg Prod.fst hrefresh)
    rw [herr] at hopens
    cases hopens

theorem goParent_stays_iff (fs : Files) (ft : FileTree) :
    (∀ ft', ft.goParent fs = (.err, ft') → ft.Stays ft') ↔ ParentOpens fs ft := by
  unfold FileTree.goParent ParentOpens
  by_cases hroot : ft.cwd = [slash]
  · simp [hroot]
  · rw [if_neg hroot, or_iff_right hroot]
    refine refresh_stays_iff fun _ hstays => parentPath_ne hroot ?_
    have hcwd := hstays.cwd
    rwa [refresh_cwd] at hcwd

theorem enterSelected_stays_iff (fs : Files) (ft : FileTree) :
    (∀ ft', ft.enterSelected fs = some (.err, ft') → ft.Stays ft') ↔ SelectedOpens fs ft := by
  unfold SelectedOpens selected FileTree.enterSelected
  by_cases hcount : ft.entryCount = 0
  · have hnil : ft.entries = [] := by
      rw [entryCount] at hcount
      exact List.eq_nil_of_length_eq_zero (by omega)
    rw [if_pos hcount, hnil]
    refine iff_of_true (fun ft' h => ?_) (fun e he => by simp [Block.read] at he)
    obtain ⟨-, rfl⟩ := Prod.mk.inj (Option.some.inj h)
    exact ⟨rfl, rfl, rfl, rfl, rfl⟩
  · rw [if_neg hcount]
    cases he : Block.read ft.entries ft.cursor with
    | none => simp
    | some e =>
      simp only [Option.bind_eq_bind, Option.bind_some, Option.pure_def, Option.some.injEq,
        forall_eq']
      by_cases hdir : e.isDir = true
      · rw [if_neg (by simp [hdir])]
        by_cases hup : e.name = ascii ".."
        · simp only [hup, if_true, Option.some.injEq, hdir, true_imp_iff]
          exact goParent_stays_iff fs ft
        · simp only [hup, if_false, hdir, true_imp_iff]
          by_cases hlong : pathMax ≤ ft.cwd.length + 1 + e.name.length
          · rw [if_pos hlong]
            refine iff_of_true (fun ft' h => ?_) fun hroom => absurd hroom (by omega)
            obtain ⟨-, rfl⟩ := Prod.mk.inj (Option.some.inj h)
            exact ⟨rfl, rfl, rfl, rfl, rfl⟩
          · rw [if_neg hlong, imp_iff_right (by omega)]
            simp only [Option.some.injEq]
            refine refresh_stays_iff fun herr hstays => hcount ?_
            -- nothing is listed any more, and something was selected
            rw [← hstays.count, entryCount, refresh_err_entries herr]
            rfl
      · rw [if_pos (by simpa using hdir)]
        simp [hdir]

/-- A failing call leaves the tree where it was if and only if it did not move to a
directory that cannot be opened. -/
theorem failed_navigation_stays_iff (fs : Files) (ft : FileTree) :
    ((∀ ft', ft.goParent fs = (.err, ft') → ft.Stays ft') ↔ ParentOpens fs ft) ∧
      ((∀ ft', ft.enterSelected fs = some (.err, ft') → ft.Stays ft') ↔ SelectedOpens fs ft) :=
  ⟨goParent_stays_iff fs ft, enterSelected_stays_iff fs ft⟩

/-- The tree of "/a" with "b" selected. -/
def atNested : FileTree where
  cwd := ascii "/a"
  entries := [⟨ascii "..", true⟩, ⟨ascii "b", true⟩]
  cursor := 1
  scroll := 0
  visible := true
  focused := true
  errorMsg := []

/-- A directory without permission: the call fails and the tree stands in it, with
nothing listed. -/
theorem locked_directory_entered : ∃ ft',
    atNested.enterSelected { nested with opendir := fun _ => none } = some (.err, ft') ∧
      ft'.cwd = ascii "/a/b" ∧ ft'.entryCount = 0 ∧ ¬ atNested.Stays ft' := by
  refine ⟨_, rfl, by decide +kernel, rfl, fun h => ?_⟩
  exact absurd h.count (by decide)

end Failure

end FileTree

end LCode
