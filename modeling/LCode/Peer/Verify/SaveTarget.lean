import LCode.Commands.Verify.Keeps
import LCode.Peer.Verify.Local
import Mathlib.Data.List.TakeWhile
import Mathlib.Logic.Relation

/-!
# The file that is saved

The path of a file goes from the file tree through buffers of 64, PATH_MAX and 128
bytes: the name of the entry, the joined path, and the file name of the status bar,
which is also what Ctrl+S writes to. Editing leaves that name alone, so the file that
was opened is the file that is saved as long as no buffer has cut the path.
-/

namespace LCode

open Serial

namespace Commands

/-! ## The file name under the handlers -/

/-- The status bar has this file name. -/
def Named (name : List UInt8) (app : App) : Prop := app.bar.filename = name

theorem keeps_named (name : List UInt8) : Keeps (Named name) where
  editor _ h := h
  sent _ h := h
  status _ h := h
  render _ h := h

section Named

variable {name : List UInt8} {app : App}

/-! ## Keys -/

/-- Saving under the present name keeps it. -/
theorem saveKey_named (h : Named name app) (hfits : strncpy name (cmdBufSize - 1) = name) :
    Sat (Named name) (saveKey app) := by
  have hsave : Sat (Named name) (executeSave app app.bar.filename) := by
    refine .ite (.some h) (.ite (.some h) (Sat.of_bind fun contents => .some ?_))
    show strncpy app.bar.filename (cmdBufSize - 1) = name
    rw [show app.bar.filename = name from h, hfits]
  exact .ite (.some h) ((keeps_named name).thenRenderFull hsave)

theorem editorKey_named (h : Named name app) (ev : KeyEvent)
    (hfits : strncpy name (cmdBufSize - 1) = name) : Sat (Named name) (editorKey app ev) := by
  have hP := keeps_named name
  refine .ite (.some h) ?_
  refine .ite (hP.backspaceKey h ev) ?_
  refine .ite (hP.directionKey h ev) ?_
  refine .ite (Sat.of_bind fun editor => .some (hP.editor editor h)) ?_
  refine .ite (hP.cutKey h) ?_
  refine .ite (hP.pasteKey h) ?_
  refine .ite (saveKey_named h hfits) ?_
  refine .ite (.some h) ?_
  refine .ite (.some h) ?_
  refine .ite (.some h) ?_
  refine .ite (hP.enterKey h) ?_
  exact .ite (hP.charKey h ev.c) (.some h)

/-! ## The file tree and the command bar -/

theorem showFiletreeError_named (h : Named name app) : Named name (showFiletreeError app) := by
  unfold showFiletreeError
  split <;> exact h

/-- A key in the file tree that is not Enter. -/
theorem dispatchFiletreeMode_named (h : Named name app) {ev : KeyEvent}
    (henter : ev.enter = false) : Sat (Named name) (dispatchFiletreeMode app ev) := by
  unfold dispatchFiletreeMode
  rw [henter]
  refine .ite (.some h) (.ite (.some h) (.ite (.some h) (.ite (.some ?_) (.some h))))
  dsimp only
  split
  · exact showFiletreeError_named h
  · exact h

/-- A key in the command bar that is not Enter. -/
theorem dispatchCommandMode_named (h : Named name app) {ev : KeyEvent}
    (henter : ev.enter = false) : Sat (Named name) (dispatchCommandMode app ev) := by
  have hinsert : (app.bar.insert ev.c).filename = name := by
    unfold CommandBar.insert
    split <;> exact h
  unfold dispatchCommandMode
  rw [henter, if_neg Bool.false_ne_true]
  exact .ite (.some h) (.ite (.some h) (.ite (.some hinsert) (.some h)))

/-- Every key but an Enter in the file tree or the command bar. -/
theorem dispatch_named (h : Named name app) {ev : KeyEvent}
    (hkey : ev.enter = false ∨ (app.tree.focused = false ∧ app.bar.mode = .editor))
    (hfits : strncpy name (cmdBufSize - 1) = name) : Sat (Named name) (dispatch app ev) := by
  unfold dispatch filetreeCommandsTry
  by_cases htoggle : ev.ctrl && ev.c == 'b'.toUInt8
  · rw [if_pos htoggle]
    exact .some h
  · rw [if_neg htoggle]
    by_cases hfocus : app.tree.focused
    · rw [if_pos hfocus]
      have henter : ev.enter = false := hkey.resolve_right fun h => by simp [h.1] at hfocus
      refine Sat.bind (P := fun r => r.1 = true ∧ Named name r.2) ?_ ?_
      · exact (dispatchFiletreeMode_named h henter).bind fun _ h => .some ⟨rfl, h⟩
      · rintro ⟨_, app⟩ ⟨rfl, h⟩
        exact .some h
    · rw [if_neg hfocus]
      simp only [Option.bind_eq_bind, Option.bind_some, Bool.false_eq_true, if_false]
      split
      · next hmode =>
        exact dispatchCommandMode_named h (hkey.resolve_right fun h => by simp [h.2] at hmode)
      · exact editorKey_named h ev hfits

/-! ## The mouse and the peer -/

/-- A mouse event over the file tree that is no second click on its entry. -/
theorem filetreeCommandsMouse_named (h : Named name app) {me : MouseEvent}
    (hclick : ¬ app.MayOpen (.mouse me)) :
    Sat (fun r => Named name r.2) (filetreeCommandsMouse app me) := by
  unfold filetreeCommandsMouse
  dsimp only
  split
  · exact .some h
  · next idx hidx =>
    split
    · exact .some h
    · next hscroll =>
      have hother : ¬ idx = app.tree.cursor := fun heq =>
        hclick ⟨Decidable.not_not.1 hscroll, heq ▸ hidx⟩
      simp only [hother, if_false]
      exact .ite (.some h) (.some h)

/-- Every mouse event but a second click on an entry of the file tree. -/
theorem dispatchMouse_named (h : Named name app) {me : MouseEvent}
    (hclick : ¬ app.MayOpen (.mouse me)) : Sat (Named name) (dispatchMouse app me) := by
  have hP := keeps_named name
  obtain ⟨a, ha, hname, hclick⟩ : ∃ a, (if me.leftHolding then app else
      { app with editor := app.editor.selClear }) = a ∧ Named name a ∧
      ¬ a.MayOpen (.mouse me) := by
    split
    · exact ⟨_, rfl, h, hclick⟩
    · exact ⟨_, rfl, h, hclick⟩
  unfold dispatchMouse
  dsimp only
  rw [ha]
  refine .ite (.some hname) ?_
  cases hbar : (a.clickScrollbar me.clickX me.clickY).1 with
  | true => exact .some (hP.clickScrollbar hname _ _)
  | false =>
    rw [if_neg (by decide), clickScrollbar_beside hbar]
    refine (filetreeCommandsMouse_named hname hclick).bind fun ⟨consumed, app⟩ h => ?_
    exact .ite (.some h) (.ite (.some h) (hP.textMouse h me))

/-- Every packet of the peer but CMD_FILE_START. -/
theorem dispatchSerial_named (h : Named name app) {se : SerialEvent}
    (hcmd : se.cmd ≠ SerialCommand.fileStart.code) : Sat (Named name) (dispatchSerial app se) := by
  have hP := keeps_named name
  have hline : Sat (Named name) (serialFileLine app se) := by
    refine .ite (.some h) (Sat.of_bind fun ⟨_, editor⟩ => ?_)
    have hnew : Named name { app with
        editor, linesContador := (app.linesContador + 1) % 65536 } := h
    have hfull : RenderMode.full ≠ .word := nofun
    exact .ite (Sat.of_bind fun editor' => .some
      (hP.editor editor' (hP.status "" (hP.setRenderEx hfull hnew)))) (.some h)
  refine .ite (.some h) ?_
  refine .ite (hP.serialInsertChar h se) ?_
  refine .ite (hP.serialDeleteChar h) ?_
  refine .ite (hP.serialMoveCursor h se) ?_
  refine .ite (hP.serialReplaceBlock h se) ?_
  refine .ite (hP.serialUpdateLine h se) ?_
  rw [if_neg hcmd]
  exact .ite hline (.some h)

end Named

/-! ## Editing -/

/-- The path that Ctrl+S hands to `fopen`; none when it asks for a name. -/
def saveTarget (app : App) : Option (List UInt8) :=
  if app.bar.filename = ascii "untitled" ∨ app.bar.filename = [] then none
  else some app.bar.filename

/-- One step of an editing session: a key that neither opens the entry of the file tree
nor executes a command, a mouse event that opens no entry, a redraw, or a packet of the
peer that brings no new file. -/
inductive EditStep : App → App → Prop
  | key {app app' : App} (ev : KeyEvent)
      (hkey : ev.enter = false ∨ (app.tree.focused = false ∧ app.bar.mode = .editor))
      (h : dispatch app ev = some app') : EditStep app app'
  | mouse {app app' : App} (me : MouseEvent) (hclick : ¬ app.MayOpen (.mouse me))
      (h : dispatchMouse app me = some app') : EditStep app app'
  | render (app : App) : EditStep app app.viewRender
  | packet {app app' : App} (se : SerialEvent) (hcmd : se.cmd ≠ SerialCommand.fileStart.code)
      (h : dispatchSerial app se = some app') : EditStep app app'

section Editing

variable {app app' : App} {path : List UInt8}

theorem EditStep.filename (h : EditStep app app')
    (hfits : strncpy app.bar.filename (cmdBufSize - 1) = app.bar.filename) :
    app'.bar.filename = app.bar.filename := by
  cases h with
  | key ev hkey h => exact dispatch_named rfl hkey hfits app' h
  | mouse me hclick h => exact dispatchMouse_named rfl hclick app' h
  | render =>
    unfold App.viewRender
    split <;> rfl
  | packet se hcmd h => exact dispatchSerial_named rfl hcmd app' h

theorem editing_filename (h : Relation.ReflTransGen EditStep app app')
    (hfits : strncpy app.bar.filename (cmdBufSize - 1) = app.bar.filename) :
    app'.bar.filename = app.bar.filename := by
  induction h with
  | refl => rfl
  | tail _ hstep ih => rw [hstep.filename (by rw [ih, hfits]), ih]

/-- Ctrl+S changes no other file. -/
theorem saveKey_writes (h : saveTarget app = some path) (hkey : saveKey app = some app') :
    if app.files.writable path then ∃ contents, app'.files = app.files.write path contents
    else app'.files = app.files := by
  unfold saveTarget at h
  split at h
  · exact nomatch h
  · next hname =>
    obtain rfl := Option.some.inj h
    rw [not_or] at hname
    unfold saveKey executeSave at hkey
    simp only [if_neg hname.1, if_neg hname.2, Option.bind_eq_bind] at hkey
    obtain ⟨app₁, hsave, hkey⟩ := Option.bind_eq_some_iff.1 hkey
    obtain rfl := Option.some.inj hkey
    split
    · next hwritable =>
      rw [hwritable] at hsave
      obtain ⟨contents, -, hsave⟩ := Option.bind_eq_some_iff.1 hsave
      obtain rfl := Option.some.inj hsave
      exact ⟨contents, rfl⟩
    · next hwritable =>
      rw [Bool.not_eq_true] at hwritable
      rw [hwritable] at hsave
      obtain rfl := Option.some.inj hsave
      rfl

end Editing

/-! ## Opening an entry -/

/-- The entry under the cursor of the file tree is a file that `readdir` returned under
this name. -/
structure Selected (app : App) (name : List UInt8) : Prop where
  listed : ∃ names, app.files.opendir app.tree.cwd = some names ∧ name ∈ names ∧
    app.tree.entries = (app.tree.refresh app.files).2.entries
  entry : Block.read app.tree.entries app.tree.cursor =
    some (FileTree.readEntry app.files app.tree.cwd name)
  file : (FileTree.readEntry app.files app.tree.cwd name).isDir = false
  absolute : app.tree.cwd.head? = some slash
  cwd_lt : app.tree.cwd.length < pathMax
  cwd_nul : 0 ∉ app.tree.cwd
  name_nul : 0 ∉ name

/-- Every file under the cursor of a listing is selected under a name of it. -/
theorem exists_selected {app : App} {names : List (List UInt8)} {e : FileEntry}
    (hdir : app.files.opendir app.tree.cwd = some names)
    (hlist : app.tree.entries = (app.tree.refresh app.files).2.entries)
    (hentry : Block.read app.tree.entries app.tree.cursor = some e) (hfile : e.isDir = false)
    (absolute : app.tree.cwd.head? = some slash) (hlt : app.tree.cwd.length < pathMax)
    (hcwd : 0 ∉ app.tree.cwd) (hnames : ∀ name ∈ names, 0 ∉ name) : ∃ name, Selected app name := by
  have hmem : e ∈ (app.tree.refresh app.files).2.entries := by
    rw [← hlist]
    unfold Block.read at hentry
    split at hentry
    · exact List.mem_of_getElem? hentry
    · exact nomatch hentry
  simp only [FileTree.refresh, hdir, List.mem_mergeSort] at hmem
  obtain ⟨name, hname, rfl⟩ := List.mem_map.1 hmem
  have hname := (List.mem_filter.1 (List.mem_of_mem_take hname)).1
  exact ⟨name, ⟨names, hdir, hname, hlist⟩, hentry, hfile, absolute, hlt, hcwd, hnames name hname⟩

/-- The listed directory and the full name. -/
def fullPath (app : App) (name : List UInt8) : List UInt8 := app.tree.cwd ++ [slash] ++ name

/-- `fopen` gets the path, and while the session only edits, so does Ctrl+S. -/
structure SavesOpened (app : App) (path : List UInt8) : Prop where
  opens : app.tree.getSelectedPath pathMax = some path
  saves : ∀ contents app₁ app₂, app.files.read path = some contents →
    openFiletreeFile app = some app₁ → Relation.ReflTransGen EditStep app₁ app₂ →
      saveTarget app₂ = some path ∧ ∀ app₃, saveKey app₂ = some app₃ →
        if app₂.files.writable path then ∃ text, app₃.files = app₂.files.write path text
        else app₃.files = app₂.files

/-- No buffer on the way cuts the path. -/
def PathFits (app : App) (name : List UInt8) : Prop :=
  name.length < filetreeNameLen ∧ (fullPath app name).length <
    if (app.files.read (fullPath app name)).isSome then cmdBufSize else pathMax

theorem strncpy_eq_iff {s : List UInt8} (h0 : 0 ∉ s) (n : Nat) :
    strncpy s n = s ↔ s.length ≤ n := by
  rw [strncpy_eq_take h0]
  constructor
  · intro heq
    have := congrArg List.length heq
    rw [List.length_take] at this
    omega
  · exact List.take_of_length_le

section Opening

variable {app app' : App} {name : List UInt8}

theorem Selected.entryCount_ne (h : Selected app name) : app.tree.entryCount ≠ 0 := by
  intro hcount
  have hnil : app.tree.entries = [] := by
    rw [FileTree.entryCount] at hcount
    exact List.eq_nil_of_length_eq_zero (by omega)
  have hread := h.entry
  rw [hnil, Block.read] at hread
  split at hread <;> simp at hread

/-- `filetree_get_selected_path`. -/
theorem Selected.path_eq (h : Selected app name) : app.tree.getSelectedPath pathMax =
    some ((app.tree.cwd ++ [slash] ++ name.take (filetreeNameLen - 1)).take (pathMax - 1)) := by
  simp only [FileTree.getSelectedPath, if_neg h.entryCount_ne, h.entry, FileTree.readEntry,
    strncpy_eq_take h.name_nul, Option.bind_eq_bind, Option.bind_some, Option.pure_def]

theorem Selected.opens_iff (h : Selected app name) :
    app.tree.getSelectedPath pathMax = some (fullPath app name) ↔
      name.length < filetreeNameLen ∧ (fullPath app name).length < pathMax := by
  rw [h.path_eq, Option.some.injEq, fullPath]
  have hpos : 0 < filetreeNameLen ∧ 0 < pathMax := by decide
  constructor
  · intro heq
    have := congrArg List.length heq
    simp only [List.length_take, List.length_append, List.length_singleton] at this ⊢
    omega
  · rintro ⟨hname, hpath⟩
    rw [List.take_of_length_le (l := name) (by omega), List.take_of_length_le (by omega)]

/-- `open_filetree_file` on a file hands its path to `execute_open`. -/
theorem Selected.openFiletreeFile_eq (h : Selected app name) {path : List UInt8}
    (hpath : app.tree.getSelectedPath pathMax = some path) :
    openFiletreeFile app = (executeOpen app path).map fun app =>
      App.setRender { app with tree := { app.tree with focused := false } } .full := by
  have henter : app.tree.enterSelected app.files = some (.file, app.tree) := by
    simp only [FileTree.enterSelected, if_neg h.entryCount_ne, h.entry, h.file, Bool.not_false,
      if_true, Option.bind_eq_bind, Option.bind_some, Option.pure_def]
  simp only [openFiletreeFile, henter, hpath, Option.bind_eq_bind, Option.bind_some]
  cases executeOpen app path <;> rfl

theorem fullPath_ne (h : Selected app name) :
    fullPath app name ≠ ascii "untitled" ∧ fullPath app name ≠ [] := by
  obtain ⟨rest, hrest⟩ := List.head?_eq_some_iff.1 h.absolute
  rw [fullPath, hrest]
  exact ⟨fun heq => absurd (List.cons.inj heq).1 (by decide), nofun⟩

theorem fullPath_nul (h : Selected app name) : 0 ∉ fullPath app name := by
  have hslash : 0 ∉ [slash] := by decide
  simp only [fullPath, List.mem_append, not_or]
  exact ⟨⟨h.cwd_nul, hslash⟩, h.name_nul⟩

/-- A file that could be read becomes the one of the status bar. -/
theorem executeOpen_filename {path contents : List UInt8} (hne : path ≠ [])
    (hread : app.files.read path = some contents) (h : executeOpen app path = some app') :
    app'.bar.filename = strncpy path (cmdBufSize - 1) := by
  unfold executeOpen at h
  simp only [if_neg hne, hread, Option.bind_eq_bind] at h
  obtain ⟨_, -, h⟩ := Option.bind_eq_some_iff.1 h
  obtain ⟨_, -, h⟩ := Option.bind_eq_some_iff.1 h
  obtain ⟨_, -, h⟩ := Option.bind_eq_some_iff.1 h
  obtain rfl := Option.some.inj h
  rfl

/-- After opening, the name in the status bar is what is left of the path. -/
theorem Selected.opened_filename (h : Selected app name) {contents : List UInt8}
    (hpath : app.tree.getSelectedPath pathMax = some (fullPath app name))
    (hread : app.files.read (fullPath app name) = some contents)
    (hopen : openFiletreeFile app = some app') :
    app'.bar.filename = strncpy (fullPath app name) (cmdBufSize - 1) := by
  rw [h.openFiletreeFile_eq hpath, Option.map_eq_some_iff] at hopen
  obtain ⟨app₁, hexec, rfl⟩ := hopen
  have hname := executeOpen_filename (fullPath_ne h).2 hread hexec
  exact hname

theorem Selected.saves_of_fits (h : Selected app name) (hfits : PathFits app name) :
    SavesOpened app (fullPath app name) := by
  obtain ⟨hname, hlen⟩ := hfits
  have hsizes : cmdBufSize ≤ pathMax ∧ 0 < cmdBufSize := by decide
  have hpath := h.opens_iff.2 ⟨hname, by split at hlen <;> omega⟩
  refine ⟨hpath, fun contents app₁ app₂ hread hopen hedit => ?_⟩
  rw [hread, Option.isSome_some, if_pos rfl] at hlen
  have hcopy := (strncpy_eq_iff (fullPath_nul h) (cmdBufSize - 1)).2 (by omega)
  have hopened := h.opened_filename hpath hread hopen
  rw [hcopy] at hopened
  have hedited := editing_filename hedit (by rw [hopened, hcopy])
  have htarget : saveTarget app₂ = some (fullPath app name) := by
    rw [saveTarget, hedited, hopened, if_neg (not_or.2 (fullPath_ne h))]
  exact ⟨htarget, fun app₃ hkey => saveKey_writes htarget hkey⟩

theorem Selected.fits_of_saves (h : Selected app name) (hdoc : app.editor.doc.Freeable)
    (ample : app.editor.doc.heap.Ample) (hsaves : SavesOpened app (fullPath app name)) :
    PathFits app name := by
  obtain ⟨hpath, hsaves⟩ := hsaves
  obtain ⟨hname, hlen⟩ := h.opens_iff.1 hpath
  refine ⟨hname, ?_⟩
  cases hread : app.files.read (fullPath app name) with
  | none => exact hlen
  | some contents =>
    obtain ⟨doc, hexec, -⟩ := executeOpen_eq hdoc ample (fullPath_ne h).2 hread
    have hopen := h.openFiletreeFile_eq hpath
    rw [hexec, Option.map_some] at hopen
    have htarget := (hsaves contents _ _ hread hopen .refl).1
    have hopened := h.opened_filename hpath hread hopen
    unfold saveTarget at htarget
    split at htarget
    · exact nomatch htarget
    · rw [hopened, Option.some.injEq, strncpy_eq_iff (fullPath_nul h)] at htarget
      have : 0 < cmdBufSize := by decide
      rw [Option.isSome_some, if_pos rfl]
      omega

/-- The file that was opened is the file that is saved, exactly when its path fits the
buffers. -/
theorem saves_opened_iff (h : Selected app name) :
    (PathFits app name → SavesOpened app (fullPath app name)) ∧
      (app.editor.doc.Freeable → app.editor.doc.heap.Ample →
        SavesOpened app (fullPath app name) → PathFits app name) :=
  ⟨h.saves_of_fits, h.fits_of_saves⟩

end Opening

/-- A disk with one file in its working directory. -/
def oneFile (name : List UInt8) : Files :=
  { emptyDisk with
    getcwd := some (ascii "/home")
    opendir := fun _ => some [name]
    read := fun _ => some [] }

/-- A process with the file under the cursor of its file tree. -/
def browsing (name : List UInt8) : App :=
  { holding [[]] with files := oneFile name, tree := FileTree.static.init (oneFile name) }

theorem browsing_selected {name : List UInt8} (h0 : 0 ∉ name) (hdot : name ≠ ascii ".") :
    Selected (browsing name) name := by
  have hentries : (browsing name).tree.entries =
      [FileTree.readEntry (oneFile name) (ascii "/home") name] := by
    simp [browsing, FileTree.init, FileTree.refresh, oneFile, FileTree.static, hdot,
      filetreeMaxEntries]
  have hcursor : (browsing name).tree.cursor = 0 := by
    simp [browsing, FileTree.init, FileTree.refresh, oneFile, FileTree.static, hdot,
      filetreeMaxEntries]
  have hlength : (ascii "/home").length < pathMax := by decide
  have hbytes : 0 ∉ ascii "/home" := by decide
  refine ⟨⟨[name], rfl, by simp, rfl⟩, ?_, rfl, rfl, hlength, hbytes, h0⟩
  rw [hentries, hcursor]
  rfl

/-- A short name in a short directory. -/
theorem saves_opened_short :
    SavesOpened (browsing (ascii "a.c")) (fullPath (browsing (ascii "a.c")) (ascii "a.c")) :=
  (saves_opened_iff (browsing_selected (by decide) (by decide))).1 ⟨by decide, by decide⟩

/-- A name of 64 bytes loses its last one, and another file is opened. -/
theorem long_name_opens_other :
    Selected (browsing (List.replicate 64 'a'.toUInt8)) (List.replicate 64 'a'.toUInt8) ∧
    (browsing (List.replicate 64 'a'.toUInt8)).tree.getSelectedPath pathMax =
      some (ascii "/home/" ++ List.replicate 63 'a'.toUInt8) ∧
    ¬ SavesOpened (browsing (List.replicate 64 'a'.toUInt8))
      (fullPath (browsing (List.replicate 64 'a'.toUInt8)) (List.replicate 64 'a'.toUInt8)) := by
  have hselected : Selected (browsing (List.replicate 64 'a'.toUInt8))
      (List.replicate 64 'a'.toUInt8) := browsing_selected (by decide) (by decide)
  refine ⟨hselected, hselected.path_eq, fun hsaves => ?_⟩
  have := (hselected.opens_iff.1 hsaves.opens).1
  exact absurd this (by decide)

end Commands

end LCode
