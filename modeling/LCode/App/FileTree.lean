import LCode.App.CommandBar

/-!
# File tree

`filetree.c` over the directory calls of the system. `Files` is what the
program sees of the system: the directories and the files, with arbitrary
contents and arbitrary failures.
-/

namespace LCode

/-- The file system, as `getcwd`, `opendir`, `readdir`, `stat` and `fopen` show
it. -/
structure Files where
  getcwd : Option (List UInt8)
  /-- The names `readdir` returns, in its order; `none` when `opendir` fails. -/
  opendir : List UInt8 → Option (List (List UInt8))
  isDir : List UInt8 → Bool
  /-- The contents of a file that opens for reading. -/
  read : List UInt8 → Option (List UInt8)
  /-- Whether the file opens for writing. -/
  writable : List UInt8 → Bool
  strerror : List UInt8

/-- The file system after `contents` has been written to `name`. -/
def Files.write (fs : Files) (name contents : List UInt8) : Files :=
  { fs with read := fun path => if path = name then some contents else fs.read path }

def pathMax : Nat := 1024

def filetreeMaxEntries : Nat := 256

def filetreeNameLen : Nat := 64

inductive FiletreeResult where
  | ok
  | file
  | err
  deriving DecidableEq, Repr

structure FileEntry where
  name : List UInt8
  isDir : Bool
  deriving DecidableEq, Repr

structure FileTree where
  cwd : List UInt8
  /-- The first `entry_count` entries. -/
  entries : List FileEntry
  cursor : Int
  scroll : Int
  visible : Bool
  focused : Bool
  errorMsg : List UInt8
  deriving DecidableEq, Repr

/-- `strcmp`, on unsigned bytes. -/
def strcmp : List UInt8 → List UInt8 → Int
  | [], [] => 0
  | [], _ :: _ => -1
  | _ :: _, [] => 1
  | a :: as, b :: bs => if a = b then strcmp as bs else (a.toNat : Int) - b.toNat

def slash : UInt8 := '/'.toUInt8

/-- `compare_entries`. -/
def compareEntries (a b : FileEntry) : Int :=
  if a.name = ascii ".." then -1
  else if b.name = ascii ".." then 1
  else if a.isDir ≠ b.isDir then if a.isDir then -1 else 1
  else strcmp a.name b.name

namespace FileTree

/-- The static state before `filetree_init`. -/
def static : FileTree := ⟨[], [], 0, 0, true, false, []⟩

/-- The number of entries. -/
def entryCount (ft : FileTree) : Int := ft.entries.length

/-- `snprintf` into `error_msg`. -/
def setError (ft : FileTree) (msg : List UInt8) : FileTree := { ft with errorMsg := msg.take 127 }

/-- The entry made for a name that `readdir` returned. -/
def readEntry (fs : Files) (cwd name : List UInt8) : FileEntry :=
  { name := strncpy name (filetreeNameLen - 1)
    isDir := fs.isDir ((cwd ++ [slash] ++ name).take (pathMax + filetreeNameLen)) }

/-- `filetree_refresh`. -/
def refresh (fs : Files) (ft : FileTree) : FiletreeResult × FileTree :=
  match fs.opendir ft.cwd with
  | none =>
    (.err, { ft with entries := [] }.setError
      (ascii "Cannot open '" ++ ft.cwd ++ ascii "': " ++ fs.strerror))
  | some names =>
    let entries := ((names.filter (· ≠ ascii ".")).take filetreeMaxEntries).map
      (readEntry fs ft.cwd)
    let entries := entries.mergeSort fun a b => compareEntries a b ≤ 0
    let count : Int := entries.length
    (.ok, { ft with
      entries
      errorMsg := []
      cursor := if count ≤ ft.cursor then (if 0 < count then count - 1 else 0) else ft.cursor })

/-- `filetree_init`. -/
def init (fs : Files) (ft : FileTree) : FileTree :=
  let ft := match fs.getcwd with
    | some cwd => { ft with cwd }
    | none => { ft.setError (ascii "Cannot get working directory: " ++ fs.strerror) with
        cwd := [slash] }
  (ft.refresh fs).2

/-- `filetree_move_up`. -/
def moveUp (ft : FileTree) (visRows : Int) : FileTree :=
  let cursor := if ft.scroll + visRows < ft.cursor then ft.scroll + visRows else ft.cursor
  let cursor := if 0 < cursor then cursor - 1 else cursor
  { ft with cursor, scroll := if cursor < ft.scroll then cursor else ft.scroll }

/-- `filetree_move_down`. -/
def moveDown (ft : FileTree) (visRows : Int) : FileTree :=
  let cursor := if ft.cursor < ft.scroll then ft.scroll - 1 else ft.cursor
  let cursor := if cursor < ft.entryCount - 1 then cursor + 1 else cursor
  { ft with
    cursor
    scroll := if ft.scroll + visRows ≤ cursor then cursor - visRows + 1 else ft.scroll }

/-- `filetree_set_cursor`. -/
def setCursor (ft : FileTree) (idx visRows : Int) : FileTree :=
  if ft.entryCount = 0 then { ft with cursor := 0, scroll := 0 }
  else
    let idx := if idx < 0 then 0 else idx
    let cursor := if ft.entryCount ≤ idx then ft.entryCount - 1 else idx
    let scroll := if cursor < ft.scroll then cursor else ft.scroll
    { ft with
      cursor
      scroll := if scroll + visRows ≤ cursor then cursor - visRows + 1 else scroll }

/-- The path above `cwd`: cut at the last slash, "/" when nothing is left. -/
def parentPath (cwd : List UInt8) : List UInt8 :=
  let above := (cwd.reverse.dropWhile (· ≠ slash)).tail.reverse
  if above = [] then [slash] else above

/-- `filetree_go_parent`. -/
def goParent (fs : Files) (ft : FileTree) : FiletreeResult × FileTree :=
  if ft.cwd = [slash] then (.ok, ft)
  else { ft with cwd := parentPath ft.cwd, cursor := 0, scroll := 0 }.refresh fs

/-- `filetree_enter_selected`. -/
def enterSelected (fs : Files) (ft : FileTree) : Option (FiletreeResult × FileTree) :=
  if ft.entryCount = 0 then some (.err, ft)
  else do
    let e ← Block.read ft.entries ft.cursor
    if !e.isDir then return (.file, ft)
    else if e.name = ascii ".." then return ft.goParent fs
    else if pathMax ≤ ft.cwd.length + 1 + e.name.length then
      return (.err, ft.setError (ascii "Path too long"))
    else
      let cwd := if ft.cwd = [slash] then slash :: e.name else ft.cwd ++ [slash] ++ e.name
      return { ft with cwd, cursor := 0, scroll := 0 }.refresh fs

/-- `filetree_get_selected_path`, into a buffer of `size` bytes. -/
def getSelectedPath (ft : FileTree) (size : Nat) : Option (List UInt8) :=
  if ft.entryCount = 0 then some []
  else do return (ft.cwd ++ [slash] ++ (← Block.read ft.entries ft.cursor).name).take (size - 1)

/-- `filetree_scroll_by`. -/
def scrollBy (ft : FileTree) (delta visRows : Int) : FileTree :=
  let scroll := ft.scroll + delta
  let scroll := if scroll < 0 then 0 else scroll
  let maxScroll := if ft.entryCount - visRows < 0 then 0 else ft.entryCount - visRows
  { ft with scroll := if maxScroll < scroll then maxScroll else scroll }

end FileTree

end LCode
