import LCode.App.Verify.FileTree
import LCode.Lib.Sorting
import Mathlib.Data.List.Lex
import Mathlib.Data.Prod.Lex

/-!
# The listing of a directory

`compare_entries` orders the entries of a directory strictly: by what they are, then
by name. So the listing does not depend on the order of `readdir`, and nothing but ".."
comes before the directories, nothing but a directory before the files.

The comparator is not an order on equal names: ".." comes before itself. The names of a
directory are all different.
-/

namespace LCode

/-! ## The order of the names -/

/-- A name as the numbers `strcmp` compares. -/
def nameKey (name : List UInt8) : List Nat := name.map UInt8.toNat

theorem nameKey_injective : Function.Injective nameKey :=
  List.map_injective_iff.2 fun _ _ => UInt8.toNat_inj.1

theorem strcmp_self (s : List UInt8) : strcmp s s = 0 := by
  induction s with
  | nil => rfl
  | cons a s ih => rwa [strcmp, if_pos rfl]

/-- `strcmp` is the lexicographic order. -/
theorem strcmp_neg_iff (s t : List UInt8) : strcmp s t < 0 ↔ nameKey s < nameKey t := by
  induction s, t using strcmp.induct with
  | case1 => decide
  | case2 b bs => simp [strcmp, nameKey]
  | case3 a as => simp [strcmp, nameKey]
  | case4 as b bs ih =>
    simp only [strcmp, if_true]
    simpa [nameKey, List.cons_lt_cons_iff] using ih
  | case5 a as b bs hne =>
    have hne' : a.toNat ≠ b.toNat := fun heq => hne (UInt8.toNat_inj.1 heq)
    simp only [strcmp, if_neg hne, nameKey, List.map_cons, List.cons_lt_cons_iff, hne', false_and,
      or_false]
    omega

theorem strcmp_pos_iff (s t : List UInt8) : 0 < strcmp s t ↔ nameKey t < nameKey s := by
  induction s, t using strcmp.induct with
  | case1 => decide
  | case2 b bs => simp [strcmp, nameKey]
  | case3 a as => simp [strcmp, nameKey]
  | case4 as b bs ih =>
    simp only [strcmp, if_true]
    simpa [nameKey, List.cons_lt_cons_iff] using ih
  | case5 a as b bs hne =>
    have hne' : b.toNat ≠ a.toNat := fun heq => hne (UInt8.toNat_inj.1 heq).symm
    simp only [strcmp, if_neg hne, nameKey, List.map_cons, List.cons_lt_cons_iff, hne', false_and,
      or_false]
    omega

namespace FileEntry

/-- ".." is first, then the directories, then the other entries. -/
def rank (e : FileEntry) : Nat := if e.name = ascii ".." then 0 else if e.isDir then 1 else 2

theorem rank_eq_zero {e : FileEntry} : e.rank = 0 ↔ e.name = ascii ".." := by
  unfold rank
  split
  · next hname => exact iff_of_true rfl hname
  · next hname => exact iff_of_false (by split <;> decide) hname

theorem rank_eq_one {e : FileEntry} : e.rank = 1 ↔ e.name ≠ ascii ".." ∧ e.isDir = true := by
  unfold rank
  split
  · next hname => exact iff_of_false (by decide) fun h => h.1 hname
  · next hname => cases e.isDir <;> simp [hname]

theorem rank_eq_two {e : FileEntry} : e.rank = 2 ↔ e.name ≠ ascii ".." ∧ e.isDir = false := by
  unfold rank
  split
  · next hname => exact iff_of_false (by decide) fun h => h.1 hname
  · next hname => cases e.isDir <;> simp [hname]

theorem rank_le (e : FileEntry) : e.rank ≤ 2 := by
  unfold rank
  split
  · decide
  · split <;> decide

/-- What `compare_entries` looks at. -/
def key (e : FileEntry) : Nat ×ₗ List Nat := toLex (e.rank, nameKey e.name)

end FileEntry

theorem compareEntries_self (e : FileEntry) : compareEntries e e ≤ 0 := by
  unfold compareEntries
  split
  · decide
  · simp [strcmp_self]

/-- `compare_entries` on two names. -/
theorem compareEntries_iff {a b : FileEntry} (hne : a.name ≠ b.name) : a.key ≠ b.key ∧
    (compareEntries a b < 0 ↔ a.key < b.key) ∧ (0 < compareEntries a b ↔ b.key < a.key) := by
  refine ⟨fun heq => hne (nameKey_injective (congrArg (fun k => (ofLex k).2) heq)), ?_⟩
  simp only [FileEntry.key, Prod.Lex.toLex_lt_toLex, FileEntry.rank, compareEntries]
  -- one case for each line of `compare_entries`
  by_cases ha : a.name = ascii ".."
  · have hb : b.name ≠ ascii ".." := fun hb => hne (ha.trans hb.symm)
    cases b.isDir <;> simp [ha, hb]
  · by_cases hb : b.name = ascii ".."
    · cases a.isDir <;> simp [ha, hb]
    · cases hda : a.isDir <;> cases hdb : b.isDir <;>
        simp [ha, hb, strcmp_neg_iff, strcmp_pos_iff]

/-- Entries of different names are in a strict total order. -/
theorem compareEntries_orders {entries : List FileEntry}
    (h : (entries.map FileEntry.name).Nodup) : Sorting.Orders compareEntries entries :=
  .of_key FileEntry.key (fun e _ => compareEntries_self e) fun _ ha _ hb hne =>
    compareEntries_iff fun heq => hne (List.inj_on_of_nodup_map h ha hb heq)

namespace FileTree

/-! ## `filetree_refresh` -/

/-- `filetree_refresh` with the `qsort` of the C library. -/
def refreshBy (qsort : (FileEntry → FileEntry → Int) → List FileEntry → List FileEntry)
    (fs : Files) (ft : FileTree) : FiletreeResult × FileTree :=
  match fs.opendir ft.cwd with
  | none =>
    (.err, { ft with entries := [] }.setError
      (ascii "Cannot open '" ++ ft.cwd ++ ascii "': " ++ fs.strerror))
  | some names =>
    let entries := ((names.filter (· ≠ ascii ".")).take filetreeMaxEntries).map
      (readEntry fs ft.cwd)
    let entries := qsort compareEntries entries
    let count : Int := entries.length
    (.ok, { ft with
      entries
      errorMsg := []
      cursor := if count ≤ ft.cursor then (if 0 < count then count - 1 else 0) else ft.cursor })

/-- The tree of the other modules sorts by merge sort. -/
theorem refresh_eq (fs : Files) (ft : FileTree) :
    ft.refresh fs = ft.refreshBy (fun cmp l => l.mergeSort (cmp · · ≤ 0)) fs := rfl

/-- ".." comes first, then the directories and then the other entries, both in the
order of `strcmp`. -/
def Listed (entries : List FileEntry) : Prop :=
  ∃ up dirs others, entries = up ++ dirs ++ others ∧ (∀ e ∈ up, e.name = ascii "..") ∧
    (∀ e ∈ dirs, e.name ≠ ascii ".." ∧ e.isDir = true) ∧
    (∀ e ∈ others, e.name ≠ ascii ".." ∧ e.isDir = false) ∧
    dirs.Pairwise (fun a b => strcmp a.name b.name < 0) ∧
    others.Pairwise fun a b => strcmp a.name b.name < 0

section Listing

variable {fs : Files} {ft : FileTree} {names : List (List UInt8)} {entries : List FileEntry}

theorem key_lt {a b : FileEntry} (h : a.key < b.key) : a.rank ≤ b.rank ∧
    (a.rank = b.rank → strcmp a.name b.name < 0) := by
  simp only [FileEntry.key, Prod.Lex.toLex_lt_toLex] at h
  rcases h with hrank | ⟨hrank, hname⟩
  · exact ⟨Nat.le_of_lt hrank, fun heq => absurd heq (Nat.ne_of_lt hrank)⟩
  · exact ⟨Nat.le_of_eq hrank, fun _ => (strcmp_neg_iff _ _).2 hname⟩

/-- Entries in the order of `compare_entries`. -/
theorem listed_of_pairwise (hnames : (entries.map FileEntry.name).Nodup)
    (h : entries.Pairwise fun a b => compareEntries a b < 0) : Listed entries := by
  have hkey : entries.Pairwise fun a b => a.key < b.key :=
    (h.and (List.pairwise_map.1 hnames)).imp fun hab => (compareEntries_iff hab.2).2.1.1 hab.1
  have hrank : entries.Pairwise fun a b => a.rank ≤ b.rank := hkey.imp fun hab => (key_lt hab).1
  have hsorted (k : Nat) (l : List FileEntry) (hl : l.Sublist entries)
      (hk : ∀ e ∈ l, e.rank = k) : l.Pairwise fun a b => strcmp a.name b.name < 0 :=
    (hkey.sublist hl).imp_of_mem fun ha hb hab => (key_lt hab).2 ((hk _ ha).trans (hk _ hb).symm)
  have hup := Sorting.eq_filter_append (p := fun e : FileEntry => decide (e.rank = 0))
    (hrank.imp fun hab hb => by
      simp only [decide_eq_true_eq] at hb ⊢
      omega)
  have hdirs := Sorting.eq_filter_append (p := fun e : FileEntry => decide (e.rank = 1))
    ((hrank.filter fun e => !decide (e.rank = 0)).imp_of_mem fun ha _ hab hb => by
      simp only [List.mem_filter, Bool.not_eq_true', decide_eq_false_iff_not,
        decide_eq_true_eq] at ha hb ⊢
      omega)
  have hothers : ∀ e ∈ (entries.filter fun e => !decide (e.rank = 0)).filter
      (fun e => !decide (e.rank = 1)), e.rank = 2 := fun e he => by
    simp only [List.mem_filter, Bool.not_eq_true', decide_eq_false_iff_not] at he
    have := e.rank_le
    omega
  refine ⟨_, _, _, hup.trans (by rw [List.append_assoc, ← hdirs]), fun e he => ?_,
    fun e he => ?_, fun e he => ?_, hsorted 1 _ ?_ fun e he => ?_, hsorted 2 _ ?_ hothers⟩
  · exact FileEntry.rank_eq_zero.1 (of_decide_eq_true (List.mem_filter.1 he).2)
  · exact FileEntry.rank_eq_one.1 (of_decide_eq_true (List.mem_filter.1 he).2)
  · exact FileEntry.rank_eq_two.1 (hothers e he)
  · exact List.filter_sublist.trans List.filter_sublist
  · exact of_decide_eq_true (List.mem_filter.1 he).2
  · exact List.filter_sublist.trans List.filter_sublist

/-- The entry of a name that fits into it. -/
theorem readEntry_name_eq {name : List UInt8} (cwd : List UInt8) (h0 : 0 ∉ name)
    (hlen : name.length < filetreeNameLen) : (readEntry fs cwd name).name = name := by
  show strncpy name (filetreeNameLen - 1) = name
  rw [strncpy_eq_take h0, List.take_of_length_le (Nat.le_sub_one_of_lt hlen)]

/-- The names of the entries before they are sorted. -/
theorem map_readEntry_name (cwd : List UInt8) (h0 : ∀ n ∈ names, 0 ∉ n)
    (hlen : ∀ n ∈ names, n.length < filetreeNameLen) :
    (names.map (readEntry fs cwd)).map FileEntry.name = names := by
  rw [List.map_map]
  refine (List.map_congr_left fun n hn => ?_).trans (List.map_id names)
  exact readEntry_name_eq cwd (h0 n hn) (hlen n hn)

end Listing

/-- Two runs of `filetree_refresh` on one directory, however `readdir` orders it, list
the same: each entry but "." once, in the order of the panel. -/
theorem listing_independent_of_readdir
    {qsort : (FileEntry → FileEntry → Int) → List FileEntry → List FileEntry}
    (hsort : Sorting.Sorts qsort) (fs fs' : Files) (ft ft' : FileTree) (hcwd : ft'.cwd = ft.cwd)
    (hstat : fs'.isDir = fs.isDir) {names names' : List (List UInt8)}
    (hopen : fs.opendir ft.cwd = some names) (hopen' : fs'.opendir ft'.cwd = some names')
    (hperm : names.Perm names') (hnodup : names.Nodup) (h0 : ∀ n ∈ names, 0 ∉ n)
    (hlen : ∀ n ∈ names, n.length < filetreeNameLen)
    (hcount : (names.filter (· ≠ ascii ".")).length ≤ filetreeMaxEntries) :
    (ft'.refreshBy qsort fs').2.entries = (ft.refreshBy qsort fs).2.entries ∧
      (ft.refreshBy qsort fs).2.entries.Perm
        ((names.filter (· ≠ ascii ".")).map (readEntry fs ft.cwd)) ∧
      ((ft.refreshBy qsort fs).2.entries.map FileEntry.name).Perm
        (names.filter (· ≠ ascii ".")) ∧
      Listed (ft.refreshBy qsort fs).2.entries := by
  have hfilter := hperm.filter (· ≠ ascii ".")
  have hentries : (ft.refreshBy qsort fs).2.entries =
      qsort compareEntries ((names.filter (· ≠ ascii ".")).map (readEntry fs ft.cwd)) := by
    simp only [refreshBy, hopen, List.take_of_length_le hcount]
  have hentries' : (ft'.refreshBy qsort fs').2.entries =
      qsort compareEntries ((names'.filter (· ≠ ascii ".")).map (readEntry fs ft.cwd)) := by
    have hread : readEntry fs' ft'.cwd = readEntry fs ft.cwd := by
      funext name
      rw [readEntry, readEntry, hcwd, hstat]
    simp only [refreshBy, hopen', List.take_of_length_le (hfilter.length_eq ▸ hcount), hread]
  have hnames : ((names.filter (· ≠ ascii ".")).map (readEntry fs ft.cwd)).map FileEntry.name =
      names.filter (· ≠ ascii ".") :=
    map_readEntry_name ft.cwd (fun n hn => h0 n (List.mem_filter.1 hn).1)
      fun n hn => hlen n (List.mem_filter.1 hn).1
  have hdistinct := hnames.symm ▸ hnodup.filter (· ≠ ascii ".")
  have horders := compareEntries_orders hdistinct
  obtain ⟨hp, hs⟩ := hsort _ _ (List.Nodup.of_map _ hdistinct) horders
  have hmap := hp.map FileEntry.name
  have hmap' := hmap.trans (.of_eq hnames)
  rw [hentries, hentries']
  refine ⟨hsort.eq_of_perm (List.Nodup.of_map _ hdistinct) horders (hfilter.map _), hp,
    hmap', listed_of_pairwise (hmap.nodup_iff.2 hdistinct) hs⟩

/-- A directory with a subdirectory "d" and a file "a", read in this order. -/
def smallDir (names : List (List UInt8)) : Files where
  getcwd := none
  opendir _ := some names
  isDir path := path = ascii "/d" ∨ path = ascii "/.."
  read _ := none
  writable _ := false
  strerror := []

theorem listing_independent_of_readdir_small : ∃ names names' entries,
    names = [ascii "..", ascii "d", ascii ".", ascii "a"] ∧
    names' = [ascii "a", ascii ".", ascii "d", ascii ".."] ∧
    ({ static with cwd := [slash] }.refreshBy (fun cmp l => l.mergeSort (cmp · · ≤ 0))
      (smallDir names)).2.entries = entries ∧
    ({ static with cwd := [slash] }.refreshBy (fun cmp l => l.mergeSort (cmp · · ≤ 0))
      (smallDir names')).2.entries = entries ∧ Listed entries := by
  obtain ⟨heq, -, -, hlisted⟩ := listing_independent_of_readdir Sorting.sorts_mergeSort
    (smallDir [ascii "..", ascii "d", ascii ".", ascii "a"])
    (smallDir [ascii "a", ascii ".", ascii "d", ascii ".."])
    { static with cwd := [slash] } { static with cwd := [slash] }
    rfl rfl rfl rfl (by decide) (by decide) (by decide) (by decide) (by decide)
  exact ⟨_, _, _, rfl, rfl, rfl, heq, hlisted⟩

end FileTree

end LCode
