import LCode.Commands.Basic
import LCode.Editor.Verify.Transfer

/-!
# Saving and opening

`execute_save` prints each row as a C string, `execute_open` reads the file in
chunks of at most 4095 characters. A text comes back as it was saved exactly if no
row fills a chunk before its newline.
-/

namespace LCode.Commands

/-! ## Saving -/

/-- The bytes of a saved text. -/
def contents (t : List (List UInt8)) : List UInt8 := t.flatMap fun x => x ++ [newline]

theorem contents_cons (x : List UInt8) (t : List (List UInt8)) :
    contents (x :: t) = x ++ newline :: contents t := by
  simp [contents]

/-- A saved text has one newline for each row. -/
theorem contents_newlines {t : List (List UInt8)} (h : Text.All (· ≠ newline) t) :
    (contents t).count newline = t.length := by
  induction t with
  | nil => rfl
  | cons x t ih =>
    have hx : x.count newline = 0 := List.count_eq_zero.2 fun hm => h x (by simp) newline hm rfl
    rw [contents_cons, List.count_append, hx, List.count_cons_self,
      ih fun y hy => h y (List.mem_cons_of_mem x hy), List.length_cons]
    omega

theorem takeWhile_text {x s : List UInt8} (hx : 0 ∉ x) :
    (x ++ s).takeWhile (· ≠ 0) = x ++ s.takeWhile (· ≠ 0) := by
  refine List.takeWhile_append_of_pos fun c hc => decide_eq_true ?_
  rintro rfl
  exact hx hc

theorem cString_eq {x rest : List UInt8} (hx : 0 ∉ x) :
    cString (.block (x ++ 0 :: rest)) = some x := by
  rw [cString, if_pos (by simp), takeWhile_text hx]
  simp

/-- A row that ends with another byte than the terminator is printed longer. -/
theorem cString_longer {x rest s : List UInt8} {e : UInt8} (hx : 0 ∉ x) (he : e ≠ 0)
    (h : cString (.block (x ++ e :: rest)) = some s) : x.length < s.length := by
  rw [cString, Option.ite_none_right_eq_some, takeWhile_text hx, Option.some.injEq] at h
  obtain ⟨-, rfl⟩ := h
  simp [he]

section Save

variable {ed : Editor} {t : List (List UInt8)}

/-- The line `editor_get_line` returns. -/
theorem getLine_row {β : Type} {R : Line → β → Prop} {a z : List β} {y : β}
    (h : ed.doc.Rows R (a ++ y :: z)) {row : Int} (hrow : row = a.length) :
    ∃ ln, ed.getLine row = some ln.buf ∧ R ln y := by
  obtain ⟨ln, hln, hy⟩ := h.line_eq hrow
  have hcount := h.rowCount_eq
  rw [List.length_append, List.length_cons] at hcount
  refine ⟨ln, ?_, hy⟩
  unfold Editor.getLine
  rw [if_neg (by omega), hln]
  rfl

/-- Rows whose buffers hold strings are saved as these. -/
theorem saveRows_strings {β : Type} {R : Line → β → Prop} {a ys : List β} {f : β → List UInt8}
    (h : ed.doc.Rows R (a ++ ys))
    (hR : ∀ ln, ∀ y ∈ ys, R ln y → cString ln.buf = some (f y)) {row : Int}
    (hrow : row = a.length) : saveRows ed row ys.length = some (contents (ys.map f)) := by
  induction ys generalizing a row with
  | nil => rfl
  | cons y ys ih =>
    obtain ⟨ln, hline, hy⟩ := getLine_row h hrow
    have hstring := hR ln y (by simp) hy
    have hrest := ih (a := a ++ [y]) (by simpa using h)
      (fun ln z hz => hR ln z (List.mem_cons_of_mem y hz)) (by simp [hrow] : row + 1 = _)
    simp only [List.length_cons, saveRows, hline, hstring, hrest, Option.bind_eq_bind,
      Option.bind_some, Option.pure_def, List.map_cons, contents_cons]

theorem saveRows_eq (h : ed.doc.Holds True t) (hall : Text.All (· ≠ 0) t) :
    saveRows ed 0 t.length = some (contents t) := by
  have hsave := saveRows_strings (a := []) (f := id) h (fun ln x hx hln => by
    obtain ⟨e, rest, hbuf, -, -, he⟩ := hln
    rw [hbuf, he trivial]
    exact cString_eq fun h0 => hall x hx 0 h0 rfl) (rfl : (0 : Int) = _)
  rwa [List.map_id] at hsave

/-- Rows that end with the bytes given with them are saved as their texts exactly
if all these bytes are terminators. -/
theorem saveRows_iff {a ys : List (List UInt8 × UInt8)}
    (h : ed.doc.Rows (fun ln (y : List UInt8 × UInt8) => ln.Ends y.1 y.2) (a ++ ys))
    (hall : Text.All (· ≠ 0) (ys.map Prod.fst)) {row : Int} (hrow : row = a.length) :
    saveRows ed row ys.length = some (contents (ys.map Prod.fst)) ↔ ∀ y ∈ ys, y.2 = 0 := by
  -- what is written is never shorter
  have hlonger : ∀ s, saveRows ed row ys.length = some s →
      (contents (ys.map Prod.fst)).length ≤ s.length ∧
        (s.length = (contents (ys.map Prod.fst)).length → ∀ y ∈ ys, y.2 = 0) := by
    induction ys generalizing a row with
    | nil => simp [saveRows, contents]
    | cons y ys ih =>
      intro s hs
      obtain ⟨ln, hline, rest, hbuf, -, -⟩ := getLine_row h hrow
      have hy : 0 ∉ y.1 := fun h0 => hall y.1 (by simp) 0 h0 rfl
      have ih' := ih (a := a ++ [y]) (by simpa using h)
        (fun z hz => hall z (List.mem_cons_of_mem y.1 hz)) (by simp [hrow] : row + 1 = _)
      simp only [List.length_cons, saveRows, hline, hbuf, Option.bind_eq_bind,
        Option.bind_eq_some_iff, Option.pure_def, Option.some.injEq] at hs
      obtain ⟨_, rfl, line, hline', more, hmore, rfl⟩ := hs
      obtain ⟨hle, heq⟩ := ih' more hmore
      rw [List.map_cons, contents_cons]
      simp only [List.length_append, List.length_cons]
      by_cases he : y.2 = 0
      · rw [he, cString_eq hy, Option.some.injEq] at hline'
        subst hline'
        refine ⟨by omega, fun hlen z hz => ?_⟩
        rcases List.mem_cons.1 hz with rfl | hz
        · exact he
        · exact heq (by omega) z hz
      · have hlong := cString_longer hy he hline'
        exact ⟨by omega, by omega⟩
  constructor
  · intro hs
    exact (hlonger _ hs).2 rfl
  · intro hzero
    refine saveRows_strings h ?_ hrow
    rintro ln y hy ⟨rest, hbuf, -, -⟩
    rw [hbuf, hzero y hy]
    exact cString_eq fun h0 => hall y.1 (List.mem_map_of_mem hy) 0 h0 rfl

/-- `execute_save`. -/
theorem executeSave_eq {app : App} (h : app.editor.doc.Holds True t) (hall : Text.All (· ≠ 0) t)
    {name : List UInt8} (hname : name ≠ []) (hw : app.files.writable name = true) :
    executeSave app name =
      some ({ app with files := app.files.write name (contents t) }.setFile name) := by
  have hsave := saveRows_eq h hall
  simp only [executeSave, hname, if_false, hw, Bool.not_true, Bool.false_eq_true, h.rowCount_eq,
    Int.toNat_natCast, hsave, Option.bind_eq_bind, Option.bind_some, Option.pure_def]

end Save

/-! ## Reading in chunks -/

section Chunks

variable {n : Nat} {x s : List UInt8}

/-- A chunk and the rest are what was there. -/
theorem fgets_append (n : Nat) (s : List UInt8) : (fgets n s).1 ++ (fgets n s).2 = s := by
  fun_induction fgets n s with
  | case1 => simp_all
  | case2 => simp_all
  | case3 => simp_all

/-- A line that fits is read with its newline. -/
theorem fgets_line (hx : newline ∉ x) (hn : x.length + 1 ≤ n) :
    fgets (n + 1) (x ++ newline :: s) = (x ++ [newline], s) := by
  induction x generalizing n with
  | nil =>
    obtain ⟨n, rfl⟩ : ∃ k, n = k + 1 := ⟨n - 1, by simp at hn; omega⟩
    simp [fgets]
  | cons c x ih =>
    rw [List.length_cons] at hn
    obtain ⟨n, rfl⟩ : ∃ k, n = k + 1 := ⟨n - 1, by omega⟩
    have hc : c ≠ newline := fun h => hx (by simp [h])
    have hrest := ih (fun h => hx (List.mem_cons_of_mem c h)) (n := n) (by omega)
    simp [fgets, hc, hrest]

/-- A line that does not fit is cut. -/
theorem fgets_full (hx : newline ∉ x) (hn : n ≤ x.length) :
    fgets (n + 1) (x ++ s) = (x.take n, x.drop n ++ s) := by
  induction n generalizing x with
  | zero => simp [fgets]
  | succ n ih =>
    cases x with
    | nil => simp at hn
    | cons c x =>
      have hc : c ≠ newline := fun h => hx (by simp [h])
      have hrest := ih (x := x) (fun h => hx (List.mem_cons_of_mem c h)) (by simpa using hn)
      simp [fgets, hc, hrest]

/-- There is at most one newline in a chunk. -/
theorem fgets_newlines (n : Nat) (s : List UInt8) : (fgets n s).1.count newline ≤ 1 := by
  fun_induction fgets n s with
  | case1 => simp
  | case2 size c rest hc chunk rest' hrest ih =>
    rw [List.count_cons_of_ne hc]
    simpa [hrest] using ih
  | case3 => simp

/-- The lines `execute_open` loads, with a bound on their number. -/
def chunks : Nat → List UInt8 → List (List UInt8)
  | 0, _ => []
  | fuel + 1, s =>
    if s = [] then []
    else stripLine (fgets fileReadBuf s).1 :: chunks fuel (fgets fileReadBuf s).2

theorem fgets_ne_nil (hs : s ≠ []) : (fgets fileReadBuf s).1 ≠ [] := by
  cases s with
  | nil => exact absurd rfl hs
  | cons c s =>
    simp only [fileReadBuf, fgets]
    split <;> simp

/-- Every chunk makes the rest shorter. -/
theorem fgets_shorter (hs : s ≠ []) : (fgets fileReadBuf s).2.length < s.length := by
  have happend := congrArg List.length (fgets_append fileReadBuf s)
  have hpos := List.length_pos_iff.2 (fgets_ne_nil hs)
  rw [List.length_append] at happend
  omega

/-- No line holds a NUL: what follows it in a chunk is lost. -/
theorem all_chunks (fuel : Nat) (s : List UInt8) : Text.All (· ≠ 0) (chunks fuel s) := by
  induction fuel generalizing s with
  | zero => simp [chunks, Text.All]
  | succ fuel ih =>
    simp only [chunks]
    split
    · simp [Text.All]
    · intro x hx
      rcases List.mem_cons.1 hx with rfl | hx
      · intro c hc
        have hline : c ∈ (fgets fileReadBuf s).1.takeWhile (· ≠ 0) := by
          unfold stripLine at hc
          simp only at hc
          split at hc
          · exact List.dropLast_subset _ hc
          · exact hc
        have hall := List.all_eq_true.1 List.all_takeWhile c hline
        exact of_decide_eq_true hall
      · exact ih _ x hx

theorem chunks_length {f : Nat} (hfuel : s.length < f) :
    s.count newline ≤ (chunks f s).length := by
  induction f generalizing s with
  | zero => omega
  | succ fuel ih =>
    simp only [chunks]
    split
    · next hs => simp [hs]
    · next hs =>
      have hshort := fgets_shorter hs
      have hrest := ih (s := (fgets fileReadBuf s).2) (by omega)
      have hone := fgets_newlines fileReadBuf s
      have hcount : s.count newline = (fgets fileReadBuf s).1.count newline +
          (fgets fileReadBuf s).2.count newline := by
        rw [← List.count_append, fgets_append]
      rw [List.length_cons]
      omega

/-- The text of a line with its newline. -/
theorem stripLine_line (h0 : 0 ∉ x) : stripLine (x ++ [newline]) = x := by
  have hwhile : (x ++ [newline]).takeWhile (· ≠ 0) = x ++ [newline] := by
    rw [takeWhile_text h0]
    rfl
  simp only [stripLine, hwhile, List.getLast?_concat, if_true, List.dropLast_concat]

theorem stripLine_cut (h0 : 0 ∉ x) (hx : newline ∉ x) : stripLine x = x := by
  have hwhile : x.takeWhile (· ≠ 0) = x := by
    have := takeWhile_text (s := []) h0
    simpa using this
  have hlast : x.getLast? ≠ some newline := fun h => hx (List.mem_of_getLast? h)
  simp only [stripLine, hwhile, hlast, if_false]

/-- A saved text is read back row by row exactly if every row fits into a chunk
with its newline. -/
theorem chunks_contents_iff {t : List (List UInt8)} (h0 : Text.All (· ≠ 0) t)
    (hnl : Text.All (· ≠ newline) t) {fuel : Nat} (hfuel : (contents t).length < fuel) :
    chunks fuel (contents t) = t ↔ ∀ x ∈ t, x.length < 4095 := by
  induction t generalizing fuel with
  | nil =>
    cases fuel with
    | zero => simp [contents] at hfuel
    | succ fuel => simp [chunks, contents]
  | cons x t ih =>
    cases fuel with
    | zero => omega
    | succ fuel =>
      have hx0 : 0 ∉ x := fun h => h0 x (by simp) 0 h rfl
      have hxnl : newline ∉ x := fun h => hnl x (by simp) newline h rfl
      have h0' : Text.All (· ≠ 0) t := fun y hy => h0 y (List.mem_cons_of_mem x hy)
      have hnl' : Text.All (· ≠ newline) t := fun y hy => hnl y (List.mem_cons_of_mem x hy)
      rw [contents_cons] at hfuel ⊢
      have hne : x ++ newline :: contents t ≠ [] := by simp
      simp only [List.length_append, List.length_cons] at hfuel
      rw [chunks, if_neg hne, List.forall_mem_cons]
      by_cases hfit : x.length < 4095
      · have hget : fgets fileReadBuf (x ++ newline :: contents t) = (x ++ [newline], contents t) :=
          fgets_line (n := 4095) hxnl (by omega)
        rw [hget, stripLine_line hx0, List.cons.injEq, ih h0' hnl' (by omega)]
        simp [hfit]
      · have hget : fgets fileReadBuf (x ++ newline :: contents t) =
            (x.take 4095, x.drop 4095 ++ newline :: contents t) :=
          fgets_full (n := 4095) hxnl (by omega)
        have hstrip : stripLine (x.take 4095) = x.take 4095 :=
          stripLine_cut (fun h => hx0 (List.mem_of_mem_take h))
            fun h => hxnl (List.mem_of_mem_take h)
        rw [hget, hstrip, List.cons.injEq]
        constructor
        · rintro ⟨hhead, htail⟩
          -- the newline left behind makes one row too many
          have hlen := congrArg List.length hhead
          rw [List.length_take] at hlen
          have hcount := chunks_length (s := x.drop 4095 ++ newline :: contents t) (f := fuel)
            (by simp; omega)
          rw [htail, List.count_append, List.count_cons_self] at hcount
          have := contents_newlines hnl'
          omega
        · rintro ⟨hlt, -⟩
          exact absurd hlt hfit

end Chunks

/-! ## Opening -/

section Open

variable {ed : Editor} {t : List (List UInt8)}

theorem openLoop_eq {e : Editor} {fuel : Nat} {s : List UInt8}
    (h : e.doc.Loading (Line.Holds True) t) (ample : e.doc.heap.Ample)
    (hfuel : s.length < fuel) :
    ∃ doc, openLoop e fuel s = some { e with doc } ∧
      doc.Loading (Line.Holds True) (t ++ chunks fuel s) ∧ doc.heap.Ample := by
  induction fuel generalizing e t s with
  | zero => omega
  | succ fuel ih =>
    simp only [openLoop, chunks]
    split
    · exact ⟨e.doc, rfl, by simpa using h, ample⟩
    · next hs =>
      have hshort := fgets_shorter hs
      generalize stripLine (fgets fileReadBuf s).1 = line
      have htext : Block.slice (line ++ [0]) 0 (line.length + 1) = some (line ++ [0]) :=
        Block.slice_prefix (z := []) (by simp) (by simp)
      obtain ⟨doc₁, hload, h₁, ample₁, -⟩ := h.loadLine ample rfl htext
        fun ln hln => hln.holds fun _ => rfl
      obtain ⟨doc, hrest, h', ample'⟩ := ih (e := { e with doc := doc₁ }) h₁ ample₁
        (s := (fgets fileReadBuf s).2) (by omega)
      refine ⟨doc, ?_, by simpa using h', ample'⟩
      simp only [Editor.loadLine, hload, Option.bind_eq_bind, Option.bind_some, Option.pure_def,
        ne_eq, not_true_eq_false, if_false, hrest]

/-- The text of an opened file. -/
def opened (s : List UInt8) : List (List UInt8) :=
  if chunks (s.length + 1) s = [] then [[]] else chunks (s.length + 1) s

theorem opened_all (s : List UInt8) : Text.All (· ≠ 0) (opened s) := by
  unfold opened
  split
  · simp [Text.All]
  · exact all_chunks _ s

theorem opened_ne_nil (s : List UInt8) : opened s ≠ [] := by
  unfold opened
  split
  · simp
  · assumption

/-- `execute_open` of a file that is there. -/
theorem executeOpen_eq {a : App} (h : a.editor.doc.Freeable)
    (ample : a.editor.doc.heap.Ample) {name s : List UInt8} (hname : name ≠ [])
    (hread : a.files.read name = some s) :
    ∃ doc, executeOpen a name =
        some ({ a with editor := a.editor.afterInit doc }.setFile name) ∧
      doc.Holds True (opened s) ∧ doc.heap.Ample := by
  obtain ⟨doc₁, hinit, h₁, ample₁⟩ := Editor.init_eq (R := Line.Holds True) h ample
  obtain ⟨doc₂, hloop, h₂, ample₂⟩ := openLoop_eq (e := a.editor.afterInit doc₁)
    (s := s) h₁ ample₁ (Nat.lt_succ_self _)
  rw [List.nil_append] at h₂
  obtain ⟨doc, hfin, hrows, ample⟩ : ∃ doc, doc₂.loadFinalize = some doc ∧
      doc.Holds True (opened s) ∧ doc.heap.Ample := by
    unfold opened
    split
    · next hnil =>
      rw [hnil] at h₂
      obtain ⟨hfin, hrows⟩ := h₂.loadFinalize_nil (T := True)
      exact ⟨doc₂, hfin, hrows, ample₂⟩
    · next hne =>
      obtain ⟨doc, hfin, hrows, hheap⟩ := h₂.loadFinalize hne
      exact ⟨doc, hfin, hrows, hheap ▸ ample₂⟩
  refine ⟨doc, ?_, hrows, ample⟩
  simp only [executeOpen, hname, if_false, hread, hinit, hloop, Editor.loadFinalize, hfin,
    Option.bind_eq_bind, Option.bind_some, Option.pure_def]
  rfl

/-- A text that was saved and opened again is what its chunks make of it. -/
theorem save_open_eq {app : App} (h : app.editor.doc.Holds True t) (hne : t ≠ [])
    (ample : app.editor.doc.heap.Ample) (h0 : Text.All (· ≠ 0) t)
    (hnl : Text.All (· ≠ newline) t) {name : List UInt8} (hname : name ≠ [])
    (hw : app.files.writable name = true) :
    ∃ saved reopened, executeSave app name = some saved ∧
      executeOpen saved name = some reopened ∧
      reopened.editor.doc.text = some (chunks ((contents t).length + 1) (contents t)) := by
  let saved := { app with files := app.files.write name (contents t) }.setFile name
  have hsave : executeSave app name = some saved := executeSave_eq h h0 hname hw
  obtain ⟨doc, hopen, hrows, -⟩ := executeOpen_eq (a := saved) h.shows.freeable ample
    hname (s := contents t) (by simp [saved, App.setFile, Files.write])
  refine ⟨saved, _, hsave, hopen, hrows.shows.text_eq.trans (congrArg some (if_neg ?_))⟩
  intro hnil
  have := chunks_length (s := contents t) (Nat.lt_succ_self _)
  rw [contents_newlines hnl, Nat.succ_eq_add_one, hnil, List.length_nil, Nat.le_zero] at this
  exact hne (List.eq_nil_of_length_eq_zero this)

/-- Saving a text and opening the file is the identity exactly on texts whose rows
are all shorter than 4095 characters. -/
theorem save_open_iff {app : App} (h : app.editor.doc.Holds True t) (hne : t ≠ [])
    (ample : app.editor.doc.heap.Ample) (h0 : Text.All (· ≠ 0) t)
    (hnl : Text.All (· ≠ newline) t) {name : List UInt8} (hname : name ≠ [])
    (hw : app.files.writable name = true) :
    ∃ saved reopened, executeSave app name = some saved ∧
      executeOpen saved name = some reopened ∧
      (reopened.editor.doc.text = app.editor.doc.text ↔ ∀ x ∈ t, x.length < 4095) := by
  obtain ⟨saved, reopened, hsave, hopen, htext⟩ := save_open_eq h hne ample h0 hnl hname hw
  refine ⟨saved, reopened, hsave, hopen, ?_⟩
  rw [htext, h.shows.text_eq, Option.some.injEq]
  exact chunks_contents_iff h0 hnl (Nat.lt_succ_self _)

/-- A file system without files where every file can be written. -/
def emptyDisk : Files where
  getcwd := none
  opendir _ := none
  isDir _ := false
  read _ := none
  writable _ := true
  strerror := []

/-- A process that holds the text `t`. -/
def holding (t : List (List UInt8)) : App :=
  { App.static emptyDisk .zeros with editor := { Editor.static .zeros with doc := .ofText t .zeros } }

theorem holding_holds (t : List (List UInt8)) : (holding t).editor.doc.Holds True t :=
  Doc.ofText_holds _ _ _

/-- Rows with a last empty row. -/
theorem save_open_iff_empty_row : ∃ saved reopened,
    executeSave (holding [['a'.toUInt8], [], []]) (ascii "f") = some saved ∧
      executeOpen saved (ascii "f") = some reopened ∧
      reopened.editor.doc.text = (holding [['a'.toUInt8], [], []]).editor.doc.text := by
  obtain ⟨saved, reopened, hsave, hopen, hiff⟩ := save_open_iff
    (holding_holds [['a'.toUInt8], [], []]) (by simp) Heap.zeros_ample
    (by decide) (by decide) (show ascii "f" ≠ [] by decide) rfl
  exact ⟨saved, reopened, hsave, hopen, hiff.2 (by decide)⟩

theorem save_open_long {x : List UInt8} (hx : ∀ c ∈ x, c = 'a'.toUInt8) (hlen : x.length = 4095) :
    ∃ saved reopened, executeSave (holding [x]) (ascii "f") = some saved ∧
      executeOpen saved (ascii "f") = some reopened ∧
      reopened.editor.doc.text ≠ (holding [x]).editor.doc.text := by
  have h0 : Text.All (· ≠ 0) [x] := by
    intro y hy c hc
    rw [List.mem_singleton.1 hy] at hc
    rw [hx c hc]
    decide
  have hnl : Text.All (· ≠ newline) [x] := by
    intro y hy c hc
    rw [List.mem_singleton.1 hy] at hc
    rw [hx c hc]
    decide
  obtain ⟨saved, reopened, hsave, hopen, htext⟩ := save_open_eq (holding_holds [x]) (by simp)
    Heap.zeros_ample h0 hnl (show ascii "f" ≠ [] by decide) rfl
  refine ⟨saved, reopened, hsave, hopen, ?_⟩
  rw [htext, (holding_holds [x]).shows.text_eq, ne_eq, Option.some.injEq,
    chunks_contents_iff h0 hnl (Nat.lt_succ_self _)]
  intro hshort
  have := hshort x (by simp)
  omega

/-- One row of 4095 characters: its newline becomes a second row. -/
theorem save_open_full_chunk : ∃ saved reopened,
    executeSave (holding [List.replicate 4095 'a'.toUInt8]) (ascii "f") = some saved ∧
      executeOpen saved (ascii "f") = some reopened ∧
      reopened.editor.doc.text ≠
        (holding [List.replicate 4095 'a'.toUInt8]).editor.doc.text :=
  save_open_long (fun _ hc => List.eq_of_mem_replicate hc) List.length_replicate

end Open

end LCode.Commands
