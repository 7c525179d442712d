import LCode.Lib.Block

/-!
# Arrays and the slots that own them

An arena is everything ever allocated, in order: a pointer is a place in it, and what
has been freed is gone for good, so two allocations are never confused. A list of slots
owns its pointers when each points to something live and no two are the same. It goes
on to own them when a slot is freed, when it gets a new pointer, and when the slots are
moved without one being kept twice.
-/

namespace LCode

/-- What was allocated, and nothing where it has been freed. -/
abbrev Arena (α : Type*) := List (Option α)

variable {α : Type*}

namespace Arena

/-- What the pointer points to, while it is live. -/
def get (a : Arena α) (p : Nat) : Option α := a[p]?.join

/-- What a slot holds. -/
def look (a : Arena α) (q : Option Nat) : Option α := q.bind a.get

/-- `malloc`: the pointer and the arena. -/
def alloc (a : Arena α) (x : α) : Nat × Arena α := (a.length, a ++ [some x])

/-- `free`, which takes NULL; nothing may be freed twice. -/
def free (a : Arena α) : Option Nat → Option (Arena α)
  | none => some a
  | some p => if (a.get p).isSome then some (a.set p none) else none

/-- What a live pointer points to, overwritten. -/
def write (a : Arena α) (p : Nat) (x : α) : Option (Arena α) :=
  if (a.get p).isSome then some (a.set p (some x)) else none

section Get

variable {a : Arena α} {p p' : Nat} {x : Option α}

@[simp] theorem look_none (a : Arena α) : a.look none = none := rfl

@[simp] theorem look_some (a : Arena α) (p : Nat) : a.look (some p) = a.get p := rfl

theorem lt_of_get (h : (a.get p).isSome) : p < a.length := by
  by_contra hout
  rw [get, List.getElem?_eq_none (Nat.not_lt.1 hout)] at h
  nomatch h

theorem get_set_self (h : p < a.length) : Arena.get (a.set p x) p = x := by
  rw [get, List.getElem?_set_self h, Option.join_some]

theorem get_set_ne (h : p' ≠ p) : Arena.get (a.set p x) p' = a.get p' := by
  rw [get, get, List.getElem?_set_ne (Ne.symm h)]

theorem get_append (h : (a.get p).isSome) (b : Arena α) : Arena.get (a ++ b) p = a.get p := by
  rw [get, get, List.getElem?_append_left (lt_of_get h)]

theorem get_alloc (a : Arena α) (x : α) : Arena.get (a ++ [some x]) a.length = some x := by
  rw [get, List.getElem?_concat_length, Option.join_some]

end Get

/-! ## Ownership -/

/-- The slots when one is set to NULL. -/
theorem join_set_none (slots : List (Option Nat)) (r k : Nat) :
    (slots.set r none)[k]?.join = if k = r then none else slots[k]?.join := by
  rw [List.getElem?_set]
  split
  · next heq =>
    rw [if_pos heq.symm]
    split <;> rfl
  · next hne => rw [if_neg (Ne.symm hne)]

/-- The pointers in them. -/
theorem set_none_iff {slots : List (Option Nat)} {r k p : Nat} :
    (slots.set r none)[k]? = some (some p) ↔ k ≠ r ∧ slots[k]? = some (some p) := by
  rw [List.getElem?_set]
  split
  · next heq =>
    refine ⟨fun h => ?_, fun h => absurd heq.symm h.1⟩
    split at h <;> cases h
  · next hne => exact ⟨fun h => ⟨Ne.symm hne, h⟩, And.right⟩

/-- Every slot holds a pointer to something live, each its own. -/
structure Owns (a : Arena α) (slots : List (Option Nat)) : Prop where
  live : ∀ (k p : Nat), slots[k]? = some (some p) → (a.get p).isSome
  distinct : ∀ (i j p : Nat), slots[i]? = some (some p) → slots[j]? = some (some p) → i = j

namespace Owns

variable {a : Arena α} {slots slots' : List (Option Nat)} {r p : Nat} {q : Option Nat} {x : α}

theorem nil (a : Arena α) : a.Owns [] := ⟨nofun, nofun⟩

/-- Slots whose pointers come from different slots each. -/
theorem select (h : a.Owns slots) (σ : Nat → Nat)
    (hfrom : ∀ (k p : Nat), slots'[k]? = some (some p) → slots[σ k]? = some (some p))
    (hinj : ∀ (i j p : Nat), slots'[i]? = some (some p) → slots'[j]? = some (some p) → σ i = σ j → i = j) :
    a.Owns slots' := by
  refine ⟨fun k p hk => h.live _ p (hfrom k p hk), fun i j p hi hj => ?_⟩
  exact hinj i j p hi hj (h.distinct _ _ p (hfrom i p hi) (hfrom j p hj))

/-- Slots that hold what they held, or nothing. -/
theorem shrink (h : a.Owns slots)
    (hfrom : ∀ (k p : Nat), slots'[k]? = some (some p) → slots[k]? = some (some p)) : a.Owns slots' :=
  h.select id hfrom fun _ _ _ _ _ heq => heq

/-- New slots at the end. -/
theorem grow (h : a.Owns slots) (n : Nat) : a.Owns (slots ++ List.replicate n none) := by
  refine h.shrink fun k p hk => ?_
  rw [List.getElem?_append] at hk
  split at hk
  · exact hk
  · rw [List.getElem?_replicate] at hk
    split at hk <;> cases hk

theorem setNone (h : a.Owns slots) (r : Nat) : a.Owns (slots.set r none) :=
  h.shrink fun _ _ hk => (set_none_iff.1 hk).2

/-- The slots from `r` on moved up by one, `n` of them, and the first one cleared. -/
theorem insertAt (h : a.Owns slots) {n : Nat} (hcells : ∀ k, slots'[k]? =
    if r + 1 ≤ k ∧ k < r + 1 + n then slots[k - 1]? else slots[k]?) :
    a.Owns (slots'.set r none) := by
  refine h.select (fun k => if r + 1 ≤ k ∧ k < r + 1 + n then k - 1 else k) ?_ ?_
  · intro k p hk
    obtain ⟨-, hk⟩ := set_none_iff.1 hk
    rw [hcells] at hk
    split
    · next hin => rwa [if_pos hin] at hk
    · next hout => rwa [if_neg hout] at hk
  · intro i j p hi hj heq
    have hi := (set_none_iff.1 hi).1
    have hj := (set_none_iff.1 hj).1
    split at heq <;> split at heq <;> omega

/-- The `n` slots behind `r` moved down by one, and the last one cleared. -/
theorem deleteAt (h : a.Owns slots) {n : Nat} (hcells : ∀ k, slots'[k]? =
    if r ≤ k ∧ k < r + n then slots[k + 1]? else slots[k]?) :
    a.Owns (slots'.set (r + n) none) := by
  refine h.select (fun k => if r ≤ k ∧ k < r + n then k + 1 else k) ?_ ?_
  · intro k p hk
    obtain ⟨-, hk⟩ := set_none_iff.1 hk
    rw [hcells] at hk
    split
    · next hin => rwa [if_pos hin] at hk
    · next hout => rwa [if_neg hout] at hk
  · intro i j p hi hj heq
    have hi := (set_none_iff.1 hi).1
    have hj := (set_none_iff.1 hj).1
    split at heq <;> split at heq <;> omega

/-- The same slots in another arena, which holds the same for them. -/
theorem congr {a' : Arena α} (h : a.Owns slots)
    (hlook : ∀ q ∈ slots, a'.look q = a.look q) : a'.Owns slots := by
  refine ⟨fun k p hk => ?_, h.distinct⟩
  have hget : a'.get p = a.get p := hlook (some p) (List.mem_of_getElem? hk)
  rw [hget]
  exact h.live k p hk

/-- A pointer of another slot is another pointer. -/
theorem ne (h : a.Owns slots) (hr : slots[r]? = some (some p)) {k p' : Nat}
    (hk : slots[k]? = some (some p')) (hne : k ≠ r) : p' ≠ p := by
  rintro rfl
  exact hne (h.distinct k r p' hk hr)

/-- What the other slots hold does not change when the pointer of one is freed or
written through. -/
theorem look_set (h : a.Owns slots) (hr : slots[r]? = some (some p)) (x : Option α) {k : Nat}
    (hk : slots[k]? = some q) (hne : k ≠ r) : Arena.look (a.set p x) q = a.look q := by
  cases q with
  | none => rfl
  | some p' => exact get_set_ne (h.ne hr hk hne)

/-- The pointer of a slot freed: the other slots own theirs as before. -/
theorem free (h : a.Owns slots) (hr : slots[r]? = some q) :
    ∃ a', a.free q = some a' ∧ a'.Owns (slots.set r none) ∧
      ∀ (k : Nat) q', k ≠ r → slots[k]? = some q' → a'.look q' = a.look q' := by
  cases q with
  | none => exact ⟨a, rfl, h.setNone r, fun _ _ _ _ => rfl⟩
  | some p =>
    have hlook : ∀ (k : Nat) q', k ≠ r → slots[k]? = some q' → Arena.look (a.set p none) q' = a.look q' :=
      fun k q' hne hk => h.look_set hr none hk hne
    refine ⟨a.set p none, by rw [Arena.free, if_pos (h.live r p hr)], ?_, hlook⟩
    refine (h.setNone r).congr fun q' hq' => ?_
    obtain ⟨k, hk⟩ := List.getElem?_of_mem hq'
    rw [List.getElem?_set] at hk
    split at hk
    · split at hk
      · rw [← Option.some.inj hk]
        rfl
      · cases hk
    · next hne => exact hlook k q' (Ne.symm hne) hk

/-- A slot gets a new pointer in place of the one it held. -/
theorem replace (h : a.Owns slots) (hr : slots[r]? = some q) (x : α) :
    ∃ a', (a ++ [some x]).free q = some a' ∧ a'.Owns (slots.set r (some a.length)) ∧
      a'.get a.length = some x ∧
      ∀ (k : Nat) q', k ≠ r → slots[k]? = some q' → a'.look q' = a.look q' := by
  have hold : ∀ (k : Nat) q', slots[k]? = some q' → Arena.look (a ++ [some x]) q' = a.look q' := by
    intro k q' hk
    cases q' with
    | none => rfl
    | some p' => exact get_append (h.live k p' hk) _
  have hall : ∀ q' ∈ slots, Arena.look (a ++ [some x]) q' = a.look q' := fun q' hq' =>
    (List.getElem?_of_mem hq').elim fun k hk => hold k q' hk
  obtain ⟨a', hfree, howns, hlook⟩ := (h.congr hall).free hr
  have hnew : a'.get a.length = some x := by
    cases q with
    | none =>
      obtain rfl := Option.some.inj hfree
      exact get_alloc a x
    | some p =>
      have hlive := h.live r p hr
      rw [Arena.free, get_append hlive, if_pos hlive] at hfree
      obtain rfl := Option.some.inj hfree
      rw [get_set_ne (Nat.ne_of_gt (lt_of_get hlive)), get_alloc]
  have hothers : ∀ (k : Nat) q', k ≠ r → slots[k]? = some q' → a'.look q' = a.look q' := fun k q' hne hk =>
    (hlook k q' hne hk).trans (hold k q' hk)
  have hcases : ∀ (k p' : Nat), (slots.set r (some a.length))[k]? = some (some p') →
      (k = r ∧ p' = a.length) ∨ (k ≠ r ∧ slots[k]? = some (some p')) := by
    intro k p' hk
    rw [List.getElem?_set] at hk
    split at hk
    · next heq =>
      split at hk
      · exact Or.inl ⟨heq.symm, (Option.some.inj (Option.some.inj hk)).symm⟩
      · cases hk
    · next hne => exact Or.inr ⟨Ne.symm hne, hk⟩
  have hfresh : ∀ k : Nat, slots[k]? ≠ some (some a.length) := fun k hk =>
    Nat.lt_irrefl _ (lt_of_get (h.live k _ hk))
  refine ⟨a', hfree, ⟨fun k p' hk => ?_, fun i j p' hi hj => ?_⟩, hnew, hothers⟩
  · rcases hcases k p' hk with ⟨-, rfl⟩ | ⟨hne, hk⟩
    · rw [hnew]
      rfl
    · have hget : a'.get p' = a.get p' := hothers k (some p') hne hk
      rw [hget]
      exact h.live k p' hk
  · rcases hcases i p' hi with ⟨hir, hip⟩ | ⟨-, hiold⟩
    · rcases hcases j p' hj with ⟨hjr, -⟩ | ⟨-, hjold⟩
      · exact hir.trans hjr.symm
      · exact absurd (hip ▸ hjold) (hfresh j)
    · rcases hcases j p' hj with ⟨-, hjp⟩ | ⟨-, hjold⟩
      · exact absurd (hjp ▸ hiold) (hfresh i)
      · exact h.distinct i j p' hiold hjold

/-- The pointer of a slot written through. -/
theorem write (h : a.Owns slots) (hr : slots[r]? = some (some p)) (x : α) :
    a.write p x = some (a.set p (some x)) ∧ Arena.Owns (a.set p (some x)) slots ∧
      Arena.get (a.set p (some x)) p = some x ∧
      ∀ (k : Nat) q', k ≠ r → slots[k]? = some q' → Arena.look (a.set p (some x)) q' = a.look q' := by
  have hself : Arena.get (a.set p (some x)) p = some x := get_set_self (lt_of_get (h.live r p hr))
  have hothers : ∀ (k : Nat) q', k ≠ r → slots[k]? = some q' →
      Arena.look (a.set p (some x)) q' = a.look q' := fun k q' hne hk =>
    h.look_set hr (some x) hk hne
  refine ⟨by rw [Arena.write, if_pos (h.live r p hr)], ⟨fun k p' hk => ?_, h.distinct⟩, hself,
    hothers⟩
  by_cases hne : k = r
  · subst hne
    obtain rfl := Option.some.inj (Option.some.inj (hk.symm.trans hr))
    rw [hself]
    rfl
  · have hget : Arena.get (a.set p (some x)) p' = a.get p' := hothers k (some p') hne hk
    rw [hget]
    exact h.live k p' hk

end Owns

end Arena

/-! ## Memory and its contents -/

namespace Block

variable {β : Type*} (f : α → β)

theorem slice_map (b : List α) (i n : Int) :
    slice (b.map f) i n = (slice b i n).map (List.map f) := by
  unfold slice
  rw [List.length_map]
  split
  · rfl
  · split
    · rw [Option.map_some, List.map_take, List.map_drop]
    · rfl

theorem store_map (b : List α) (i : Int) (xs : List α) :
    store (b.map f) i (xs.map f) = (store b i xs).map (List.map f) := by
  unfold store
  rw [List.length_map, List.length_map]
  split
  · rfl
  · split
    · rw [Option.map_some, List.map_append, List.map_append, List.map_take, List.map_drop]
    · rfl

/-- What is in memory moves along with the pointers to it. -/
theorem move_map (b : List α) (dst src n : Int) :
    move (b.map f) dst src n = (move b dst src n).map (List.map f) := by
  rw [move, move, slice_map]
  cases slice b src n with
  | none => rfl
  | some xs => exact store_map f b dst xs

end Block

end LCode
