import LCode.Lib.Machine
import Mathlib.Data.Nat.ModEq

/-!
# Ring buffers and bounded queues

A ring of `n` slots holds a list in the `count` slots from its head on, with indices
modulo `n`. A bounded queue is a list of at most `n` elements, and its policy says
what a full one does with a push.
-/

namespace LCode.Ring

variable {α : Type*}

/-! ## The slots of a ring -/

section Slots

variable {n head count : Nat} {slot : Nat → α}

/-- The elements of the ring, the oldest first. -/
def contents (n : Nat) (slot : Nat → α) (head count : Nat) : List α :=
  (List.range count).map fun i => slot ((head + i) % n)

@[simp] theorem length_contents : (contents n slot head count).length = count := by
  simp [contents]

@[simp] theorem contents_zero : contents n slot head 0 = [] := rfl

/-- Two offsets within one turn are two slots. -/
theorem offset_ne {i j : Nat} (hij : i < j) (hj : j < n) : (head + i) % n ≠ (head + j) % n := by
  intro heq
  have hmod : i % n = j % n := Nat.ModEq.add_left_cancel' head heq
  rw [Nat.mod_eq_of_lt (Nat.lt_trans hij hj), Nat.mod_eq_of_lt hj] at hmod
  exact Nat.ne_of_lt hij hmod

/-- A push on a ring with room: the slot behind the last element is written. -/
theorem contents_push (slot slot' : Nat → α) (hroom : count < n)
    (hframe : ∀ j, j < n → j ≠ (head + count) % n → slot' j = slot j) :
    contents n slot' head (count + 1) =
      contents n slot head count ++ [slot' ((head + count) % n)] := by
  have hpos : 0 < n := Nat.lt_of_le_of_lt (Nat.zero_le _) hroom
  simp only [contents, List.range_succ, List.map_append, List.map_cons, List.map_nil]
  congr 1
  refine List.map_congr_left fun i hi => ?_
  exact hframe _ (Nat.mod_lt _ hpos) (offset_ne (List.mem_range.1 hi) hroom)

/-- The oldest element is in the slot of the head. -/
theorem contents_pop : contents n slot head (count + 1) =
    slot (head % n) :: contents n slot ((head + 1) % n) count := by
  simp only [contents, List.range_succ_eq_map, List.map_cons, List.map_map, Nat.add_zero]
  congr 1
  refine List.map_congr_left fun i _ => ?_
  simp only [Function.comp_apply, Nat.mod_add_mod]
  congr 2
  omega

theorem tail_push {tail : Nat} (h : tail = (head + count) % n) :
    (tail + 1) % n = (head + (count + 1)) % n := by
  rw [h, Nat.mod_add_mod, Nat.add_assoc]

theorem tail_pop {tail : Nat} (h : tail = (head + (count + 1)) % n) :
    tail = ((head + 1) % n + count) % n := by
  rw [h, Nat.mod_add_mod, Nat.add_right_comm, Nat.add_assoc]

end Slots

/-! ## Bounded queues -/

inductive Op (α : Type*) where
  | push (a : α)
  | pop
  | clear

inductive Reply (α : Type*) where
  | pushed (accepted : Bool)
  | popped (a : Option α)
  | cleared

/-- What a full queue does with a push. -/
inductive Policy where
  | reject
  | dropOldest

/-- A push on a queue of at most `n` elements, and whether it is accepted. -/
def Policy.push (policy : Policy) (n : Nat) (l : List α) (a : α) : Bool × List α :=
  if l.length < n then (true, l ++ [a])
  else match policy with
    | .reject => (false, l)
    | .dropOldest => (true, l.tail ++ [a])

/-- The queue of at most `n` elements: first in, first out. -/
def fifo (policy : Policy) (n : Nat) : Machine (List α) (Op α) (Reply α)
  | l, .push a => some ((policy.push n l a).2, [.pushed (policy.push n l a).1])
  | l, .pop => some (l.tail, [.popped l.head?])
  | _, .clear => some ([], [.cleared])

section Fifo

variable {policy : Policy} {n : Nat} {l : List α}

theorem push_room (h : l.length < n) (a : α) : policy.push n l a = (true, l ++ [a]) := by
  simp [Policy.push, h]

theorem push_reject (h : n ≤ l.length) (a : α) : Policy.reject.push n l a = (false, l) := by
  simp [Policy.push, Nat.not_lt.2 h]

theorem push_dropOldest (h : n ≤ l.length) (a : α) :
    Policy.dropOldest.push n l a = (true, l.tail ++ [a]) := by
  simp [Policy.push, Nat.not_lt.2 h]

end Fifo

end LCode.Ring
