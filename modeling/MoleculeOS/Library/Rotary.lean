import Mathlib.Data.List.Basic
import Mathlib.Algebra.Order.Group.Nat

/-!
# Rotary tables

A table of `N` slots filled by a cursor that goes round: every allocation moves the cursor to the
next slot, stores its entry there if the slot is free, and is refused if it is taken. A refused
allocation moves the cursor all the same, and nothing ever frees a slot.

However many allocations have been made, the table is known in closed form: `after start as` is the
table after the allocations `as`, in which the first `N` of them sit in cyclic order behind the
start of the cursor. `alloc_after` says that one more allocation leads to `after start (as ++ [a])`,
and that it succeeds exactly when there have been fewer than `N`. So an allocation is refused only
when every slot is taken (`slots_after_isSome`), and no two successful ones get the same slot
(`position_injOn`).
-/

/-- A table of `N` slots and the cursor of the last allocation. -/
@[ext] structure Rotary (N : ℕ) (α : Type*) where
  cursor : Fin N
  slots : Fin N → Option α

namespace Rotary

variable {N : ℕ} {α : Type*}

/-- The slot `n` places behind `start`. -/
def position (start : Fin N) (n : ℕ) : Fin N :=
  ⟨(start.val + n) % N, Nat.mod_lt _ start.pos⟩

/-- How many places a slot is behind `start`. -/
def distance (start i : Fin N) : ℕ := (i.val + (N - start.val)) % N

/-- One allocation, with the slot it got. -/
def alloc (t : Rotary N α) (a : α) : Rotary N α × Option (Fin N) :=
  let next := position t.cursor 1
  match t.slots next with
  | none => (⟨next, Function.update t.slots next (some a)⟩, some next)
  | some _ => (⟨next, t.slots⟩, none)

/-- The table after the allocations `as`, the cursor having started at `start`. -/
def after (start : Fin N) (as : List α) : Rotary N α where
  cursor := position start as.length
  slots i := as[distance (position start 1) i]?

/-! ### Positions -/

theorem position_val (start : Fin N) (n : ℕ) : (position start n).val = (start.val + n) % N := rfl

@[simp] theorem position_zero (start : Fin N) : position start 0 = start := by
  apply Fin.ext
  rw [position_val, Nat.add_zero, Nat.mod_eq_of_lt start.isLt]

theorem position_position (start : Fin N) (m n : ℕ) :
    position (position start m) n = position start (m + n) := by
  apply Fin.ext
  rw [position_val, position_val, position_val, Nat.mod_add_mod, Nat.add_assoc]

/-- A position is determined by how far it is behind another one. -/
theorem position_distance (start i : Fin N) : position start (distance start i) = i := by
  have h_start := start.isLt
  have h_sum : start.val + (i.val + (N - start.val)) = i.val + N := by omega
  apply Fin.ext
  rw [position_val, distance, Nat.add_mod_mod, h_sum, Nat.add_mod_right,
    Nat.mod_eq_of_lt i.isLt]

theorem distance_position (start : Fin N) (n : ℕ) : distance start (position start n) = n % N := by
  have h_start := start.isLt
  have h_sum : start.val + n + (N - start.val) = n + N := by omega
  rw [distance, position_val, Nat.mod_add_mod, h_sum, Nat.add_mod_right]

/-- Fewer than `N` places apart, positions are different. -/
theorem position_injOn {start : Fin N} {m n : ℕ} (hm : m < N) (hn : n < N)
    (h : position start m = position start n) : m = n := by
  have h_dist : distance start (position start m) = distance start (position start n) := by rw [h]
  rwa [distance_position, distance_position, Nat.mod_eq_of_lt hm, Nat.mod_eq_of_lt hn] at h_dist

/-- The slots behind `start` that are less than `N` places away are all there are. -/
theorem exists_position (start i : Fin N) : ∃ n < N, position start n = i :=
  ⟨distance start i, Nat.mod_lt _ start.pos, position_distance start i⟩

/-! ### The table in closed form -/

@[simp] theorem after_cursor (start : Fin N) (as : List α) :
    (after start as).cursor = position start as.length := rfl

/-- The `n`-th allocation sits `n + 1` places behind the start. -/
theorem slots_after_position (start : Fin N) (as : List α) {n : ℕ} (hn : n < N) :
    (after start as).slots (position start (n + 1)) = as[n]? := by
  change as[distance (position start 1) (position start (n + 1))]? = _
  rw [Nat.add_comm n 1, ← position_position, distance_position, Nat.mod_eq_of_lt hn]

theorem slots_after_isSome (start i : Fin N) {as : List α} (h : N ≤ as.length) :
    ((after start as).slots i).isSome := by
  -- every slot is the position of one of the first `N` allocations
  obtain ⟨n, hn, rfl⟩ := exists_position (position start 1) i
  rw [position_position, Nat.add_comm, slots_after_position start as hn,
    List.getElem?_eq_getElem (by omega)]
  rfl

/-- An entry of the table is one of the first `N` allocations, at its position. -/
theorem slots_after_eq_some {start i : Fin N} {as : List α} {a : α} :
    (after start as).slots i = some a ↔
      ∃ n < N, as[n]? = some a ∧ i = position start (n + 1) := by
  constructor
  · intro h
    obtain ⟨n, hn, rfl⟩ := exists_position (position start 1) i
    rw [position_position, Nat.add_comm] at h ⊢
    rw [slots_after_position start as hn] at h
    exact ⟨n, hn, h, rfl⟩
  · rintro ⟨n, hn, h, rfl⟩
    rw [slots_after_position start as hn, h]

/-- While there are free slots, one more allocation takes the next one and nothing else changes. -/
theorem slots_after_snoc_of_lt {start : Fin N} {as : List α} (h : as.length < N) (a : α) :
    (after start (as ++ [a])).slots
      = Function.update (after start as).slots (position start (as.length + 1)) (some a) := by
  funext i
  obtain ⟨n, hn, rfl⟩ := exists_position (position start 1) i
  rw [position_position, Nat.add_comm 1, slots_after_position start _ hn]
  by_cases h_last : n = as.length
  · rw [h_last, Function.update_self, List.getElem?_concat_length]
  · -- every other slot is as far behind the start as before
    have h_ne : position start (n + 1) ≠ position start (as.length + 1) := by
      intro h_eq
      rw [Nat.add_comm n, Nat.add_comm as.length, ← position_position,
        ← position_position] at h_eq
      exact h_last (position_injOn hn h h_eq)
    rw [Function.update_of_ne h_ne, slots_after_position start as hn]
    rcases lt_or_gt_of_ne h_last with h_lt | h_gt
    · rw [List.getElem?_append_left h_lt]
    · rw [List.getElem?_eq_none h_gt.le,
        List.getElem?_eq_none (by rw [List.length_append, List.length_singleton]; exact h_gt)]

/-- A full table stays as it is. -/
theorem slots_after_snoc_of_le {start : Fin N} {as : List α} (h : N ≤ as.length) (a : α) :
    (after start (as ++ [a])).slots = (after start as).slots := by
  funext i
  obtain ⟨n, hn, rfl⟩ := exists_position (position start 1) i
  rw [position_position, Nat.add_comm 1, slots_after_position start _ hn,
    slots_after_position start _ hn, List.getElem?_append_left (by omega)]

/-- One more allocation succeeds exactly when there have been fewer than `N`. -/
theorem alloc_after (start : Fin N) (as : List α) (a : α) :
    (after start as).alloc a = (after start (as ++ [a]),
      if as.length < N then some (position start (as.length + 1)) else none) := by
  have h_next : position (after start as).cursor 1 = position start (as.length + 1) := by
    rw [after_cursor, position_position]
  have h_cursor : position start (as.length + 1) = (after start (as ++ [a])).cursor := by
    rw [after_cursor, List.length_append, List.length_singleton]
  unfold alloc
  simp only [h_next]
  by_cases h_room : as.length < N
  · -- the cursor has not been round, so the next slot is free
    have h_free : (after start as).slots (position start (as.length + 1)) = none := by
      rw [slots_after_position start as h_room, List.getElem?_eq_none le_rfl]
    simp only [h_free, if_pos h_room]
    exact congrArg (·, _) (Rotary.ext h_cursor (slots_after_snoc_of_lt h_room a).symm)
  · -- it has been round, and nothing was freed
    obtain ⟨b, h_taken⟩ := Option.isSome_iff_exists.mp
      (slots_after_isSome start (position start (as.length + 1)) (not_lt.mp h_room))
    simp only [h_taken, if_neg h_room]
    exact congrArg (·, _) (Rotary.ext h_cursor (slots_after_snoc_of_le (not_lt.mp h_room) a).symm)

end Rotary
