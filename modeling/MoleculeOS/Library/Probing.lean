import Mathlib.Data.List.TakeWhile
import Mathlib.Data.Nat.ModEq
import MoleculeOS.Library.Rotary

/-!
# Attempts at a rotary table

A rotary table whose allocations may fail: every attempt moves the cursor to the next slot and looks
at this slot only. A taken slot refuses the attempt; a free one is taken, unless the attempt fails
for a reason of its own, which leaves the slot free. A failed attempt therefore leaves a hole, which
the cursor comes back to only after a whole round.

An attempt is recorded as `true` if it would succeed at a free slot. `Held start bs i` says in
closed form which slots are taken after the attempts `bs`. The cursor meets a taken slot while
others are free exactly if it goes round over a hole: `refused_only_full_iff` says when this does
not happen, in terms of the attempts from the first successful one on.
-/

namespace Probing

open Rotary

variable {N : ℕ} {start : Fin N} {bs : List Bool}

/-- A slot that some attempt has got. -/
def Held (start : Fin N) (bs : List Bool) (i : Fin N) : Prop :=
  ∃ j, bs[j]? = some true ∧ position start (j + 1) = i

theorem not_held_nil (start i : Fin N) : ¬ Held start [] i := by
  rintro ⟨j, h_get, -⟩
  exact absurd h_get (by simp)

/-- One more attempt takes the slot at the cursor, if it succeeds. -/
theorem held_snoc {b : Bool} {i : Fin N} : Held start (bs ++ [b]) i ↔
    Held start bs i ∨ b = true ∧ position start (bs.length + 1) = i := by
  constructor
  · rintro ⟨j, h_get, h_pos⟩
    rcases Nat.lt_or_ge j bs.length with h_lt | h_ge
    · rw [List.getElem?_append_left h_lt] at h_get
      exact Or.inl ⟨j, h_get, h_pos⟩
    · have h_j : j < (bs ++ [b]).length := (List.getElem?_eq_some_iff.mp h_get).1
      rw [List.length_append, List.length_singleton] at h_j
      obtain rfl : j = bs.length := by omega
      rw [List.getElem?_concat_length] at h_get
      exact Or.inr ⟨Option.some.inj h_get, h_pos⟩
  · rintro (⟨j, h_get, h_pos⟩ | ⟨rfl, h_pos⟩)
    · refine ⟨j, ?_, h_pos⟩
      rw [List.getElem?_append_left (List.getElem?_eq_some_iff.mp h_get).1]
      exact h_get
    · exact ⟨bs.length, List.getElem?_concat_length, h_pos⟩

/-- The slots that are taken before attempt number `n`. -/
theorem held_take {n : ℕ} {i : Fin N} : Held start (bs.take n) i ↔
    ∃ j < n, bs[j]? = some true ∧ position start (j + 1) = i := by
  unfold Held
  refine exists_congr fun j => ?_
  rw [List.getElem?_take]
  split
  · next h_lt => rw [and_iff_right h_lt]
  · next h_ge => exact iff_of_false (fun h => absurd h.1 (by simp)) fun h => h_ge h.1

/-- Two attempts look at the same slot when they are whole rounds apart. -/
theorem position_succ_eq_iff {m n : ℕ} :
    position start (m + 1) = position start (n + 1) ↔ m % N = n % N := by
  have h_dist : ∀ n, distance (position start 1) (position start (n + 1)) = n % N := by
    intro n
    rw [Nat.add_comm, ← position_position, distance_position]
  refine ⟨fun h => ?_, fun h => ?_⟩
  · rw [← h_dist m, h, h_dist]
  · rw [← position_distance (position start 1) (position start (m + 1)), h_dist, h, ← h_dist n,
      position_distance]

/-! ### Refusals -/

/-- The attempts before the first successful one. -/
def lead (bs : List Bool) : ℕ := (bs.takeWhile fun b => !b).length

theorem lead_le {j : ℕ} (h : bs[j]? = some true) : lead bs ≤ j := by
  by_contra h_lt
  have h_lt : j < (bs.takeWhile fun b => !b).length := not_le.mp h_lt
  have h_mem := List.mem_takeWhile_imp (List.getElem_mem h_lt)
  obtain ⟨h_j, h_get⟩ := List.getElem?_eq_some_iff.mp h
  rw [List.IsPrefix.getElem (List.takeWhile_prefix _) h_lt, h_get] at h_mem
  exact absurd h_mem (by simp)

/-- The attempts from the first successful one on. -/
theorem getElem?_dropWhile (t : ℕ) : (bs.dropWhile fun b => !b)[t]? = bs[lead bs + t]? := by
  have h_split := List.takeWhile_append_dropWhile (p := fun b => !b) (l := bs)
  have h_get : (bs.takeWhile (fun b => !b) ++ bs.dropWhile fun b => !b)[lead bs + t]?
      = (bs.dropWhile fun b => !b)[t]? := by
    unfold lead
    rw [List.getElem?_append_right (Nat.le_add_right _ _), Nat.add_sub_cancel_left]
  rw [← h_get, h_split]

theorem length_dropWhile (bs : List Bool) :
    lead bs + (bs.dropWhile fun b => !b).length = bs.length := by
  have h_split := congrArg List.length
    (List.takeWhile_append_dropWhile (p := fun b => !b) (l := bs))
  rwa [List.length_append] at h_split

/-- The first attempt of the rest is successful. -/
theorem getElem?_lead (h : lead bs < bs.length) : bs[lead bs]? = some true := by
  have h_len := length_dropWhile bs
  have h_ne : (bs.dropWhile fun b => !b) ≠ [] := List.ne_nil_of_length_pos (by omega)
  have h_head := List.head_dropWhile_not (fun b => !b) h_ne
  rw [← Nat.add_zero (lead bs), ← getElem?_dropWhile, ← List.head?_eq_getElem?,
    List.head?_eq_some_head h_ne]
  simpa using h_head

/-- **Refused only when full.** An attempt meets a taken slot only when all slots are taken, exactly
if from the first successful attempt on there are at most as many as slots, or as many in a row are
successful. -/
theorem refused_only_full_iff (start : Fin N) (bs : List Bool) :
    (∀ n < bs.length, Held start (bs.take n) (position start (n + 1)) →
        ∀ i, Held start (bs.take n) i) ↔
      (bs.dropWhile fun b => !b).length ≤ N ∨
        ∀ b ∈ (bs.dropWhile fun b => !b).take N, b = true := by
  have h_length := length_dropWhile bs
  have h_pos := start.pos
  constructor
  · intro h
    by_cases h_few : (bs.dropWhile fun b => !b).length ≤ N
    · exact Or.inl h_few
    refine Or.inr fun b h_b => ?_
    obtain ⟨t, h_t⟩ := List.mem_iff_getElem?.mp h_b
    obtain ⟨h_t_lt, -⟩ := List.getElem?_eq_some_iff.mp h_t
    rw [List.length_take] at h_t_lt
    rw [List.getElem?_take_of_lt (by omega), getElem?_dropWhile] at h_t
    -- one round after the first successful attempt, the cursor is back at its slot
    have h_full := h (lead bs + N) (by omega) (held_take.mpr ⟨lead bs, by omega,
      getElem?_lead (by omega), position_succ_eq_iff.mpr (Nat.add_mod_right _ _).symm⟩)
    -- so the slot of attempt `t` is taken, and no other attempt of the round is there
    obtain ⟨j, h_j, h_get, h_slot⟩ := held_take.mp (h_full (position start (lead bs + t + 1)))
    have h_lead := lead_le h_get
    have h_mod := position_succ_eq_iff.mp h_slot
    obtain rfl : j = lead bs + t := by
      have h_j' : (j - lead bs) % N = t % N := by
        have h_eq : (lead bs + (j - lead bs)) % N = (lead bs + t) % N := by
          rw [Nat.add_sub_cancel' h_lead]
          exact h_mod
        exact Nat.ModEq.add_left_cancel' (lead bs) h_eq
      rw [Nat.mod_eq_of_lt (by omega), Nat.mod_eq_of_lt (by omega)] at h_j'
      omega
    exact Option.some.inj (h_t.symm.trans h_get)
  · intro h n h_n h_refused i
    obtain ⟨j, h_j, h_get, h_slot⟩ := held_take.mp h_refused
    have h_lead := lead_le h_get
    have h_mod := position_succ_eq_iff.mp h_slot
    -- the attempt that is refused comes a round or more after the one that has its slot
    have h_round : j + N ≤ n := by
      by_contra h_lt
      have h_sub : (n - j) % N = 0 := Nat.sub_mod_eq_zero_of_mod_eq h_mod.symm
      rw [Nat.mod_eq_of_lt (by omega)] at h_sub
      omega
    have h_all := h.resolve_left (by omega)
    -- and in the first round every slot was taken
    obtain ⟨t, h_t, rfl⟩ := exists_position (position start (lead bs + 1)) i
    rw [position_position]
    refine held_take.mpr ⟨lead bs + t, by omega, ?_, by congr 1; omega⟩
    have h_lt : t < (bs.dropWhile fun b => !b).length := by omega
    have h_mem : (bs.dropWhile fun b => !b)[t] ∈ (bs.dropWhile fun b => !b).take N := by
      rw [List.mem_take_iff_getElem]
      exact ⟨t, by omega, rfl⟩
    rw [← getElem?_dropWhile, List.getElem?_eq_getElem h_lt, h_all _ h_mem]

end Probing
