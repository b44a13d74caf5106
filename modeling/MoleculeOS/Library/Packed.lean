import MoleculeOS.Library.Buffer

/-!
# Strings packed into a buffer

Strings one behind the other, each with its NUL (`packed`), and the two facts about buffers that
packing and unpacking loops need: storing a block extends what is known of the front of a buffer by
the block (`take_add_of_poke`), and a string that was packed is read back from its offset
(`cstr_of_packed`).
-/

namespace Buffer

/-- Strings one behind the other, each with its NUL. -/
def packed (strs : List (List UInt8)) : List UInt8 := (strs.map fun s => s ++ [0]).flatten

@[simp] theorem packed_cons (s : List UInt8) (strs : List (List UInt8)) :
    packed (s :: strs) = s ++ 0 :: packed strs := by
  unfold packed
  rw [List.map_cons, List.flatten_cons, List.append_assoc, List.singleton_append]

theorem packed_append (strs strs' : List (List UInt8)) :
    packed (strs ++ strs') = packed strs ++ packed strs' := by
  unfold packed
  rw [List.map_append, List.flatten_append]

theorem length_packed_cons (s : List UInt8) (strs : List (List UInt8)) :
    (packed (s :: strs)).length = s.length + 1 + (packed strs).length := by
  rw [packed_cons, List.length_append, List.length_cons]
  omega

/-- Every string takes at least its NUL. -/
theorem length_le_length_packed (strs : List (List UInt8)) :
    strs.length ≤ (packed strs).length := by
  induction strs with
  | nil => exact Nat.le_refl 0
  | cons s strs ih =>
    rw [length_packed_cons, List.length_cons]
    omega

variable {n : ℕ}

/-- The front of a buffer up to the end of a stored block. -/
theorem take_add_of_poke {b c : Buffer n} {off : ℕ} {src : List UInt8}
    (h : b.poke off src = some c) :
    c.data.take (off + src.length) = b.data.take off ++ src := by
  obtain ⟨h_fit, h_data⟩ := poke_eq_some.mp h
  have h_len : (b.data.take off ++ src).length = off + src.length := by
    rw [List.length_append, List.length_take, b.length_data]
    omega
  rw [h_data, List.take_left' h_len]

/-- The string at an offset where packed strings start. -/
theorem cstr_of_packed {b : Buffer n} {off : ℕ} {s rest : List UInt8} {strs : List (List UInt8)}
    (h : b.data.drop off = packed (s :: strs) ++ rest) (h_s : ∀ x ∈ s, x ≠ 0) :
    b.cstr off = some s := by
  rw [packed_cons, List.append_assoc, List.cons_append] at h
  exact cstr_of_drop h h_s

end Buffer
