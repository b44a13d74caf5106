import Mathlib.Data.List.Basic

/-!
# Fixed-size byte buffers

A `Buffer n` is `n` bytes of memory. Every access is checked against `n`: `poke` stores bytes at
an offset, `cstr` reads the NUL-terminated string at an offset. An access that would leave the
buffer yields `none`.

The lemmas say what the buffer holds after a `poke`: the stored block and behind it what was there
(`drop_of_poke`), in front of it what was there (`take_of_poke`). A string stored with its NUL is
read back by `cstr` (`cstr_of_drop`).
-/

/-- `n` bytes of memory. -/
structure Buffer (n : ℕ) where
  data : List UInt8
  length_data : data.length = n

namespace Buffer

variable {n : ℕ}

/-- All bytes zero. -/
def zero (n : ℕ) : Buffer n := ⟨List.replicate n 0, List.length_replicate⟩

instance : Inhabited (Buffer n) := ⟨zero n⟩

/-- Store `src` from offset `off` on. -/
def poke (b : Buffer n) (off : ℕ) (src : List UInt8) : Option (Buffer n) :=
  if h : off + src.length ≤ n then
    some ⟨b.data.take off ++ src ++ b.data.drop (off + src.length), by
      have h_len := b.length_data
      simp only [List.length_append, List.length_take, List.length_drop]
      omega⟩
  else none

/-- The string at offset `off`, without its NUL; none if no NUL follows in the buffer. -/
def cstr (b : Buffer n) (off : ℕ) : Option (List UInt8) :=
  if off + ((b.data.drop off).takeWhile (· ≠ 0)).length < n then
    some ((b.data.drop off).takeWhile (· ≠ 0))
  else none

theorem poke_eq_some {b c : Buffer n} {off : ℕ} {src : List UInt8} :
    b.poke off src = some c ↔
      off + src.length ≤ n ∧
        c.data = b.data.take off ++ src ++ b.data.drop (off + src.length) := by
  unfold poke
  constructor
  · intro h
    split at h
    · next h_fit =>
      obtain rfl := Option.some.inj h
      exact ⟨h_fit, rfl⟩
    · exact absurd h (by simp)
  · rintro ⟨h_fit, h_data⟩
    rw [dif_pos h_fit]
    cases c
    simp only at h_data
    subst h_data
    rfl

/-- A store that fits succeeds. -/
theorem exists_poke (b : Buffer n) {off : ℕ} {src : List UInt8} (h : off + src.length ≤ n) :
    ∃ c, b.poke off src = some c :=
  ⟨_, dif_pos h⟩

/-- What follows a stored block starts with the block. -/
theorem drop_of_poke {b c : Buffer n} {off : ℕ} {src : List UInt8}
    (h : b.poke off src = some c) :
    c.data.drop off = src ++ b.data.drop (off + src.length) := by
  obtain ⟨h_fit, h_data⟩ := poke_eq_some.mp h
  have h_len : (b.data.take off).length = off := by
    rw [List.length_take, b.length_data]; omega
  rw [h_data, List.append_assoc, List.drop_left' h_len]

/-- What comes before a stored block is what was there. -/
theorem take_of_poke {b c : Buffer n} {off : ℕ} {src : List UInt8}
    (h : b.poke off src = some c) : c.data.take off = b.data.take off := by
  obtain ⟨h_fit, h_data⟩ := poke_eq_some.mp h
  have h_len : (b.data.take off).length = off := by
    rw [List.length_take, b.length_data]; omega
  rw [h_data, List.append_assoc, List.take_left' h_len]

/-- A NUL-terminated string stored at an offset is read back from there. -/
theorem cstr_of_drop {b : Buffer n} {off : ℕ} {w rest : List UInt8}
    (h : b.data.drop off = w ++ 0 :: rest) (hw : ∀ x ∈ w, x ≠ 0) : b.cstr off = some w := by
  have h_take : (b.data.drop off).takeWhile (· ≠ 0) = w := by
    rw [h, List.takeWhile_append_of_pos (by simpa using hw), List.takeWhile_cons_of_neg (by simp),
      List.append_nil]
  have h_len : (b.data.drop off).length = w.length + (rest.length + 1) := by
    rw [h, List.length_append, List.length_cons]
  rw [List.length_drop, b.length_data] at h_len
  unfold cstr
  rw [h_take, if_pos (by omega)]

end Buffer
