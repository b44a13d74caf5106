import Mathlib.Data.List.Basic
import MoleculeOS.Library.Buffer

/-!
# Texts copied over one another

Copying a text without its end over another one replaces the beginning and leaves the rest
(`overlay`). After several copies the result is as long as the longest of all texts; so it is the
last of them exactly if none was longer (`foldl_overlay_eq_last_iff`).

A buffer that started out zero holds such a result with zeros behind it (`Buffer.Holds`).
-/

variable {α : Type*}

/-- What is left of `t` when `v` is copied over it. -/
def overlay (t v : List α) : List α := v ++ t.drop v.length

theorem length_overlay (t v : List α) : (overlay t v).length = max v.length t.length := by
  unfold overlay
  rw [List.length_append, List.length_drop]
  omega

theorem mem_overlay {t v : List α} {x : α} (h : x ∈ overlay t v) : x ∈ v ∨ x ∈ t := by
  rcases List.mem_append.mp h with h | h
  · exact Or.inl h
  · exact Or.inr (List.mem_of_mem_drop h)

theorem mem_foldl_overlay {t : List α} {vs : List (List α)} {x : α}
    (h : x ∈ vs.foldl overlay t) : x ∈ t ∨ ∃ v ∈ vs, x ∈ v := by
  induction vs generalizing t with
  | nil => exact Or.inl h
  | cons v vs ih =>
    rcases ih h with h | ⟨u, h_u, h⟩
    · rcases mem_overlay h with h | h
      · exact Or.inr ⟨v, List.mem_cons_self, h⟩
      · exact Or.inl h
    · exact Or.inr ⟨u, List.mem_cons_of_mem _ h_u, h⟩

/-- The result is as long as the longest text. -/
theorem length_foldl_overlay_le_iff {t : List α} {vs : List (List α)} {n : ℕ} :
    (vs.foldl overlay t).length ≤ n ↔ t.length ≤ n ∧ ∀ v ∈ vs, v.length ≤ n := by
  induction vs generalizing t with
  | nil => simp
  | cons v vs ih =>
    rw [List.foldl_cons, ih, length_overlay, Nat.max_le, List.forall_mem_cons]
    exact ⟨fun h => ⟨h.1.2, h.1.1, h.2⟩, fun h => ⟨⟨h.2.1, h.1⟩, h.2.2⟩⟩

/-- **The last text is left** exactly if no earlier one is longer. -/
theorem foldl_overlay_eq_last_iff {t : List α} {vs : List (List α)} :
    vs.foldl overlay t = vs.getLastD t ↔
      ∀ u ∈ t :: vs, u.length ≤ (vs.getLastD t).length := by
  have h_split : ∀ n, (vs.foldl overlay t).length ≤ n ↔ ∀ u ∈ t :: vs, u.length ≤ n := by
    intro n
    rw [length_foldl_overlay_le_iff, List.forall_mem_cons]
  rw [← h_split]
  rcases vs.eq_nil_or_concat with rfl | ⟨us, v, rfl⟩
  · exact iff_of_true rfl (Nat.le_refl _)
  · rw [List.concat_eq_append, List.foldl_append, List.foldl_cons, List.foldl_nil,
      List.getLastD_concat]
    -- the last copy puts `v` in front of what was longer
    unfold overlay
    refine ⟨fun h => Nat.le_of_eq (congrArg List.length h), fun h => ?_⟩
    rw [List.length_append] at h
    rw [List.length_eq_zero_iff.mp (show ((us.foldl _ t).drop v.length).length = 0 by omega),
      List.append_nil]

namespace Buffer

variable {n : ℕ}

/-- The buffer starts with a text, and is zero behind it. -/
structure Holds (b : Buffer n) (t : List UInt8) : Prop where
  length_le : t.length ≤ n
  data : b.data = t ++ List.replicate (n - t.length) 0

/-- A text copied over another one. -/
theorem Holds.poke {b : Buffer n} {t v : List UInt8} (h : b.Holds t) (h_v : v.length ≤ n) :
    ∃ c, b.poke 0 v = some c ∧ c.Holds (overlay t v) := by
  obtain ⟨c, h_poke⟩ := b.exists_poke (show 0 + v.length ≤ n by omega)
  refine ⟨c, h_poke, ?_, ?_⟩
  · rw [length_overlay]
    exact Nat.max_le.mpr ⟨h_v, h.length_le⟩
  · have h_data := drop_of_poke h_poke
    have h_len := h.length_le
    rw [List.drop_zero, Nat.zero_add, h.data, List.drop_append, List.drop_replicate] at h_data
    rw [h_data, length_overlay]
    unfold overlay
    rw [List.append_assoc]
    congr 3
    omega

theorem Holds.zero (n : ℕ) : (Buffer.zero n).Holds [] := ⟨Nat.zero_le n, rfl⟩

/-- A text copied into a cleared buffer. -/
theorem exists_holds {t : List UInt8} (h : t.length ≤ n) :
    ∃ c, (Buffer.zero n).poke 0 t = some c ∧ c.Holds t := by
  obtain ⟨c, h_poke, h_c⟩ := (Holds.zero n).poke h
  unfold overlay at h_c
  rw [List.drop_nil, List.append_nil] at h_c
  exact ⟨c, h_poke, h_c⟩

/-- A shorter text ends in the buffer. -/
theorem Holds.takeWhile_of_lt {b : Buffer n} {t : List UInt8} (h : b.Holds t) (h_lt : t.length < n)
    (h_nul : ∀ x ∈ t, x ≠ 0) (rest : List UInt8) : (b.data ++ rest).takeWhile (· ≠ 0) = t := by
  obtain ⟨m, h_m⟩ : ∃ m, n - t.length = m + 1 := ⟨n - t.length - 1, by omega⟩
  rw [h.data, h_m, List.replicate_succ, List.append_assoc, List.cons_append,
    List.takeWhile_append_of_pos (by simpa using h_nul), List.takeWhile_cons_of_neg (by simp),
    List.append_nil]

/-- A text that fills the buffer goes on behind it. -/
theorem Holds.takeWhile_of_eq {b : Buffer n} {t : List UInt8} (h : b.Holds t) (h_eq : t.length = n)
    (h_nul : ∀ x ∈ t, x ≠ 0) (rest : List UInt8) :
    (b.data ++ rest).takeWhile (· ≠ 0) = t ++ rest.takeWhile (· ≠ 0) := by
  rw [h.data, h_eq, Nat.sub_self, List.replicate_zero, List.append_nil,
    List.takeWhile_append_of_pos (by simpa using h_nul)]

/-- The string at the start of a buffer that holds a shorter text is the text. -/
theorem Holds.cstr {b : Buffer n} {t : List UInt8} (h : b.Holds t) (h_lt : t.length < n)
    (h_nul : ∀ x ∈ t, x ≠ 0) : b.cstr 0 = some t := by
  obtain ⟨m, h_m⟩ : ∃ m, n - t.length = m + 1 := ⟨n - t.length - 1, by omega⟩
  have h_drop : b.data.drop 0 = t ++ 0 :: List.replicate m 0 := by
    rw [List.drop_zero, h.data, h_m, List.replicate_succ]
  exact cstr_of_drop h_drop h_nul

end Buffer
