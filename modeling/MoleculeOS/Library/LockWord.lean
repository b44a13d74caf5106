import Mathlib.Logic.Function.Basic

/-!
# Words that are their own lock

A word holds a value, or the mark that someone has taken the value away. Whoever finds a value in
the word may put the mark in its place and keep the value (`Guarded.acquire`); only it writes to the
word then, and what it writes is the new value (`Guarded.release`). So at most one has the value,
and the value of the word is known while it is away.
-/

namespace LockWord

variable {ι α : Type*}

/-- `word` holds `value`, or the mark `lock` while one of the holders has it. -/
structure Guarded (lock word value : α) (held : ι → Option α) : Prop where
  ne : value ≠ lock
  word_eq : (∀ i, held i = none) → word = value
  taken : ∀ {i : ι} {v : α}, held i = some v → word = lock ∧ v = value
  unique : ∀ {i j : ι} {v w : α}, held i = some v → held j = some w → i = j

namespace Guarded

variable {lock word value v w : α} {held : ι → Option α} {i j : ι}

/-- Nobody has the value of a word that is not marked. -/
theorem held_eq_none (h : Guarded lock word value held) (h_word : word ≠ lock) (i : ι) :
    held i = none := by
  cases h_i : held i with
  | none => rfl
  | some v => exact absurd (h.taken h_i).1 h_word

/-- Whoever finds a value finds the value of the word. -/
theorem found (h : Guarded lock word value held) (h_word : word ≠ lock) : word = value :=
  h.word_eq (h.held_eq_none h_word)

theorem others (h : Guarded lock word value held) (h_i : held i = some v) (h_j : j ≠ i) :
    held j = none := by
  cases h_w : held j with
  | none => rfl
  | some w => exact absurd (h.unique h_w h_i) h_j

variable [DecidableEq ι]

/-- The value is taken away. -/
theorem acquire (h : Guarded lock word value held) (h_word : word ≠ lock) (i : ι) :
    Guarded lock lock value (Function.update held i (some word)) := by
  have h_none := h.held_eq_none h_word
  have h_only : ∀ {j v}, Function.update held i (some word) j = some v → j = i := by
    intro j v h_j
    by_contra h_ne
    rw [Function.update_of_ne h_ne, h_none] at h_j
    cases h_j
  refine ⟨h.ne, fun h_all => ?_, fun {j v} h_j => ?_, fun {j k v w} h_j h_k => ?_⟩
  · have h_i := h_all i
    rw [Function.update_self] at h_i
    cases h_i
  · obtain rfl := h_only h_j
    rw [Function.update_self] at h_j
    exact ⟨rfl, (Option.some.inj h_j).symm.trans (h.found h_word)⟩
  · exact (h_only h_j).trans (h_only h_k).symm

/-- A new value is put back. -/
theorem release (h : Guarded lock word value held) (h_i : held i = some v) (h_w : w ≠ lock) :
    Guarded lock w w (Function.update held i none) := by
  have h_none : ∀ j, Function.update held i none j = none := by
    intro j
    by_cases h_j : j = i
    · rw [h_j, Function.update_self]
    · rw [Function.update_of_ne h_j, h.others h_i h_j]
  refine ⟨h_w, fun _ => rfl, fun {j v} h_j => ?_, fun {j k v w} h_j => ?_⟩
  · rw [h_none] at h_j
    cases h_j
  · rw [h_none] at h_j
    cases h_j

end Guarded

end LockWord
