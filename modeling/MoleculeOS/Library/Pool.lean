import Mathlib.Data.List.Chain
import Mathlib.Data.List.Nodup
import Mathlib.Logic.Function.Basic

/-!
# A pool of linked cells

The cells of a pool are spread over places: each cell is in one place, once (`Pool.Exact`). What
happens to the pool is that cells go from one place to another (`Exact.move`). The cells of a place
are strung on links, each cell linking to the one after it (`Pool.Linked`). A link that is written
is not seen by the strings that do not follow it (`Linked.update`).
-/

namespace Pool

variable {κ α : Type*}

/-- Every cell is in one of the places, and there once. -/
structure Exact (cells : Set α) (place : κ → List α) : Prop where
  nodup : ∀ k, (place k).Nodup
  mem_iff : ∀ a, a ∈ cells ↔ ∃ k, a ∈ place k
  unique : ∀ {a : α} {k k' : κ}, a ∈ place k → a ∈ place k' → k = k'

namespace Exact

variable {cells : Set α} {place : κ → List α}

theorem mem (h : Exact cells place) {a : α} {k : κ} (h_mem : a ∈ place k) : a ∈ cells :=
  (h.mem_iff a).mpr ⟨k, h_mem⟩

theorem notMem_of_ne (h : Exact cells place) {a : α} {k k' : κ} (h_mem : a ∈ place k)
    (h_ne : k ≠ k') : a ∉ place k' := fun h_mem' => h_ne (h.unique h_mem h_mem')

theorem nodup_append (h : Exact cells place) {k k' : κ} (h_ne : k ≠ k') :
    (place k ++ place k').Nodup :=
  (h.nodup k).append (h.nodup k') fun _ h_mem => h.notMem_of_ne h_mem h_ne

/-- **Moving cells.** Two places share their cells out anew. -/
theorem move [DecidableEq κ] (h : Exact cells place) {k k' : κ} (h_ne : k ≠ k') {l l' : List α}
    (h_perm : (l ++ l').Perm (place k ++ place k')) :
    Exact cells (Function.update (Function.update place k l) k' l') := by
  obtain ⟨h_l, h_l', h_disj⟩ := List.nodup_append'.mp (h_perm.nodup_iff.mpr (h.nodup_append h_ne))
  have h_mem : ∀ a, a ∈ l ∨ a ∈ l' ↔ a ∈ place k ∨ a ∈ place k' := fun a => by
    rw [← List.mem_append, ← List.mem_append]
    exact h_perm.mem_iff
  set place' := Function.update (Function.update place k l) k' l' with h_def
  have h_at : place' k = l := by
    rw [h_def, Function.update_of_ne h_ne, Function.update_self]
  have h_at' : place' k' = l' := Function.update_self _ _ _
  have h_else : ∀ j, j ≠ k → j ≠ k' → place' j = place j := fun j h_k h_k' => by
    rw [h_def, Function.update_of_ne h_k', Function.update_of_ne h_k]
  have h_or : ∀ j, j = k ∨ j = k' ∨ place' j = place j ∧ j ≠ k ∧ j ≠ k' := fun j => by
    by_cases h_k : j = k
    · exact .inl h_k
    by_cases h_k' : j = k'
    · exact .inr (.inl h_k')
    exact .inr (.inr ⟨h_else j h_k h_k', h_k, h_k'⟩)
  -- a cell of the two places was in one of them before
  have h_back : ∀ {a j}, a ∈ place' j → j = k ∨ j = k' → a ∈ place k ∨ a ∈ place k' := by
    rintro a j h_a (rfl | rfl)
    · exact (h_mem a).mp (.inl (h_at ▸ h_a))
    · exact (h_mem a).mp (.inr (h_at' ▸ h_a))
  have h_apart : ∀ {a j j'}, a ∈ place' j → j = k ∨ j = k' → a ∈ place' j' →
      place' j' = place j' ∧ j' ≠ k ∧ j' ≠ k' → False := by
    rintro a j j' h_a h_j h_a' ⟨h_eq, h_k, h_k'⟩
    rw [h_eq] at h_a'
    rcases h_back h_a h_j with h_in | h_in
    · exact h_k (h.unique h_a' h_in)
    · exact h_k' (h.unique h_a' h_in)
  refine ⟨fun j => ?_, fun a => ?_, fun {a j j'} h_j h_j' => ?_⟩
  · rcases h_or j with rfl | rfl | ⟨h_eq, -⟩
    · exact h_at ▸ h_l
    · exact h_at' ▸ h_l'
    · exact h_eq ▸ h.nodup j
  · refine (h.mem_iff a).trans ⟨fun ⟨j, h_j⟩ => ?_, fun ⟨j, h_j⟩ => ?_⟩
    · rcases h_or j with rfl | rfl | ⟨h_eq, -⟩
      · rcases (h_mem a).mpr (.inl h_j) with h_in | h_in
        · exact ⟨j, h_at.symm ▸ h_in⟩
        · exact ⟨k', h_at'.symm ▸ h_in⟩
      · rcases (h_mem a).mpr (.inr h_j) with h_in | h_in
        · exact ⟨k, h_at.symm ▸ h_in⟩
        · exact ⟨j, h_at'.symm ▸ h_in⟩
      · exact ⟨j, h_eq.symm ▸ h_j⟩
    · rcases h_or j with h_eq | h_eq | ⟨h_eq, -⟩
      · exact (h_back h_j (.inl h_eq)).elim (fun h_in => ⟨k, h_in⟩) fun h_in => ⟨k', h_in⟩
      · exact (h_back h_j (.inr h_eq)).elim (fun h_in => ⟨k, h_in⟩) fun h_in => ⟨k', h_in⟩
      · exact ⟨j, h_eq ▸ h_j⟩
  · have h_two : k = k' ∨ ∀ {a}, a ∈ place' k → a ∉ place' k' := .inr fun {a} h_a h_a' =>
      h_disj (h_at ▸ h_a) (h_at' ▸ h_a')
    rcases h_or j with h_eq | h_eq | h_eq <;> rcases h_or j' with h_eq' | h_eq' | h_eq'
    · exact h_eq.trans h_eq'.symm
    · subst h_eq h_eq'
      exact absurd (h_at' ▸ h_j') (h_disj (h_at ▸ h_j))
    · exact (h_apart h_j (.inl h_eq) h_j' h_eq').elim
    · subst h_eq h_eq'
      exact absurd (h_at' ▸ h_j) (h_disj (h_at ▸ h_j'))
    · exact h_eq.trans h_eq'.symm
    · exact (h_apart h_j (.inr h_eq) h_j' h_eq').elim
    · exact (h_apart h_j' (.inl h_eq') h_j h_eq).elim
    · exact (h_apart h_j' (.inr h_eq') h_j h_eq).elim
    · rw [h_eq.1] at h_j
      rw [h_eq'.1] at h_j'
      exact h.unique h_j h_j'

end Exact

/-! ### Links -/

/-- Each cell of the list links to the one after it. -/
def Linked (next : α → α) (l : List α) : Prop := l.IsChain fun a b => next a = b

namespace Linked

variable {next next' : α → α} {l l' : List α} {a b : α}

/-- Only the links of the cells before the last one matter. -/
theorem congr (h : Linked next l) (h_eq : ∀ a ∈ l.dropLast, next' a = next a) :
    Linked next' l := by
  induction l with
  | nil => exact List.IsChain.nil
  | cons a l ih =>
    cases l with
    | nil => exact List.IsChain.singleton a
    | cons b l =>
      obtain ⟨h_ab, h_l⟩ := List.isChain_cons_cons.mp h
      have h_a : next' a = b := (h_eq a List.mem_cons_self).trans h_ab
      have h_rest : Linked next' (b :: l) :=
        ih h_l fun c h_c => h_eq c (List.mem_cons_of_mem a h_c)
      exact List.isChain_cons_cons.mpr ⟨h_a, h_rest⟩

/-- Writing a link that the list does not follow. -/
theorem update [DecidableEq α] (h : Linked next l) (h_notMem : a ∉ l.dropLast) (b : α) :
    Linked (Function.update next a b) l := by
  refine h.congr fun c h_c => Function.update_of_ne ?_ _ _
  rintro rfl
  exact h_notMem h_c

/-- The link of the last cell may be written. -/
theorem update_last [DecidableEq α] (h : Linked next l) (h_nodup : l.Nodup)
    (h_last : l.getLast? = some a) (b : α) : Linked (Function.update next a b) l := by
  refine h.update (fun h_mem => ?_) b
  obtain ⟨l', rfl⟩ := List.getLast?_eq_some_iff.mp h_last
  rw [List.dropLast_concat] at h_mem
  exact (List.nodup_append'.mp h_nodup).2.2 h_mem List.mem_cons_self

/-- Two strings joined by a link. -/
theorem append (h : Linked next l) (h' : Linked next l')
    (h_join : ∀ x ∈ l.getLast?, ∀ y ∈ l'.head?, next x = y) : Linked next (l ++ l') :=
  List.IsChain.append h h' h_join

theorem tail (h : Linked next (a :: l)) : Linked next l := List.IsChain.tail h

theorem next_eq (h : Linked next (a :: b :: l)) : next a = b :=
  (List.isChain_cons_cons.mp h).1

theorem next_of_append (h : Linked next (l ++ a :: b :: l')) : next a = b :=
  Linked.next_eq (List.IsChain.right_of_append h)

end Linked

end Pool
