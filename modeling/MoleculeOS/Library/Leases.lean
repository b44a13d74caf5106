import Mathlib.Data.Finset.Basic
import Mathlib.Data.Finset.Lattice.Lemmas

/-!
# Resources that are acquired and released

A function in C acquires resources, keeps them in variables, jumps to a label when a step fails, and
releases from there what it has acquired. `Leasing` is the monad of such functions. They go wrong by
misusing a resource: acquiring into a variable that holds one, using or releasing one that is not
held, releasing one that another one needs, or forgetting one. `Runs` says that a function does none
of this, and with what it ends, whether it returns or jumps.
-/

namespace Leases

/-- Resources, and what each of them needs for as long as it is held. -/
class Resources (R : Type) where
  needs : R → Finset R

export Resources (needs)

/-- What is held, and which variables are not null. A resource is named by the variable it is kept
in; the variable goes on pointing to it when it has been released. -/
structure Store (R : Type) where
  held : Finset R
  vars : Finset R

/-- A function that returns or jumps to a label. `none` is a misuse. -/
def Leasing (R ε α : Type) : Type := Store R → Option (Except ε α × Store R)

variable {R ε ε' α β : Type}

namespace Leasing

def bind (x : Leasing R ε α) (f : α → Leasing R ε β) : Leasing R ε β := fun s =>
  match x s with
  | none => none
  | some (.ok a, s') => f a s'
  | some (.error e, s') => some (.error e, s')

instance : Monad (Leasing R ε) where
  pure a := fun s => some (.ok a, s)
  bind := bind

variable {x : Leasing R ε α} {f : α → Leasing R ε β} {s s' : Store R}

theorem bind_of_ok {a : α} (h : x s = some (.ok a, s')) : (x >>= f) s = f a s' := by
  change bind x f s = _
  unfold bind
  rw [h]

theorem bind_of_error {e : ε} (h : x s = some (.error e, s')) :
    (x >>= f) s = some (.error e, s') := by
  change bind x f s = _
  unfold bind
  rw [h]

end Leasing

/-- Go to the label. -/
def jump (e : ε) : Leasing R ε α := fun s => some (.error e, s)

/-- A step that may fail. -/
def check (c : Bool) (e : ε) : Leasing R ε Unit := if c then pure () else jump e

/-- A step that may fail, and else has a result. -/
def get (a : Option α) (e : ε) : Leasing R ε α :=
  match a with
  | some a => pure a
  | none => jump e

/-- Run a function to its end, whether it returns or jumps. -/
def attempt (x : Leasing R ε α) : Leasing R ε' (Except ε α) := fun s =>
  (x s).map fun r => (.ok r.1, r.2)

/-- From `s` the function misuses nothing; it returns with `Q`, or jumps with `E`. -/
def Runs (x : Leasing R ε α) (s : Store R) (Q : α → Store R → Prop)
    (E : ε → Store R → Prop) : Prop :=
  (∃ a s', x s = some (.ok a, s') ∧ Q a s') ∨ ∃ e s', x s = some (.error e, s') ∧ E e s'

section Rules

variable {x : Leasing R ε α} {f : α → Leasing R ε β} {k : Leasing R ε β} {s s' : Store R} {r : R}
  {Q Q' : α → Store R → Prop} {P : β → Store R → Prop} {E E' : ε → Store R → Prop} {e : ε}

theorem runs_pure {a : α} (h : Q a s) : Runs (pure a : Leasing R ε α) s Q E := .inl ⟨a, s, rfl, h⟩

theorem runs_jump (h : E e s) : Runs (jump e : Leasing R ε α) s Q E := .inr ⟨e, s, rfl, h⟩

theorem Runs.mono (h : Runs x s Q E) (h_ok : ∀ a s', Q a s' → Q' a s')
    (h_error : ∀ e s', E e s' → E' e s') : Runs x s Q' E' :=
  h.imp (fun ⟨a, s', h_x, h_q⟩ => ⟨a, s', h_x, h_ok a s' h_q⟩)
    fun ⟨e, s', h_x, h_e⟩ => ⟨e, s', h_x, h_error e s' h_e⟩

theorem Runs.bind (h : Runs x s Q E) (h_f : ∀ a s', Q a s' → Runs (f a) s' P E) :
    Runs (x >>= f) s P E := by
  rcases h with ⟨a, s', h_x, h_q⟩ | ⟨e, s', h_x, h_e⟩
  · unfold Runs
    rw [Leasing.bind_of_ok h_x]
    exact h_f a s' h_q
  · exact .inr ⟨e, s', Leasing.bind_of_error h_x, h_e⟩

/-- A function that is run to its end does not jump. -/
theorem Runs.attempt {P : Except ε α → Store R → Prop} {E' : ε' → Store R → Prop}
    (h : Runs x s (fun a => P (.ok a)) fun e => P (.error e)) : Runs (Leases.attempt x) s P E' := by
  rcases h with ⟨a, s', h_x, h_p⟩ | ⟨e, s', h_x, h_p⟩
  · exact .inl ⟨.ok a, s', by rw [Leases.attempt, h_x]; rfl, h_p⟩
  · exact .inl ⟨.error e, s', by rw [Leases.attempt, h_x]; rfl, h_p⟩

/-- An operation that goes on in the next state. -/
theorem Runs.then_of_eq {x : Leasing R ε Unit} (h_x : x s = some (.ok (), s')) (h : Runs k s' P E) :
    Runs (x >>= fun _ => k) s P E := by
  unfold Runs
  rw [Leasing.bind_of_ok h_x]
  exact h

theorem Runs.of_then {x : Leasing R ε Unit} {Q : Unit → Store R → Prop}
    (h : Runs (x >>= fun _ => pure ()) s Q E) : Runs x s Q E := by
  unfold Runs at h ⊢
  cases h_x : x s with
  | none =>
    have h_none : (x >>= fun _ => (pure () : Leasing R ε Unit)) s = none := by
      change Leasing.bind x _ s = none
      rw [Leasing.bind, h_x]
    rcases h with ⟨a, s', h_s, -⟩ | ⟨e, s', h_s, -⟩ <;> cases h_none.symm.trans h_s
  | some r =>
    obtain ⟨_ | _, s'⟩ := r
    · rwa [Leasing.bind_of_error h_x] at h
    · rwa [Leasing.bind_of_ok h_x] at h

theorem Runs.check_then {c : Bool} (h_fail : c = false → E e s) (h : c = true → Runs k s P E) :
    Runs (check c e >>= fun _ => k) s P E := by
  cases c with
  | false => exact runs_jump (h_fail rfl)
  | true => exact h rfl

theorem Runs.get_then {o : Option α} (h_none : o = none → E e s)
    (h_some : ∀ a, o = some a → Runs (f a) s P E) : Runs (get o e >>= f) s P E := by
  cases o with
  | none => exact runs_jump (h_none rfl)
  | some a => exact h_some a rfl

end Rules

/-! ### Operations -/

section Operations

variable [DecidableEq R] {k : Leasing R ε β} {H V : Finset R} {r : R} {P : β → Store R → Prop}
  {E : ε → Store R → Prop}

/-- Hand a resource to a function that does not keep it. -/
def use (r : R) : Leasing R ε Unit := fun s => if r ∈ s.held then some (.ok (), s) else none

/-- Set the variable to null, which must not hold anything. -/
def clear (r : R) : Leasing R ε Unit := fun s =>
  if r ∈ s.held then none else some (.ok (), ⟨s.held, s.vars.erase r⟩)

/-- The assertion that the variable is null. -/
def assertNull (r : R) : Leasing R ε Unit := fun s =>
  if r ∈ s.vars then none else some (.ok (), s)

theorem Runs.use_then (h_held : r ∈ H) (h : Runs k ⟨H, V⟩ P E) :
    Runs (use r >>= fun _ => k) ⟨H, V⟩ P E := .then_of_eq (if_pos h_held) h

theorem Runs.clear_then (h_held : r ∉ H) (h : Runs k ⟨H, V.erase r⟩ P E) :
    Runs (clear r >>= fun _ => k) ⟨H, V⟩ P E := .then_of_eq (if_neg h_held) h

theorem Runs.assertNull_then (h_null : r ∉ V) (h : Runs k ⟨H, V⟩ P E) :
    Runs (assertNull r >>= fun _ => k) ⟨H, V⟩ P E := .then_of_eq (if_neg h_null) h

variable [Resources R]

/-- Acquire a resource and keep it in its variable. -/
def acquire (r : R) : Leasing R ε Unit := fun s =>
  if r ∉ s.held ∧ needs r ⊆ s.held then some (.ok (), ⟨insert r s.held, insert r s.vars⟩) else none

/-- Acquire a resource, if the step does not fail. -/
def acquireIf (c : Bool) (r : R) : Leasing R ε Unit := if c then acquire r else pure ()

def release (r : R) : Leasing R ε Unit := fun s =>
  if r ∈ s.held ∧ ∀ x ∈ s.held, r ∉ needs x then some (.ok (), ⟨s.held.erase r, s.vars⟩) else none

/-- Release what the variable points to, unless it is null. -/
def free (r : R) : Leasing R ε Unit := fun s =>
  if r ∈ s.vars then release r s else some (.ok (), s)

theorem Runs.acquire_then (h_new : r ∉ H) (h_needs : needs r ⊆ H)
    (h : Runs k ⟨insert r H, insert r V⟩ P E) : Runs (acquire r >>= fun _ => k) ⟨H, V⟩ P E :=
  .then_of_eq (if_pos ⟨h_new, h_needs⟩) h

theorem Runs.acquireIf_then {c : Bool} (h_new : r ∉ H) (h_needs : needs r ⊆ H)
    (h_fail : c = false → Runs k ⟨H, V⟩ P E)
    (h : c = true → Runs k ⟨insert r H, insert r V⟩ P E) :
    Runs (acquireIf c r >>= fun _ => k) ⟨H, V⟩ P E := by
  cases c with
  | false => exact .then_of_eq rfl (h_fail rfl)
  | true => exact .acquire_then h_new h_needs (h rfl)

theorem Runs.release_then (h_held : r ∈ H) (h_needs : ∀ x ∈ H, r ∉ needs x)
    (h : Runs k ⟨H.erase r, V⟩ P E) : Runs (release r >>= fun _ => k) ⟨H, V⟩ P E :=
  .then_of_eq (if_pos ⟨h_held, h_needs⟩) h

end Operations

/-! ### Variables that are null unless they hold something -/

/-- The variables in `T` tell whether they hold something. -/
def Named (T : Finset R) (s : Store R) : Prop := ∀ r ∈ T, r ∈ s.vars ↔ r ∈ s.held

section Named

variable [DecidableEq R] {T H V : Finset R} {r : R}

theorem Named.acquire (h : Named T ⟨H, V⟩) (r : R) : Named T ⟨insert r H, insert r V⟩ := by
  intro x h_x
  change x ∈ insert r V ↔ x ∈ insert r H
  rw [Finset.mem_insert, Finset.mem_insert, show x ∈ V ↔ x ∈ H from h x h_x]

theorem Named.release (h : Named T ⟨H, V⟩) (h_r : r ∉ T) : Named T ⟨H.erase r, V⟩ := by
  intro x h_x
  change x ∈ V ↔ x ∈ H.erase r
  rw [Finset.mem_erase, and_iff_right (ne_of_mem_of_not_mem h_x h_r)]
  exact h x h_x

/-- A variable that is set to null tells from then on. -/
theorem Named.clear (h : Named T ⟨H, V⟩) (h_r : r ∉ H) : Named (insert r T) ⟨H, V.erase r⟩ := by
  intro x h_x
  change x ∈ V.erase r ↔ x ∈ H
  rw [Finset.mem_erase]
  by_cases h_xr : x = r
  · subst h_xr
    exact iff_of_false (fun h' => h'.1 rfl) h_r
  · rw [and_iff_right h_xr]
    exact h x ((Finset.mem_insert.mp h_x).resolve_left h_xr)

omit [DecidableEq R] in
theorem Named.mono {T' : Finset R} (h : Named T ⟨H, V⟩) (h_sub : T' ⊆ T) : Named T' ⟨H, V⟩ :=
  fun r h_r => h r (h_sub h_r)

omit [DecidableEq R] in
/-- The rest goes on from what a function is known to hold in the end. -/
theorem Runs.bind_named {x : Leasing R ε α} {f : α → Leasing R ε β} {s : Store R} {A : α → Prop}
    {K : α → Finset R} {P : β → Store R → Prop} {E : ε → Store R → Prop}
    (h : Runs x s (fun a s' => A a ∧ s'.held = K a ∧ Named T s') E)
    (h_f : ∀ a V, A a → Named T ⟨K a, V⟩ → Runs (f a) ⟨K a, V⟩ P E) : Runs (x >>= f) s P E := by
  refine h.bind fun a s' h_a => ?_
  obtain ⟨K', V⟩ := s'
  obtain ⟨h_result, h_held, h_named⟩ := h_a
  obtain rfl : K' = K a := h_held
  exact h_f a V h_result h_named

variable [Resources R]

/-- Freeing a variable releases what it holds, if it holds something. -/
theorem Named.free_then {ε β : Type} {E : ε → Store R → Prop} {P : β → Store R → Prop}
    {k : Leasing R ε β} (h : Named T ⟨H, V⟩) (h_r : r ∈ T) (h_needs : ∀ x ∈ H, r ∉ needs x)
    (h_k : Runs k ⟨H.erase r, V⟩ P E) : Runs (free r >>= fun _ => k) ⟨H, V⟩ P E := by
  by_cases h_held : r ∈ H
  · exact .then_of_eq ((if_pos ((h r h_r).mpr h_held)).trans (if_pos ⟨h_held, h_needs⟩)) h_k
  · rw [Finset.erase_eq_of_notMem h_held] at h_k
    exact .then_of_eq (if_neg fun h_vars => h_held ((h r h_r).mp h_vars)) h_k

end Named

/-! ### What is released from a label on -/

/-- `L` is held, and beside it at most what is in `T`, where the variables tell. -/
structure Kept (L T : Finset R) [DecidableEq R] (s : Store R) : Prop where
  least : L ⊆ s.held
  most : s.held ⊆ L ∪ T
  named : Named T s

section Kept

variable [DecidableEq R] {L L' T T' : Finset R} {s : Store R} {r : R} {k : Leasing R ε β}
  {P : β → Store R → Prop} {E : ε → Store R → Prop}

theorem Kept.congr (h : Kept L T s) (h_l : L = L') (h_t : T = T') : Kept L' T' s :=
  h_l ▸ h_t ▸ h

theorem Kept.held_eq (h : Kept L ∅ s) : s.held = L :=
  (h.most.trans (Finset.union_empty L).le).antisymm h.least

variable [Resources R]

theorem Kept.release_then (h : Kept L T s) (h_r : r ∈ L) (h_t : r ∉ T)
    (h_needs : ∀ x ∈ L ∪ T, r ∉ needs x)
    (h_k : ∀ s', Kept (L.erase r) T s' → Runs k s' P E) :
    Runs (release r >>= fun _ => k) s P E := by
  obtain ⟨H, V⟩ := s
  refine .release_then (h.least h_r) (fun x h_x => h_needs x (h.most h_x)) (h_k _ ⟨?_, ?_, ?_⟩)
  · exact Finset.erase_subset_erase r h.least
  · refine (Finset.erase_subset_erase r h.most).trans ?_
    rw [Finset.erase_union_distrib]
    exact Finset.union_subset_union_right (Finset.erase_subset r T)
  · exact h.named.release h_t

theorem Kept.free_then (h : Kept L T s) (h_r : r ∈ T) (h_l : r ∉ L)
    (h_needs : ∀ x ∈ L ∪ T, r ∉ needs x)
    (h_k : ∀ s', Kept L (T.erase r) s' → Runs k s' P E) : Runs (free r >>= fun _ => k) s P E := by
  obtain ⟨H, V⟩ := s
  refine h.named.free_then h_r (fun x h_x => h_needs x (h.most h_x)) (h_k _ ⟨?_, ?_, ?_⟩)
  · exact Finset.subset_erase.mpr ⟨h.least, h_l⟩
  · refine (Finset.erase_subset_erase r h.most).trans ?_
    rw [Finset.erase_union_distrib]
    exact Finset.union_subset_union_left (Finset.erase_subset r L)
  · exact (h.named.mono (Finset.erase_subset r T)).release (Finset.notMem_erase r T)

end Kept

end Leases
