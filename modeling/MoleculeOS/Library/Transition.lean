import Mathlib.Data.List.Basic
import Mathlib.Logic.Function.Basic

/-!
# Labelled transition systems and their runs

A system has initial states and labelled steps. A run is the list of labels of the steps it
takes, read from the first to the last, so that a property of runs can speak of what has
happened so far:

* `Reaches.induction` is the invariant rule over histories: a relation between the labels seen
  so far and the state that holds initially and is kept by every step holds of every run.
* `restrict` keeps the steps that meet a condition, `Reaches.of_restrict` forgets it again.
* `family` puts systems side by side, each step being a step of one of them. A run of the family
  is a run of every member (`Reaches.component`), on the labels that are its own.
-/

namespace Transition

universe u v

/-- Initial states and labelled steps. -/
structure System (State : Type u) (Label : Type v) where
  init : State → Prop
  step : State → Label → State → Prop

namespace System

variable {State : Type u} {Label : Type v} {sys : System State Label}

/-- `Run sys s ls t`: the labels `ls` lead from `s` to `t`. -/
inductive Run (sys : System State Label) : State → List Label → State → Prop
  | nil (s : State) : Run sys s [] s
  | snoc {s t u : State} {ls : List Label} {l : Label} :
      Run sys s ls t → sys.step t l u → Run sys s (ls ++ [l]) u

/-- The labels `ls` lead from an initial state to `s`. -/
def Reaches (sys : System State Label) (ls : List Label) (s : State) : Prop :=
  ∃ s₀, sys.init s₀ ∧ sys.Run s₀ ls s

theorem Reaches.start {s : State} (h : sys.init s) : sys.Reaches [] s := ⟨s, h, Run.nil s⟩

theorem Reaches.snoc {s t : State} {ls : List Label} {l : Label} (h : sys.Reaches ls s)
    (hstep : sys.step s l t) : sys.Reaches (ls ++ [l]) t := by
  obtain ⟨s₀, h_init, h_run⟩ := h
  exact ⟨s₀, h_init, h_run.snoc hstep⟩

theorem Run.append {s t u : State} {ls ls' : List Label} (h : sys.Run s ls t)
    (h' : sys.Run t ls' u) : sys.Run s (ls ++ ls') u := by
  induction h' with
  | nil =>
    rw [List.append_nil]
    exact h
  | snoc _ hstep ih =>
    rw [← List.append_assoc]
    exact ih.snoc hstep

/-- A run goes on from where another one has led. -/
theorem Reaches.append {s t : State} {ls ls' : List Label} (h : sys.Reaches ls s)
    (h_run : sys.Run s ls' t) : sys.Reaches (ls ++ ls') t := by
  obtain ⟨s₀, h_init, h_first⟩ := h
  exact ⟨s₀, h_init, h_first.append h_run⟩

/-- A run is made of two runs wherever it is cut. -/
theorem Run.split {s t : State} {ms : List Label} (h : sys.Run s ms t) {ls ls' : List Label}
    (h_eq : ms = ls ++ ls') : ∃ u, sys.Run s ls u ∧ sys.Run u ls' t := by
  induction h generalizing ls ls' with
  | nil =>
    obtain ⟨rfl, rfl⟩ := List.append_eq_nil_iff.mp h_eq.symm
    exact ⟨_, Run.nil _, Run.nil _⟩
  | snoc h_run hstep ih =>
    rcases ls'.eq_nil_or_concat with rfl | ⟨ls'', l', rfl⟩
    · rw [List.append_nil] at h_eq
      subst h_eq
      exact ⟨_, h_run.snoc hstep, Run.nil _⟩
    · rw [List.concat_eq_append] at h_eq ⊢
      rw [← List.append_assoc] at h_eq
      obtain ⟨h_ls, h_l⟩ := List.append_inj' h_eq rfl
      obtain rfl := List.singleton_injective h_l
      obtain ⟨u, h_first, h_then⟩ := ih h_ls
      exact ⟨u, h_first, h_then.snoc hstep⟩

/-- The beginning of a run is a run. -/
theorem Reaches.of_append {t : State} {ls ls' : List Label} (h : sys.Reaches (ls ++ ls') t) :
    ∃ s, sys.Reaches ls s := by
  obtain ⟨s₀, h_init, h_run⟩ := h
  obtain ⟨s, h_first, -⟩ := h_run.split rfl
  exact ⟨s, s₀, h_init, h_first⟩

/-- **The invariant rule over histories.** -/
theorem Reaches.induction {P : List Label → State → Prop} (h_init : ∀ s, sys.init s → P [] s)
    (h_step : ∀ ls s l t, sys.Reaches ls s → P ls s → sys.step s l t → P (ls ++ [l]) t)
    {ls : List Label} {s : State} (h : sys.Reaches ls s) : P ls s := by
  obtain ⟨s₀, hs₀, h_run⟩ := h
  induction h_run with
  | nil => exact h_init _ hs₀
  | snoc h_run hstep ih => exact h_step _ _ _ _ ⟨_, hs₀, h_run⟩ ih hstep

/-- The invariant rule for a property of states alone. -/
theorem Reaches.invariant {I : State → Prop} (h_init : ∀ s, sys.init s → I s)
    (h_step : ∀ s l t, I s → sys.step s l t → I t) {ls : List Label} {s : State}
    (h : sys.Reaches ls s) : I s :=
  Reaches.induction (P := fun _ s => I s) h_init (fun _ s l t _ hI => h_step s l t hI) h

/-- The steps of `sys` that meet a condition on the state before and the label. -/
def restrict (sys : System State Label) (ok : State → Label → Prop) : System State Label where
  init := sys.init
  step s l t := ok s l ∧ sys.step s l t

section Family

variable {ι : Type*} [DecidableEq ι]

/-- Systems side by side: a step is a step of one member, the others stay where they are. -/
def family (sys : ι → System State Label) : System (ι → State) (ι × Label) where
  init s := ∀ i, (sys i).init (s i)
  step s l t := ∃ u, (sys l.1).step (s l.1) l.2 u ∧ t = Function.update s l.1 u

/-- What is selected from a history that got one more label. -/
theorem filterMap_snoc {α β : Type*} (f : α → Option β) (ls : List α) (l : α) :
    (ls ++ [l]).filterMap f = ls.filterMap f ++ (f l).toList := by
  rw [List.filterMap_append]
  cases h : f l with
  | none => rw [List.filterMap_cons_none h]; rfl
  | some b => rw [List.filterMap_cons_some h]; rfl

/-- The labels of one member, in order. -/
def labelsAt (i : ι) (ls : List (ι × Label)) : List Label :=
  ls.filterMap fun l => if l.1 = i then some l.2 else none

theorem labelsAt_snoc_self (i : ι) (ls : List (ι × Label)) (l : Label) :
    labelsAt i (ls ++ [(i, l)]) = labelsAt i ls ++ [l] := by
  refine (filterMap_snoc _ ls (i, l)).trans ?_
  rw [if_pos rfl]
  rfl

theorem labelsAt_snoc_of_ne {i j : ι} (h : j ≠ i) (ls : List (ι × Label)) (l : Label) :
    labelsAt i (ls ++ [(j, l)]) = labelsAt i ls := by
  refine (filterMap_snoc _ ls (j, l)).trans ?_
  rw [if_neg h]
  exact List.append_nil _

/-- **Projection.** A run of a family is a run of each member. -/
theorem Reaches.component {sys : ι → System State Label} {ls : List (ι × Label)} {s : ι → State}
    (h : (family sys).Reaches ls s) (i : ι) : (sys i).Reaches (labelsAt i ls) (s i) := by
  refine Reaches.induction (P := fun ls s => (sys i).Reaches (labelsAt i ls) (s i)) ?_ ?_ h
  · intro s h_init
    exact Reaches.start (h_init i)
  · rintro ls s ⟨j, l⟩ t _ ih ⟨u, hstep, rfl⟩
    -- a step of another member changes neither this member's labels nor its state
    by_cases h_j : j = i
    · subst h_j
      rw [labelsAt_snoc_self, Function.update_self]
      exact ih.snoc hstep
    · rw [labelsAt_snoc_of_ne h_j, Function.update_of_ne (Ne.symm h_j)]
      exact ih

end Family

end System

end Transition
