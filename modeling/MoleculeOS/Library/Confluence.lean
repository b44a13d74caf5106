import MoleculeOS.Library.Transition

/-!
# Systems whose schedule does not matter

In a system of parties the label of a step is the party that makes it. When a party has one way to
go on and what one party does leaves the steps of the others possible (`Commutes`), it does not
matter who is scheduled when: if one run comes to an end where nothing can move, every run comes to
that end, with as many steps of each party (`Run.completes`).
-/

namespace Transition.System

universe u v

variable {State : Type u} {Label : Type v} {sys : System State Label} {s t u : State}
  {l m : Label} {ls ms : List Label}

/-- Each party has one way to go on, and steps of two parties can be made in either order. -/
structure Commutes (sys : System State Label) : Prop where
  deterministic : ∀ {s t u : State} {l : Label}, sys.step s l t → sys.step s l u → t = u
  diamond : ∀ {s t u : State} {l m : Label}, l ≠ m → sys.step s l t → sys.step s m u →
    ∃ v, sys.step t m v ∧ sys.step u l v

/-- No party can move. -/
def Stuck (sys : System State Label) (s : State) : Prop := ∀ l t, ¬ sys.step s l t

theorem Run.cons (h : sys.step s l t) (h_run : sys.Run t ls u) : sys.Run s (l :: ls) u :=
  ((Run.nil s).snoc h).append h_run

theorem Run.eq_of_nil (h : sys.Run s ls t) (h_ls : ls = []) : s = t := by
  cases h with
  | nil => rfl
  | snoc => exact absurd h_ls (List.append_ne_nil_of_right_ne_nil _ (List.cons_ne_nil _ _))

theorem Run.uncons (h : sys.Run s (l :: ls) u) : ∃ t, sys.step s l t ∧ sys.Run t ls u := by
  have h_one : ∀ {ms t}, sys.Run s ms t → ms = [l] → sys.step s l t := by
    intro ms t h_run h_ms
    cases h_run with
    | nil => cases h_ms
    | snoc h_first hstep =>
      obtain ⟨rfl, h_l⟩ := List.append_inj' (h_ms.trans (List.nil_append [l]).symm) rfl
      obtain rfl := h_first.eq_of_nil rfl
      exact List.singleton_injective h_l ▸ hstep
  obtain ⟨t, h_first, h_rest⟩ := h.split (List.singleton_append (x := l)).symm
  exact ⟨t, h_one h_first rfl, h_rest⟩

/-- Some run leads from `s` to `t`. -/
def Leads (sys : System State Label) (s t : State) : Prop := ∃ ls, sys.Run s ls t

theorem Leads.refl (s : State) : sys.Leads s s := ⟨[], Run.nil s⟩

theorem Leads.trans (h : sys.Leads s t) (h' : sys.Leads t u) : sys.Leads s u := by
  obtain ⟨ls, h_run⟩ := h
  obtain ⟨ls', h_run'⟩ := h'
  exact ⟨ls ++ ls', h_run.append h_run'⟩

theorem Leads.head (h : sys.step s l t) (h' : sys.Leads t u) : sys.Leads s u := by
  obtain ⟨ls, h_run⟩ := h'
  exact ⟨l :: ls, h_run.cons h⟩

/-- A step need not be the first one of a run to its end: it can be made first. -/
theorem Run.first (h_sys : sys.Commutes) (h : sys.Run s ls t) (h_stuck : sys.Stuck t)
    (hstep : sys.step s l u) : ∃ ns, sys.Run u ns t ∧ (l :: ns).Perm ls := by
  induction ls generalizing s u with
  | nil =>
    obtain rfl := h.eq_of_nil rfl
    exact absurd hstep (h_stuck l u)
  | cons m ls ih =>
    obtain ⟨v, h_v, h_rest⟩ := h.uncons
    by_cases h_lm : l = m
    · subst h_lm
      obtain rfl := h_sys.deterministic hstep h_v
      exact ⟨ls, h_rest, List.Perm.refl _⟩
    · -- the step is still possible after the first one of the run
      obtain ⟨w, h_uw, h_vw⟩ := h_sys.diamond h_lm hstep h_v
      obtain ⟨ns, h_run, h_perm⟩ := ih h_rest h_vw
      exact ⟨m :: ns, h_run.cons h_uw, (List.Perm.swap m l ns).trans (h_perm.cons m)⟩

/-- **One end.** When a run comes to an end, every run can be gone on with to the same end, and
altogether each party makes as many steps. -/
theorem Run.completes (h_sys : sys.Commutes) (h : sys.Run s ls t) (h_stuck : sys.Stuck t)
    (h' : sys.Run s ms u) : ∃ ns, sys.Run u ns t ∧ (ms ++ ns).Perm ls := by
  induction ms generalizing s ls with
  | nil =>
    obtain rfl := h'.eq_of_nil rfl
    exact ⟨ls, h, List.Perm.refl _⟩
  | cons m ms ih =>
    obtain ⟨v, h_v, h_rest⟩ := h'.uncons
    obtain ⟨ns, h_run, h_perm⟩ := h.first h_sys h_stuck h_v
    obtain ⟨ns', h_end, h_perm'⟩ := ih h_run h_rest
    exact ⟨ns', h_end, (h_perm'.cons m).trans h_perm⟩

end Transition.System
