import MoleculeOS.Library.Transition
import MoleculeOS.Model.Uct

/-!
# Completion and receipt on one side of the DSM channel

`do_am_zcopy` waits for its completion callback by waiting for the shared holder to be set, whoever
sets it. A message delivered during the send sets it too. If the completion has not fired when the
loop looks next, the send returns success while the transport still uses its buffer, and the late
completion callback puts the marker where a later `recv_msg` takes it for a descriptor.

`Completes` is the condition that excludes this: no progress call of a send ends with a message
delivered since the send began and the completion still to come. Under it the holder determines the
state of the outstanding send (`Endpoint.Settled`), and nothing is confused
(`completion_not_confused`). The condition is exact: after a step that breaks it, the next two steps
return success too early.
-/

namespace MoleculeOS

open Transition

variable {M : Type}

/-- One side of the channel, with every order of callbacks. -/
def endpoint (M : Type) : System (Endpoint M) (Act M) where
  init e := e = .start
  step := Endpoint.Step

namespace Endpoint

/-- In a progress call of a send that returned `UCS_INPROGRESS`. -/
def Awaiting (e : Endpoint M) : Prop := e.pc = .postProgress .inprogress ∨ e.pc = .waitProgress

/-- A progress call does not end with a message delivered since the send began and the send's
completion still outstanding. -/
def Completes (e : Endpoint M) (a : Act M) : Prop :=
  a = .progressed → e.Awaiting → e.delivered = true → e.send ∉ e.pending

/-- Success is returned only when the transport is done with the send, and the marker is never
taken for a descriptor. -/
def Sound (e : Endpoint M) (a : Act M) : Prop :=
  (a = .finish .ok → e.send ∉ e.pending) ∧ a ≠ .take .marker

/-! ### The invariant -/

/-- The holder is set exactly when a message has been delivered since the send began. -/
def Fresh (e : Endpoint M) : Prop :=
  (e.delivered = false ∧ e.holder = .null) ∨ (e.delivered = true ∧ ∃ m, e.holder = .desc m)

/-- **The invariant.** At most the current send is outstanding, and only while its loop waits; there
the holder is not set before the completion, except by a message. -/
def Settled (e : Endpoint M) : Prop :=
  match e.pc with
  | .idle => e.pending = [] ∧ e.holder = .null
  | .post => e.pending = [] ∧ e.Fresh
  | .postProgress .inprogress => e.pending = [] ∨ (e.pending = [e.send] ∧ e.Fresh)
  | .postProgress _ => e.pending = [] ∧ e.Fresh
  | .waitTest => e.pending = [] ∨ (e.pending = [e.send] ∧ e.delivered = false ∧ e.holder = .null)
  | .waitProgress => e.pending = [] ∨ (e.pending = [e.send] ∧ e.Fresh)
  | .reset _ => e.pending = []
  | .recvTest => e.pending = [] ∧ e.holder ≠ .marker
  | .recvProgress => e.pending = [] ∧ e.holder ≠ .marker
  | .crashed => False

theorem settled_start : (start : Endpoint M).Settled := ⟨rfl, rfl⟩

variable {e e' : Endpoint M} {a : Act M}

/-- Only the current send can complete, in a progress call that waits for it; it leaves none
outstanding. -/
theorem Settled.complete {s : ℕ} (h : e.Settled) (h_pc : e.pc.inProgress)
    (h_pending : s ∈ e.pending) :
    e.Awaiting ∧ e.pending.erase s = [] := by
  -- only the two progress calls of a send can have one outstanding
  have h_single : e.pending = [e.send] → e.pending.erase s = [] := by
    intro h_eq
    rw [h_eq] at h_pending ⊢
    rw [List.mem_singleton.mp h_pending, List.erase_cons_head]
  have h_ne : e.pending ≠ [] := List.ne_nil_of_mem h_pending
  unfold Settled at h
  cases h_e : e.pc with
  | postProgress status =>
    rw [h_e] at h
    cases status with
    | inprogress =>
      refine ⟨Or.inl h_e, h_single ?_⟩
      rcases h with h_nil | ⟨h_send, -⟩
      · exact absurd h_nil h_ne
      · exact h_send
    | _ => exact absurd h.1 h_ne
  | waitProgress =>
    rw [h_e] at h
    refine ⟨Or.inr h_e, h_single ?_⟩
    rcases h with h_nil | ⟨h_send, -⟩
    · exact absurd h_nil h_ne
    · exact h_send
  | recvProgress =>
    rw [h_e] at h
    exact absurd h.1 h_ne
  | _ => rw [h_e] at h_pc; exact h_pc.elim

/-- A delivered message sets the holder. -/
theorem Settled.deliver (h : e.Settled) (h_pc : e.pc.inProgress) (m : M) :
    ({ e with holder := .desc m, delivered := true } : Endpoint M).Settled := by
  have h_fresh : ({ e with holder := .desc m, delivered := true } : Endpoint M).Fresh :=
    Or.inr ⟨rfl, m, rfl⟩
  unfold Settled at h ⊢
  cases h_e : e.pc with
  | postProgress status =>
    rw [h_e] at h
    cases status with
    | inprogress => exact h.imp id fun h_send => ⟨h_send.1, h_fresh⟩
    | _ => exact ⟨h.1, h_fresh⟩
  | waitProgress =>
    rw [h_e] at h
    exact h.imp id fun h_send => ⟨h_send.1, h_fresh⟩
  | recvProgress =>
    rw [h_e] at h
    exact ⟨h.1, by simp⟩
  | _ => rw [h_e] at h_pc; exact h_pc.elim

/-- The waiting loop is entered, or entered again, with the holder not set before the completion. -/
theorem Settled.waitTest (h : e.pending = [] ∨ (e.pending = [e.send] ∧ e.Fresh))
    (h_ok : e.delivered = true → e.send ∉ e.pending) :
    e.pending = [] ∨ (e.pending = [e.send] ∧ e.delivered = false ∧ e.holder = .null) := by
  rcases h with h_nil | ⟨h_send, h_null | ⟨h_delivered, -⟩⟩
  · exact Or.inl h_nil
  · exact Or.inr ⟨h_send, h_null⟩
  · exact absurd (h_send ▸ List.mem_singleton_self _) (h_ok h_delivered)

/-- **One step keeps the invariant**, if it does not end a progress call too early. -/
theorem Settled.step (h : e.Settled) (h_ok : e.Completes a) (hstep : e.Step a e') :
    e'.Settled := by
  have h_e := h
  unfold Settled at h_e
  cases hstep with
  | send h_pc =>
    rw [h_pc] at h_e
    exact ⟨h_e.1, Or.inl ⟨rfl, h_e.2⟩⟩
  | sendUnregistered h_pc =>
    rw [h_pc] at h_e
    exact h_e.1
  | amZcopy h_pc status =>
    rw [h_pc] at h_e
    cases status with
    | inprogress =>
      refine Or.inr ⟨?_, h_e.2⟩
      change (if UcsStatus.inprogress = .inprogress then e.send :: e.pending else e.pending) = _
      rw [if_pos rfl, h_e.1]
    | _ => exact ⟨h_e.1, h_e.2⟩
  | complete h_pc h_pending =>
    obtain ⟨h_await, h_nil⟩ := h.complete h_pc h_pending
    unfold Settled
    rcases h_await with h_pc | h_pc <;> rw [h_pc] <;> exact Or.inl h_nil
  | deliver h_pc m => exact h.deliver h_pc m
  | retry h_pc =>
    rw [h_pc] at h_e
    exact h_e
  | await h_pc =>
    rw [h_pc] at h_e
    exact Settled.waitTest h_e (h_ok rfl (Or.inl h_pc))
  | posted h_pc h_status =>
    rw [h_pc] at h_e
    rcases h_status with rfl | rfl <;> exact h_e.1
  | waited h_pc =>
    rw [h_pc] at h_e
    exact Settled.waitTest h_e (h_ok rfl (Or.inr h_pc))
  | received h_pc =>
    rw [h_pc] at h_e
    exact h_e
  | waitNull h_pc h_holder =>
    rw [h_pc] at h_e
    exact h_e.imp id fun h_send => ⟨h_send.1, Or.inl h_send.2⟩
  | waitSet h_pc h_holder =>
    rw [h_pc] at h_e
    -- the holder is set, so the completion has fired
    rcases h_e with h_nil | ⟨-, -, h_null⟩
    · exact h_nil
    · exact absurd h_null h_holder
  | recvNull h_pc h_holder =>
    rw [h_pc] at h_e
    exact h_e
  | finish h_pc =>
    rw [h_pc] at h_e
    exact ⟨h_e, rfl⟩
  | recv h_pc =>
    rw [h_pc] at h_e
    exact ⟨h_e.1, by rw [h_e.2]; simp⟩
  | take h_pc h_holder =>
    rw [h_pc] at h_e
    exact ⟨h_e.1, rfl⟩
  | takeMarker h_pc h_holder =>
    rw [h_pc] at h_e
    exact absurd h_holder h_e.2

theorem Settled.sound (h : e.Settled) (hstep : e.Step a e') : e.Sound a := by
  unfold Settled at h
  constructor
  · rintro rfl
    cases hstep with
    | finish h_pc =>
      rw [h_pc] at h
      have h_nil : e.pending = [] := h
      rw [h_nil]
      exact List.not_mem_nil
  · rintro rfl
    cases hstep with
    | takeMarker h_pc h_holder =>
      rw [h_pc] at h
      exact h.2 h_holder

/-- A progress call that ends too early makes the loop stop: the next two steps return success with
the send outstanding. -/
theorem Settled.returns_early (h : e.Settled) (hstep : e.Step a e') (h_bad : ¬ e.Completes a) :
    ∃ e₁ e₂, e'.Step .test e₁ ∧ e₁.Step (.finish .ok) e₂ ∧ ¬ e₁.Sound (.finish .ok) := by
  unfold Completes at h_bad
  push Not at h_bad
  obtain ⟨rfl, h_await, h_delivered, h_pending⟩ := h_bad
  -- the message is in the holder, so the loop finds it set
  have h_holder : e.holder ≠ .null := by
    unfold Settled at h
    have h_fresh : e.pending = [] ∨ (e.pending = [e.send] ∧ e.Fresh) := by
      rcases h_await with h_pc | h_pc <;> rw [h_pc] at h <;> exact h
    rcases h_fresh with h_nil | ⟨-, ⟨h_no, -⟩ | ⟨-, m, h_desc⟩⟩
    · rw [h_nil] at h_pending
      exact absurd h_pending List.not_mem_nil
    · exact absurd (h_no.symm.trans h_delivered) (by simp)
    · rw [h_desc]
      simp
  -- both ways on from here test the holder
  have h_then : e' = { e with pc := .waitTest } := by
    cases hstep with
    | await h_pc => rfl
    | waited h_pc => rfl
    | retry h_pc => rcases h_await with h' | h' <;> exact absurd (h_pc.symm.trans h') (by simp)
    | received h_pc => rcases h_await with h' | h' <;> exact absurd (h_pc.symm.trans h') (by simp)
    | posted h_pc h_status =>
      rcases h_await with h' | h'
      · obtain rfl := Pc.postProgress.inj (h_pc.symm.trans h')
        exact absurd h_status (by simp)
      · exact absurd (h_pc.symm.trans h') (by simp)
  subst h_then
  refine ⟨_, _, Step.waitSet rfl h_holder, Step.finish rfl, ?_⟩
  rintro ⟨h_done, -⟩
  exact h_done rfl h_pending

end Endpoint

/-- **Completion and receipt.** In every run whose steps all meet `Completes`, every step from the
state reached is sound: success is returned only for a send the transport is done with, and the
marker is not taken for a descriptor. A step that does not meet it leads to a success returned too
early. -/
theorem completion_not_confused (as : List (Act M)) (e : Endpoint M)
    (h_reach : ((endpoint M).restrict Endpoint.Completes).Reaches as e) (a : Act M)
    (e' : Endpoint M) (hstep : (endpoint M).step e a e') :
    e.Sound a ∧ (¬ e.Completes a → ∃ e₁ e₂, e'.Step .test e₁ ∧ e₁.Step (.finish .ok) e₂ ∧
      ¬ e₁.Sound (.finish .ok)) := by
  -- the invariant needs the condition on the steps up to here only
  have h_settled : e.Settled := by
    refine System.Reaches.invariant ?_ ?_ h_reach
    · rintro s rfl
      exact Endpoint.settled_start
    · intro s l t h_s hstep'
      exact h_s.step hstep'.1 hstep'.2
  exact ⟨h_settled.sound hstep, h_settled.returns_early hstep⟩

/-- A message is delivered in the progress call behind `uct_ep_am_zcopy`, in which the completion
fires too: the send returns success. Then another message is received. -/
theorem completion_not_confused_received :
    (∃ e e', ((endpoint ℕ).restrict Endpoint.Completes).Reaches
        [.send true, .amZcopy .inprogress, .deliver 3, .complete 1, .progressed, .test] e ∧
      e.Step (.finish .ok) e' ∧ e.Sound (.finish .ok)) ∧
    ∃ e e', ((endpoint ℕ).restrict Endpoint.Completes).Reaches
        [.send true, .amZcopy .inprogress, .deliver 3, .complete 1, .progressed, .test,
          .finish .ok, .recv, .test, .deliver 4, .progressed] e ∧
      e.Step (.take (.desc 4)) e' ∧ e.Sound (.take (.desc 4)) := by
  have h₀ : ((endpoint ℕ).restrict Endpoint.Completes).Reaches [] .start := System.Reaches.start rfl
  have h₁ := h₀.snoc ⟨fun h => absurd h (by simp), .send rfl⟩
  have h₂ := h₁.snoc ⟨fun h => absurd h (by simp), .amZcopy rfl .inprogress⟩
  have h₃ := h₂.snoc ⟨fun h => absurd h (by simp), .deliver (by trivial) 3⟩
  have h₄ := h₃.snoc ⟨fun h => absurd h (by simp), .complete (by trivial) List.mem_cons_self⟩
  -- the completion is no longer outstanding when the call ends
  have h₅ := h₄.snoc ⟨fun _ _ _ => List.not_mem_nil, .await rfl⟩
  have h₆ := h₅.snoc ⟨fun h => absurd h (by simp), .waitSet rfl (by simp)⟩
  have r₁ := h₆.snoc ⟨fun h => absurd h (by simp), .finish rfl⟩
  have r₂ := r₁.snoc ⟨fun h => absurd h (by simp), .recv rfl⟩
  have r₃ := r₂.snoc ⟨fun h => absurd h (by simp), .recvNull rfl rfl⟩
  have r₄ := r₃.snoc ⟨fun h => absurd h (by simp), .deliver (by trivial) 4⟩
  have r₅ := r₄.snoc ⟨fun _ h => h.elim nofun nofun, .received rfl⟩
  exact ⟨⟨_, _, h₆, .finish rfl, (completion_not_confused _ _ h₆ _ _ (.finish rfl)).1⟩,
    _, _, r₅, .take rfl rfl, (completion_not_confused _ _ r₅ _ _ (.take rfl rfl)).1⟩

/-- A message is delivered while a send is outstanding: the send returns success with its completion
outstanding, the completion fires in the next receive, and the receive follows the marker. -/
theorem completion_confused :
    (endpoint ℕ).Reaches [.send true, .amZcopy .inprogress, .deliver 0, .progressed, .test]
        ⟨.desc 0, .reset .ok, 1, [1], true⟩ ∧
      (endpoint ℕ).step ⟨.desc 0, .reset .ok, 1, [1], true⟩ (.finish .ok)
        ⟨.null, .idle, 1, [1], true⟩ ∧
      (endpoint ℕ).Run ⟨.null, .idle, 1, [1], true⟩
        [.recv, .test, .complete 1, .progressed, .take .marker] ⟨.marker, .crashed, 1, [], true⟩ ∧
      ¬ (⟨.desc 0, .reset .ok, 1, [1], true⟩ : Endpoint ℕ).Sound (.finish .ok) := by
  refine ⟨?_, .finish rfl, ?_, fun h => h.1 rfl List.mem_cons_self⟩
  · have h₀ : (endpoint ℕ).Reaches [] .start := System.Reaches.start rfl
    have h₁ := h₀.snoc (.send rfl)
    have h₂ := h₁.snoc (.amZcopy rfl .inprogress)
    have h₃ := h₂.snoc (.deliver (by trivial) 0)
    have h₄ := h₃.snoc (.await rfl)
    exact h₄.snoc (.waitSet rfl (by simp))
  · have r₀ : (endpoint ℕ).Run ⟨.null, .idle, 1, [1], true⟩ [] _ := System.Run.nil _
    have r₁ := r₀.snoc (.recv rfl)
    have r₂ := r₁.snoc (.recvNull rfl rfl)
    have r₃ := r₂.snoc (.complete (by trivial) List.mem_cons_self)
    have r₄ := r₃.snoc (.received rfl)
    exact r₄.snoc (.takeMarker rfl rfl)

end MoleculeOS
