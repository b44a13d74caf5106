import MoleculeOS.Completion

/-!
# The one-slot mailbox of the DSM channel

A received descriptor sits in `*_desc_holder` until `recv_msg` copies it out. A send writes the same
pointer: its completion callback stores the marker there and its end resets it. So a message that is
delivered while its receiver is still inside `do_am_zcopy` is lost, and with it the whole exchange.

`Quiet` is the condition that excludes this: receive callbacks fire only while their side is in
`recv_msg`. Under it no descriptor is overwritten or reset before it was taken, and the counts of
the two loops are tied together (`ChannelInv`): there is at most one message on its way or in a
holder, requests are handled and responses returned in order, each once (`mailbox_safe`).
-/

namespace MoleculeOS

open Transition

/-- The two sides and the transport, with every order of callbacks. -/
def channel : System Channel (Side × Act ℕ) where
  init c := c = .start
  step := Channel.Step

namespace Endpoint

variable {M : Type} {e e' : Endpoint M} {a : Act M}

/-- The descriptor in the holder. -/
def received (e : Endpoint M) : List M :=
  match e.holder with
  | .desc m => [m]
  | _ => []

/-- A receive callback fires only in the progress call of `recv_msg`. -/
def Quiet (e : Endpoint M) (a : Act M) : Prop := ∀ m, a = .deliver m → e.pc = .recvProgress

/-- A descriptor in the holder stays there until it is taken. -/
def Kept (e : Endpoint M) (a : Act M) (e' : Endpoint M) : Prop :=
  ∀ m, e.holder = .desc m → e'.holder = .desc m ∨ a = .take (.desc m)

/-- The current send is outstanding and nothing has set the holder, or its completion has. -/
def Waiting (e : Endpoint M) : Prop :=
  (e.pending = [e.send] ∧ e.holder = .null) ∨ (e.pending = [] ∧ e.holder = .marker)

/-- **The invariant of one side.** A descriptor is in the holder only inside `recv_msg`, and a send
is outstanding only while its loop waits. -/
def Calm (e : Endpoint M) : Prop :=
  match e.pc with
  | .idle | .post | .postProgress .ok | .postProgress .noResource | .postProgress .err =>
    e.pending = [] ∧ e.holder = .null
  | .postProgress .inprogress | .waitTest | .waitProgress => e.Waiting
  | .reset _ => e.pending = [] ∧ e.received = []
  | .recvTest | .recvProgress => e.pending = [] ∧ e.holder ≠ .marker
  | .crashed => False

theorem calm_start : (start : Endpoint M).Calm := ⟨rfl, rfl⟩

theorem Waiting.received (h : e.Waiting) : e.received = [] := by
  unfold Endpoint.received
  rcases h with ⟨-, h_holder⟩ | ⟨-, h_holder⟩ <;> rw [h_holder]

/-- Outside `recv_msg` no descriptor is in the holder. -/
theorem Calm.received (h : e.Calm) (h_test : e.pc ≠ .recvTest) (h_progress : e.pc ≠ .recvProgress) :
    e.received = [] := by
  unfold Calm at h
  cases h_pc : e.pc with
  | idle | post => rw [h_pc] at h; unfold Endpoint.received; rw [h.2]
  | postProgress status =>
    rw [h_pc] at h
    cases status with
    | inprogress => exact Waiting.received h
    | _ => unfold Endpoint.received; rw [h.2]
  | waitTest | waitProgress => rw [h_pc] at h; exact Waiting.received h
  | reset status => rw [h_pc] at h; exact h.2
  | recvTest => exact absurd h_pc h_test
  | recvProgress => exact absurd h_pc h_progress
  | crashed => rw [h_pc] at h; exact h.elim

/-- A completion fires only while its send waits. -/
theorem Calm.complete {s : ℕ} (h : e.Calm) (h_pc : e.pc.inProgress) (h_pending : s ∈ e.pending) :
    e.Awaiting ∧ e.pending.erase s = [] ∧ e.holder = .null := by
  -- of the progress calls, only the two of a send have one outstanding
  have h_waiting : e.Waiting → e.pending.erase s = [] ∧ e.holder = .null := by
    rintro (⟨h_send, h_null⟩ | ⟨h_nil, -⟩)
    · rw [h_send] at h_pending ⊢
      rw [List.mem_singleton.mp h_pending, List.erase_cons_head]
      exact ⟨rfl, h_null⟩
    · rw [h_nil] at h_pending
      exact absurd h_pending List.not_mem_nil
  have h_ne : e.pending ≠ [] := List.ne_nil_of_mem h_pending
  unfold Calm at h
  cases h_e : e.pc with
  | postProgress status =>
    rw [h_e] at h
    cases status with
    | inprogress => exact ⟨Or.inl h_e, h_waiting h⟩
    | _ => exact absurd h.1 h_ne
  | waitProgress =>
    rw [h_e] at h
    exact ⟨Or.inr h_e, h_waiting h⟩
  | recvProgress =>
    rw [h_e] at h
    exact absurd h.1 h_ne
  | _ => rw [h_e] at h_pc; exact h_pc.elim

/-- **One step of one side** keeps the invariant and the descriptor, if messages arrive only in
`recv_msg` and one at a time. -/
theorem Calm.step (h : e.Calm) (h_quiet : e.Quiet a)
    (h_room : ∀ m, a = .deliver m → e.received = []) (hstep : e.Step a e') :
    e'.Calm ∧ e.Kept a e' := by
  have h_e := h
  unfold Calm at h_e
  cases hstep with
  | send h_pc =>
    rw [h_pc] at h_e
    exact ⟨h_e, fun m h_m => Or.inl h_m⟩
  | sendUnregistered h_pc =>
    rw [h_pc] at h_e
    refine ⟨⟨h_e.1, ?_⟩, fun m h_m => Or.inl h_m⟩
    change Endpoint.received e = []
    exact h.received (by rw [h_pc]; simp) (by rw [h_pc]; simp)
  | amZcopy h_pc status =>
    rw [h_pc] at h_e
    refine ⟨?_, fun m h_m => Or.inl h_m⟩
    cases status with
    | inprogress =>
      refine Or.inl ⟨?_, h_e.2⟩
      change (if UcsStatus.inprogress = .inprogress then e.send :: e.pending else e.pending) = _
      rw [if_pos rfl, h_e.1]
    | _ => exact h_e
  | complete h_pc h_pending =>
    -- the marker overwrites no descriptor: the holder was free
    obtain ⟨h_await, h_nil, h_null⟩ := h.complete h_pc h_pending
    refine ⟨?_, fun m h_m => absurd (h_null.symm.trans h_m) (by simp)⟩
    unfold Calm
    rcases h_await with h_pc | h_pc <;> rw [h_pc] <;> exact Or.inr ⟨h_nil, rfl⟩
  | deliver h_pc m =>
    -- the holder is free, by `h_room`, and `recv_msg` is there to take the descriptor
    have h_recv := h_quiet m rfl
    have h_none := h_room m rfl
    rw [h_recv] at h_e
    refine ⟨?_, fun m' h_m => ?_⟩
    · unfold Calm
      rw [h_recv]
      exact ⟨h_e.1, by simp⟩
    · unfold Endpoint.received at h_none
      rw [h_m] at h_none
      exact absurd h_none (by simp)
  | retry h_pc =>
    rw [h_pc] at h_e
    exact ⟨h_e, fun m h_m => Or.inl h_m⟩
  | await h_pc =>
    rw [h_pc] at h_e
    exact ⟨h_e, fun m h_m => Or.inl h_m⟩
  | posted h_pc h_status =>
    rw [h_pc] at h_e
    refine ⟨?_, fun m h_m => Or.inl h_m⟩
    have h_none := h.received (by rw [h_pc]; simp) (by rw [h_pc]; simp)
    rcases h_status with rfl | rfl <;> exact ⟨h_e.1, h_none⟩
  | waited h_pc =>
    rw [h_pc] at h_e
    exact ⟨h_e, fun m h_m => Or.inl h_m⟩
  | received h_pc =>
    rw [h_pc] at h_e
    exact ⟨h_e, fun m h_m => Or.inl h_m⟩
  | waitNull h_pc h_holder =>
    rw [h_pc] at h_e
    exact ⟨h_e, fun m h_m => Or.inl h_m⟩
  | waitSet h_pc h_holder =>
    rw [h_pc] at h_e
    -- what ended the wait is the marker of this send
    have h_none := Waiting.received h_e
    rcases h_e with ⟨-, h_null⟩ | ⟨h_nil, -⟩
    · exact absurd h_null h_holder
    · exact ⟨⟨h_nil, h_none⟩, fun m h_m => Or.inl h_m⟩
  | recvNull h_pc h_holder =>
    rw [h_pc] at h_e
    exact ⟨h_e, fun m h_m => Or.inl h_m⟩
  | finish h_pc =>
    rw [h_pc] at h_e
    -- the reset wipes the holder, in which there is no descriptor
    refine ⟨⟨h_e.1, rfl⟩, fun m h_m => ?_⟩
    have h_none : e.received = [] := h_e.2
    unfold Endpoint.received at h_none
    rw [h_m] at h_none
    exact absurd h_none (by simp)
  | recv h_pc =>
    rw [h_pc] at h_e
    exact ⟨⟨h_e.1, by rw [h_e.2]; simp⟩, fun m h_m => Or.inl h_m⟩
  | take h_pc h_holder =>
    rw [h_pc] at h_e
    refine ⟨⟨h_e.1, rfl⟩, fun m h_m => Or.inr ?_⟩
    rw [h_holder] at h_m
    rw [h_m]
  | takeMarker h_pc h_holder =>
    rw [h_pc] at h_e
    exact absurd h_holder h_e.2

/-- Only a receive callback and `recv_msg` change which descriptor is in the holder. -/
theorem Calm.received_step (h : e.Calm) (hstep : e.Step a e') (h_deliver : ∀ m, a ≠ .deliver m)
    (h_take : ∀ m, a ≠ .take (.desc m)) : e'.received = e.received := by
  cases hstep with
  | complete h_pc h_pending =>
    obtain ⟨-, -, h_null⟩ := h.complete h_pc h_pending
    unfold Endpoint.received
    rw [h_null]
  | deliver h_pc m => exact absurd rfl (h_deliver m)
  | finish h_pc => exact (h.received (by rw [h_pc]; simp) (by rw [h_pc]; simp)).symm
  | take h_pc h_holder => exact absurd rfl (h_take _)
  | _ => rfl

end Endpoint

/-! ### Control points of a send -/

/-- Inside `do_am_zcopy`. -/
def Pc.sending : Pc → Bool
  | .post | .postProgress _ | .waitTest | .waitProgress | .reset _ => true
  | _ => false

/-- No message of the current call has been accepted yet. -/
def Pc.beforePost : Pc → Bool
  | .idle | .post | .postProgress .noResource | .postProgress .err | .reset .err => true
  | _ => false

/-- A message delivered inside a send is lost: the send does not take it, and ends with a reset. -/
theorem Endpoint.Step.lost {M : Type} {e e' : Endpoint M} {a : Act M} (hstep : e.Step a e')
    (h_pc : e.pc.sending = true) :
    (∀ h, a ≠ .take h) ∧
      (e'.pc.sending = true ∨ e'.holder = .null ∧ ∃ status, a = .finish status) := by
  -- every way out of a send goes through the reset
  cases hstep <;> simp_all [Pc.sending]

/-- Callbacks and the steps of the waiting loops neither enter a send nor go back before its
post. -/
theorem Endpoint.Step.silent {M : Type} {e e' : Endpoint M} {a : Act M} (hstep : e.Step a e')
    (h_act : (∃ s, a = .complete s) ∨ a = .progressed ∨ a = .test ∨ ∃ m, a = .deliver m) :
    (e'.pc.sending = true → e.pc.sending = true) ∧
      (e'.pc.beforePost = true → e.pc.beforePost = true) := by
  cases hstep with
  | posted h_pc h_status =>
    rw [h_pc]
    rcases h_status with rfl | rfl <;> exact ⟨fun _ => rfl, id⟩
  | complete | deliver => exact ⟨id, id⟩
  | _ => simp_all [Pc.sending, Pc.beforePost]

/-- What an action does at an endpoint. -/
theorem Endpoint.Step.shape {M : Type} {e e' : Endpoint M} {a : Act M} (hstep : e.Step a e') :
    match a with
    | .send _ => e.pc = .idle
    | .recv => e.pc = .idle ∧ e'.pc = .recvTest
    | .amZcopy status => e.pc = .post ∧ e'.pc = .postProgress status
    | .deliver m => e' = { e with holder := .desc m, delivered := true }
    | .finish _ => e'.pc = .idle
    | .take (.desc m) => e.holder = .desc m ∧ e' = { e with pc := .idle, holder := .null }
    | .take _ => e'.pc = .crashed
    | _ => True := by
  cases hstep with
  | send h_pc | sendUnregistered h_pc => exact h_pc
  | recv h_pc => exact ⟨h_pc, rfl⟩
  | amZcopy h_pc => exact ⟨h_pc, rfl⟩
  | deliver => rfl
  | finish => rfl
  | take h_pc h_holder => exact ⟨h_holder, rfl⟩
  | takeMarker => rfl
  | _ => trivial

/-! ### Numbers in order -/

/-- A prefix of the numbers counted from 0 is counted from 0. -/
theorem eq_range_of_append {n : ℕ} {xs ys : List ℕ} (h : List.range n = xs ++ ys) :
    xs = List.range xs.length ∧ xs.length + ys.length = n := by
  have h_len : n = xs.length + ys.length := by
    rw [← List.length_append, ← h, List.length_range]
  have h_take : (List.range n).take xs.length = xs := by rw [h, List.take_left]
  rw [List.take_range, Nat.min_eq_left (by omega)] at h_take
  exact ⟨h_take.symm, h_len.symm⟩

/-- What follows a prefix of the numbers counted from 0 is the length of the prefix. -/
theorem eq_length_of_append_cons {n m : ℕ} {xs ys : List ℕ}
    (h : List.range n = xs ++ m :: ys) : m = xs.length := by
  have h' : List.range n = (xs ++ [m]) ++ ys := by rw [h, List.append_assoc, List.singleton_append]
  have h_pre := (eq_range_of_append h').1
  rw [List.length_append, List.length_singleton, List.range_succ] at h_pre
  exact List.singleton_inj.mp (List.append_inj_right' h_pre rfl)

/-! ### One half of the channel -/

/-- What the invariant says of a side is about. -/
structure Half where
  endpoint : Endpoint ℕ
  /-- The messages on their way to the side. -/
  incoming : List ℕ
  /-- The messages that the side has taken out of its holder, in order. -/
  taken : List ℕ
  /-- The number of messages that were accepted for the side. -/
  sent : ℕ
  /-- The loop of the side is where it sends, not where it receives. -/
  sends : Bool
  /-- The side may post its next message. -/
  Due : Prop

/-- **The invariant of a half.** -/
structure Half.Inv (v : Half) : Prop where
  calm : v.endpoint.Calm
  /-- Every message accepted for the side was taken, or is in its holder, or is on its way. -/
  messages : List.range v.sent = v.taken ++ (v.endpoint.received ++ v.incoming)
  sending : v.endpoint.pc.sending = true → v.sends = true
  due : v.sends = true → v.endpoint.pc.beforePost = true → v.Due

namespace Half.Inv

variable {v : Half} {e : Endpoint ℕ} {m : ℕ}

theorem counts (h : v.Inv) :
    v.taken.length + (v.endpoint.received.length + v.incoming.length) = v.sent := by
  have h_messages := (eq_range_of_append h.messages).2
  rwa [List.length_append] at h_messages

/-- If at most one message is not taken yet, the holder is free when one arrives. -/
theorem room (h : v.Inv) (h_sent : v.sent ≤ v.taken.length + 1) (h_mem : m ∈ v.incoming) :
    v.endpoint.received = [] ∧ v.incoming = [m] := by
  have h_counts := h.counts
  have h_pos := List.length_pos_of_mem h_mem
  obtain ⟨x, h_x⟩ := List.length_eq_one_iff.mp (show v.incoming.length = 1 by omega)
  rw [h_x] at h_mem
  exact ⟨List.eq_nil_of_length_eq_zero (by omega), by rw [h_x, List.mem_singleton.mp h_mem]⟩

/-- Only the control of the side changes. -/
theorem control (h : v.Inv) (h_calm : e.Calm) (h_received : e.received = v.endpoint.received)
    (h_sending : e.pc.sending = true → v.sends = true)
    (h_before : v.sends = true → e.pc.beforePost = true → v.endpoint.pc.beforePost = true) :
    Half.Inv { v with endpoint := e } where
  calm := h_calm
  messages := by rw [h_received]; exact h.messages
  sending := h_sending
  due h_sends h_pc := h.due h_sends (h_before h_sends h_pc)

/-- The message of the side is accepted, so the next one is not due yet. -/
theorem accepted (h : v.Inv) {status : UcsStatus} (h_accepted : status.accepted = true)
    (h_pc : v.endpoint.pc = .post) (h_calm : e.Calm) (h_e : e.pc = .postProgress status)
    (h_received : e.received = v.endpoint.received) (D : Prop) :
    Half.Inv { v with endpoint := e, Due := D } where
  calm := h_calm
  messages := by rw [h_received]; exact h.messages
  sending _ := h.sending (by rw [h_pc]; rfl)
  due _ h_before := by
    change e.pc.beforePost = true at h_before
    rw [h_e] at h_before
    cases status <;> simp_all [Pc.beforePost, UcsStatus.accepted]

/-- A message for the side is accepted: it is the next one. -/
theorem sent (h : v.Inv) :
    Half.Inv { v with incoming := v.incoming ++ [v.sent], sent := v.sent + 1 } where
  calm := h.calm
  messages := by
    change List.range (v.sent + 1) = _
    rw [List.range_succ, h.messages, List.append_assoc, List.append_assoc]
  sending := h.sending
  due := h.due

/-- A message reaches the holder. -/
theorem arrive (h : v.Inv) (h_sent : v.sent ≤ v.taken.length + 1) (h_mem : m ∈ v.incoming)
    (h_calm : e.Calm) (h_e : e = { v.endpoint with holder := .desc m, delivered := true }) :
    Half.Inv { v with endpoint := e, incoming := v.incoming.erase m } where
  calm := h_calm
  messages := by
    obtain ⟨h_none, h_one⟩ := h.room h_sent h_mem
    have h_old := h.messages
    rw [h_none, h_one] at h_old
    change _ = v.taken ++ (e.received ++ v.incoming.erase m)
    rw [h_one, h_e, List.erase_cons_head]
    exact h_old
  sending h_pc := by subst h_e; exact h.sending h_pc
  due h_sends h_pc := by subst h_e; exact h.due h_sends h_pc

/-- A send is over, and the loop goes on to receive. -/
theorem finish (h : v.Inv) (h_calm : e.Calm) (h_pc : e.pc = .idle)
    (h_received : e.received = v.endpoint.received) (D : Prop) :
    Half.Inv { v with endpoint := e, sends := false, Due := D } where
  calm := h_calm
  messages := by rw [h_received]; exact h.messages
  sending h_sending := by
    change e.pc.sending = true at h_sending
    rw [h_pc] at h_sending
    exact absurd h_sending (by decide)
  due h_sends := absurd h_sends (by simp)

/-- The message in the holder is taken: it is the next one, and the loop goes on to send. -/
theorem take (h : v.Inv) (h_holder : v.endpoint.holder = .desc m) (h_calm : e.Calm)
    (h_e : e = { v.endpoint with pc := .idle, holder := .null }) {D : Prop} (h_due : D) :
    Half.Inv { v with endpoint := e, taken := v.taken ++ [m], sends := true, Due := D } where
  calm := h_calm
  messages := by
    have h_old := h.messages
    unfold Endpoint.received at h_old
    rw [h_holder] at h_old
    rw [h_e]
    change List.range v.sent = (v.taken ++ [m]) ++ ([] ++ v.incoming)
    rw [List.append_assoc]
    exact h_old
  sending _ := rfl
  due _ _ := h_due

end Half.Inv

/-! ### The invariant of the channel -/

namespace Channel

/-- The endpoint of a side. -/
def endpoint (c : Channel) : Side → Endpoint ℕ
  | .client => c.client
  | .server => c.server

/-- Receive callbacks fire only while their side is in `recv_msg`. -/
def Quiet (c : Channel) (l : Side × Act ℕ) : Prop := (c.endpoint l.1).Quiet l.2

/-- A descriptor stays in its holder until `recv_msg` of its side takes it. -/
def Kept (c : Channel) (l : Side × Act ℕ) (c' : Channel) : Prop :=
  ∀ s m, (c.endpoint s).holder = .desc m →
    (c'.endpoint s).holder = .desc m ∨ l = (s, .take (.desc m))

/-- The half of a side. A call is due when nothing is outstanding, a response when it is the one the
client waits for. -/
def half (c : Channel) : Side → Half
  | .client => ⟨c.client, c.toClient, c.returned, c.responded.length, !c.calling,
      c.issued = c.returned.length⟩
  | .server => ⟨c.server, c.toServer, c.handled, c.issued, c.serving.isSome,
      ∀ m, c.serving = some m →
        m = c.responded.length ∧ c.handled.length = c.responded.length + 1⟩

def setEndpoint (c : Channel) (e : Endpoint ℕ) : Side → Channel
  | .client => { c with client := e }
  | .server => { c with server := e }

/-- A send of the side was accepted. -/
def accept (c : Channel) : Side → Channel
  | .client => { c with toServer := c.toServer ++ [c.issued], issued := c.issued + 1 }
  | .server => { c with
      toClient := c.toClient ++ c.serving.toList
      responded := c.responded ++ c.serving.toList }

/-- A message for the side arrives. -/
def arrive (c : Channel) (m : ℕ) : Side → Channel
  | .client => { c with toClient := c.toClient.erase m }
  | .server => { c with toServer := c.toServer.erase m }

/-- A send of the side is over. -/
def finish (c : Channel) : Side → Channel
  | .client => { c with calling := true }
  | .server => { c with serving := none }

/-- A message is taken by the side. -/
def take (c : Channel) (m : ℕ) : Side → Channel
  | .client => { c with returned := c.returned ++ [m], calling := false }
  | .server => { c with handled := c.handled ++ [m], serving := some m }

/-- The loop of the side, and the transport. -/
def act (c : Channel) : Side → Act ℕ → Option Channel
  | .client => c.clientAct
  | .server => c.serverAct

variable {c c' : Channel} {s t : Side} {a : Act ℕ} {e : Endpoint ℕ} {m : ℕ}

/-- **What the loops do**, the same on both sides. -/
theorem act_cases (h : c.act s a = some c') :
    match a with
    | .send _ => (c.half s).sends = true ∧ c' = c
    | .recv => (c.half s).sends = false ∧ c' = c
    | .amZcopy status => c' = if status.accepted then c.accept s else c
    | .deliver m => m ∈ (c.half s).incoming ∧ c' = c.arrive m s
    | .finish _ => c' = c.finish s
    | .take (.desc m) => c' = c.take m s
    | _ => c' = c := by
  cases s with
  | client =>
    have h : c.clientAct a = some c' := h
    cases a with
    | send | recv | deliver =>
      simp only [clientAct] at h
      split at h <;> simp_all [half, arrive]
    | take holder => cases holder <;> exact (Option.some.inj h).symm
    | _ => exact (Option.some.inj h).symm
  | server =>
    have h : c.serverAct a = some c' := h
    cases a with
    | send | recv | deliver =>
      simp only [serverAct] at h
      split at h <;> simp_all [half, arrive]
    | take holder => cases holder <;> exact (Option.some.inj h).symm
    | _ => exact (Option.some.inj h).symm

/-- A step is one of an endpoint, with its loop and the transport. -/
theorem Step.eq_setEndpoint {l : Side × Act ℕ} (hstep : c.Step l c') :
    ∃ c₁ e, (c.endpoint l.1).Step l.2 e ∧ c.act l.1 l.2 = some c₁ ∧ c' = c₁.setEndpoint e l.1 := by
  cases hstep with
  | client h_step h_act => exact ⟨_, _, h_step, h_act, rfl⟩
  | server h_step h_act => exact ⟨_, _, h_step, h_act, rfl⟩

@[simp] theorem half_endpoint (c : Channel) (s : Side) : (c.half s).endpoint = c.endpoint s := by
  cases s <;> rfl

@[simp] theorem endpoint_setEndpoint (c : Channel) (e : Endpoint ℕ) (s : Side) :
    (c.setEndpoint e s).endpoint s = e := by cases s <;> rfl

theorem half_setEndpoint (c : Channel) (e : Endpoint ℕ) (s : Side) :
    (c.setEndpoint e s).half s = { c.half s with endpoint := e } := by cases s <;> rfl

/-! What a side does leaves the half of the other side alone, unless it is a message. -/

theorem half_setEndpoint_of_ne (h : t ≠ s) : (c.setEndpoint e s).half t = c.half t := by
  cases s <;> cases t <;> first | rfl | exact absurd rfl h

theorem half_arrive_of_ne (h : t ≠ s) : (c.arrive m s).half t = c.half t := by
  cases s <;> cases t <;> first | rfl | exact absurd rfl h

theorem half_finish_of_ne (h : t ≠ s) : (c.finish s).half t = c.half t := by
  cases s <;> cases t <;> first | rfl | exact absurd rfl h

theorem half_take_of_ne (h : t ≠ s) : (c.take m s).half t = c.half t := by
  cases s <;> cases t <;> first | rfl | exact absurd rfl h

/-- The loops and the transport leave the endpoints alone. -/
theorem endpoint_act (h : c.act s a = some c') (t : Side) : c'.endpoint t = c.endpoint t := by
  have h_cases := act_cases h
  cases a with
  | send | recv => rw [h_cases.2]
  | amZcopy status =>
    rw [h_cases]
    split
    · cases s <;> cases t <;> rfl
    · rfl
  | deliver m =>
    rw [h_cases.2]
    cases s <;> cases t <;> rfl
  | finish status =>
    rw [h_cases]
    cases s <;> cases t <;> rfl
  | take holder =>
    cases holder with
    | desc m =>
      obtain rfl : c' = c.take m s := h_cases
      cases s <;> cases t <;> rfl
    | _ => exact congrArg (endpoint · t) h_cases
  | _ => exact congrArg (endpoint · t) h_cases

end Channel

/-- **The invariant of the channel.** -/
structure ChannelInv (c : Channel) : Prop where
  half : ∀ s, (c.half s).Inv
  responded : c.responded = List.range c.responded.length
  responded_le : c.responded.length ≤ c.handled.length
  issued_le : c.issued ≤ c.returned.length + 1

namespace ChannelInv

theorem start : ChannelInv .start where
  half s := by
    cases s with
    | client => exact ⟨Endpoint.calm_start, rfl, fun _ => rfl, fun _ _ => rfl⟩
    | server => exact ⟨Endpoint.calm_start, rfl, nofun, nofun⟩
  responded := rfl
  responded_le := Nat.le_refl _
  issued_le := Nat.zero_le _

variable {c c' : Channel} {s : Side} {a : Act ℕ} {e : Endpoint ℕ} {m : ℕ}

/-- On each side, at most one message is not taken yet. -/
theorem sent_le (h : ChannelInv c) (s : Side) :
    (c.half s).sent ≤ (c.half s).taken.length + 1 := by
  have h_requests : c.handled.length + _ = c.issued := (h.half .server).counts
  have h_responses : c.returned.length + _ = c.responded.length := (h.half .client).counts
  have h_le := h.responded_le
  have h_issued := h.issued_le
  cases s with
  | client =>
    change c.responded.length ≤ c.returned.length + 1
    omega
  | server =>
    change c.issued ≤ c.handled.length + 1
    omega

/-! ### Steps of a side -/

/-- One half is as it should be, and the other has not changed. -/
theorem forall_half (h : ChannelInv c) (h_self : (c'.half s).Inv)
    (h_other : ∀ t, t ≠ s → c'.half t = c.half t) (t : Side) : (c'.half t).Inv := by
  by_cases h_t : t = s
  · exact h_t ▸ h_self
  · exact h_other t h_t ▸ h.half t

/-- A step that changes nothing but the control of a side. -/
theorem control (h : ChannelInv c)
    (h_self : ({ c.half s with endpoint := e } : Half).Inv) : ChannelInv (c.setEndpoint e s) where
  half := h.forall_half (c.half_setEndpoint e s ▸ h_self) fun _ h_t =>
    Channel.half_setEndpoint_of_ne h_t
  responded := by cases s <;> exact h.responded
  responded_le := by cases s <;> exact h.responded_le
  issued_le := by cases s <;> exact h.issued_le

/-- A message of a side is accepted: it is the next one for the other side. -/
theorem accept (h : ChannelInv c) {status : UcsStatus} (h_accepted : status.accepted = true)
    (h_pc : (c.endpoint s).pc = .post) (h_calm : e.Calm) (h_e : e.pc = .postProgress status)
    (h_received : e.received = (c.endpoint s).received) :
    ChannelInv ((c.accept s).setEndpoint e s) := by
  -- the side sends, and its message is due
  have h_half := h.half s
  rw [← c.half_endpoint s] at h_pc h_received
  have h_sends := h_half.sending (by rw [h_pc]; rfl)
  have h_due := h_half.due h_sends (by rw [h_pc]; rfl)
  have h_self := h_half.accepted h_accepted h_pc h_calm h_e h_received
  cases s with
  | client =>
    have h_due : c.issued = c.returned.length := h_due
    have h_halves : ∀ t, (((c.accept .client).setEndpoint e .client).half t).Inv := fun t =>
      match t with
      | .client => h_self _
      | .server => (h.half .server).sent
    refine ⟨h_halves, h.responded, h.responded_le, ?_⟩
    change c.issued + 1 ≤ c.returned.length + 1
    omega
  | server =>
    obtain ⟨x, h_serving⟩ := Option.isSome_iff_exists.mp h_sends
    obtain ⟨rfl, h_handled⟩ := h_due x h_serving
    have h_accept : c.accept .server = { c with
        toClient := c.toClient ++ [c.responded.length]
        responded := c.responded ++ [c.responded.length] } := by
      unfold Channel.accept
      rw [h_serving, Option.toList_some]
    have h_length : (c.responded ++ [c.responded.length]).length = c.responded.length + 1 := by
      rw [List.length_append, List.length_singleton]
    have h_client : ((c.accept .server).setEndpoint e .server).half .client =
        { c.half .client with
          incoming := c.toClient ++ [c.responded.length], sent := c.responded.length + 1 } := by
      rw [h_accept, ← h_length]
      rfl
    have h_halves : ∀ t, (((c.accept .server).setEndpoint e .server).half t).Inv := fun t =>
      match t with
      | .client => h_client ▸ (h.half .client).sent
      | .server => h_accept ▸ h_self _
    refine ⟨h_halves, ?_, ?_, ?_⟩
    · rw [h_accept]
      change c.responded ++ [c.responded.length] =
        List.range (c.responded ++ [c.responded.length]).length
      rw [h_length, List.range_succ, ← h.responded]
    · rw [h_accept]
      change (c.responded ++ [c.responded.length]).length ≤ c.handled.length
      omega
    · rw [h_accept]
      exact h.issued_le

/-- A message reaches the holder of a side. -/
theorem arrive (h : ChannelInv c) (h_mem : m ∈ (c.half s).incoming) (h_calm : e.Calm)
    (h_e : e = { c.endpoint s with holder := .desc m, delivered := true }) :
    ChannelInv ((c.arrive m s).setEndpoint e s) := by
  rw [← c.half_endpoint s] at h_e
  have h_self := (h.half s).arrive (h.sent_le s) h_mem h_calm h_e
  refine ⟨h.forall_half (s := s) ?_ fun _ h_t =>
    (Channel.half_setEndpoint_of_ne h_t).trans (Channel.half_arrive_of_ne h_t), ?_, ?_, ?_⟩
  · cases s <;> exact h_self
  · cases s <;> exact h.responded
  · cases s <;> exact h.responded_le
  · cases s <;> exact h.issued_le

/-- A send of a side is over. -/
theorem finish (h : ChannelInv c) (h_calm : e.Calm) (h_pc : e.pc = .idle)
    (h_received : e.received = (c.endpoint s).received) :
    ChannelInv ((c.finish s).setEndpoint e s) := by
  rw [← c.half_endpoint s] at h_received
  have h_self := (h.half s).finish h_calm h_pc h_received
  refine ⟨h.forall_half (s := s) ?_ fun _ h_t =>
    (Channel.half_setEndpoint_of_ne h_t).trans (Channel.half_finish_of_ne h_t), ?_, ?_, ?_⟩
  · cases s <;> exact h_self _
  · cases s <;> exact h.responded
  · cases s <;> exact h.responded_le
  · cases s <;> exact h.issued_le

/-- A side takes the message in its holder. -/
theorem take (h : ChannelInv c) (h_holder : (c.endpoint s).holder = .desc m) (h_calm : e.Calm)
    (h_e : e = { c.endpoint s with pc := .idle, holder := .null }) :
    ChannelInv ((c.take m s).setEndpoint e s) := by
  rw [← c.half_endpoint s] at h_holder h_e
  have h_self := fun D => (h.half s).take h_holder h_calm h_e (D := D)
  have h_other : ∀ t, t ≠ s → ((c.take m s).setEndpoint e s).half t = c.half t :=
    fun t h_t => (Channel.half_setEndpoint_of_ne h_t).trans (Channel.half_take_of_ne h_t)
  have h_received : (c.half s).endpoint.received = [m] := by
    unfold Endpoint.received
    rw [h_holder]
  have h_requests : c.handled.length + _ = c.issued := (h.half .server).counts
  have h_responses : c.returned.length + _ = c.responded.length := (h.half .client).counts
  have h_le := h.responded_le
  have h_issued := h.issued_le
  have h_messages := (h.half s).messages
  have h_counts := (h.half s).counts
  rw [h_received] at h_messages h_counts
  rw [List.length_singleton] at h_counts
  cases s with
  | client =>
    have h_counts : c.returned.length + (1 + _) = c.responded.length := h_counts
    -- the response taken was the last thing outstanding
    have h_due : c.issued = (c.returned ++ [m]).length := by
      rw [List.length_append, List.length_singleton]
      omega
    refine ⟨h.forall_half (s := .client) (h_self _ h_due) h_other, h.responded,
      h.responded_le, ?_⟩
    change c.issued ≤ (c.returned ++ [m]).length + 1
    rw [List.length_append]
    omega
  | server =>
    have h_counts : c.handled.length + (1 + _) = c.issued := h_counts
    -- what follows the handled requests is the next number
    have h_m : m = c.handled.length := eq_length_of_append_cons h_messages
    have h_due : ∀ x, some m = some x →
        x = c.responded.length ∧ (c.handled ++ [m]).length = c.responded.length + 1 := by
      rintro x ⟨⟩
      rw [List.length_append, List.length_singleton]
      omega
    refine ⟨h.forall_half (s := .server) (h_self _ h_due) h_other, h.responded, ?_, h.issued_le⟩
    change c.responded.length ≤ (c.handled ++ [m]).length
    rw [List.length_append]
    omega

/-- **A step of a side** keeps the invariant and the descriptor of the side. -/
theorem side_step (h : ChannelInv c) (h_quiet : (c.endpoint s).Quiet a)
    (hstep : (c.endpoint s).Step a e) (h_act : c.act s a = some c') :
    ChannelInv (c'.setEndpoint e s) ∧ (c.endpoint s).Kept a e := by
  have h_half := h.half s
  have h_old := h_half.calm
  rw [c.half_endpoint] at h_old
  have h_cases := Channel.act_cases h_act
  have h_room : ∀ m, a = .deliver m → (c.endpoint s).received = [] := by
    rintro m rfl
    rw [← c.half_endpoint]
    exact (h_half.room (h.sent_le s) h_cases.1).1
  obtain ⟨h_calm, h_kept⟩ := h_old.step h_quiet h_room hstep
  refine ⟨?_, h_kept⟩
  -- only the control of the side changes, and a message is not posted again
  have h_control : (∀ m, a ≠ .deliver m) → (∀ m, a ≠ .take (.desc m)) →
      (e.pc.sending = true → (c.half s).sends = true) →
      ((c.half s).sends = true → e.pc.beforePost = true →
        (c.endpoint s).pc.beforePost = true) → ChannelInv (c.setEndpoint e s) := by
    intro h_deliver h_take h_sending h_before
    have h_received := h_old.received_step hstep h_deliver h_take
    rw [← c.half_endpoint] at h_received h_before
    exact h.control (h_half.control h_calm h_received h_sending h_before)
  have h_sends : (c.endpoint s).pc.sending = true → (c.half s).sends = true := by
    rw [← c.half_endpoint]
    exact h_half.sending
  -- an action changes either the control of the side or one of the counts
  have h_shape := hstep.shape
  cases a with
  | send registered =>
    obtain ⟨h_may, rfl⟩ := h_cases
    have h_pc : (c'.endpoint s).pc = .idle := h_shape
    exact h_control (by simp) (by simp) (fun _ => h_may) fun _ _ => by rw [h_pc]; rfl
  | recv =>
    obtain ⟨h_may, rfl⟩ := h_cases
    obtain ⟨-, h_e⟩ := h_shape
    refine h_control (by simp) (by simp) ?_ ?_ <;> rw [h_e] <;> simp [Pc.sending, Pc.beforePost]
  | amZcopy status =>
    have h_received := h_old.received_step hstep (by simp) (by simp)
    obtain rfl : c' = if status.accepted then c.accept s else c := h_cases
    obtain ⟨h_pc, h_e⟩ := h_shape
    by_cases h_accepted : status.accepted = true
    · rw [if_pos h_accepted]
      exact h.accept h_accepted h_pc h_calm h_e h_received
    · rw [if_neg h_accepted]
      exact h_control (by simp) (by simp) (fun _ => h_sends (by rw [h_pc]; rfl))
        fun _ _ => by rw [h_pc]; rfl
  | deliver m =>
    obtain ⟨h_mem, rfl⟩ := h_cases
    exact h.arrive h_mem h_calm h_shape
  | finish status =>
    have h_received := h_old.received_step hstep (by simp) (by simp)
    obtain rfl : c' = c.finish s := h_cases
    exact h.finish h_calm h_shape h_received
  | take holder =>
    cases holder with
    | desc m =>
      obtain rfl : c' = c.take m s := h_cases
      exact h.take h_shape.1 h_calm h_shape.2
    | _ =>
      have h_crashed : e.pc = .crashed := h_shape
      unfold Endpoint.Calm at h_calm
      rw [h_crashed] at h_calm
      exact h_calm.elim
  | complete | progressed | test =>
    obtain ⟨h_sending, h_before⟩ := hstep.silent (by simp)
    obtain rfl : c' = c := h_cases
    exact h_control (by simp) (by simp) (fun h' => h_sends (h_sending h')) fun _ => h_before

end ChannelInv

/-- What a step of the channel is for the endpoint of a side. -/
theorem Channel.Step.endpoint {c c' : Channel} {l : Side × Act ℕ} (hstep : c.Step l c')
    (s : Side) :
    (l.1 = s ∧ (c.endpoint s).Step l.2 (c'.endpoint s)) ∨
      (l.1 ≠ s ∧ c'.endpoint s = c.endpoint s) := by
  obtain ⟨c₁, e, h_step, h_act, rfl⟩ := hstep.eq_setEndpoint
  by_cases h_s : l.1 = s
  · subst h_s
    rw [Channel.endpoint_setEndpoint]
    exact Or.inl ⟨rfl, h_step⟩
  · have h_half : (c₁.setEndpoint e l.1).half s = c₁.half s :=
      Channel.half_setEndpoint_of_ne (Ne.symm h_s)
    have h_same := congrArg Half.endpoint h_half
    rw [Channel.half_endpoint, Channel.half_endpoint, Channel.endpoint_act h_act] at h_same
    exact Or.inr ⟨h_s, h_same⟩

/-- **One step of the channel.** -/
theorem ChannelInv.step {c c' : Channel} {l : Side × Act ℕ} (h : ChannelInv c) (h_quiet : c.Quiet l)
    (hstep : c.Step l c') : ChannelInv c' ∧ c.Kept l c' := by
  have h_endpoint := hstep.endpoint
  obtain ⟨c₁, e, h_step, h_act, rfl⟩ := hstep.eq_setEndpoint
  obtain ⟨h_inv, h_kept⟩ := h.side_step h_quiet h_step h_act
  refine ⟨h_inv, fun s m h_m => ?_⟩
  rcases h_endpoint s with ⟨rfl, -⟩ | ⟨-, h_same⟩
  · rw [Channel.endpoint_setEndpoint]
    exact (h_kept m h_m).imp id (congrArg (Prod.mk l.1))
  · -- the other side's holder is not touched
    exact Or.inl (h_same ▸ h_m)

/-- A side inside a send takes nothing before the send has reset the holder. -/
theorem Channel.not_taken {c c' : Channel} {ls : List (Side × Act ℕ)} {s : Side}
    (h_pc : (c.endpoint s).pc.sending = true) (h_run : channel.Run c ls c')
    (h_finish : ∀ status, (s, .finish status) ∉ ls) :
    (c'.endpoint s).pc.sending = true ∧ ∀ h, (s, .take h) ∉ ls := by
  -- the side stays inside the send, where no step takes anything
  induction h_run with
  | nil => exact ⟨h_pc, fun h => List.not_mem_nil⟩
  | @snoc t u ls l h_run hstep ih =>
    obtain ⟨ih_pc, ih_take⟩ := ih fun status h => h_finish status (List.mem_append_left _ h)
    rcases Channel.Step.endpoint hstep s with ⟨h_s, h_step⟩ | ⟨h_s, h_same⟩
    · obtain ⟨h_take, h_after⟩ := h_step.lost ih_pc
      refine ⟨h_after.resolve_right ?_, fun h h_mem => ?_⟩
      · rintro ⟨-, status, h_l⟩
        refine h_finish status (List.mem_append_right _ ?_)
        rw [List.mem_singleton, ← h_s, ← h_l]
      · rcases List.mem_append.mp h_mem with h_mem | h_mem
        · exact ih_take h h_mem
        · exact h_take h (congrArg Prod.snd (List.mem_singleton.mp h_mem)).symm
    · rw [h_same]
      refine ⟨ih_pc, fun h h_mem => ?_⟩
      rcases List.mem_append.mp h_mem with h_mem | h_mem
      · exact ih_take h h_mem
      · exact h_s (congrArg Prod.fst (List.mem_singleton.mp h_mem)).symm

/-- A message delivered outside `recv_msg` is delivered inside a send. -/
theorem Channel.Step.sending_of_not_quiet {c c' : Channel} {l : Side × Act ℕ}
    (hstep : c.Step l c') (h_quiet : ¬ c.Quiet l) : (c'.endpoint l.1).pc.sending = true := by
  obtain ⟨m, h_quiet⟩ := not_forall.mp h_quiet
  obtain ⟨h_a, h_pc⟩ := Classical.not_imp.mp h_quiet
  -- progress is called in `recv_msg` and inside a send
  obtain ⟨-, h_step⟩ := (Channel.Step.endpoint hstep l.1).resolve_right fun h => h.1 rfl
  rw [h_a] at h_step
  generalize c.endpoint l.1 = e at h_step h_pc
  generalize c'.endpoint l.1 = e' at h_step
  cases h_step with
  | deliver h_progress =>
    change e.pc.sending = true
    cases h_e : e.pc <;> simp_all [Pc.inProgress, Pc.sending]

/-! ### The mailbox -/

/-- Nothing is lost: calls and responses match in order, and what has not been copied out is in its
holder or on its way. -/
structure Channel.Safe (c : Channel) : Prop where
  /-- Requests are handled in order, each at most once. -/
  handled : c.handled = List.range c.handled.length
  responded : c.responded = List.range c.responded.length
  /-- The k-th call that returned has the k-th response. -/
  returned : c.returned = List.range c.returned.length
  requests : ∀ k < c.issued, k ∈ c.handled ∨ c.server.holder = .desc k ∨ k ∈ c.toServer
  responses : ∀ k ∈ c.responded, k ∈ c.returned ∨ c.client.holder = .desc k ∨ k ∈ c.toClient

theorem Endpoint.mem_received {M : Type} {e : Endpoint M} {m : M} (h : m ∈ e.received) :
    e.holder = .desc m := by
  unfold Endpoint.received at h
  cases h_e : e.holder with
  | desc m' =>
    rw [h_e] at h
    rw [List.mem_singleton.mp h]
  | null | marker =>
    rw [h_e] at h
    exact absurd h List.not_mem_nil

theorem ChannelInv.safe {c : Channel} (h : ChannelInv c) : c.Safe where
  handled := (eq_range_of_append (h.half .server).messages).1
  responded := h.responded
  returned := (eq_range_of_append (h.half .client).messages).1
  requests k h_k := by
    have h_mem : k ∈ List.range (c.half .server).sent := List.mem_range.mpr h_k
    rw [(h.half .server).messages, List.mem_append, List.mem_append] at h_mem
    exact h_mem.imp id (Or.imp Endpoint.mem_received id)
  responses k h_k := by
    have h_mem : k ∈ List.range (c.half .client).sent := h.responded ▸ h_k
    rw [(h.half .client).messages, List.mem_append, List.mem_append] at h_mem
    exact h_mem.imp id (Or.imp Endpoint.mem_received id)

/-- **The one-slot mailbox.** In every run whose receive callbacks fire inside `recv_msg` nothing is
lost, and the next such step takes no descriptor away but to `recv_msg`. A message delivered
anywhere else is not taken before the send it arrived in has reset the holder. -/
theorem mailbox_safe (ls : List (Side × Act ℕ)) (c : Channel)
    (h_reach : (channel.restrict Channel.Quiet).Reaches ls c) (l : Side × Act ℕ) (c' : Channel)
    (hstep : channel.step c l c') :
    c.Safe ∧ (c.Quiet l → c.Kept l c') ∧
      (¬ c.Quiet l → ∀ ls' c₁, channel.Run c' ls' c₁ →
        (∀ status, (l.1, .finish status) ∉ ls') → ∀ h, (l.1, .take h) ∉ ls') := by
  -- the invariant needs quiet steps up to here; the next step is any
  have h_inv : ChannelInv c := by
    refine System.Reaches.invariant ?_ ?_ h_reach
    · rintro s rfl
      exact ChannelInv.start
    · intro s l t h_s hstep'
      exact (h_s.step hstep'.1 hstep'.2).1
  refine ⟨h_inv.safe, fun h_quiet => (h_inv.step h_quiet hstep).2, ?_⟩
  intro h_quiet ls' c₁ h_run h_finish
  exact (Channel.not_taken (Channel.Step.sending_of_not_quiet hstep h_quiet) h_run h_finish).2

/-- A request on its way through the server's mailbox. -/
theorem mailbox_safe_request :
    ∃ ls c c', (channel.restrict Channel.Quiet).Reaches ls c ∧
      channel.step c (.server, .progressed) c' ∧ c.server.holder = .desc 0 ∧ c.Safe := by
  -- only receive callbacks have to be quiet
  have snoc : ∀ {ls c l c'}, (channel.restrict Channel.Quiet).Reaches ls c → channel.step c l c' →
      (∀ m, l.2 ≠ .deliver m) → (channel.restrict Channel.Quiet).Reaches (ls ++ [l]) c' :=
    fun h hstep h_l => h.snoc ⟨fun m h_m => absurd h_m (h_l m), hstep⟩
  have h₀ : (channel.restrict Channel.Quiet).Reaches [] .start := System.Reaches.start rfl
  have h₁ := snoc h₀ (.client (.send rfl) rfl) (by simp)
  have h₂ := snoc h₁ (.client (.amZcopy rfl .ok) rfl) (by simp)
  have h₃ := snoc h₂ (.server (.recv rfl) rfl) (by simp)
  have h₄ := snoc h₃ (.server (.recvNull rfl rfl) rfl) (by simp)
  have h₅ := h₄.snoc ⟨fun _ _ => rfl, .server (.deliver (by trivial) 0) rfl⟩
  exact ⟨_, _, _, h₅, .server (.received rfl) rfl, rfl,
    (mailbox_safe _ _ h₅ _ _ (.server (.received rfl) rfl)).1⟩

/-- The response arrives while the client still waits for the completion of its request: the send
takes the response for the completion and resets the holder, and nothing holds the response any
more. -/
theorem mailbox_lost :
    ∃ c, channel.Reaches
        [(.client, .send true), (.client, .amZcopy .inprogress), (.server, .recv), (.server, .test),
          (.server, .deliver 0), (.server, .progressed), (.server, .take (.desc 0)),
          (.server, .send true), (.server, .amZcopy .ok), (.client, .deliver 0),
          (.client, .progressed), (.client, .test), (.client, .finish .ok)] c ∧
      c.responded = [0] ∧ c.returned = [] ∧ c.client.holder = .null ∧ c.toClient = [] ∧
      ¬ c.Safe := by
  have h₀ : channel.Reaches [] .start := System.Reaches.start rfl
  have h₁ := h₀.snoc (.client (.send rfl) rfl)
  have h₂ := h₁.snoc (.client (.amZcopy rfl .inprogress) rfl)
  have h₃ := h₂.snoc (.server (.recv rfl) rfl)
  have h₄ := h₃.snoc (.server (.recvNull rfl rfl) rfl)
  have h₅ := h₄.snoc (.server (.deliver (by trivial) 0) rfl)
  have h₆ := h₅.snoc (.server (.received rfl) rfl)
  have h₇ := h₆.snoc (.server (.take rfl rfl) rfl)
  have h₈ := h₇.snoc (.server (.send rfl) rfl)
  have h₉ := h₈.snoc (.server (.amZcopy rfl .ok) rfl)
  have h₁₀ := h₉.snoc (.client (.deliver (by trivial) 0) rfl)
  have h₁₁ := h₁₀.snoc (.client (.await rfl) rfl)
  have h₁₂ := h₁₁.snoc (.client (.waitSet rfl (by simp)) rfl)
  have h₁₃ := h₁₂.snoc (.client (.finish rfl) rfl)
  refine ⟨_, h₁₃, rfl, rfl, rfl, rfl, fun h_safe => ?_⟩
  -- response 0 would have to be returned, in the holder or on its way
  rcases h_safe.responses 0 List.mem_cons_self with h | h | h
  · exact absurd h List.not_mem_nil
  · exact absurd h (by decide)
  · exact absurd h List.not_mem_nil

end MoleculeOS
