import MoleculeOS.Library.Confluence

/-!
# Scripts over streams

Parties that send to each other over streams and wait for what they receive. What a party does is a
script: it sends, or it waits for the next item of a stream and goes on as that item says. A stream
has room for so many items, and a party that sends waits until there is room. It has one sender and
one receiver, so the schedule of the parties does not matter (`network_commutes`). What a script
does is said by rules for its pieces: `leads_sendAll` and `leads_recvN` for blocks of items,
`Takes.bind` for what is received piece by piece, `leads_transfer` for one party that sends to
another, and `leads_exchange` for two that send to each other. With what it may end does not depend
on the other parties (`Script.Ends`).
-/

namespace Streams

open Transition System

/-- What a party does until it is done. -/
inductive Script (ι ν α ρ : Type)
  | done (result : ρ)
  | send (dst : ι) (port : ν) (x : α) (rest : Script ι ν α ρ)
  | recv (src : ι) (port : ν) (rest : α → Script ι ν α ρ)

namespace Script

variable {ι ν α ρ σ τ : Type}

/-- One script after another. -/
def bind : Script ι ν α ρ → (ρ → Script ι ν α σ) → Script ι ν α σ
  | .done result, k => k result
  | .send dst port x rest, k => .send dst port x (rest.bind k)
  | .recv src port rest, k => .recv src port fun x => (rest x).bind k

instance : Monad (Script ι ν α) where
  pure := .done
  bind := bind

theorem bind_pure (p : Script ι ν α ρ) : (p >>= pure) = p := by
  induction p with
  | done result => rfl
  | send dst port x rest ih => exact congrArg (Script.send dst port x) ih
  | recv src port rest ih => exact congrArg (Script.recv src port) (funext ih)

theorem bind_bind (p : Script ι ν α ρ) (k : ρ → Script ι ν α σ) (k' : σ → Script ι ν α τ) :
    (p >>= k >>= k') = p >>= fun r => k r >>= k' := by
  induction p with
  | done result => rfl
  | send dst port x rest ih => exact congrArg (Script.send dst port x) ih
  | recv src port rest ih => exact congrArg (Script.recv src port) (funext ih)

/-- Send the items one after the other. -/
def sendAll (dst : ι) (port : ν) : List α → Script ι ν α Unit
  | [] => pure ()
  | x :: xs => .send dst port x (sendAll dst port xs)

/-- Wait for `n` items. -/
def recvN (src : ι) (port : ν) : ℕ → Script ι ν α (List α)
  | 0 => pure []
  | n + 1 => .recv src port fun x => recvN src port n >>= fun xs => pure (x :: xs)

end Script

/-! ### The network -/

/-- The parties, and what is on its way: from whom, to whom, on which port. -/
structure Network (ι ν α ρ : Type) where
  proc : ι → Script ι ν α ρ
  chan : ι × ι × ν → List α

variable {ι ν α ρ σ : Type} [DecidableEq ι] [DecidableEq ν]

/-- The network when a party has gone on and a stream has changed. -/
def Network.set (s : Network ι ν α ρ) (i : ι) (p : Script ι ν α ρ) (c : ι × ι × ν) (q : List α) :
    Network ι ν α ρ := ⟨Function.update s.proc i p, Function.update s.chan c q⟩

omit [DecidableEq ι] [DecidableEq ν] in
/-- What a party does next: where it goes on, and which stream changes to what. -/
inductive Fires (room : ℕ) (s : Network ι ν α ρ) (i : ι) :
    Script ι ν α ρ → ι × ι × ν → List α → Prop
  | send {dst : ι} {port : ν} {x : α} {rest : Script ι ν α ρ}
      (h_proc : s.proc i = .send dst port x rest)
      (h_room : (s.chan (i, dst, port)).length < room) :
      Fires room s i rest (i, dst, port) (s.chan (i, dst, port) ++ [x])
  | recv {src : ι} {port : ν} {x : α} {xs : List α} {rest : α → Script ι ν α ρ}
      (h_proc : s.proc i = .recv src port rest) (h_chan : s.chan (src, i, port) = x :: xs) :
      Fires room s i (rest x) (src, i, port) xs

/-- The network, from the given scripts and with nothing on its way. -/
def network (room : ℕ) (scripts : ι → Script ι ν α ρ) : System (Network ι ν α ρ) ι where
  init s := s = ⟨scripts, fun _ => []⟩
  step s i t := ∃ p c q, Fires room s i p c q ∧ t = s.set i p c q

section Commutes

variable {room : ℕ} {s s' : Network ι ν α ρ} {i j : ι} {p p' : Script ι ν α ρ} {c c' : ι × ι × ν}
  {q q' : List α}

omit [DecidableEq ι] [DecidableEq ν] in
/-- A party looks at its script and at one stream. -/
theorem Fires.frame (h : Fires room s i p c q) (h_proc : s'.proc i = s.proc i)
    (h_chan : s'.chan c = s.chan c) : Fires room s' i p c q := by
  cases h with
  | send h_send h_room =>
    rw [← h_chan] at h_room ⊢
    exact .send (h_proc.trans h_send) h_room
  | recv h_recv h_items => exact .recv (h_proc.trans h_recv) (h_chan.trans h_items)

omit [DecidableEq ι] [DecidableEq ν] in
theorem Fires.deterministic (h : Fires room s i p c q) (h' : Fires room s i p' c' q') :
    p = p' ∧ c = c' ∧ q = q' := by
  cases h with
  | send h_proc =>
    cases h' with
    | send h_proc' =>
      obtain ⟨rfl, rfl, rfl, rfl⟩ := Script.send.inj (h_proc.symm.trans h_proc')
      exact ⟨rfl, rfl, rfl⟩
    | recv h_proc' => cases h_proc.symm.trans h_proc'
  | recv h_proc h_chan =>
    cases h' with
    | send h_proc' => cases h_proc.symm.trans h_proc'
    | recv h_proc' h_chan' =>
      obtain ⟨rfl, rfl, rfl⟩ := Script.recv.inj (h_proc.symm.trans h_proc')
      obtain ⟨rfl, rfl⟩ := List.cons.inj (h_chan.symm.trans h_chan')
      exact ⟨rfl, rfl, rfl⟩

omit [DecidableEq ι] [DecidableEq ν] in
/-- Two parties on one stream: one sends what the other has not come to yet. -/
theorem Fires.same (h : Fires room s i p c q) (h' : Fires room s j p' c q') (h_ij : i ≠ j) :
    ∃ r, (∀ {s' : Network ι ν α ρ}, s'.proc j = s.proc j → s'.chan c = q → Fires room s' j p' c r) ∧
      ∀ {s' : Network ι ν α ρ}, s'.proc i = s.proc i → s'.chan c = q' → Fires room s' i p c r := by
  -- where there was room, there is more when an item has been taken
  have h_less : ∀ {x : α} {xs : List α}, (x :: xs).length < room → xs.length < room :=
    fun h => Nat.lt_of_succ_lt h
  cases h with
  | @send dst port x rest h_proc h_room =>
    cases h' with
    | send => exact absurd rfl h_ij
    | recv h_proc' h_chan =>
      refine ⟨q' ++ [x], fun h_j h_c => ?_, fun h_i h_c => ?_⟩
      · refine .recv (h_j.trans h_proc') (h_c.trans ?_)
        rw [h_chan]
        rfl
      · rw [← h_c]
        refine .send (h_i.trans h_proc) ?_
        rw [h_chan] at h_room
        rw [h_c]
        exact h_less h_room
  | recv h_proc h_chan =>
    cases h' with
    | @send _ _ x _ h_proc' h_room =>
      refine ⟨q ++ [x], fun h_j h_c => ?_, fun h_i h_c => ?_⟩
      · rw [← h_c]
        refine .send (h_j.trans h_proc') ?_
        rw [h_chan] at h_room
        rw [h_c]
        exact h_less h_room
      · refine .recv (h_i.trans h_proc) (h_c.trans ?_)
        rw [h_chan]
        rfl
    | recv => exact absurd rfl h_ij

theorem Network.set_comm (h_ij : i ≠ j) (h_c : c ≠ c') :
    (s.set i p c q).set j p' c' q' = (s.set j p' c' q').set i p c q := by
  unfold Network.set
  rw [Function.update_comm h_ij, Function.update_comm h_c]

theorem Network.set_comm_self (h_ij : i ≠ j) (r : List α) :
    (s.set i p c q).set j p' c r = (s.set j p' c q').set i p c r := by
  unfold Network.set
  rw [Function.update_comm h_ij, Function.update_idem, Function.update_idem]

/-- **The schedule does not matter**: a stream has one sender and one receiver, and what is received
was there before anything that is sent later. -/
theorem network_commutes (scripts : ι → Script ι ν α ρ) : (network room scripts).Commutes where
  deterministic := by
    rintro s _ _ i ⟨p, c, q, h, rfl⟩ ⟨p', c', q', h', rfl⟩
    obtain ⟨rfl, rfl, rfl⟩ := h.deterministic h'
    rfl
  diamond := by
    rintro s _ _ i j h_ij ⟨p, c, q, h, rfl⟩ ⟨p', c', q', h', rfl⟩
    have h_i : ∀ {c q}, (s.set j p' c q).proc i = s.proc i := Function.update_of_ne h_ij _ _
    have h_j : ∀ {c q}, (s.set i p c q).proc j = s.proc j := Function.update_of_ne h_ij.symm _ _
    by_cases h_c : c = c'
    · subst h_c
      obtain ⟨r, h_first, h_second⟩ := h.same h' h_ij
      exact ⟨_, ⟨p', c, r, h_first h_j (Function.update_self _ _ _), rfl⟩,
        p, c, r, h_second h_i (Function.update_self _ _ _), Network.set_comm_self h_ij r⟩
    · exact ⟨_, ⟨p', c', q', h'.frame h_j (Function.update_of_ne (Ne.symm h_c) _ _), rfl⟩,
        p, c, q, h.frame h_i (Function.update_of_ne h_c _ _), Network.set_comm h_ij h_c⟩

end Commutes

/-! ### Rules for blocks -/

section Rules

variable {room : ℕ} {scripts : ι → Script ι ν α ρ} {s : Network ι ν α ρ} {i dst src : ι} {port : ν}
  {k : Unit → Script ι ν α ρ} {k' : List α → Script ι ν α ρ} {xs ys : List α}

theorem Network.set_set (p p' : Script ι ν α ρ) (c : ι × ι × ν) (q q' : List α) :
    (s.set i p c q).set i p' c q' = s.set i p' c q' := by
  unfold Network.set
  rw [Function.update_idem, Function.update_idem]

theorem Network.set_self {p : Script ι ν α ρ} {c : ι × ι × ν} {q : List α} (h_p : s.proc i = p)
    (h_q : s.chan c = q) : s.set i p c q = s := by
  unfold Network.set
  rw [← h_p, ← h_q, Function.update_eq_self, Function.update_eq_self]

theorem Network.chan_set (p : Script ι ν α ρ) (c : ι × ι × ν) (q : List α) :
    (s.set i p c q).chan c = q := Function.update_self _ _ _

/-- Sending a block puts it behind what is on its way, if there is room for it. -/
theorem leads_sendAll (h : s.proc i = (Script.sendAll dst port xs >>= k))
    (h_room : (s.chan (i, dst, port)).length + xs.length ≤ room) :
    (network room scripts).Leads s
      (s.set i (k ()) (i, dst, port) (s.chan (i, dst, port) ++ xs)) := by
  induction xs generalizing s with
  | nil =>
    rw [Network.set_self (p := k ()) h (List.append_nil _).symm]
    exact Leads.refl s
  | cons x xs ih =>
    rw [List.length_cons] at h_room
    have h_first : (network room scripts).step s i (s.set i (Script.sendAll dst port xs >>= k)
        (i, dst, port) (s.chan (i, dst, port) ++ [x])) :=
      ⟨_, _, _, .send h (by omega), rfl⟩
    have h_rest := ih (s := s.set i (Script.sendAll dst port xs >>= k) (i, dst, port)
      (s.chan (i, dst, port) ++ [x])) (Function.update_self _ _ _)
      (by rw [Network.chan_set, List.length_append, List.length_singleton]; omega)
    rw [Network.set_set, Network.chan_set, List.append_assoc] at h_rest
    exact Leads.head h_first h_rest

/-- A block that is there is received. -/
theorem leads_recvN (h : s.proc i = (Script.recvN src port xs.length >>= k'))
    (h_chan : s.chan (src, i, port) = xs ++ ys) :
    (network room scripts).Leads s (s.set i (k' xs) (src, i, port) ys) := by
  induction xs generalizing s k' with
  | nil =>
    rw [Network.set_self (p := k' []) (q := ys) h h_chan]
    exact Leads.refl s
  | cons x xs ih =>
    have h_first : (network room scripts).step s i (s.set i
        (Script.recvN src port xs.length >>= fun xs => k' (x :: xs)) (src, i, port) (xs ++ ys)) :=
      ⟨_, _, _, .recv (h.trans (congrArg (Script.recv src port) (funext fun y =>
        Script.bind_bind _ _ _))) h_chan, rfl⟩
    have h_rest := ih (s := s.set i (Script.recvN src port xs.length >>= fun xs => k' (x :: xs))
      (src, i, port) (xs ++ ys)) (Function.update_self _ _ _) (Function.update_self _ _ _)
    rw [Network.set_set] at h_rest
    exact Leads.head h_first h_rest

end Rules

section Takes

variable {τ τ' : Type} {room : ℕ} {scripts : ι → Script ι ν α ρ} {s : Network ι ν α ρ} {i j src : ι}
  {port : ν} {xs ys : List α}

/-- The script takes `xs` from its stream, and then has this result. -/
def Takes (room : ℕ) (scripts : ι → Script ι ν α ρ) (r : Script ι ν α τ) (src : ι) (port : ν)
    (xs : List α) (result : τ) : Prop :=
  ∀ (s : Network ι ν α ρ) (i : ι) (k : τ → Script ι ν α ρ) (rest : List α), s.proc i = (r >>= k) →
    s.chan (src, i, port) = xs ++ rest →
    (network room scripts).Leads s (s.set i (k result) (src, i, port) rest)

theorem takes_recvN {n : ℕ} (h : xs.length = n) :
    Takes room scripts (Script.recvN src port n) src port xs xs := by
  subst h
  exact fun _ _ _ _ h_proc h_chan => leads_recvN h_proc h_chan

theorem Takes.bind {r : Script ι ν α τ} {f : τ → Script ι ν α τ'} {a : τ} {b : τ'}
    (h : Takes room scripts r src port xs a) (h' : Takes room scripts (f a) src port ys b) :
    Takes room scripts (r >>= f) src port (xs ++ ys) b := by
  intro s i k rest h_proc h_chan
  have h_first := h s i (fun x => f x >>= k) (ys ++ rest) (h_proc.trans (Script.bind_bind r f k))
    (h_chan.trans (List.append_assoc xs ys rest))
  have h_rest := h' (s.set i (f a >>= k) (src, i, port) (ys ++ rest)) i k rest
    (Function.update_self _ _ _) (Network.chan_set _ _ _)
  rw [Network.set_set] at h_rest
  exact h_first.trans h_rest

theorem Takes.map {r : Script ι ν α τ} {a : τ} (h : Takes room scripts r src port xs a)
    (f : τ → τ') : Takes room scripts (r >>= fun x => pure (f x)) src port xs (f a) := by
  intro s i k rest h_proc h_chan
  exact h s i (fun x => k (f x)) rest (h_proc.trans (Script.bind_bind r _ k)) h_chan

/-- What one party sends, the other takes. -/
theorem leads_transfer {r : Script ι ν α τ} {a : τ} {k : Unit → Script ι ν α ρ}
    {k' : τ → Script ι ν α ρ} (h_ij : i ≠ j)
    (h_i : s.proc i = (Script.sendAll j port xs >>= k)) (h_j : s.proc j = (r >>= k'))
    (h_chan : s.chan (i, j, port) = []) (h_room : xs.length ≤ room)
    (h_r : Takes room scripts r i port xs a) :
    (network room scripts).Leads s
      ⟨Function.update (Function.update s.proc i (k ())) j (k' a), s.chan⟩ := by
  have h_first : (network room scripts).Leads s _ :=
    leads_sendAll h_i (by rwa [h_chan, List.length_nil, Nat.zero_add])
  have h_second := h_r (s.set i (k ()) (i, j, port) (s.chan (i, j, port) ++ xs)) j k' []
    ((Function.update_of_ne h_ij.symm _ _).trans h_j)
    ((Function.update_self _ _ _).trans (by rw [h_chan, List.nil_append, List.append_nil]))
  have h_end : (s.set i (k ()) (i, j, port) (s.chan (i, j, port) ++ xs)).set j (k' a)
      (i, j, port) [] = ⟨Function.update (Function.update s.proc i (k ())) j (k' a), s.chan⟩ := by
    unfold Network.set
    rw [Function.update_idem, ← h_chan, Function.update_eq_self]
  exact h_end ▸ h_first.trans h_second

/-- **Two parties that first send and then take get what the other has sent**, and nothing is left
on its way. -/
theorem leads_exchange {r : Script ι ν α τ} {r' : Script ι ν α τ'} {a : τ} {b : τ'}
    {k : τ → Script ι ν α ρ} {k' : τ' → Script ι ν α ρ} (h_ij : i ≠ j)
    (h_i : s.proc i = (Script.sendAll j port xs >>= fun _ => r >>= k))
    (h_j : s.proc j = (Script.sendAll i port ys >>= fun _ => r' >>= k'))
    (h_chan : s.chan (i, j, port) = []) (h_chan' : s.chan (j, i, port) = [])
    (h_room : xs.length ≤ room) (h_room' : ys.length ≤ room)
    (h_r : Takes room scripts r j port ys a) (h_r' : Takes room scripts r' i port xs b) :
    (network room scripts).Leads s
      ⟨Function.update (Function.update s.proc i (k a)) j (k' b), s.chan⟩ := by
  have h_c : (j, i, port) ≠ (i, j, port) := fun h => h_ij (Prod.mk.inj h).1.symm
  -- both send
  have h_first : (network room scripts).Leads s _ :=
    leads_sendAll h_i (by rwa [h_chan, List.length_nil, Nat.zero_add])
  rw [h_chan, List.nil_append] at h_first
  set s₁ := s.set i (r >>= k) (i, j, port) xs with h_s₁
  have h_empty : s₁.chan (j, i, port) = [] := (Function.update_of_ne h_c _ _).trans h_chan'
  have h_second : (network room scripts).Leads s₁ _ :=
    leads_sendAll ((Function.update_of_ne h_ij.symm _ _).trans h_j : s₁.proc j = _)
      (by rwa [h_empty, List.length_nil, Nat.zero_add])
  rw [h_empty, List.nil_append] at h_second
  set s₂ := s₁.set j (r' >>= k') (j, i, port) ys with h_s₂
  -- both take
  have h_third := h_r s₂ i k []
    ((Function.update_of_ne h_ij _ _).trans (Function.update_self _ _ _))
    ((Function.update_self _ _ _).trans (List.append_nil ys).symm)
  set s₃ := s₂.set i (k a) (j, i, port) [] with h_s₃
  have h_fourth := h_r' s₃ j k' [] ((Function.update_of_ne h_ij.symm _ _).trans
    (Function.update_self _ _ _)) (((Function.update_of_ne h_c.symm _ _).trans
      ((Function.update_of_ne h_c.symm _ _).trans (Function.update_self _ _ _))).trans
      (List.append_nil xs).symm)
  have h_end : s₃.set j (k' b) (i, j, port) [] =
      ⟨Function.update (Function.update s.proc i (k a)) j (k' b), s.chan⟩ := by
    rw [h_s₃, h_s₂, h_s₁]
    unfold Network.set
    congr 1
    · rw [Function.update_comm h_ij.symm, Function.update_idem, Function.update_idem]
    · have h_empty : ∀ c, s.chan c = [] → Function.update s.chan c [] = s.chan :=
        fun c h => Function.update_eq_self_iff.mpr h.symm
      rw [Function.update_idem, Function.update_comm h_c, Function.update_idem, h_empty _ h_chan,
        h_empty _ h_chan']
  exact h_end ▸ ((h_first.trans h_second).trans h_third).trans h_fourth

end Takes

/-! ### Ends -/

section Ends

variable {ι ν α ρ σ : Type}

/-- The script may end with the result. -/
inductive Script.Ends : Script ι ν α ρ → ρ → Prop
  | done {result : ρ} : Script.Ends (.done result) result
  | send {dst : ι} {port : ν} {x : α} {rest : Script ι ν α ρ} {result : ρ}
      (h_rest : rest.Ends result) : Script.Ends (.send dst port x rest) result
  | recv {src : ι} {port : ν} {rest : α → Script ι ν α ρ} {result : ρ} (x : α)
      (h_rest : (rest x).Ends result) : Script.Ends (.recv src port rest) result

theorem Script.ends_pure {a b : ρ} : (pure a : Script ι ν α ρ).Ends b ↔ b = a := by
  constructor
  · rintro ⟨⟩
    rfl
  · rintro rfl
    exact .done

/-- A sequence ends when its first part has ended and then its second part. -/
theorem Script.Ends.of_bind {p : Script ι ν α ρ} {k : ρ → Script ι ν α σ} {b : σ}
    (h : (p >>= k).Ends b) : ∃ a, p.Ends a ∧ (k a).Ends b := by
  induction p with
  | done a => exact ⟨a, .done, h⟩
  | send dst port x rest ih =>
    obtain _ | h_rest := h
    obtain ⟨a, h_a, h_k⟩ := ih h_rest
    exact ⟨a, .send h_a, h_k⟩
  | recv src port rest ih =>
    obtain _ | _ | ⟨x, h_rest⟩ := h
    obtain ⟨a, h_a, h_k⟩ := ih x h_rest
    exact ⟨a, .recv x h_a, h_k⟩

variable [DecidableEq ι] [DecidableEq ν]

/-- With what a party ends was possible from the start. -/
theorem ends_of_run {room : ℕ} {scripts : ι → Script ι ν α ρ} {s t : Network ι ν α ρ} {ls : List ι}
    {i : ι} {r : ρ} (h_run : (network room scripts).Run s ls t) (h : (t.proc i).Ends r) :
    (s.proc i).Ends r := by
  induction h_run with
  | nil => exact h
  | @snoc u v ls j _ hstep ih =>
    refine ih ?_
    obtain ⟨p, c, q, h_fires, rfl⟩ := hstep
    by_cases h_j : i = j
    · subst h_j
      rw [show (u.set i p c q).proc i = p from Function.update_self _ _ _] at h
      cases h_fires with
      | send h_proc => exact h_proc ▸ .send h
      | recv h_proc => exact h_proc ▸ .recv _ h
    · rwa [show (u.set j p c q).proc i = u.proc i from Function.update_of_ne h_j _ _] at h

end Ends

/-- A party that is done stays done. -/
theorem done_of_leads {room : ℕ} {scripts : ι → Script ι ν α ρ} {s t : Network ι ν α ρ} {i : ι}
    {r : ρ} (h : (network room scripts).Leads s t) (h_done : s.proc i = .done r) :
    t.proc i = .done r := by
  obtain ⟨ls, h_run⟩ := h
  induction h_run with
  | nil => exact h_done
  | @snoc u v ls j _ hstep ih =>
    obtain ⟨p, c, q, h_fires, rfl⟩ := hstep
    by_cases h_j : i = j
    · subst h_j
      cases h_fires with
      | send h_proc => cases ih.symm.trans h_proc
      | recv h_proc => cases ih.symm.trans h_proc
    · exact (Function.update_of_ne h_j _ _).trans ih

/-- A party waits for what is not on its way. -/
def Waits (s : Network ι ν α ρ) (i : ι) : Prop :=
  ∃ src port rest, s.proc i = .recv src port rest ∧ s.chan (src, i, port) = []

theorem stuck_of_waits {room : ℕ} {scripts : ι → Script ι ν α ρ} {t : Network ι ν α ρ}
    (h_waits : ∀ i, Waits t i) : (network room scripts).Stuck t := by
  rintro j _ ⟨p, c, q, h_fires, rfl⟩
  obtain ⟨src, port, rest, h_proc, h_chan⟩ := h_waits j
  cases h_fires with
  | send h_proc' => cases h_proc.symm.trans h_proc'
  | recv h_proc' h_chan' =>
    obtain ⟨rfl, rfl, -⟩ := Script.recv.inj (h_proc.symm.trans h_proc')
    cases h_chan.symm.trans h_chan'

/-- **Deadlock**: if some run comes to where every party waits, every run does, and no party is done
on the way. -/
theorem deadlock {room : ℕ} {scripts : ι → Script ι ν α ρ} {s t u : Network ι ν α ρ} {ls : List ι}
    (h : (network room scripts).Leads s t) (h_waits : ∀ i, Waits t i)
    (h_run : (network room scripts).Run s ls u) :
    (∃ ns, (network room scripts).Run u ns t) ∧ ∀ i r, u.proc i ≠ .done r := by
  obtain ⟨ms, h_end⟩ := h
  obtain ⟨ns, h_rest, -⟩ := h_end.completes (network_commutes _) (stuck_of_waits h_waits) h_run
  refine ⟨⟨ns, h_rest⟩, fun i r h_done => ?_⟩
  obtain ⟨src, port, rest, h_proc, -⟩ := h_waits i
  cases h_proc.symm.trans (done_of_leads ⟨ns, h_rest⟩ h_done)

end Streams
