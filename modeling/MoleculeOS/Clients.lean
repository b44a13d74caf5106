import MoleculeOS.Exchange
import MoleculeOS.Framing

/-!
# Clients between their calls

What holds in every state of a smart computer whose OSs read whole requests (`SmartInv`), whatever
calls the clients make and in whatever order things happen:

* the FIFO table of every PU is that of the FIFO_INITs it has answered, and its uuid directory holds
  only ids that some PU has handed out (`PuOk`);
* a pid is handed out once on its PU, and its entry holds the client's segment (`AnswersOk`); so two
  clients of one PU never share a segment;
* a client has at most one message under way, every call it has made is answered or is that message,
  and from the start of a call until the OS has handled it the client's segment is as the call left
  it (`ClientOk`).

`SmartInv.step` proves it step by step. The work is in a request being answered; it rests on
`Frame`, which says what the syscall may change, and on the segments being distinct: different pids
have different segment files, but `ftok` may make one key from two files. A step keeps the invariant
where the keys of the pids handed out on a PU so far differ (`SmartState.DistinctSegments`).
-/

namespace MoleculeOS

open Stdio Transition

/-- The host opens files, and creates and attaches segments. -/
structure Kernel.Obliging (k : Kernel) : Prop where
  fopen : k.fopen = true
  shmget : k.shmget = true
  shmat : k.shmat = true
  openFifo : k.openFifo = true

variable {κ ι : Type} {D : SmartComputer κ ι}

/-- The key of the segment of a pid. -/
def SmartComputer.key (D : SmartComputer κ ι) (a : Slot) : Int32 := D.P.ftok (shmPath a.toInt32)

/-! ### What the answers say -/

section Inited

variable [DecidableEq κ] {answers : List (Answer ι)} {x : Answer ι} {p : κ} {g : Int32}

/-- The syscalls a PU has answered, as events of its OS. -/
def eventsAt (D : SmartComputer κ ι) (answers : List (Answer ι)) (p : κ) : List Event :=
  System.labelsAt p (answers.map fun x => (D.home x.client, .syscall x.syscall x.ret))

/-- A PU has handed the id out. -/
def InitedAt (D : SmartComputer κ ι) (answers : List (Answer ι)) (p : κ) (g : Int32) : Prop :=
  0 ≤ g.toInt ∧ ∃ f, (f, g) ∈ fifoInits (eventsAt D answers p)

/-- The id of a FIFO of the smart computer. -/
def Inited (D : SmartComputer κ ι) (answers : List (Answer ι)) (g : Int32) : Prop :=
  ∃ p, InitedAt D answers p g

theorem eventsAt_snoc_self (h : D.home x.client = p) :
    eventsAt D (answers ++ [x]) p = eventsAt D answers p ++ [.syscall x.syscall x.ret] := by
  unfold eventsAt
  rw [List.map_append, List.map_singleton, h, System.labelsAt_snoc_self]

theorem eventsAt_snoc_of_ne (h : D.home x.client ≠ p) :
    eventsAt D (answers ++ [x]) p = eventsAt D answers p := by
  unfold eventsAt
  rw [List.map_append, List.map_singleton, System.labelsAt_snoc_of_ne h]

/-- Ids stay handed out. -/
theorem Inited.snoc (h : Inited D answers g) : Inited D (answers ++ [x]) g := by
  obtain ⟨p, h_nonneg, f, h_mem⟩ := h
  refine ⟨p, h_nonneg, f, ?_⟩
  by_cases h_home : D.home x.client = p
  · rw [eventsAt_snoc_self h_home, fifoInits_snoc]
    exact List.mem_append_left _ h_mem
  · rw [eventsAt_snoc_of_ne h_home]
    exact h_mem

/-- A FIFO_INIT that is answered with an id hands it out. -/
theorem Inited.of_fifoInit {localUuid ownerPid globalUuid : Int32}
    (h_call : x.syscall = .fifoInit localUuid ownerPid globalUuid) (h_nonneg : 0 ≤ x.ret.toInt) :
    Inited D (answers ++ [x]) x.ret := by
  refine ⟨D.home x.client, h_nonneg, ⟨localUuid, ownerPid, globalUuid⟩, ?_⟩
  rw [eventsAt_snoc_self rfl, h_call, fifoInits_snoc]
  exact List.mem_append_right _ List.mem_cons_self

end Inited

section Calls

variable [DecidableEq ι] {answers : List (Answer ι)} {x : Answer ι} {i : ι}

/-- The calls of a client that were answered. -/
def callsOf (answers : List (Answer ι)) (i : ι) : List LibCall :=
  System.labelsAt i (answers.map fun x => (x.client, x.call))

theorem callsOf_snoc_self (h : x.client = i) :
    callsOf (answers ++ [x]) i = callsOf answers i ++ [x.call] := by
  unfold callsOf
  rw [List.map_append, List.map_singleton, h, System.labelsAt_snoc_self]

theorem callsOf_snoc_of_ne (h : x.client ≠ i) : callsOf (answers ++ [x]) i = callsOf answers i := by
  unfold callsOf
  rw [List.map_append, List.map_singleton, System.labelsAt_snoc_of_ne h]

end Calls

/-! ### The invariant -/

variable {s t : SmartState κ ι} {i j : ι} {p : κ} {call : LibCall}

/-- The pid `a` was handed out to `i`. -/
def HasPid (s : SmartState κ ι) (i : ι) (a : Slot) : Prop :=
  ∃ x ∈ s.answers, x.client = i ∧ x.call = .registerSelfGlobal ∧ x.ret = a.toInt32

/-- The library of client `i` was set up with the pid `a`. -/
structure Registered (D : SmartComputer κ ι) (s : SmartState κ ι) (i : ι) (a : Slot) : Prop where
  selfGlobalId : (s.clients i).lib.selfGlobalId = a.toInt32
  uuid : (s.clients i).lib.shmClientUuid = a.toInt32
  addr : (s.clients i).lib.shmClientAddr = .attached (D.key a)
  hasPid : HasPid s i a

/-- The segment files of the pids that a PU has handed out have different keys. -/
def SmartState.DistinctSegments (D : SmartComputer κ ι) (s : SmartState κ ι) : Prop :=
  ∀ i j a b, HasPid s i a → HasPid s j b → D.home i = D.home j → D.key a = D.key b → a = b

theorem HasPid.mono {a : Slot} (h : HasPid s i a) (h_answers : s.answers ⊆ t.answers) :
    HasPid t i a := by
  obtain ⟨x, h_x, h⟩ := h
  exact ⟨x, h_answers h_x, h⟩

theorem Registered.mono {a : Slot} (h : Registered D s i a)
    (h_lib : (t.clients i).lib = (s.clients i).lib) (h_answers : s.answers ⊆ t.answers) :
    Registered D t i a where
  selfGlobalId := by rw [h_lib, h.selfGlobalId]
  uuid := by rw [h_lib, h.uuid]
  addr := by rw [h_lib, h.addr]
  hasPid := h.hasPid.mono h_answers

/-- A client that is not registered has no segment. -/
def LibOk (D : SmartComputer κ ι) (s : SmartState κ ι) (i : ι) : Prop :=
  (s.clients i).lib.shmClientAddr = .null ∨ ∃ a, Registered D s i a

theorem LibOk.mono (h : LibOk D s i) (h_lib : (t.clients i).lib = (s.clients i).lib)
    (h_answers : s.answers ⊆ t.answers) : LibOk D t i := by
  rcases h with h_null | ⟨a, h_a⟩
  · exact Or.inl (by rw [h_lib, h_null])
  · exact Or.inr ⟨a, h_a.mono h_lib h_answers⟩

section Pu

variable [DecidableEq κ]

/-- One PU. -/
structure PuOk (D : SmartComputer κ ι) (s : SmartState κ ι) (p : κ) : Prop where
  history : FifoHistory (D.puId p) (eventsAt D s.answers p) (s.pus p).world
  cursor : ∃ n : Slot, (s.pus p).world.os.globalProcessNow = n.toInt32
  directory : ∀ g, (s.pus p).world.os.fifoGuuidTable.Stores g → Inited D s.answers g

/-- A PU does not notice what happens elsewhere. -/
theorem PuOk.mono (h : PuOk D s p) (h_os : (t.pus p).world.os = (s.pus p).world.os)
    (h_events : eventsAt D t.answers p = eventsAt D s.answers p)
    (h_inited : ∀ g, Inited D s.answers g → Inited D t.answers g) : PuOk D t p where
  history := by rw [h_events]; exact h.history.of_os_eq h_os
  cursor := by rw [h_os]; exact h.cursor
  directory g h_g := by rw [h_os] at h_g; exact h_inited g (h.directory g h_g)

/-- What client `i` has done when it sends the request of `call`: a call that uses the segment has
left it as it is now. -/
structure Prepared (D : SmartComputer κ ι) (s : SmartState κ ι) (i : ι) (call : LibCall) :
    Prop where
  fifo : ∀ g, call.globalFifo = some g → Inited D s.answers g
  segment : call.usesSegment = true → ∃ a, Registered D s i a ∧
    ∃ before, call.put before = .ok ((s.pus (D.home i)).world.shm (D.key a))

/-- A prepared segment stays so as long as nobody else writes it. -/
theorem Prepared.mono (h : Prepared D s i call) (h_lib : (t.clients i).lib = (s.clients i).lib)
    (h_answers : s.answers ⊆ t.answers)
    (h_inited : ∀ g, Inited D s.answers g → Inited D t.answers g)
    (h_shm : ∀ a, Registered D s i a → (t.pus (D.home i)).world.shm (D.key a)
      = (s.pus (D.home i)).world.shm (D.key a)) : Prepared D t i call := by
  refine ⟨fun g h_g => h_inited g (h.fifo g h_g), fun h_uses => ?_⟩
  obtain ⟨a, h_reg, before, h_put⟩ := h.segment h_uses
  refine ⟨a, h_reg.mono h_lib h_answers, before, ?_⟩
  rw [h_shm a h_reg]
  exact h_put

end Pu

variable [DecidableEq κ] [DecidableEq ι]

/-- The answers given so far. -/
structure AnswersOk (D : SmartComputer κ ι) (s : SmartState κ ι) : Prop where
  /-- A registration is refused or hands out a pid. -/
  pid : ∀ x ∈ s.answers, x.call = .registerSelfGlobal → 0 ≤ x.ret.toInt →
    ∃ a : Slot, x.ret = a.toInt32
  /-- The entry of a pid is taken and holds the segment. -/
  entry : ∀ i a, HasPid s i a →
    0 ≤ ((s.pus (D.home i)).world.os.globalProcessList a).localPid.toInt ∧
      ((s.pus (D.home i)).world.os.globalProcessList a).shm = .attached (D.key a)
  /-- A pid is handed out once. -/
  unique : ∀ i j a, HasPid s i a → HasPid s j a → D.home i = D.home j → i = j
  /-- What a call returns as a FIFO id is one. -/
  fifo : ∀ x ∈ s.answers, ∀ g ∈ x.call.issue x.ret, Inited D s.answers g

/-- No message of client `i` is under way. -/
structure AtRest (s : SmartState κ ι) (i : ι) : Prop where
  framed : (s.conns i).Framed [] []
  made : (s.clients i).made = callsOf s.answers i

/-- The request of a call is still to be read. -/
structure Asked (D : SmartComputer κ ι) (s : SmartState κ ι) (i : ι) (call : LibCall) : Prop where
  framed : (s.conns i).Framed [call.request (s.clients i).lib] []
  made : (s.clients i).made = callsOf s.answers i ++ [call]
  prepared : Prepared D s i call

/-- The reply to a call is still to be read. -/
structure Replied (D : SmartComputer κ ι) (s : SmartState κ ι) (i : ι) (call : LibCall)
    (ret : Int32) : Prop where
  framed : (s.conns i).Framed [] [ret]
  made : (s.clients i).made = callsOf s.answers i
  answer : ∃ x ∈ s.answers, x.client = i ∧ x.call = call ∧ x.ret = ret

/-- Where a client is, and its messages. -/
def PhaseOk (D : SmartComputer κ ι) (s : SmartState κ ι) (i : ι) : Prop :=
  match (s.clients i).phase with
  | .ready | .exited => AtRest s i
  | .prepared call => AtRest s i ∧ Prepared D s i call
  | .waiting call => Asked D s i call ∨ ∃ ret, Replied D s i call ret

/-- One client. -/
structure ClientOk (D : SmartComputer κ ι) (s : SmartState κ ι) (i : ι) : Prop where
  lib : LibOk D s i
  phase : PhaseOk D s i

/-- **The invariant of a smart computer.** -/
structure SmartInv (D : SmartComputer κ ι) (s : SmartState κ ι) : Prop where
  pus : ∀ p, PuOk D s p
  answers : AnswersOk D s
  clients : ∀ i, ClientOk D s i
  issued : ∀ g ∈ s.issued, Inited D s.answers g

/-- `PhaseOk` by phases. -/
theorem phaseOk_ready (h : (s.clients i).phase = .ready) : PhaseOk D s i ↔ AtRest s i := by
  unfold PhaseOk
  rw [h]

theorem phaseOk_exited (h : (s.clients i).phase = .exited) : PhaseOk D s i ↔ AtRest s i := by
  unfold PhaseOk
  rw [h]

theorem phaseOk_prepared (h : (s.clients i).phase = .prepared call) :
    PhaseOk D s i ↔ AtRest s i ∧ Prepared D s i call := by
  unfold PhaseOk
  rw [h]

theorem phaseOk_waiting (h : (s.clients i).phase = .waiting call) :
    PhaseOk D s i ↔ Asked D s i call ∨ ∃ ret, Replied D s i call ret := by
  unfold PhaseOk
  rw [h]

/-- **The frame rule for a client**: it does not notice what others do, as long as its segment is
left alone. -/
theorem ClientOk.mono (h : ClientOk D s i) (h_conn : t.conns i = s.conns i)
    (h_client : t.clients i = s.clients i) (h_calls : callsOf t.answers i = callsOf s.answers i)
    (h_answers : s.answers ⊆ t.answers)
    (h_inited : ∀ g, Inited D s.answers g → Inited D t.answers g)
    (h_shm : ∀ a, Registered D s i a → (t.pus (D.home i)).world.shm (D.key a)
      = (s.pus (D.home i)).world.shm (D.key a)) : ClientOk D t i := by
  have h_lib : (t.clients i).lib = (s.clients i).lib := by rw [h_client]
  have h_rest : AtRest s i → AtRest t i := by
    intro h_i
    exact ⟨by rw [h_conn]; exact h_i.framed, by rw [h_client, h_calls]; exact h_i.made⟩
  have h_phase : (t.clients i).phase = (s.clients i).phase := by rw [h_client]
  refine ⟨h.lib.mono h_lib h_answers, ?_⟩
  cases h_s : (s.clients i).phase with
  | exited =>
    exact (phaseOk_exited (h_phase.trans h_s)).mpr (h_rest ((phaseOk_exited h_s).mp h.phase))
  | ready =>
    exact (phaseOk_ready (h_phase.trans h_s)).mpr (h_rest ((phaseOk_ready h_s).mp h.phase))
  | prepared call =>
    obtain ⟨h_i, h_prepared⟩ := (phaseOk_prepared h_s).mp h.phase
    exact (phaseOk_prepared (h_phase.trans h_s)).mpr
      ⟨h_rest h_i, h_prepared.mono h_lib h_answers h_inited h_shm⟩
  | waiting call =>
    refine (phaseOk_waiting (h_phase.trans h_s)).mpr ?_
    rcases (phaseOk_waiting h_s).mp h.phase with h_asked | ⟨ret, h_replied⟩
    · refine Or.inl ⟨?_, by rw [h_client, h_calls]; exact h_asked.made,
        h_asked.prepared.mono h_lib h_answers h_inited h_shm⟩
      rw [h_conn, h_lib]
      exact h_asked.framed
    · refine Or.inr ⟨ret, by rw [h_conn]; exact h_replied.framed,
        by rw [h_client, h_calls]; exact h_replied.made, ?_⟩
      obtain ⟨x, h_x, h⟩ := h_replied.answer
      exact ⟨x, h_answers h_x, h⟩

/-- Different clients of one PU have different segments. -/
theorem SmartInv.key_ne (h : SmartInv D s) (h_keys : s.DistinctSegments D) {a b : Slot}
    (h_a : Registered D s i a) (h_b : Registered D s j b) (h_home : D.home i = D.home j)
    (h_ne : i ≠ j) : D.key a ≠ D.key b := by
  intro h_key
  obtain rfl := h_keys i j a b h_a.hasPid h_b.hasPid h_home h_key
  exact h_ne (h.answers.unique i j a h_a.hasPid h_b.hasPid h_home)

/-! ### Steps that no OS takes part in -/

/-- A step that leaves the OSs and the answers as they are. -/
theorem SmartInv.of_quiet (h : SmartInv D s) (h_answers : t.answers = s.answers)
    (h_os : ∀ p, (t.pus p).world.os = (s.pus p).world.os) (h_clients : ∀ i, ClientOk D t i)
    (h_issued : ∀ g ∈ t.issued, Inited D s.answers g) : SmartInv D t where
  pus p := (h.pus p).mono (h_os p) (by rw [h_answers]) fun g h_g => by rw [h_answers]; exact h_g
  answers := by
    -- nobody has a pid that it did not have before
    have h_pid : ∀ i a, HasPid t i a → HasPid s i a :=
      fun i a h_a => h_a.mono (by rw [h_answers]; exact List.Subset.refl _)
    refine ⟨?_, ?_, ?_, ?_⟩
    · rw [h_answers]
      exact h.answers.pid
    · intro i a h_a
      rw [h_os]
      exact h.answers.entry i a (h_pid i a h_a)
    · intro i j a h_i h_j h_home
      exact h.answers.unique i j a (h_pid i a h_i) (h_pid j a h_j) h_home
    · rw [h_answers]
      exact h.answers.fifo
  clients := h_clients
  issued g h_g := by rw [h_answers]; exact h_issued g h_g

/-- Other clients, when the answers and all segments stay as they are. -/
theorem ClientOk.of_same (h : ClientOk D s i) (h_conn : t.conns i = s.conns i)
    (h_client : t.clients i = s.clients i) (h_answers : t.answers = s.answers)
    (h_pus : t.pus = s.pus) : ClientOk D t i :=
  h.mono h_conn h_client (by rw [h_answers]) (by rw [h_answers]; exact List.Subset.refl _)
    (fun g h_g => by rw [h_answers]; exact h_g) fun a _ => by rw [h_pus]

/-- A client starts a call: nothing but its phase changes. -/
theorem SmartInv.prepare (h : SmartInv D s) (h_phase : (s.clients i).phase = .ready)
    (h_prepared : Prepared D s i call) :
    SmartInv D (s.setClient i { s.clients i with phase := .prepared call }) := by
  refine h.of_quiet rfl (fun p => rfl) (fun j => ?_) h.issued
  by_cases h_j : j = i
  · -- its library and its messages are as they were
    subst h_j
    have h_client := Function.update_self j { s.clients j with phase := Phase.prepared call }
      s.clients
    have h_lib := congrArg ClientState.lib h_client
    have h_rest := (phaseOk_ready h_phase).mp (h.clients j).phase
    refine ⟨(h.clients j).lib.mono (h_lib :) (List.Subset.refl _),
      (phaseOk_prepared (congrArg ClientState.phase h_client)).mpr ⟨⟨h_rest.framed, ?_⟩, ?_⟩⟩
    · exact (congrArg ClientState.made h_client).trans h_rest.made
    · exact h_prepared.mono (h_lib :) (List.Subset.refl _) (fun g h_g => h_g) fun a _ => rfl
  · exact (h.clients j).of_same rfl (Function.update_of_ne h_j _ _) rfl rfl

/-- A client writes its segment, which is nobody else's. -/
theorem SmartInv.put (h : SmartInv D s) (h_keys : s.DistinctSegments D) {a : Slot}
    (h_a : Registered D s i a) (h_phase : (s.clients i).phase = .ready) (seg : Buffer 4096) :
    SmartInv D (s.setWorld (D.home i) ((s.pus (D.home i)).world.setSegment (D.key a) seg)) := by
  -- what the step does to the PUs
  have h_pu : ∀ p, (Function.update s.pus (D.home i) { s.pus (D.home i) with
      world := (s.pus (D.home i)).world.setSegment (D.key a) seg } p).world
        = if p = D.home i then (s.pus (D.home i)).world.setSegment (D.key a) seg
          else (s.pus p).world := by
    intro p
    by_cases h_p : p = D.home i
    · rw [if_pos h_p, h_p, Function.update_self]
    · rw [if_neg h_p, Function.update_of_ne h_p]
  refine h.of_quiet rfl (fun p => ?_) (fun j => ?_) h.issued
  · change (Function.update s.pus _ _ p).world.os = _
    rw [h_pu]
    split
    · next h_p => rw [h_p]; rfl
    · rfl
  by_cases h_j : j = i
  · -- between two calls nobody looks at the segment
    subst h_j
    have h_rest := (phaseOk_ready h_phase).mp (h.clients j).phase
    refine ⟨(h.clients j).lib.mono rfl (List.Subset.refl _), ?_⟩
    have h_phase' : ((s.setWorld (D.home j)
      ((s.pus (D.home j)).world.setSegment (D.key a) seg)).clients j).phase = .ready := h_phase
    exact (phaseOk_ready h_phase').mpr ⟨h_rest.framed, h_rest.made⟩
  · -- the segments of two clients of one PU have different keys
    refine (h.clients j).mono rfl rfl rfl (List.Subset.refl _) (fun g h_g => h_g) fun b h_b => ?_
    change (Function.update s.pus _ _ (D.home j)).world.shm (D.key b) = _
    rw [h_pu]
    split
    · next h_home =>
      rw [h_home]
      exact Function.update_of_ne (h.key_ne h_keys h_b h_a h_home h_j) _ _
    · rfl

/-- A call that uses the segment. -/
theorem SmartInv.put_step (h : SmartInv D s) (h_keys : s.DistinctSegments D) {key : Int32}
    {seg : Buffer 4096} (h_phase : (s.clients i).phase = .ready)
    (h_fifo : ∀ g, call.globalFifo = some g → g ∈ s.issued)
    (h_addr : (s.clients i).lib.shmClientAddr = .attached key)
    (h_put : call.put ((s.pus (D.home i)).world.shm key) = .ok seg) :
    SmartInv D ((s.setWorld (D.home i) ((s.pus (D.home i)).world.setSegment key seg)).setClient i
      { s.clients i with phase := .prepared call }) := by
  -- only a registered client has a segment attached, and it is that of its pid
  obtain ⟨a, h_a⟩ : ∃ a, Registered D s i a := by
    refine (h.clients i).lib.resolve_left ?_
    rw [h_addr]
    exact nofun
  obtain rfl : key = D.key a := ShmAddr.attached.inj (h_addr.symm.trans h_a.addr)
  refine (h.put h_keys h_a h_phase seg).prepare h_phase
    ⟨fun g h_g => h.issued g (h_fifo g h_g), fun _ => ⟨a, h_a.mono rfl (List.Subset.refl _),
      (s.pus (D.home i)).world.shm (D.key a), ?_⟩⟩
  rw [h_put]
  change _ = Except.ok ((Function.update s.pus _ _ (D.home i)).world.shm (D.key a))
  rw [Function.update_self]
  -- what is in the segment now is what the library has put there
  have h_seg := Function.update_self (D.key a) seg (s.pus (D.home i)).world.shm
  exact congrArg Except.ok h_seg.symm

/-- A client sends its request. -/
theorem SmartInv.request_step (h : SmartInv D s)
    (h_phase : (s.clients i).phase = .prepared call) :
    SmartInv D ((s.setConn i ((s.conns i).request (call.request (s.clients i).lib))).setClient i
      { s.clients i with phase := .waiting call, made := (s.clients i).made ++ [call] }) := by
  obtain ⟨h_rest, h_prepared⟩ := (phaseOk_prepared h_phase).mp (h.clients i).phase
  refine h.of_quiet rfl (fun p => rfl) (fun j => ?_) h.issued
  by_cases h_j : j = i
  · subst h_j
    have h_client := Function.update_self j { s.clients j with
      phase := Phase.waiting call, made := (s.clients j).made ++ [call] } s.clients
    have h_conn := Function.update_self j ((s.conns j).request (call.request (s.clients j).lib))
      s.conns
    have h_lib := congrArg ClientState.lib h_client
    refine ⟨(h.clients j).lib.mono (h_lib :) (List.Subset.refl _),
      (phaseOk_waiting (congrArg ClientState.phase h_client)).mpr (Or.inl ⟨?_, ?_, ?_⟩)⟩
    · -- the connection was empty, so the request stands alone in it
      change (Function.update s.conns j _ j).Framed
        [call.request (Function.update s.clients j _ j).lib] []
      rw [h_conn, h_lib]
      exact h_rest.framed.request _
    · refine (congrArg ClientState.made h_client).trans ?_
      rw [h_rest.made]
      rfl
    · -- the segment is not touched by sending
      exact h_prepared.mono (h_lib :) (List.Subset.refl _) (fun g h_g => h_g) fun a _ => rfl
  · exact (h.clients j).of_same (Function.update_of_ne h_j _ _) (Function.update_of_ne h_j _ _)
      rfl rfl

/-- A client that got a pid attaches the segment of the pid. -/
theorem ClientState.returned_of_nonneg {P : Platform} (c : ClientState) {ret : Int32}
    (h : 0 ≤ ret.toInt) : c.returned P ret .registerSelfGlobal
      = { c with
          lib := { c.lib with
            selfGlobalId := ret
            shmClientUuid := ret
            shmClientAddr := .attached (P.ftok (shmPath ret)) }
          phase := .ready } := by
  unfold ClientState.returned registerSelfGlobalAttach
  rw [if_pos h]

/-- A client that got none exits. -/
theorem ClientState.returned_of_neg {P : Platform} (c : ClientState) {ret : Int32}
    (h : ¬ 0 ≤ ret.toInt) :
    c.returned P ret .registerSelfGlobal = { c with phase := .exited } := by
  unfold ClientState.returned registerSelfGlobalAttach
  rw [if_neg h]

/-- After a call other than the registration a client is ready again. -/
theorem ClientState.returned_of_ne {P : Platform} (c : ClientState) (ret : Int32)
    (h : call ≠ .registerSelfGlobal) : c.returned P ret call = { c with phase := .ready } := by
  cases call with
  | registerSelfGlobal => exact absurd rfl h
  | _ => rfl

/-- A client reads its reply. -/
theorem SmartInv.receive_step (h : SmartInv D s) (h_phase : (s.clients i).phase = .waiting call)
    (h_arrived : (s.conns i).toClient ≠ []) (old : Int32) :
    SmartInv D { (s.setConn i ((s.conns i).receive old)).setClient i
        ((s.clients i).returned D.P (invokeRet (s.conns i).toClient old) call) with
      issued := s.issued ++ call.issue (invokeRet (s.conns i).toClient old) } := by
  -- something has arrived, so the call was answered
  obtain ⟨ret, h_replied, h_ret, h_framed⟩ : ∃ ret, Replied D s i call ret ∧
      invokeRet (s.conns i).toClient old = ret ∧ ((s.conns i).receive old).Framed [] [] := by
    rcases (phaseOk_waiting h_phase).mp (h.clients i).phase with h_asked | ⟨ret, h_replied⟩
    · -- a request that is still unread leaves nothing to receive
      obtain ⟨_, h_nil, -⟩ := h_asked.framed.receive h_arrived
      exact absurd h_nil (List.cons_ne_nil _ _)
    · obtain ⟨ret', -, h_eq, h_receive⟩ := h_replied.framed.receive h_arrived
      obtain rfl := List.singleton_inj.mp h_eq
      exact ⟨ret, h_replied, h_receive old⟩
  obtain ⟨x, h_x, h_xi, h_call, h_xret⟩ := h_replied.answer
  rw [h_ret]
  refine h.of_quiet rfl (fun p => rfl) (fun j => ?_) fun g h_g => ?_
  · by_cases h_j : j = i
    · subst h_j
      have h_client := Function.update_self j ((s.clients j).returned D.P ret call) s.clients
      have h_conn := Function.update_self j ((s.conns j).receive old) s.conns
      have h_rest : (Function.update s.clients j ((s.clients j).returned D.P ret call) j).made
            = (s.clients j).made →
          AtRest { (s.setConn j ((s.conns j).receive old)).setClient j
              ((s.clients j).returned D.P ret call) with
            issued := s.issued ++ call.issue ret } j := by
        intro h_made
        refine ⟨?_, h_made.trans h_replied.made⟩
        change (Function.update s.conns j _ j).Framed [] []
        rw [h_conn]
        exact h_framed
      by_cases h_register : call = .registerSelfGlobal
      · subst h_register
        by_cases h_nonneg : 0 ≤ ret.toInt
        · -- the library is set up with the pid
          obtain ⟨a, h_a⟩ := h.answers.pid x h_x h_call (by rw [h_xret]; exact h_nonneg)
          rw [ClientState.returned_of_nonneg _ h_nonneg] at h_client h_rest ⊢
          have h_lib := congrArg ClientState.lib h_client
          obtain rfl : ret = a.toInt32 := h_xret.symm.trans h_a
          refine ⟨Or.inr ⟨a, ?_⟩, (phaseOk_ready (congrArg ClientState.phase h_client :)).mpr
            (h_rest (congrArg ClientState.made h_client :))⟩
          exact ⟨congrArg Client.selfGlobalId h_lib, congrArg Client.shmClientUuid h_lib,
            congrArg Client.shmClientAddr h_lib, x, h_x, h_xi, h_call, h_xret⟩
        · -- a refused registration ends the client
          rw [ClientState.returned_of_neg _ h_nonneg] at h_client h_rest ⊢
          exact ⟨(h.clients j).lib.mono (congrArg ClientState.lib h_client :) (List.Subset.refl _),
            (phaseOk_exited (congrArg ClientState.phase h_client :)).mpr
              (h_rest (congrArg ClientState.made h_client :))⟩
      · -- no other call changes the library
        rw [ClientState.returned_of_ne _ _ h_register] at h_client h_rest ⊢
        exact ⟨(h.clients j).lib.mono (congrArg ClientState.lib h_client :) (List.Subset.refl _),
          (phaseOk_ready (congrArg ClientState.phase h_client :)).mpr
            (h_rest (congrArg ClientState.made h_client :))⟩
    · exact (h.clients j).of_same (Function.update_of_ne h_j _ _) (Function.update_of_ne h_j _ _)
        rfl rfl
  · rcases List.mem_append.mp h_g with h_old | h_new
    · exact h.issued g h_old
    · exact h.answers.fifo x h_x g (by rw [h_call, h_xret]; exact h_new)

/-! ### A request being answered -/

/-- The syscall of a call; the dispatcher knows none for `global_fifo_close`. -/
def LibCall.syscall (c : Client) : LibCall → Option Syscall
  | .registerSelfGlobal => some (.registerSelfGlobal 0)
  | .globalFifoInit localFifo => some (.fifoInit localFifo c.selfGlobalId (-1))
  | .globalFifoInitUuid localFifo globalUuid =>
    some (.fifoInit localFifo c.selfGlobalId globalUuid)
  | .globalFifoConnect globalUuid => some (.fifoConnect globalUuid c.selfGlobalId)
  | .globalFifoRead globalFifo len => some (.fifoRead globalFifo c.shmClientUuid len)
  | .globalFifoWrite globalFifo _ len => some (.fifoWrite globalFifo c.shmClientUuid len)
  | .globalFifoClose _ => none
  | .globalSpawn puId _ argv envp =>
    some (.gspawn puId c.shmClientUuid (Int32.ofInt argv.length) (Int32.ofInt envp.length))

/-- The dispatcher makes the syscall of the call, and ends the process if there is none. -/
theorem dispatch_request (c : Client) (call : LibCall) :
    dispatch (call.request c) = (call.syscall c).elim (.error .exit) .ok := by
  cases call <;> rfl

/-- The names that requests carry. -/
def requestNames : List (List Byte) :=
  ["RegisterSelfGlobal", "FIFO_INIT", "FIFO_READ", "FIFO_WRITE", "FIFO_CONNECT", "FIFO_CLOSE",
    "GSPAWN"].map bytes

theorem funcName_mem (c : Client) (call : LibCall) :
    (call.request c).funcName ∈ requestNames := by
  cases call with
  | registerSelfGlobal => exact List.mem_map_of_mem (a := "RegisterSelfGlobal") (by decide)
  | globalFifoInit | globalFifoInitUuid => exact List.mem_map_of_mem (a := "FIFO_INIT") (by decide)
  | globalFifoConnect => exact List.mem_map_of_mem (a := "FIFO_CONNECT") (by decide)
  | globalFifoRead => exact List.mem_map_of_mem (a := "FIFO_READ") (by decide)
  | globalFifoWrite => exact List.mem_map_of_mem (a := "FIFO_WRITE") (by decide)
  | globalFifoClose => exact List.mem_map_of_mem (a := "FIFO_CLOSE") (by decide)
  | globalSpawn => exact List.mem_map_of_mem (a := "GSPAWN") (by decide)

theorem isWord_request (c : Client) (call : LibCall) :
    IsWord (call.request c).funcName ∧ (call.request c).funcName.length ≤ 255 := by
  -- the names are seven, and a look at each of them is enough
  have h_all : ∀ name ∈ requestNames, IsWord name ∧ name.length ≤ 255 := by decide +kernel
  exact h_all _ (funcName_mem c call)

/-- A whole request of the library is parsed, and the dispatcher decides. -/
theorem receive_request (k : Kernel) (L : LoopState) (c : Client) (call : LibCall) :
    ∃ buf, L.receive k (requestText (call.request c)) = (call.syscall c).elim (.error .exit)
      fun sc => .ok ({ L with buf := buf, vars := call.request c }, sc) := by
  obtain ⟨h_word, h_len⟩ := isWord_request c call
  obtain ⟨buf, h_read⟩ := exists_poke_requestText h_word h_len L.buf
  have h_parse := parseRequest_poke h_word h_len h_read k L.vars
  refine ⟨buf, ?_⟩
  unfold LoopState.receive
  simp only [h_read, access_some, Exec.ok_bind, h_parse, dispatch_request]
  cases call.syscall c <;> rfl

/-- What is waiting to be read is the request of the call the client waits for. -/
theorem ClientOk.asked (h : ClientOk D s i) (h_data : (s.conns i).toOs ≠ []) :
    ∃ call, (s.clients i).phase = .waiting call ∧ Asked D s i call ∧
      (s.conns i).toOs = requestText (call.request (s.clients i).lib) := by
  -- a connection at rest holds no bytes
  have h_rest : ¬ AtRest s i := by
    intro h_i
    obtain ⟨v, h_nil, -⟩ := h_i.framed.unread_eq h_data
    exact absurd h_nil.symm (List.cons_ne_nil _ _)
  cases h_phase : (s.clients i).phase with
  | exited => exact absurd ((phaseOk_exited h_phase).mp h.phase) h_rest
  | ready => exact absurd ((phaseOk_ready h_phase).mp h.phase) h_rest
  | prepared call => exact absurd ((phaseOk_prepared h_phase).mp h.phase).1 h_rest
  | waiting call =>
    rcases (phaseOk_waiting h_phase).mp h.phase with h_asked | ⟨ret, h_replied⟩
    · obtain ⟨v, h_v, -, h_toOs⟩ := h_asked.framed.unread_eq h_data
      obtain rfl := List.singleton_inj.mp h_v
      exact ⟨call, rfl, h_asked, h_toOs⟩
    · obtain ⟨v, h_nil, -⟩ := h_replied.framed.unread_eq h_data
      exact absurd h_nil.symm (List.cons_ne_nil _ _)

/-- Only FIFO_INIT and FIFO_CONNECT hand out ids. -/
theorem LibCall.mem_issue {g ret : Int32} (h : g ∈ call.issue ret) (c : Client) :
    0 ≤ ret.toInt ∧ g = ret ∧
      ((∃ localUuid globalUuid, call.syscall c
        = some (.fifoInit localUuid c.selfGlobalId globalUuid)) ∨
      ∃ globalUuid, call.syscall c = some (.fifoConnect globalUuid c.selfGlobalId)) := by
  -- both kinds return the id itself, if it is none of the error codes
  have h_issue : ∀ {ret : Int32}, g ∈ (if 0 ≤ ret.toInt then [ret] else []) →
      0 ≤ ret.toInt ∧ g = ret := by
    intro ret h
    split at h
    · next h_nonneg => exact ⟨h_nonneg, List.mem_singleton.mp h⟩
    · exact absurd h List.not_mem_nil
  cases call with
  | globalFifoInit localFifo =>
    obtain ⟨h_nonneg, rfl⟩ := h_issue h
    exact ⟨h_nonneg, rfl, Or.inl ⟨localFifo, -1, rfl⟩⟩
  | globalFifoInitUuid localFifo globalUuid =>
    obtain ⟨h_nonneg, rfl⟩ := h_issue h
    exact ⟨h_nonneg, rfl, Or.inl ⟨localFifo, globalUuid, rfl⟩⟩
  | globalFifoConnect globalUuid =>
    obtain ⟨h_nonneg, rfl⟩ := h_issue h
    exact ⟨h_nonneg, rfl, Or.inr ⟨globalUuid, rfl⟩⟩
  | _ => exact absurd h List.not_mem_nil

/-- **What a step does in which the OS answers** the call `call` of client `i`. -/
structure Serve (D : SmartComputer κ ι) (s t : SmartState κ ι) (i : ι) (call : LibCall)
    (sc : Syscall) (k peerKernel : Kernel) (peer : World) (ret : Int32) : Prop where
  phase : (s.clients i).phase = .waiting call
  asked : Asked D s i call
  syscall : call.syscall (s.clients i).lib = some sc
  host : D.host k
  peerHost : D.host peerKernel
  answer : sc.answer D.P k peerKernel (s.pus (D.home i)).world (s.pus (D.peer (D.home i))).world
    = .ok ((t.pus (D.home i)).world, peer, ret)
  clients : t.clients = s.clients
  issued : t.issued = s.issued
  halted : t.halted = s.halted
  conn : t.conns i = ((s.conns i).handle
    (requestText (call.request (s.clients i).lib)).length sc).reply ret
  conns : ∀ j, j ≠ i → t.conns j = s.conns j
  answers : t.answers = s.answers ++ [⟨i, call, sc, ret⟩]
  others : ∀ p, p ≠ D.home i → (t.pus p).world =
    if p = D.peer (D.home i) then peer else (s.pus p).world

/-- Every step in which an OS answers a request it has read whole is one of these. -/
theorem SmartInv.serve (h : SmartInv D s) {data : List Byte} {k peerKernel : Kernel}
    {L : LoopState} {peer : World} {sc : Syscall} {ret : Int32} (h_data : data ≠ [])
    (h_whole : data = (s.conns i).toOs) (h_host : D.host k) (h_peerHost : D.host peerKernel)
    (h_handle : handleRead D.P k peerKernel (s.pus (D.home i))
      (s.pus (D.peer (D.home i))).world data = .ok (L, peer, sc, ret)) :
    ∃ call, Serve D s { ((s.setWorld (D.peer (D.home i)) peer).setPu (D.home i) L).setConn i
        (((s.conns i).handle data.length sc).reply ret) with
      answers := s.answers ++ (s.clients i).phase.pending.toList.map fun c => ⟨i, c, sc, ret⟩ }
      i call sc k peerKernel peer ret := by
  subst h_whole
  obtain ⟨call, h_phase, h_asked, h_toOs⟩ := (h.clients i).asked h_data
  obtain ⟨L₁, w, h_receive, h_answer, rfl⟩ := handleRead_eq_ok.mp h_handle
  obtain ⟨buf, h_request⟩ := receive_request k (s.pus (D.home i)) (s.clients i).lib call
  rw [← h_toOs, h_receive] at h_request
  cases h_sc : call.syscall (s.clients i).lib with
  | none => exact absurd (h_request.trans (by rw [h_sc])) (by simp)
  | some sc' =>
    rw [h_sc] at h_request
    obtain ⟨rfl, rfl⟩ := Prod.mk.inj (Except.ok.inj h_request)
    have h_home := Function.update_self (D.home i) (⟨w, buf, call.request (s.clients i).lib⟩ :
      LoopState) (s.setWorld (D.peer (D.home i)) peer).pus
    -- the PU that answered is updated last
    refine ⟨call, h_phase, h_asked, h_sc, h_host, h_peerHost, ?_, rfl, rfl, rfl, ?_, ?_, ?_, ?_⟩
    · rw [h_answer]
      exact congrArg (fun L : LoopState => Except.ok (L.world, peer, ret)) h_home.symm
    · rw [h_toOs]
      exact Function.update_self _ _ _
    · intro j h_j
      exact Function.update_of_ne h_j _ _
    · rw [h_phase]
      rfl
    · -- on the others the peer has been written
      intro p h_p
      change (Function.update (Function.update s.pus (D.peer (D.home i)) _) (D.home i) _ p).world
        = _
      rw [Function.update_of_ne h_p]
      by_cases h_peer : p = D.peer (D.home i)
      · rw [if_pos h_peer, h_peer, Function.update_self]
      · rw [if_neg h_peer, Function.update_of_ne h_peer]

/-- A registration: the cursor moves to an entry; either the entry is taken and the call refused, or
it was free, now holds the process and its segment, and is returned. -/
theorem registration_spec {P : Platform} {k : Kernel} {w w' : World} {localPid ret : Int32}
    (h_obliging : k.Obliging)
    (h : syscallRegisterGlobal P k w localPid = .ok (w', ret)) :
    ∃ a : Slot, w'.os.globalProcessNow = a.toInt32 ∧
      ((ret = -1 ∧ w'.os.globalProcessList = w.os.globalProcessList) ∨
        (ret = a.toInt32 ∧ (w.os.globalProcessList a).localPid.toInt < 0 ∧
          w'.os.globalProcessList = Function.update w.os.globalProcessList a
            ⟨w.os.currentPuId, localPid, a.toInt32, .attached (P.ftok (shmPath a.toInt32))⟩)) := by
  obtain ⟨now, a, list, h_next, h_slot, rfl, h_case⟩ := syscallRegisterGlobal_cases h
  obtain rfl := slot_eq_ok h_slot
  refine ⟨a, rfl, ?_⟩
  -- the three cases of the handler: taken, no segment file, free
  rcases h_case with ⟨-, rfl, rfl⟩ | ⟨-, h_fopen, -⟩ | ⟨h_free, -, -, rfl, rfl⟩
  · exact Or.inl ⟨rfl, rfl⟩
  · exact absurd (h_obliging.fopen.symm.trans h_fopen) (by simp)
  · exact Or.inr ⟨rfl, h_free, by rw [if_pos h_obliging.shmat]⟩

namespace Serve

variable {sc : Syscall} {k peerKernel : Kernel} {peer : World} {ret : Int32}

theorem served (hs : Serve D s t i call sc k peerKernel peer ret) :
    Served D.P (s.pus (D.home i)).world sc (t.pus (D.home i)).world ret :=
  Syscall.served_of_answer hs.answer

theorem frame (hs : Serve D s t i call sc k peerKernel peer ret) :
    Frame D.P (s.pus (D.home i)).world (s.pus (D.peer (D.home i))).world sc
      (t.pus (D.home i)).world ret := Syscall.answer_frame hs.answer

/-- The other PU keeps its OS and its segments. -/
theorem other (hs : Serve D s t i call sc k peerKernel peer ret) (h_p : p ≠ D.home i) :
    (t.pus p).world.os = (s.pus p).world.os ∧ (t.pus p).world.shm = (s.pus p).world.shm := by
  rw [hs.others p h_p]
  by_cases h_peer : p = D.peer (D.home i)
  · rw [if_pos h_peer, h_peer]
    -- the peer takes part only in a call that goes through the DSM server
    rcases Syscall.answer_cases hs.answer with ⟨-, h_same⟩ | ⟨_, _, _, _, -, h_serve, -⟩
    · rw [h_same]
      exact ⟨rfl, rfl⟩
    · exact runTwoWayServer_frame h_serve
  · rw [if_neg h_peer]
    exact ⟨rfl, rfl⟩

theorem inited (hs : Serve D s t i call sc k peerKernel peer ret) {g : Int32}
    (h : Inited D s.answers g) : Inited D t.answers g := by
  rw [hs.answers]
  exact h.snoc

theorem answers_subset (hs : Serve D s t i call sc k peerKernel peer ret) :
    s.answers ⊆ t.answers := by
  rw [hs.answers]
  exact List.subset_append_left _ _

/-- The syscall is a registration exactly when the call is. -/
theorem register_iff (hs : Serve D s t i call sc k peerKernel peer ret) :
    call = .registerSelfGlobal ↔ ∃ localPid, sc = .registerSelfGlobal localPid := by
  have h_sc := hs.syscall
  constructor
  · rintro rfl
    exact ⟨0, (Option.some.inj h_sc).symm⟩
  · -- each call has its own syscall
    rintro ⟨localPid, rfl⟩
    cases call with
    | registerSelfGlobal => rfl
    | globalFifoClose => exact absurd h_sc (by simp [LibCall.syscall])
    | _ => exact absurd (Option.some.inj h_sc) (by simp)

/-- What the answer does to the process table. -/
theorem processes (h : SmartInv D s) (h_obliging : ∀ k, D.host k → k.Obliging)
    (hs : Serve D s t i call sc k peerKernel peer ret) :
    ∃ a : Slot, (t.pus (D.home i)).world.os.globalProcessNow = a.toInt32 ∧
      (((call = .registerSelfGlobal → ret = -1) ∧
        (t.pus (D.home i)).world.os.globalProcessList
          = (s.pus (D.home i)).world.os.globalProcessList) ∨
        (call = .registerSelfGlobal ∧ ret = a.toInt32 ∧
          ((s.pus (D.home i)).world.os.globalProcessList a).localPid.toInt < 0 ∧
          (t.pus (D.home i)).world.os.globalProcessList
            = Function.update (s.pus (D.home i)).world.os.globalProcessList a
              ⟨(s.pus (D.home i)).world.os.currentPuId, 0, a.toInt32, .attached (D.key a)⟩)) := by
  obtain ⟨n, h_now⟩ := (h.pus (D.home i)).cursor
  by_cases h_register : call = .registerSelfGlobal
  · obtain rfl : sc = .registerSelfGlobal 0 := by
      have h_sc := hs.syscall
      rw [h_register] at h_sc
      exact (Option.some.inj h_sc).symm
    rcases Syscall.answer_cases hs.answer with ⟨h_run, -⟩ | ⟨_, _, _, _, h_run, -, -⟩
    · -- a registration is answered at once
      obtain ⟨⟨w, r⟩, h_reg, h_out⟩ := Exec.bind_eq_ok.mp h_run
      obtain ⟨h_w, rfl⟩ := Outcome.reply.inj (Except.ok.inj h_out)
      obtain ⟨a, h_a, h_case⟩ := registration_spec (h_obliging k hs.host) h_reg
      have h_w' : w = (t.pus (D.home i)).world := h_w
      rw [h_w'] at h_a h_case
      exact ⟨a, h_a, h_case.imp (fun ⟨h_ret, h_list⟩ => ⟨fun _ => h_ret, h_list⟩)
        fun ⟨h_ret, h_free, h_list⟩ => ⟨h_register, h_ret, h_free, h_list⟩⟩
    · -- and never goes to the peer
      obtain ⟨⟨w, r⟩, -, h_out⟩ := Exec.bind_eq_ok.mp h_run
      exact absurd (Except.ok.inj h_out) (by simp)
  · -- every other syscall leaves the process table alone
    have h_same := hs.frame.processes fun localPid h_sc =>
      h_register (hs.register_iff.mpr ⟨localPid, h_sc⟩)
    exact ⟨n, h_same.2.trans h_now, Or.inl ⟨fun h_call => absurd h_call h_register, h_same.1⟩⟩

/-- Each PU. -/
theorem puOk (h : SmartInv D s) (h_obliging : ∀ k, D.host k → k.Obliging)
    (hs : Serve D s t i call sc k peerKernel peer ret) (p : κ) : PuOk D t p := by
  by_cases h_p : p = D.home i
  · subst h_p
    have h_pu := h.pus (D.home i)
    have h_events : eventsAt D t.answers (D.home i)
        = eventsAt D s.answers (D.home i) ++ [.syscall sc ret] := by
      rw [hs.answers]
      exact eventsAt_snoc_self rfl
    refine ⟨?_, ?_, fun g h_g => ?_⟩
    · -- the history of the PU's OS got this one syscall
      rw [h_events]
      have hstep : (osInstance D.P (puNumber (D.puId (D.home i))) 0).step
        (s.pus (D.home i)).world (.syscall sc ret) (t.pus (D.home i)).world := hs.served
      exact h_pu.history.step hstep
    · obtain ⟨a, h_a, -⟩ := hs.processes h h_obliging
      exact ⟨a, h_a⟩
    · -- a new entry of the directory is an id just handed out, or one the peer knew
      rcases hs.frame.directory h_pu.history.table.table g h_g with h_old | ⟨rfl, h_new⟩
      · exact hs.inited (h_pu.directory g h_old)
      · rcases h_new with ⟨h_nonneg, _, _, _, h_call⟩ | ⟨-, h_peer⟩
        · rw [hs.answers]
          exact Inited.of_fifoInit h_call h_nonneg
        · exact hs.inited ((h.pus _).directory g h_peer)
  · refine (h.pus p).mono (hs.other h_p).1 ?_ fun g h_g => hs.inited h_g
    rw [hs.answers]
    exact eventsAt_snoc_of_ne (Ne.symm h_p)

/-- Who has which pid afterwards. -/
theorem hasPid_iff (hs : Serve D s t i call sc k peerKernel peer ret) {a : Slot} :
    HasPid t j a ↔ HasPid s j a ∨ j = i ∧ call = .registerSelfGlobal ∧ ret = a.toInt32 := by
  unfold HasPid
  rw [hs.answers]
  constructor
  · -- the answers are the old ones and this one
    rintro ⟨x, h_x, rfl, h_call, h_ret⟩
    rcases List.mem_append.mp h_x with h_old | h_new
    · exact Or.inl ⟨x, h_old, rfl, h_call, h_ret⟩
    · obtain rfl := List.mem_singleton.mp h_new
      exact Or.inr ⟨rfl, h_call, h_ret⟩
  · rintro (⟨x, h_x, h⟩ | ⟨rfl, h_call, h_ret⟩)
    · exact ⟨x, List.mem_append_left _ h_x, h⟩
    · exact ⟨_, List.mem_append_right _ List.mem_cons_self, rfl, h_call, h_ret⟩

/-- An entry that was taken stays as it is. -/
theorem processList_of_hasPid (h : SmartInv D s) (h_obliging : ∀ k, D.host k → k.Obliging)
    (hs : Serve D s t i call sc k peerKernel peer ret) {a : Slot} (h_a : HasPid s j a)
    (h_home : D.home j = D.home i) : (t.pus (D.home i)).world.os.globalProcessList a
      = (s.pus (D.home i)).world.os.globalProcessList a := by
  obtain ⟨b, -, ⟨-, h_list⟩ | ⟨-, -, h_free, h_list⟩⟩ := hs.processes h h_obliging
  · rw [h_list]
  · rw [h_list, Function.update_of_ne]
    rintro rfl
    have h_entry := (h.answers.entry j a h_a).1
    rw [h_home] at h_entry
    omega

/-- A pid that is handed out was nobody's on this PU. -/
theorem ret_ne_of_hasPid (h : SmartInv D s) (h_obliging : ∀ k, D.host k → k.Obliging)
    (hs : Serve D s t i call sc k peerKernel peer ret) {a : Slot} (h_a : HasPid s j a)
    (h_home : D.home j = D.home i) (h_register : call = .registerSelfGlobal) :
    ret ≠ a.toInt32 := by
  intro h_ret
  obtain ⟨b, -, ⟨h_minus, -⟩ | ⟨-, h_b, h_free, -⟩⟩ := hs.processes h h_obliging
  · exact a.toInt32_ne_neg_one (h_ret.symm.trans (h_minus h_register))
  · obtain rfl := Slot.toInt32_injective (h_b.symm.trans h_ret)
    have h_entry := (h.answers.entry j b h_a).1
    rw [h_home] at h_entry
    omega

/-- An id that is handed out is one of a FIFO_INIT. -/
theorem inited_of_issue (h : SmartInv D s)
    (hs : Serve D s t i call sc k peerKernel peer ret) {g : Int32} (h_g : g ∈ call.issue ret) :
    Inited D t.answers g := by
  obtain ⟨h_nonneg, rfl, h_kind⟩ := LibCall.mem_issue h_g (s.clients i).lib
  rcases h_kind with ⟨localUuid, globalUuid, h_init⟩ | ⟨globalUuid, h_connect⟩
  · rw [hs.answers]
    exact Inited.of_fifoInit (Option.some.inj (hs.syscall.symm.trans h_init)) h_nonneg
  · obtain rfl := Option.some.inj (hs.syscall.symm.trans h_connect)
    have h_answer := Syscall.answer_connect hs.answer
    -- a uuid is looked up in the directory here, and then in that of the peer
    rcases h_answer with ⟨-, h_minus | h_here | ⟨-, h_there⟩⟩ | ⟨-, h_there, -⟩
    · rw [h_minus] at h_nonneg
      exact absurd h_nonneg (by decide)
    · exact hs.inited ((h.pus _).directory _ h_here)
    · exact hs.inited ((h.pus _).directory _ h_there)
    · exact hs.inited ((h.pus _).directory _ h_there)

/-- The answers. -/
theorem answersOk (h : SmartInv D s) (h_obliging : ∀ k, D.host k → k.Obliging)
    (hs : Serve D s t i call sc k peerKernel peer ret) : AnswersOk D t := by
  obtain ⟨a, -, h_case⟩ := hs.processes h h_obliging
  constructor
  · -- what a registration returns
    intro x h_x h_register h_nonneg
    rw [hs.answers] at h_x
    rcases List.mem_append.mp h_x with h_old | h_new
    · exact h.answers.pid x h_old h_register h_nonneg
    · obtain rfl := List.mem_singleton.mp h_new
      rcases h_case with ⟨h_minus, -⟩ | ⟨-, h_a, -⟩
      · have h_nonneg' : 0 ≤ ret.toInt := h_nonneg
        rw [h_minus h_register] at h_nonneg'
        exact absurd h_nonneg' (by decide)
      · exact ⟨a, h_a⟩
  · -- whose entry it is
    intro j b h_b
    rcases hs.hasPid_iff.mp h_b with h_old | ⟨rfl, h_register, h_ret⟩
    · have h_entry := h.answers.entry j b h_old
      by_cases h_home : D.home j = D.home i
      · rw [h_home] at h_entry ⊢
        rw [hs.processList_of_hasPid h h_obliging h_old h_home]
        exact h_entry
      · rw [(hs.other h_home).1]
        exact h_entry
    · rcases h_case with ⟨h_minus, -⟩ | ⟨-, h_a, -, h_list⟩
      · exact absurd (h_ret.symm.trans (h_minus h_register)) b.toInt32_ne_neg_one
      · obtain rfl := Slot.toInt32_injective (h_a.symm.trans h_ret)
        rw [h_list, Function.update_self]
        exact ⟨Int.le_refl 0, rfl⟩
  · -- nobody else has it
    intro j j' b h_j h_j' h_home
    rcases hs.hasPid_iff.mp h_j with h_old | ⟨rfl, h_register, h_ret⟩
    · rcases hs.hasPid_iff.mp h_j' with h_old' | ⟨rfl, h_register, h_ret⟩
      · exact h.answers.unique j j' b h_old h_old' h_home
      · exact absurd h_ret (hs.ret_ne_of_hasPid h h_obliging h_old h_home h_register)
    · rcases hs.hasPid_iff.mp h_j' with h_old' | ⟨rfl, -, -⟩
      · exact absurd h_ret (hs.ret_ne_of_hasPid h h_obliging h_old' h_home.symm h_register)
      · rfl
  · -- ids of FIFOs
    intro x h_x g h_g
    rw [hs.answers] at h_x
    rcases List.mem_append.mp h_x with h_old | h_new
    · exact hs.inited (h.answers.fifo x h_old g h_g)
    · obtain rfl := List.mem_singleton.mp h_new
      exact hs.inited_of_issue h h_g

/-- The client that is answered. -/
theorem clientOk_self (h : SmartInv D s) (hs : Serve D s t i call sc k peerKernel peer ret) :
    ClientOk D t i := by
  have h_phase : (t.clients i).phase = .waiting call := by rw [hs.clients, hs.phase]
  have h_dispatch : dispatch (call.request (s.clients i).lib) = .ok sc := by
    rw [dispatch_request, hs.syscall]
    rfl
  -- the client waits, so what the OS has handled is its request
  obtain ⟨h_handled, h_lt⟩ := hs.asked.framed.handle h_dispatch
  refine ⟨(h.clients i).lib.mono (by rw [hs.clients]) hs.answers_subset,
    (phaseOk_waiting h_phase).mpr (Or.inr ⟨ret, ?_, ?_, ?_⟩)⟩
  · rw [hs.conn]
    exact h_handled.reply h_lt ret
  · rw [hs.clients, hs.answers, callsOf_snoc_self rfl]
    exact hs.asked.made
  · rw [hs.answers]
    exact ⟨_, List.mem_append_right _ List.mem_cons_self, rfl, rfl, rfl⟩

/-- The segments of the other clients. -/
theorem shm_other (h : SmartInv D s) (h_keys : s.DistinctSegments D)
    (hs : Serve D s t i call sc k peerKernel peer ret) (h_j : j ≠ i) {b : Slot}
    (h_b : Registered D s j b) : (t.pus (D.home j)).world.shm (D.key b)
      = (s.pus (D.home j)).world.shm (D.key b) := by
  by_cases h_home : D.home j = D.home i
  · -- the client is on the same PU, where only a write touches a segment
    rw [h_home]
    by_cases h_write : ∃ globalFifo shmid length, sc = .fifoWrite globalFifo shmid length
    · -- the segment that a write changes is the writer's own
      obtain ⟨globalFifo, shmid, length, rfl⟩ := h_write
      obtain ⟨a, h_a, h_shmid⟩ : ∃ a, Registered D s i a ∧ shmid = a.toInt32 := by
        have h_sc := hs.syscall
        cases call with
        | globalFifoWrite g buf len =>
          obtain ⟨a, h_a, -⟩ := hs.asked.prepared.segment rfl
          obtain ⟨-, h_uuid, -⟩ := Syscall.fifoWrite.inj (Option.some.inj h_sc)
          exact ⟨a, h_a, by rw [← h_uuid, h_a.uuid]⟩
        | globalFifoClose => exact absurd h_sc (by simp [LibCall.syscall])
        | _ => exact absurd (Option.some.inj h_sc) (by simp)
      obtain ⟨i', key, seg, h_slot, h_shm, h_new⟩ := Syscall.answer_write hs.answer
      rw [h_shmid, slot_toInt32] at h_slot
      obtain rfl := Except.ok.inj h_slot
      obtain rfl := ShmAddr.attached.inj
        (h_shm.symm.trans (h.answers.entry i a h_a.hasPid).2)
      rw [h_new]
      exact Function.update_of_ne (h.key_ne h_keys h_b h_a h_home h_j) _ _
    · rw [(hs.frame.memory fun g m l h_sc => h_write ⟨g, m, l, h_sc⟩).1]
  · -- an answer on another PU changes no segment here
    rw [(hs.other h_home).2]

/-- **The answered request keeps the invariant.** -/
theorem smartInv (h : SmartInv D s) (h_keys : s.DistinctSegments D)
    (h_obliging : ∀ k, D.host k → k.Obliging)
    (hs : Serve D s t i call sc k peerKernel peer ret) : SmartInv D t where
  pus := hs.puOk h h_obliging
  answers := hs.answersOk h h_obliging
  clients j := by
    by_cases h_j : j = i
    · subst h_j
      exact hs.clientOk_self h
    · refine (h.clients j).mono (hs.conns j h_j) (by rw [hs.clients]) ?_ hs.answers_subset
        (fun g h_g => hs.inited h_g) fun b h_b => hs.shm_other h h_keys h_j h_b
      rw [hs.answers]
      exact callsOf_snoc_of_ne (Ne.symm h_j)
  issued g h_g := by
    rw [hs.issued] at h_g
    exact hs.inited (h.issued g h_g)

end Serve

/-! ### Every step, every run -/

theorem SmartInv.init (h : (smartComputer D).init s) : SmartInv D s := by
  obtain ⟨h_os, -, h_conns, h_clients, h_issued, h_answers⟩ := h
  have h_none : ∀ i a, ¬ HasPid s i a := by
    rintro i a ⟨x, h_x, -⟩
    rw [h_answers] at h_x
    exact absurd h_x List.not_mem_nil
  -- nothing was answered yet and nobody has called
  refine ⟨fun p => ?_, ⟨?_, ?_, ?_, ?_⟩, fun i => ?_, ?_⟩
  · obtain ⟨osPort, os, h_init, h_world⟩ := h_os p
    have h_history : FifoHistory (D.puId p) [] (s.pus p).world := by
      rw [h_world]
      exact FifoHistory.init (w := World.boot os) h_init
    obtain ⟨port, now, -, -, rfl⟩ := globalOsInit_eq_ok.mp h_init
    refine ⟨by rw [h_answers]; exact h_history, ⟨0, by rw [h_world]; rfl⟩, fun g h_g => ?_⟩
    rw [h_world] at h_g
    exact absurd h_g (HashTable.not_stores_htSetup 10240 g)
  · intro x h_x
    rw [h_answers] at h_x
    exact absurd h_x List.not_mem_nil
  · exact fun i a h_a => absurd h_a (h_none i a)
  · exact fun i j a h_a => absurd h_a (h_none i a)
  · intro x h_x
    rw [h_answers] at h_x
    exact absurd h_x List.not_mem_nil
  · have h_phase : (s.clients i).phase = .ready := by rw [h_clients i]
    refine ⟨Or.inl (by rw [h_clients i]; rfl), (phaseOk_ready h_phase).mpr ⟨?_, ?_⟩⟩
    · rw [h_conns i]
      exact Connection.framed_opened
    · rw [h_clients i, h_answers]
      rfl
  · intro g h_g
    rw [h_issued] at h_g
    exact absurd h_g List.not_mem_nil

/-- Every read returns the whole of what is waiting. -/
def SmartState.WholeRead (s : SmartState κ ι) : SmartEvent ι → Prop
  | .read i data => data = (s.conns i).toOs
  | _ => True

/-- **One step of a smart computer.** -/
theorem SmartInv.step (h : SmartInv D s) (h_keys : s.DistinctSegments D)
    (h_obliging : ∀ k, D.host k → k.Obliging) {l : SmartEvent ι} (h_whole : s.WholeRead l)
    (hstep : SmartStep D s l t) : SmartInv D t := by
  cases hstep with
  | call h_phase h_plain h_fifo =>
    refine h.prepare h_phase ⟨fun g h_g => h.issued g (h_fifo g h_g), fun h_uses => ?_⟩
    exact absurd (h_plain.symm.trans h_uses) nofun
  | put h_phase h_uses h_fifo h_addr h_put => exact h.put_step h_keys h_phase h_fifo h_addr h_put
  | request h_phase => exact h.request_step h_phase
  | serve h_live h_data h_max h_front h_host h_peerHost h_handle =>
    obtain ⟨call, hs⟩ := h.serve h_data h_whole h_host h_peerHost h_handle
    exact hs.smartInv h h_keys h_obliging
  | down =>
    exact h.of_quiet rfl (fun p => rfl) (fun j => (h.clients j).of_same rfl rfl rfl rfl) h.issued
  | receive h_phase h_arrived old => exact h.receive_step h_phase h_arrived old

/-- The runs whose reads return whole requests, while the segments that were handed out differ. -/
def wholeRuns (D : SmartComputer κ ι) : System (SmartState κ ι) (SmartEvent ι) :=
  (smartComputer D).restrict fun s l => s.WholeRead l ∧ s.DistinctSegments D

theorem smartInv (h_obliging : ∀ k, D.host k → k.Obliging) {ls : List (SmartEvent ι)}
    (h_reach : (wholeRuns D).Reaches ls s) : SmartInv D s := by
  refine System.Reaches.invariant ?_ ?_ h_reach
  · intro s h_init
    exact SmartInv.init h_init
  · rintro s l t h ⟨⟨h_whole, h_keys⟩, hstep⟩
    exact h.step h_keys h_obliging h_whole hstep

end MoleculeOS
