import MoleculeOS.Model.OobExchange
import MoleculeOS.Preparation

/-!
# Two PUs that start up

A block that is sent with its length is received as it was sent (`takes_recvBlock`), so the two ends
of a connection that ask the same of their transports get the addresses of each other, step by step
(`leads_exchangeStep`, `leads_runSteps`). When exactly one PU has the number 0, it listens first and
the other connects first: if no step fails, each context gets the addresses of the context it is
connected to, in every schedule and after the same number of steps (`startup_exchange`). Else both
listen, or both try to connect, and neither ever comes to serve (`startup_blocks`). That a context
is prepared means here what it means for the function that acquires and releases the resources
(`passes_ofHosts_iff`, `stores_of_prepared`).
-/

namespace MoleculeOS

open Stdio Streams Transition System

/-! ### Lengths as bytes -/

theorem length_sizeBytes (width n : ℕ) : (sizeBytes width n).length = width := by
  induction width generalizing n with
  | zero => rfl
  | succ width ih => exact congrArg (· + 1) (ih (n / 256))

theorem sizeOfBytes_sizeBytes (width n : ℕ) :
    sizeOfBytes (sizeBytes width n) = n % 256 ^ width := by
  induction width generalizing n with
  | zero => exact (Nat.mod_one n).symm
  -- the first byte is the remainder by 256, and the other ones are the bytes of the quotient
  | succ width ih =>
    change (UInt8.ofNat n).toNat + 256 * sizeOfBytes (sizeBytes width (n / 256)) = _
    rw [ih, Nat.pow_succ', Nat.mod_mul]
    rfl

/-- A length that `sendrecv` accepts. -/
theorem sizeOfBytes_length {n : ℕ} (h : n ≤ sizeMax / 2) : sizeOfBytes (sizeBytes 8 n) = n := by
  rw [sizeOfBytes_sizeBytes]
  -- `SIZE_MAX / 2` fits in eight bytes
  refine Nat.mod_eq_of_lt (h.trans_lt ?_)
  decide

/-! ### The two ends of a connection -/

theorem other_ne (self : Pu) : self.other ≠ self := by cases self <;> decide

theorem other_other (self : Pu) : self.other.other = self := by cases self <;> rfl

theorem eq_other_of_ne {self x : Pu} (h : x ≠ self) : x = self.other := by
  cases self <;> cases x <;> first | rfl | exact absurd rfl h

/-- Two PUs with nothing on its way. -/
def pair {ρ : Type} (self : Pu) (p q : OobScript ρ) : Network Pu OobPort Byte ρ :=
  ⟨fun x => if x = self then p else q, fun _ => []⟩

theorem pair_other {ρ : Type} (self : Pu) (p q : OobScript ρ) :
    pair self.other p q = pair self q p := by
  unfold pair
  congr 1
  funext x
  cases self <;> cases x <;> rfl

section Exchange

variable {ρ : Type} {room : ℕ} {scripts : Pu → OobScript ρ} {self : Pu} {sock : OobPort}

theorem pair_proc_other (p q : OobScript ρ) : (pair self p q).proc self.other = q :=
  if_neg (other_ne self)

/-- Both PUs have gone on. -/
theorem pair_update (p q p' q' : OobScript ρ) :
    (⟨Function.update (Function.update (pair self p q).proc self p') self.other q',
      (pair self p q).chan⟩ : Network Pu OobPort Byte ρ) = pair self p' q' := by
  unfold pair
  congr 1
  funext x
  by_cases h : x = self
  · subst h
    rw [Function.update_of_ne (other_ne x).symm, Function.update_self, if_pos rfl]
  · obtain rfl := eq_other_of_ne h
    rw [Function.update_self, if_neg h]

theorem pair_transfer {τ : Type} {r : OobScript τ} {a : τ} {xs : List Byte} {k : Unit → OobScript ρ}
    {k' : τ → OobScript ρ} (h_room : xs.length ≤ room)
    (h_r : Takes room scripts r self sock xs a) :
    (network room scripts).Leads (pair self (Script.sendAll self.other sock xs >>= k) (r >>= k'))
      (pair self (k ()) (k' a)) := by
  have h := leads_transfer (s := pair self (Script.sendAll self.other sock xs >>= k) (r >>= k'))
    (other_ne self).symm (if_pos rfl) (pair_proc_other _ _) rfl h_room h_r
  rwa [pair_update] at h

theorem pair_exchange {τ τ' : Type} {r : OobScript τ} {r' : OobScript τ'} {a : τ} {b : τ'}
    {xs ys : List Byte} {k : τ → OobScript ρ} {k' : τ' → OobScript ρ}
    (h_room : xs.length ≤ room) (h_room' : ys.length ≤ room)
    (h_r : Takes room scripts r self.other sock ys a)
    (h_r' : Takes room scripts r' self sock xs b) :
    (network room scripts).Leads
      (pair self (Script.sendAll self.other sock xs >>= fun _ => r >>= k)
        (Script.sendAll self sock ys >>= fun _ => r' >>= k'))
      (pair self (k a) (k' b)) := by
  have h := leads_exchange (s := pair self (Script.sendAll self.other sock xs >>= fun _ => r >>= k)
      (Script.sendAll self sock ys >>= fun _ => r' >>= k'))
    (other_ne self).symm (if_pos rfl) (pair_proc_other _ _) rfl rfl h_room h_room' h_r h_r'
  rwa [pair_update] at h

/-! ### Blocks -/

/-- What is sent of a block. -/
def frame (block : List Byte) : List Byte := sizeBytes 8 block.length ++ block

/-- The receiving half of `sendrecv`. -/
def recvBlock (peer : Pu) (sock : OobPort) : OobScript (Option (List Byte)) := do
  let rlen ← Script.recvN peer sock 8
  if sizeMax / 2 < sizeOfBytes rlen then return none
  let rbuf ← Script.recvN peer sock (sizeOfBytes rlen)
  return some rbuf

theorem sendAll_append (dst : Pu) (port : OobPort) (xs ys : List Byte) (k : Unit → OobScript ρ) :
    (Script.sendAll dst port xs >>= fun _ => Script.sendAll dst port ys >>= k) =
      (Script.sendAll dst port (xs ++ ys) >>= k) := by
  induction xs with
  | nil => rfl
  | cons x xs ih => exact congrArg (Script.send dst port x) ih

theorem sendrecv_bind (peer : Pu) (sock : OobPort) (block : List Byte)
    (k : Option (List Byte) → OobScript ρ) : (sendrecv peer (some sock) block >>= k) =
      (Script.sendAll peer sock (frame block) >>= fun _ => recvBlock peer sock >>= k) := by
  unfold frame
  -- the length and the block are two calls of `send`, and one text on the stream
  rw [← sendAll_append]
  change ((Script.sendAll peer sock _ >>= fun _ => _) >>= k) = _
  rw [Script.bind_bind]
  congr 1
  funext u
  rw [Script.bind_bind]
  rfl

/-- A block that is there is received. -/
theorem takes_recvBlock {src : Pu} {block : List Byte} (h_len : block.length ≤ sizeMax / 2) :
    Takes room scripts (recvBlock src sock) src sock (frame block) (some block) := by
  have h_width := length_sizeBytes 8 block.length
  have h_size := sizeOfBytes_length h_len
  unfold frame
  set len := sizeBytes 8 block.length with h_def
  -- eight bytes say how many follow, and the check on the length passes
  refine (takes_recvN h_width).bind ?_
  rw [h_size, if_neg h_len.not_gt]
  exact (takes_recvN rfl).map some

/-- `sendrecv` accepts the length of the block, and the buffers of the sockets take it. -/
structure Sendable (room : ℕ) (block : List Byte) : Prop where
  short : block.length ≤ sizeMax / 2
  room : 8 + block.length ≤ room

theorem Sendable.length_frame {block : List Byte} (h : Sendable room block) :
    (frame block).length ≤ room := by
  unfold frame
  rw [List.length_append, length_sizeBytes]
  exact h.room

theorem leads_sendrecv {block block' : List Byte} {k k' : Option (List Byte) → OobScript ρ}
    (h : Sendable room block) (h' : Sendable room block') :
    (network room scripts).Leads
      (pair self (sendrecv self.other (some sock) block >>= k)
        (sendrecv self (some sock) block' >>= k'))
      (pair self (k (some block')) (k' (some block))) := by
  -- both send before either receives, which the room in the buffers allows
  rw [sendrecv_bind, sendrecv_bind]
  exact pair_exchange h.length_frame h'.length_frame (takes_recvBlock h'.short)
    (takes_recvBlock h.short)

theorem leads_barrier {k k' : Option Unit → OobScript ρ} (h_room : 4 ≤ room) :
    (network room scripts).Leads
      (pair self (barrier self.other (some sock) >>= k) (barrier self (some sock) >>= k'))
      (pair self (k (some ())) (k' (some ()))) := by
  have h_takes : ∀ src, Takes room scripts (Script.recvN src sock 4 >>= fun _ => pure (some ()))
      src sock [0, 0, 0, 0] (some ()) := fun src => by
    refine Takes.map (a := [0, 0, 0, 0]) (takes_recvN ?_) fun _ => some ()
    rfl
  exact pair_exchange h_room h_room (h_takes self.other) (h_takes self)

/-- One PU listens, the other one connects. -/
theorem leads_connect {k k' : OobPort → OobScript ρ} (h_room : 0 < room) :
    (network room scripts).Leads
      (pair self (serverConnect self >>= k) (clientConnect self.other >>= k'))
      (pair self (k (.data self)) (k' (.data self))) := by
  have h_server : (serverConnect self >>= k) = (Script.sendAll self.other (.syn self) [0] >>=
      fun _ => Script.recvN self.other (.syn self) 1 >>= fun _ => k (.data self)) := rfl
  -- the client asks the address of the other PU, so both use the port of the one that listens
  have h_client : (clientConnect self.other >>= k') = (Script.recvN self (.syn self) 1 >>=
      fun _ => Script.sendAll self (.syn self) [0] >>= fun _ => k' (.data self)) := by
    cases self <;> rfl
  have h_takes : ∀ src,
      Takes room scripts (Script.recvN src (.syn self) 1) src (.syn self) [0] [0] :=
    fun src => takes_recvN rfl
  -- the other PU gets through
  have h_first : (network room scripts).Leads
      (pair self (serverConnect self >>= k) (clientConnect self.other >>= k'))
      (pair self (Script.recvN self.other (.syn self) 1 >>= fun _ => k (.data self))
        (Script.sendAll self (.syn self) [0] >>= fun _ => k' (.data self))) := by
    rw [h_server, h_client]
    exact pair_transfer h_room (h_takes self)
  -- and is accepted
  have h_second : (network room scripts).Leads
      (pair self.other
        (Script.sendAll self.other.other (.syn self) [0] >>= fun _ => k' (.data self))
        (Script.recvN self.other (.syn self) 1 >>= fun _ => k (.data self)))
      (pair self.other (k' (.data self)) (k (.data self))) :=
    pair_transfer h_room (h_takes self.other)
  rw [pair_other, pair_other, other_other] at h_second
  exact h_first.trans h_second

/-! ### Steps -/

/-- The addresses of a PU can be exchanged. -/
structure OwnAddrs.Sendable (room : ℕ) (own : OwnAddrs) : Prop where
  dev : MoleculeOS.Sendable room own.dev
  iface : MoleculeOS.Sendable room own.iface
  ep : MoleculeOS.Sendable room own.ep

/-- What a step adds when the other end has these addresses. -/
def PeerAddrs.after (own : OwnAddrs) (peer : PeerAddrs) : PrepareStep → PeerAddrs
  | .deviceExchange => { peer with dev := some own.dev }
  | .ifaceExchange => { peer with iface := some own.iface }
  | .epExchange => { peer with ep := some own.ep }
  | _ => peer

/-- What is received in the course of some steps. -/
def PeerAddrs.afterAll (own : OwnAddrs) (peer : PeerAddrs) (steps : List PrepareStep) : PeerAddrs :=
  steps.foldl (PeerAddrs.after own) peer

variable {own own' : OwnAddrs} {passes passes' : PrepareStep → Bool} {peer peer' : PeerAddrs}

/-- A step behind `oobConnect`, at both ends of a connection. -/
theorem leads_exchangeStep (h_own : own.Sendable room) (h_own' : own'.Sendable room)
    {step : PrepareStep} (h_step : step ≠ .oobConnect ∧ step ≠ .unsupported)
    {k k' : Option OobVars → OobScript ρ} :
    (network room scripts).Leads
      (pair self (exchangeStep own self .server ⟨some sock, peer⟩ step >>= k)
        (exchangeStep own' self.other .client ⟨some sock, peer'⟩ step >>= k'))
      (pair self (k (some ⟨some sock, peer.after own' step⟩))
        (k' (some ⟨some sock, peer'.after own step⟩))) := by
  have h_barrier : 4 ≤ room := (by omega : 4 ≤ 8 + own.dev.length).trans h_own.dev.room
  cases step with
  | oobConnect => exact absurd rfl h_step.1
  | unsupported => exact absurd rfl h_step.2
  | deviceExchange =>
    unfold exchangeStep
    rw [Script.bind_bind, Script.bind_bind, other_other]
    exact leads_sendrecv h_own.dev h_own'.dev
  | ifaceExchange =>
    unfold exchangeStep
    rw [Script.bind_bind, Script.bind_bind, other_other]
    exact leads_sendrecv h_own.iface h_own'.iface
  | epExchange =>
    unfold exchangeStep
    rw [Script.bind_bind, Script.bind_bind, other_other]
    exact leads_sendrecv h_own.ep h_own'.ep
  | barrier =>
    unfold exchangeStep
    rw [Script.bind_bind, Script.bind_bind, other_other]
    exact leads_barrier h_barrier
  -- the other steps do nothing on the socket
  | _ => exact Leads.refl _

/-- A step that passes is followed by the rest. -/
theorem runSteps_cons {step : PrepareStep} {rest : List PrepareStep} {side : Side} {vars : OobVars}
    (h : passes step = true) (k : Option OobVars → OobScript ρ) :
    (runSteps passes own self side (step :: rest) vars >>= k) =
      (exchangeStep own self side vars step >>= fun r => match r with
        | none => k none
        | some vars' => runSteps passes own self side rest vars' >>= k) := by
  conv_lhs => unfold runSteps
  rw [if_pos h, Script.bind_bind]
  congr 1
  funext r
  cases r <;> rfl

/-- The steps behind `oobConnect`: both ends get the addresses of each other. -/
theorem leads_runSteps (h_own : own.Sendable room) (h_own' : own'.Sendable room)
    {steps : List PrepareStep}
    (h_steps : ∀ step ∈ steps, step ≠ .oobConnect ∧ step ≠ .unsupported)
    (h_passes : ∀ step ∈ steps, passes step = true ∧ passes' step = true)
    {k k' : Option OobVars → OobScript ρ} :
    (network room scripts).Leads
      (pair self (runSteps passes own self .server steps ⟨some sock, peer⟩ >>= k)
        (runSteps passes' own' self.other .client steps ⟨some sock, peer'⟩ >>= k'))
      (pair self (k (some ⟨some sock, peer.afterAll own' steps⟩))
        (k' (some ⟨some sock, peer'.afterAll own steps⟩))) := by
  induction steps generalizing peer peer' with
  | nil => exact Leads.refl _
  -- both ends make the same step, as their transports are of the same kind
  | cons step rest ih =>
    obtain ⟨h_first, h_later⟩ := List.forall_mem_cons.mp h_steps
    obtain ⟨⟨h_pass, h_pass'⟩, h_passed⟩ := List.forall_mem_cons.mp h_passes
    rw [runSteps_cons h_pass, runSteps_cons h_pass']
    exact (leads_exchangeStep h_own h_own' h_first).trans (ih h_later h_passed)

/-- The steps up to the connection. -/
def connectSteps : List PrepareStep :=
  [.asyncContext, .worker, .transport, .deviceAddrMemory, .ifaceAddrMemory, .deviceAddress,
    .oobConnect]

/-- The steps behind it. -/
def exchangeSteps (caps : IfaceCaps) : List PrepareStep :=
  [.deviceExchange, .reachable] ++ PrepareHost.ifaceSteps caps ++ PrepareHost.epSteps caps ++
    [.maxSize, .amHandler]

theorem prepareSteps_eq_append (caps : IfaceCaps) :
    prepareSteps caps = connectSteps ++ exchangeSteps caps := rfl

/-- What the peer of a context receives. -/
def received (caps : IfaceCaps) (own : OwnAddrs) : PeerAddrs where
  dev := some own.dev
  iface := if caps.connectToIface then some own.iface else none
  ep := if caps.connectToEp then some own.ep else none

theorem afterAll_exchangeSteps (caps : IfaceCaps) (own : OwnAddrs) :
    (⟨none, none, none⟩ : PeerAddrs).afterAll own (exchangeSteps caps) = received caps own := by
  obtain ⟨connectToIface, connectToEp⟩ := caps
  -- which of the two addresses are exchanged is all that the kind of transport decides
  cases connectToIface <;> cases connectToEp <;> rfl

/-- A step that does nothing on the socket. -/
theorem runSteps_quiet {step : PrepareStep} {rest : List PrepareStep} {side : Side}
    {vars : OobVars} (h_quiet : exchangeStep own self side vars step = pure (some vars))
    (h : passes step = true) (k : Option OobVars → OobScript ρ) :
    (runSteps passes own self side (step :: rest) vars >>= k) =
      (runSteps passes own self side rest vars >>= k) := by
  rw [runSteps_cons h, h_quiet]
  rfl

/-- A preparation that comes to the connection. -/
theorem runSteps_connect (h : ∀ step ∈ connectSteps, passes step = true)
    (rest : List PrepareStep) (side : Side) (k : Option OobVars → OobScript ρ) :
    (runSteps passes own self side (connectSteps ++ rest) .null >>= k) =
      (oobConnect self side >>= fun sock =>
        runSteps passes own self side rest ⟨some sock, none, none, none⟩ >>= k) := by
  simp only [connectSteps, List.forall_mem_cons] at h
  obtain ⟨h_async, h_worker, h_transport, h_dev, h_iface, h_address, h_connect, -⟩ := h
  change (runSteps passes own self side (_ :: _ :: _ :: _ :: _ :: _ :: _ :: rest) _ >>= k) = _
  -- the six steps before it touch the host only
  rw [runSteps_quiet rfl h_async, runSteps_quiet rfl h_worker, runSteps_quiet rfl h_transport,
    runSteps_quiet rfl h_dev, runSteps_quiet rfl h_iface, runSteps_quiet rfl h_address,
    runSteps_cons h_connect]
  unfold exchangeStep
  rw [Script.bind_bind]
  rfl

/-- A listening context and the one that connects to it. -/
theorem leads_prepareDsmCtx {caps : IfaceCaps} (h_own : own.Sendable room)
    (h_own' : own'.Sendable room)
    (h_passes : ∀ step ∈ prepareSteps caps,
      step ≠ .unsupported ∧ passes step = true ∧ passes' step = true)
    {k k' : Option PeerAddrs → OobScript ρ} :
    (network room scripts).Leads
      (pair self (prepareDsmCtx passes caps own self .server >>= k)
        (prepareDsmCtx passes' caps own' self.other .client >>= k'))
      (pair self (k (some (received caps own'))) (k' (some (received caps own)))) := by
  have h_room : 0 < room := (by omega : 0 < 8 + own.dev.length).trans_le h_own.dev.room
  rw [prepareSteps_eq_append] at h_passes
  have h_connect := fun step h => (h_passes step (List.mem_append_left _ h)).2
  have h_exchange := fun step h => h_passes step (List.mem_append_right _ h)
  -- the connection is made once
  have h_steps : ∀ step ∈ exchangeSteps caps, step ≠ .oobConnect ∧ step ≠ .unsupported := by
    refine fun step h => ⟨?_, (h_exchange step h).1⟩
    rintro rfl
    obtain ⟨connectToIface, connectToEp⟩ := caps
    revert h
    cases connectToIface <;> cases connectToEp <;> decide
  unfold prepareDsmCtx
  rw [Script.bind_bind, Script.bind_bind, prepareSteps_eq_append,
    runSteps_connect fun step h => (h_connect step h).1,
    runSteps_connect fun step h => (h_connect step h).2]
  rw [← afterAll_exchangeSteps caps own, ← afterAll_exchangeSteps caps own']
  exact (leads_connect h_room).trans
    (leads_runSteps h_own h_own' h_steps fun step h => (h_exchange step h).2)

end Exchange

/-! ### The DSM threads -/

/-- The side of the context that a context is connected to. -/
def Side.other : Side → Side
  | .client => .server
  | .server => .client

/-- No step of the preparation of the context fails. -/
def PuConfig.Passes (c : PuConfig) (side : Side) : Prop :=
  ∀ step ∈ prepareSteps (c.caps side), step ≠ .unsupported ∧ c.passes side step = true

/-- The two PUs are set up for each other: the contexts that get connected use the same kind of
transport, the addresses can be exchanged, and no step fails. -/
structure Fits (room : ℕ) (cfg : Pu → PuConfig) : Prop where
  caps : ∀ self side, (cfg self).caps side = (cfg self.other).caps side.other
  sendable : ∀ self side, ((cfg self).own side).Sendable room
  passes : ∀ self side, (cfg self).Passes side

/-- The DSM threads of two PUs. -/
def dsmThreads (room : ℕ) (cfg : Pu → PuConfig) :
    System (Network Pu OobPort Byte (List (Side × Option PeerAddrs))) Pu :=
  network room fun self => dsmThread (cfg self) self

/-- Both PUs are about to prepare their contexts. -/
def dsmStart (cfg : Pu → PuConfig) : Network Pu OobPort Byte (List (Side × Option PeerAddrs)) :=
  ⟨fun self => dsmThread (cfg self) self, fun _ => []⟩

/-- What a PU should know in the end: for each context, what the other PU has to say about the
context it is connected to. -/
def acquainted (cfg : Pu → PuConfig) (self : Pu) : List (Side × Option PeerAddrs) :=
  (contextOrder (cfg self).puId).map fun side =>
    (side, some (received ((cfg self).caps side) ((cfg self.other).own side.other)))

section Startup

variable {room : ℕ} {cfg : Pu → PuConfig} {self : Pu}

theorem eq_pair {ρ : Type} (self : Pu) (p : Pu → OobScript ρ) :
    (⟨p, fun _ => []⟩ : Network Pu OobPort Byte ρ) = pair self (p self) (p self.other) := by
  unfold pair
  congr 1
  funext x
  by_cases h : x = self
  · rw [if_pos h, h]
  · rw [if_neg h, eq_other_of_ne h]

theorem prepareAll_cons (c : PuConfig) (side : Side) (later : List Side)
    (k : List (Side × Option PeerAddrs) → OobScript (List (Side × Option PeerAddrs))) :
    (prepareAll c self (side :: later) >>= k) =
      (prepareDsmCtx (c.passes side) (c.caps side) (c.own side) self side >>= fun peer =>
        prepareAll c self later >>= fun peers => k ((side, peer) :: peers)) := by
  conv_lhs => unfold prepareAll
  rw [Script.bind_bind]
  congr 1
  funext peer
  exact Script.bind_bind _ _ _

/-- A PU that listens next and a PU that connects next. -/
theorem leads_prepareAll (self : Pu) (h_fits : Fits room cfg) (later later' : List Side)
    (k k' : List (Side × Option PeerAddrs) → OobScript (List (Side × Option PeerAddrs))) :
    (dsmThreads room cfg).Leads
      (pair self (prepareAll (cfg self) self (.server :: later) >>= k)
        (prepareAll (cfg self.other) self.other (.client :: later') >>= k'))
      (pair self
        (prepareAll (cfg self) self later >>= fun peers => k ((.server,
          some (received ((cfg self).caps .server) ((cfg self.other).own .client))) :: peers))
        (prepareAll (cfg self.other) self.other later' >>= fun peers => k' ((.client,
          some (received ((cfg self.other).caps .client) ((cfg self).own .server))) ::
            peers))) := by
  have h_caps : (cfg self).caps .server = (cfg self.other).caps .client := h_fits.caps self .server
  have h_passes := h_fits.passes self .server
  have h_passes' := h_fits.passes self.other .client
  unfold PuConfig.Passes at h_passes h_passes'
  rw [h_caps] at h_passes
  rw [prepareAll_cons, prepareAll_cons, h_caps]
  exact leads_prepareDsmCtx (h_fits.sendable self .server) (h_fits.sendable self.other .client)
    fun step h => ⟨(h_passes step h).1, (h_passes step h).2, (h_passes' step h).2⟩

/-- One after the other, both pairs of contexts are prepared. -/
theorem leads_dsmThread (h_fits : Fits room cfg) (h_self : (cfg self).puId = 0)
    (h_other : (cfg self.other).puId ≠ 0) :
    (dsmThreads room cfg).Leads (dsmStart cfg)
      ⟨fun x => .done (acquainted cfg x), fun _ => []⟩ := by
  -- the server context of the PU with number 0 first, with the client context of the other
  have h_first := leads_prepareAll self h_fits [.client] [.server] pure pure
  -- then the same with the PUs exchanged
  have h_second := leads_prepareAll self.other h_fits [] []
    (fun peers => pure ((.client,
      some (received ((cfg self.other).caps .client) ((cfg self).own .server))) :: peers))
    (fun peers => pure ((.server,
      some (received ((cfg self).caps .server) ((cfg self.other).own .client))) :: peers))
  rw [other_other, pair_other, pair_other] at h_second
  rw [Script.bind_pure, Script.bind_pure] at h_first
  have h_run := h_first.trans h_second
  rw [eq_pair self (fun x => .done (acquainted cfg x))]
  unfold dsmStart
  rw [eq_pair self]
  unfold dsmThread acquainted contextOrder
  rw [if_pos h_self, if_neg h_other, other_other]
  exact h_run

/-! ### Exactly one PU has the number 0 -/

/-- **The PUs get to know each other.** If no step of their preparations fails, the threads of both
PUs end, after a number of steps that is the same in every run, and then each context knows the
addresses of the context it is connected to. -/
theorem startup_exchange (room : ℕ) (cfg : Pu → PuConfig) (h_fits : Fits room cfg)
    (h_roles : (cfg .first).puId = 0 ↔ (cfg .second).puId ≠ 0) :
    ∃ n, ∀ ls s, (dsmThreads room cfg).Run (dsmStart cfg) ls s →
      ∃ ns, (dsmThreads room cfg).Run s ns ⟨fun x => .done (acquainted cfg x), fun _ => []⟩ ∧
        ls.length + ns.length = n := by
  obtain ⟨self, h_self, h_other⟩ :
      ∃ self : Pu, (cfg self).puId = 0 ∧ (cfg self.other).puId ≠ 0 := by
    by_cases h : (cfg .first).puId = 0
    · exact ⟨.first, h, h_roles.mp h⟩
    · exact ⟨.second, not_not.mp fun h' => h (h_roles.mpr h'), h⟩
  -- threads that have ended make no step
  have h_stuck : (dsmThreads room cfg).Stuck
      ⟨fun x => .done (acquainted cfg x), fun _ => []⟩ := by
    rintro x _ ⟨p, c, q, h_fires, rfl⟩
    cases h_fires with
    | send h_proc => cases h_proc
    | recv h_proc => cases h_proc
  obtain ⟨ms, h_end⟩ := leads_dsmThread h_fits h_self h_other
  refine ⟨ms.length, fun ls s h_run => ?_⟩
  -- steps of different PUs commute, so every run can be gone on with to the end of this one
  obtain ⟨ns, h_rest, h_perm⟩ := h_end.completes (network_commutes _) h_stuck h_run
  exact ⟨ns, h_rest, (List.length_append).symm.trans h_perm.length_eq⟩

/-- A host and a device whose transport connects endpoints, and every step passes. -/
def hostAndDevice (self : Pu) : PuConfig where
  puId := if self = .first then 0 else 1
  caps _ := ⟨true, true⟩
  own side := ⟨[if self = .first then 10 else 20], [if side = .server then 1 else 2], [3]⟩
  passes _ _ := true

theorem startup_exchange_device : ∃ n, ∀ ls s,
    (dsmThreads 4096 hostAndDevice).Run (dsmStart hostAndDevice) ls s →
      ∃ ns, (dsmThreads 4096 hostAndDevice).Run s ns
        ⟨fun x => .done (acquainted hostAndDevice x), fun _ => []⟩ ∧
        ls.length + ns.length = n := by
  have h_one : ∀ b : Byte, Sendable 4096 [b] := fun b => by
    refine ⟨?_, ?_⟩ <;> rw [List.length_singleton] <;> decide
  exact startup_exchange 4096 hostAndDevice
    ⟨fun _ _ => rfl, fun _ _ => ⟨h_one _, h_one _, h_one _⟩, fun _ _ step h =>
      ⟨fun h' => unsupported_notMem_prepareSteps (Or.inl rfl) (h' ▸ h), rfl⟩⟩ (by decide)

/-! ### A context that is prepared here is one that is stored -/

/-- A step that ends well is not an error return. -/
theorem ne_unsupported_of_ends {own : OwnAddrs} {side : Side} {vars vars' : OobVars}
    {step : PrepareStep} (h : (exchangeStep own self side vars step).Ends (some vars')) :
    step ≠ .unsupported := by
  rintro rfl
  cases Script.ends_pure.mp h

/-- Only a preparation whose steps have all passed ends well. -/
theorem passes_of_ends_runSteps {passes : PrepareStep → Bool} {own : OwnAddrs} {side : Side}
    {steps : List PrepareStep} {vars vars' : OobVars}
    (h : (runSteps passes own self side steps vars).Ends (some vars')) :
    ∀ step ∈ steps, step ≠ .unsupported ∧ passes step = true := by
  -- along the steps: each exit but the last one returns nothing
  induction steps generalizing vars with
  | nil => exact fun _ h_step => absurd h_step List.not_mem_nil
  | cons step rest ih =>
    unfold runSteps at h
    by_cases h_pass : passes step = true
    · rw [if_pos h_pass] at h
      obtain ⟨r, h_step, h_rest⟩ := h.of_bind
      cases r with
      | none => cases Script.ends_pure.mp h_rest
      | some vars'' =>
        refine List.forall_mem_cons.mpr ⟨⟨?_, h_pass⟩, ih h_rest⟩
        exact ne_unsupported_of_ends h_step
    · rw [if_neg h_pass] at h
      cases Script.ends_pure.mp h

theorem passes_of_ends_prepareAll {c : PuConfig} {sides : List Side}
    {peers : List (Side × Option PeerAddrs)} (h : (prepareAll c self sides).Ends peers)
    {side : Side} {peer : PeerAddrs} (h_peer : (side, some peer) ∈ peers) : c.Passes side := by
  induction sides generalizing peers with
  | nil =>
    rw [Script.ends_pure.mp h] at h_peer
    cases h_peer
  | cons first later ih =>
    unfold prepareAll at h
    obtain ⟨r, h_first, h_rest⟩ := h.of_bind
    obtain ⟨peers', h_later, h_end⟩ := h_rest.of_bind
    rw [Script.ends_pure.mp h_end] at h_peer
    -- the context that is prepared first, or one of the later ones
    rcases List.mem_cons.mp h_peer with h_eq | h_mem
    · obtain ⟨rfl, rfl⟩ := Prod.mk.inj h_eq
      obtain ⟨vars, h_vars, h_r⟩ := h_first.of_bind
      cases vars with
      | none => cases Script.ends_pure.mp h_r
      | some vars => exact passes_of_ends_runSteps h_vars
    · exact ih h_later h_mem

/-- A PU, given what the calls of its two preparations answer. -/
def PuConfig.ofHosts (puId : Int32) (own : Side → OwnAddrs) (host : Side → PrepareHost)
    (args : CmdArgs) : PuConfig where
  puId := puId
  caps side := (host side).caps args
  own := own
  passes side := (host side).ok args

/-- The steps of a preparation pass exactly if `molecule_prepare_dsm_ctx` stores the context. -/
theorem passes_ofHosts_iff {puId : Int32} {own : Side → OwnAddrs} {host : Side → PrepareHost}
    {args : CmdArgs} {side : Side} (V : Finset Resource) :
    (PuConfig.ofHosts puId own host args).Passes side ↔
      ∃ s, (host side).moleculePrepareDsmCtx args ⟨∅, V⟩ = some (.ok true, s) := by
  rw [PrepareHost.ready_iff]
  refine forall₂_congr fun step _ => and_iff_right_of_imp ?_
  rintro h rfl
  cases h

/-- **In every schedule, a context that has been prepared is one that is stored.** -/
theorem stores_of_prepared {puId : Pu → Int32} {own : Pu → Side → OwnAddrs}
    {host : Pu → Side → PrepareHost} {args : Pu → CmdArgs} {ls : List Pu}
    {s : Network Pu OobPort Byte (List (Side × Option PeerAddrs))}
    (h_run : (dsmThreads room fun x => .ofHosts (puId x) (own x) (host x) (args x)).Run
      (dsmStart fun x => .ofHosts (puId x) (own x) (host x) (args x)) ls s)
    {peers : List (Side × Option PeerAddrs)} (h_done : s.proc self = .done peers) {side : Side}
    {peer : PeerAddrs} (h_peer : (side, some peer) ∈ peers) (V : Finset Resource) :
    ∃ t, (host self side).moleculePrepareDsmCtx (args self) ⟨∅, V⟩ = some (.ok true, t) := by
  have h_ends : (dsmThread (.ofHosts (puId self) (own self) (host self) (args self)) self).Ends
      peers := ends_of_run h_run (h_done ▸ .done)
  exact (passes_ofHosts_iff V).mp (passes_of_ends_prepareAll h_ends h_peer)

/-! ### Both PUs begin on the same side -/

/-- No step fails up to the connection of the context that is prepared first. -/
def PuConfig.Connects (c : PuConfig) : Prop :=
  ∀ side ∈ (contextOrder c.puId).head?, ∀ step ∈ connectSteps, c.passes side step = true

theorem dsmThread_connects {c : PuConfig} (self : Pu) (h : c.Connects) {side : Side}
    {later : List Side} (h_order : contextOrder c.puId = side :: later) :
    ∃ rest, dsmThread c self = (oobConnect self side >>= rest) := by
  have h_passes : ∀ step ∈ connectSteps, c.passes side step = true := by
    refine h side ?_
    rw [h_order]
    exact Option.mem_some_self side
  unfold dsmThread
  rw [h_order, ← Script.bind_pure (prepareAll c self (side :: later)), prepareAll_cons]
  unfold prepareDsmCtx
  rw [Script.bind_bind, prepareSteps_eq_append, runSteps_connect h_passes]
  exact ⟨_, rfl⟩

/-- A PU with the number 0 waits in `accept`, another one until it can connect. -/
def WaitsToConnect (cfg : Pu → PuConfig)
    (s : Network Pu OobPort Byte (List (Side × Option PeerAddrs))) (x : Pu) : Prop :=
  ∃ rest, s.proc x = .recv x.other (.syn (if (cfg x).puId = 0 then x else x.other)) rest

/-- From the start, both PUs come to where they wait for each other. -/
theorem leads_waits (h_room : 0 < room) (h_connects : ∀ self, (cfg self).Connects)
    (h_roles : (cfg .first).puId = 0 ↔ (cfg .second).puId = 0) :
    ∃ t, (dsmThreads room cfg).Leads (dsmStart cfg) t ∧
      ∀ x, Waits t x ∧ WaitsToConnect cfg t x := by
  by_cases h : (cfg .first).puId = 0
  · have h_zero : ∀ x, (cfg x).puId = 0 := Pu.rec h (h_roles.mp h)
    have h_script : ∀ x, ∃ rest, dsmThread (cfg x) x =
        (Script.sendAll x.other (.syn x) [0] >>= fun _ => .recv x.other (.syn x) rest) := by
      intro x
      obtain ⟨rest, h_rest⟩ := dsmThread_connects x (h_connects x)
        (if_pos (h_zero x) : contextOrder (cfg x).puId = [.server, .client])
      rw [h_rest]
      exact ⟨_, rfl⟩
    choose rest h_rest using h_script
    -- each says that it listens, and waits for the other to connect
    have h_first : (dsmThreads room cfg).Leads (dsmStart cfg) _ :=
      leads_sendAll (h_rest .first) h_room
    have h_second : (dsmThreads room cfg).Leads _ _ :=
      h_first.trans (leads_sendAll (i := Pu.second) (h_rest .second) h_room)
    refine ⟨_, h_second, fun x => ?_⟩
    unfold WaitsToConnect
    rw [if_pos (h_zero x)]
    cases x <;> exact ⟨⟨_, _, _, rfl, rfl⟩, _, rfl⟩
  · have h_ne : ∀ x, (cfg x).puId ≠ 0 := Pu.rec h fun h' => h (h_roles.mpr h')
    -- from its first step on, each waits for the other one to listen
    refine ⟨_, Leads.refl (dsmStart cfg), fun x => ?_⟩
    obtain ⟨rest, h_rest⟩ := dsmThread_connects x (h_connects x)
      (if_neg (h_ne x) : contextOrder (cfg x).puId = [.client, .server])
    unfold WaitsToConnect
    rw [if_neg (h_ne x)]
    exact ⟨⟨_, _, _, h_rest, rfl⟩, _, h_rest⟩

/-- **Two PUs that begin on the same side wait for ever**: if they come to connect, every schedule
ends where both wait in `accept`, or both try to connect, and neither ever comes to serve. -/
theorem startup_blocks (room : ℕ) (cfg : Pu → PuConfig) (h_room : 0 < room)
    (h_connects : ∀ self, (cfg self).Connects)
    (h_roles : (cfg .first).puId = 0 ↔ (cfg .second).puId = 0) {ls : List Pu}
    {s : Network Pu OobPort Byte (List (Side × Option PeerAddrs))}
    (h_run : (dsmThreads room cfg).Run (dsmStart cfg) ls s) :
    (∀ self peers, s.proc self ≠ .done peers) ∧ ∃ ns t, (dsmThreads room cfg).Run s ns t ∧
      (dsmThreads room cfg).Stuck t ∧ ∀ x, WaitsToConnect cfg t x := by
  obtain ⟨t, h_leads, h_waits⟩ := leads_waits h_room h_connects h_roles
  obtain ⟨⟨ns, h_rest⟩, h_open⟩ := deadlock h_leads (fun x => (h_waits x).1) h_run
  exact ⟨h_open, ns, t, h_rest, stuck_of_waits fun x => (h_waits x).1, fun x => (h_waits x).2⟩

/-- Two PUs that were both given the number 0. -/
def twoHosts (self : Pu) : PuConfig := { hostAndDevice self with puId := 0 }

/-- Both listen, and wait in `accept`. -/
theorem startup_blocks_hosts : ∃ s,
    (dsmThreads 4096 twoHosts).Run (dsmStart twoHosts) [.first, .second] s ∧
      (∀ x, ∃ rest, s.proc x = .recv x.other (.syn x) rest) ∧
      ∀ x peers, s.proc x ≠ .done peers := by
  have h_first : (dsmThreads 4096 twoHosts).step (dsmStart twoHosts) .first _ :=
    ⟨_, _, _, .send rfl (by decide), rfl⟩
  have h_run : (dsmThreads 4096 twoHosts).Run (dsmStart twoHosts) [.first, .second] _ :=
    ((Run.nil _).snoc h_first).snoc ⟨_, _, _, .send rfl (by decide), rfl⟩
  refine ⟨_, h_run, fun x => ?_, (startup_blocks 4096 twoHosts (by decide)
    (fun _ _ _ _ _ => rfl) (Iff.refl _) h_run).1⟩
  cases x <;> exact ⟨_, rfl⟩

end Startup

end MoleculeOS
