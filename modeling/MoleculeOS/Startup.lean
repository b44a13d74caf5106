import MoleculeOS.Directory
import MoleculeOS.Model.Uct

/-!
# Start-up of the DSM layer

`main` starts the DSM thread and goes on to the syscall loop. The thread prepares the server's and
the client's context, in the order of the PU, and enters `run_two_way_server`. A preparation is a
long sequence of steps, each of which may fail (`prepareSteps`); a failure leaves
`molecule_prepare_dsm_ctx`, which returns nothing, and the thread goes on as after a success. The
three variables of a context are stored at the very end. Meanwhile the main thread handles requests,
and no handler asks whether the client's context is set.

So a context is set exactly when its preparation has stored the last of its variables
(`startup_contexts_iff`): the server loop runs on an unset context when the server's preparation has
failed, and `dsm_call` when a request that needs the other PU comes before the client's preparation
has ended, or after it has failed.
-/

namespace MoleculeOS

open Stdio Transition System

variable {P : Platform}

/-! ### The preparation of a context -/

/-- The steps of `molecule_prepare_dsm_ctx` that may fail. -/
inductive PrepareStep
  | asyncContext
  | worker
  | transport
  | deviceAddrMemory
  | ifaceAddrMemory
  | deviceAddress
  | oobConnect
  | deviceExchange
  | reachable
  | ifaceAddress
  | ifaceExchange
  | epAddrMemory
  | epCreate
  | epAddress
  | epExchange
  | barrier
  /-- The transport connects neither to an interface nor to an endpoint. -/
  | unsupported
  | maxSize
  | amHandler
  deriving DecidableEq, Repr

/-- What the transport that was found can connect to. -/
structure IfaceCaps where
  connectToIface : Bool
  connectToEp : Bool

/-- The steps of one preparation, in order. What `uct_ep_connect_to_ep` returns is not looked at. -/
def prepareSteps (caps : IfaceCaps) : List PrepareStep :=
  [.asyncContext, .worker, .transport, .deviceAddrMemory, .ifaceAddrMemory, .deviceAddress,
    .oobConnect, .deviceExchange, .reachable]
    ++ (if caps.connectToIface then [.ifaceAddress, .ifaceExchange] else [])
    ++ (if caps.connectToEp then [.epAddrMemory, .epCreate, .epAddress, .epExchange, .barrier]
      else if caps.connectToIface then [.epCreate] else [.unsupported])
    ++ [.maxSize, .amHandler]

/-- The static variables of a context: `*_molecule_if_info`, `*_molecule_ep`, `*_molecule_id`. -/
inductive ContextVar
  | ifInfo
  | ep
  | id
  deriving DecidableEq, Repr

/-- The variables that are stored before. -/
def ContextVar.earlier : ContextVar → List ContextVar
  | .ifInfo => []
  | .ep => [.ifInfo]
  | .id => [.ifInfo, .ep]

/-! ### The DSM thread beside the main thread -/

/-- Where the DSM thread is: in a preparation, with steps to go and contexts to prepare later;
before the store of a variable; or in `run_two_way_server`. -/
inductive DsmThread
  | prepare (side : Side) (rest : List PrepareStep) (later : List Side)
  | store (side : Side) (var : ContextVar) (later : List Side)
  | serving
  deriving DecidableEq, Repr

/-- The thread when `molecule_prepare_dsm_ctx` has returned. -/
def DsmThread.next (caps : Side → IfaceCaps) : List Side → DsmThread
  | [] => .serving
  | side :: later => .prepare side (prepareSteps (caps side)) later

/-- The order in which a PU prepares its contexts. -/
def contextOrder (puId : Int32) : List Side :=
  if puId = 0 then [.server, .client] else [.client, .server]

/-- The thread after a variable has been stored. -/
def DsmThread.stored (caps : Side → IfaceCaps) (side : Side) (later : List Side) :
    ContextVar → DsmThread
  | .ifInfo => .store side .ep later
  | .ep => .store side .id later
  | .id => .next caps later

structure StartupState where
  world : World
  thread : DsmThread
  /-- Whether a static variable has been stored. -/
  stored : Side → ContextVar → Bool

/-- All three variables of the context have been stored. -/
def StartupState.IsSet (s : StartupState) (side : Side) : Prop := ∀ var, s.stored side var = true

inductive StartupEvent
  | pass (side : Side) (step : PrepareStep)
  | fail (side : Side) (step : PrepareStep)
  | store (side : Side) (var : ContextVar)
  /-- The main thread handles a request. -/
  | request (call : Syscall) (ret : Int32)
  /-- The server loop handles a message of the other PU. -/
  | serve (msg : List Byte) (ret : Int32)

inductive Startup.Step (P : Platform) (caps : Side → IfaceCaps) :
    StartupState → StartupEvent → StartupState → Prop
  -- the step `unsupported` is an error return, it never passes
  | pass {s : StartupState} {side : Side} {step : PrepareStep} {rest : List PrepareStep}
      {later : List Side} (h_thread : s.thread = .prepare side (step :: rest) later)
      (h_step : step ≠ .unsupported) :
      Step P caps s (.pass side step) { s with thread := .prepare side rest later }
  -- whatever failed, the thread goes on to the next context, or to the server loop
  | fail {s : StartupState} {side : Side} {step : PrepareStep} {rest : List PrepareStep}
      {later : List Side} (h_thread : s.thread = .prepare side (step :: rest) later) :
      Step P caps s (.fail side step) { s with thread := .next caps later }
  -- the first variable is stored behind the last step, the others one after the other
  | store {s : StartupState} {side : Side} {var : ContextVar} {later : List Side}
      (h_thread : s.thread = .store side var later ∨
        s.thread = .prepare side [] later ∧ var = .ifInfo) :
      Step P caps s (.store side var) { s with
        thread := .stored caps side later var
        stored := fun side' var' => (side' = side ∧ var' = var) || s.stored side' var' }
  -- the main thread does not look where the DSM thread is
  | request {s : StartupState} {call : Syscall} {w : World} {ret : Int32}
      (h_served : Served P s.world call w ret) :
      Step P caps s (.request call ret) { s with world := w }
  | serve {s : StartupState} {k : Kernel} {msg : List Byte} {w : World} {ret : Int32}
      (h_thread : s.thread = .serving) (h_serve : dsmHandlers k s.world msg 4096 = .ok (w, ret)) :
      Step P caps s (.serve msg ret) { s with world := w }

/-- One PU from the start of its DSM thread on. When `dsm_call` has run on an unset context,
anything may happen; the model goes on with any answer. -/
def startup (P : Platform) (puId osPort : Int32) (caps : Side → IfaceCaps) :
    System StartupState StartupEvent where
  init s := globalOsInit puId osPort = .ok s.world.os ∧
    s.thread = .next caps (contextOrder puId) ∧ ∀ side var, s.stored side var = false
  step := Startup.Step P caps

/-! ### What the events say about a context -/

variable {es : List StartupEvent} {e : StartupEvent} {side x : Side} {caps : Side → IfaceCaps}

/-- The context that a failure or a store is about. -/
def StartupEvent.side? : StartupEvent → Option Side
  | .fail side _ => some side
  | .store side _ => some side
  | _ => none

/-- Neither a failure nor a store so far. -/
def Untouched (es : List StartupEvent) (side : Side) : Prop :=
  ∀ e ∈ es, e.side? ≠ some side

/-- The preparation has failed, or has stored all three variables. -/
def Finished (es : List StartupEvent) (side : Side) : Prop :=
  ((∃ step, .fail side step ∈ es) ∧ ∀ var, .store side var ∉ es) ∨
    ((∀ step, .fail side step ∉ es) ∧ ∀ var, .store side var ∈ es)

theorem Untouched.snoc (h : Untouched es x) (h_e : e.side? ≠ some x) : Untouched (es ++ [e]) x := by
  intro e' h_mem
  rcases List.mem_append.mp h_mem with h_old | h_new
  · exact h e' h_old
  · rw [List.mem_singleton.mp h_new]
    exact h_e

theorem mem_snoc_of_side {e' : StartupEvent} (h : e.side? ≠ some x) (h' : e'.side? = some x) :
    e' ∈ es ++ [e] ↔ e' ∈ es := by
  rw [List.mem_append, List.mem_singleton]
  constructor
  · rintro (h_old | rfl)
    · exact h_old
    · exact absurd h' h
  · exact Or.inl

theorem Finished.snoc (h : Finished es x) (h_e : e.side? ≠ some x) : Finished (es ++ [e]) x := by
  unfold Finished
  simp only [mem_snoc_of_side h_e (show (StartupEvent.fail x _).side? = some x from rfl),
    mem_snoc_of_side h_e (show (StartupEvent.store x _).side? = some x from rfl)]
  exact h

/-! ### Where the thread is, and what that says -/

/-- The contexts whose preparation has not ended. -/
def DsmThread.pending : DsmThread → List Side
  | .prepare side _ later => side :: later
  | .store side _ later => side :: later
  | .serving => []

@[simp] theorem DsmThread.pending_next (caps : Side → IfaceCaps) (later : List Side) :
    (DsmThread.next caps later).pending = later := by cases later <;> rfl

/-- Before the stores of a context: nothing has happened to it. Between them: nothing has failed,
and the earlier variables are stored. -/
def Current (es : List StartupEvent) : DsmThread → Prop
  | .prepare side _ _ => Untouched es side
  | .store side var _ =>
    (∀ step, .fail side step ∉ es) ∧ ∀ var', .store side var' ∈ es ↔ var' ∈ var.earlier
  | .serving => True

/-- **The position of the thread.** Each context is prepared once: those behind the thread have
failed or are stored, nothing has happened to those ahead of it. -/
structure Position (es : List StartupEvent) (thread : DsmThread) : Prop where
  nodup : thread.pending.Nodup
  current : Current es thread
  ahead : ∀ x ∈ thread.pending.tail, Untouched es x
  behind : ∀ x, x ∉ thread.pending → Finished es x

/-- An event that is about no context. -/
theorem Position.quiet {thread : DsmThread} (h : Position es thread) (h_e : e.side? = none) :
    Position (es ++ [e]) thread := by
  have h_ne : ∀ x, e.side? ≠ some x := fun x => by rw [h_e]; exact nofun
  -- the thread stays where it is, and the history says the same of every context
  refine ⟨h.nodup, ?_, fun x h_x => (h.ahead x h_x).snoc (h_ne x),
    fun x h_x => (h.behind x h_x).snoc (h_ne x)⟩
  have h_current := h.current
  cases thread with
  | prepare side rest later => exact h_current.snoc (h_ne side)
  | store side var later =>
    refine ⟨fun step => ?_, fun var' => ?_⟩
    · rw [mem_snoc_of_side (h_ne side) rfl]
      exact h_current.1 step
    · rw [mem_snoc_of_side (h_ne side) rfl]
      exact h_current.2 var'
  | serving => trivial

/-- The thread goes on to the next context when the current one is finished. -/
theorem Position.next {later : List Side} (h_nodup : (side :: later).Nodup)
    (h_later : ∀ x ∈ later, Untouched es x) (h_side : Finished (es ++ [e]) side)
    (h_behind : ∀ x, x ∉ side :: later → Finished es x) (h_e : e.side? = some side) :
    Position (es ++ [e]) (.next caps later) := by
  -- the event is about the current context, not about a later one
  have h_untouched : ∀ x ∈ later, Untouched (es ++ [e]) x := by
    intro x h_x
    refine (h_later x h_x).snoc ?_
    rw [h_e]
    rintro ⟨⟩
    exact (List.nodup_cons.mp h_nodup).1 h_x
  refine ⟨by rw [DsmThread.pending_next]; exact (List.nodup_cons.mp h_nodup).2, ?_, ?_, ?_⟩
  · cases later with
    | nil => trivial
    | cons x later => exact h_untouched x List.mem_cons_self
  · intro x h_x
    rw [DsmThread.pending_next] at h_x
    exact h_untouched x (List.mem_of_mem_tail h_x)
  · intro x h_x
    rw [DsmThread.pending_next] at h_x
    -- behind the thread now: the current context, and what was behind it before
    by_cases h_eq : x = side
    · rw [h_eq]
      exact h_side
    refine (h_behind x (List.not_mem_cons_of_ne_of_not_mem h_eq h_x)).snoc ?_
    rw [h_e]
    rintro ⟨⟩
    exact h_eq rfl

/-- A step of the current preparation fails. -/
theorem Position.fail {step : PrepareStep} {rest : List PrepareStep} {later : List Side}
    (h : Position es (.prepare side rest later)) :
    Position (es ++ [.fail side step]) (.next caps later) := by
  have h_failed : .fail side step ∈ es ++ [StartupEvent.fail side step] :=
    List.mem_append_right _ List.mem_cons_self
  refine Position.next h.nodup h.ahead (Or.inl ⟨⟨step, h_failed⟩, ?_⟩) h.behind rfl
  -- a context that has failed is not stored afterwards
  intro var h_mem
  rcases List.mem_append.mp h_mem with h_old | h_new
  · exact h.current _ h_old rfl
  · cases List.mem_singleton.mp h_new

/-- A variable of the current context is stored. -/
theorem Position.store {var : ContextVar} {later : List Side}
    (h : Position es (.store side var later)) :
    Position (es ++ [.store side var]) (.stored caps side later var) := by
  have h_fail : ∀ step, .fail side step ∉ es ++ [.store side var] := by
    intro step h_mem
    rcases List.mem_append.mp h_mem with h_old | h_new
    · exact h.current.1 step h_old
    · cases List.mem_singleton.mp h_new
  have h_stored : ∀ var', .store side var' ∈ es ++ [StartupEvent.store side var]
      ↔ var' ∈ var.earlier ∨ var' = var := by
    intro var'
    rw [List.mem_append, h.current.2, List.mem_singleton, StartupEvent.store.injEq]
    exact or_congr_right (and_iff_right rfl)
  -- a store of another variable of the same context comes next
  have h_middle : ∀ var', (∀ v, v ∈ var.earlier ∨ v = var ↔ v ∈ var'.earlier) →
      Position (es ++ [.store side var]) (.store side var' later) := by
    intro var' h_earlier
    have h_ne : ∀ x, x ≠ side → (StartupEvent.store side var).side? ≠ some x := by
      rintro x h_x ⟨⟩
      exact h_x rfl
    refine ⟨h.nodup, ⟨h_fail, fun v => (h_stored v).trans (h_earlier v)⟩, ?_, ?_⟩
    · intro x h_x
      refine (h.ahead x h_x).snoc (h_ne x ?_)
      rintro rfl
      exact (List.nodup_cons.mp h.nodup).1 h_x
    · intro x h_x
      refine (h.behind x h_x).snoc (h_ne x ?_)
      rintro rfl
      exact h_x List.mem_cons_self
  -- and with the last one the context is finished
  cases var with
  | ifInfo => exact h_middle .ep fun v => by cases v <;> simp [ContextVar.earlier]
  | ep => exact h_middle .id fun v => by cases v <;> simp [ContextVar.earlier]
  | id =>
    refine Position.next h.nodup h.ahead (Or.inr ⟨h_fail, fun v => ?_⟩) h.behind rfl
    rw [h_stored]
    cases v <;> simp [ContextVar.earlier]

/-- The first store of a context comes when all its steps have passed. -/
theorem Position.first {later : List Side} (h : Position es (.prepare side [] later)) :
    Position es (.store side .ifInfo later) := by
  refine ⟨h.nodup, ⟨fun step h_mem => h.current _ h_mem rfl, fun var => ?_⟩, h.ahead, h.behind⟩
  refine iff_of_false (fun h_mem => h.current _ h_mem rfl) ?_
  exact List.not_mem_nil

/-! ### Start-up keeps the position -/

/-- What holds in every run of start-up: the position of the thread, and the variables stored are
those the run has stored. -/
structure StartupInv (es : List StartupEvent) (s : StartupState) : Prop where
  position : Position es s.thread
  stored : ∀ side var, s.stored side var = true ↔ .store side var ∈ es

theorem StartupInv.init {puId osPort : Int32} {s : StartupState}
    (h : (startup P puId osPort caps).init s) : StartupInv [] s := by
  obtain ⟨-, h_thread, h_stored⟩ := h
  refine ⟨?_, fun side var => by rw [h_stored]; exact iff_of_false nofun List.not_mem_nil⟩
  -- both contexts are ahead, in one order or the other
  have h_order : (contextOrder puId).Nodup ∧ ∀ x, x ∈ contextOrder puId := by
    unfold contextOrder
    split <;> exact ⟨by decide, fun x => by cases x <;> decide⟩
  rw [h_thread]
  refine ⟨by rw [DsmThread.pending_next]; exact h_order.1, ?_, fun x _ => nofun, fun x h_x => ?_⟩
  · cases contextOrder puId with
    | nil => trivial
    | cons x later => exact nofun
  · rw [DsmThread.pending_next] at h_x
    exact absurd (h_order.2 x) h_x

/-- An event that stores no variable. -/
theorem StartupInv.stored_snoc {s : StartupState} (h : StartupInv es s)
    (h_e : ∀ side var, e ≠ .store side var) (side : Side) (var : ContextVar) :
    s.stored side var = true ↔ .store side var ∈ es ++ [e] := by
  rw [h.stored, List.mem_append, List.mem_singleton]
  exact (or_iff_left fun h_eq => h_e side var h_eq.symm).symm

theorem StartupInv.step {s t : StartupState} (h : StartupInv es s)
    (hstep : Startup.Step P caps s e t) : StartupInv (es ++ [e]) t := by
  have h_position := h.position
  cases hstep with
  | @pass side step rest later h_thread h_step =>
    rw [h_thread] at h_position
    have h_quiet := h_position.quiet (e := .pass side step) rfl
    exact ⟨⟨h_quiet.nodup, h_quiet.current, h_quiet.ahead, h_quiet.behind⟩, h.stored_snoc nofun⟩
  | fail h_thread =>
    rw [h_thread] at h_position
    exact ⟨h_position.fail, h.stored_snoc nofun⟩
  | @store side var later h_thread =>
    refine ⟨?_, fun x v => ?_⟩
    · rcases h_thread with h_thread | ⟨h_thread, rfl⟩
      · rw [h_thread] at h_position
        exact h_position.store
      · rw [h_thread] at h_position
        have h_first : Position (es ++ [.store side .ifInfo]) (.stored caps side later .ifInfo) :=
          h_position.first.store
        exact h_first
    · rw [List.mem_append, List.mem_singleton, StartupEvent.store.injEq, ← h.stored,
        Bool.or_eq_true, decide_eq_true_iff]
      exact or_comm
  | request h_served => exact ⟨h_position.quiet rfl, h.stored_snoc nofun⟩
  | serve h_thread h_serve => exact ⟨h_position.quiet rfl, h.stored_snoc nofun⟩

theorem startupInv {puId osPort : Int32} {s : StartupState}
    (h : (startup P puId osPort caps).Reaches es s) : StartupInv es s :=
  Reaches.induction (fun _ h_init => .init h_init) (fun _ _ _ _ _ h_inv hstep => h_inv.step hstep) h

/-- **When a context is set.** Its preparation has ended, and no step of it has failed. -/
theorem StartupInv.isSet_iff {s : StartupState} (h : StartupInv es s) (x : Side) :
    s.IsSet x ↔ x ∉ s.thread.pending ∧ ∀ step, .fail x step ∉ es := by
  have h_isSet : s.IsSet x ↔ ∀ var, .store x var ∈ es := forall_congr' fun var => h.stored x var
  rw [h_isSet]
  constructor
  · intro h_all
    have h_behind : x ∉ s.thread.pending := by
      intro h_mem
      have h_position := h.position
      -- the last variable of a context that is still pending is not stored
      suffices h_last : StartupEvent.store x .id ∉ es from h_last (h_all .id)
      cases h_thread : s.thread with
      | prepare side rest later =>
        rw [h_thread] at h_position h_mem
        rcases List.mem_cons.mp h_mem with rfl | h_later
        · exact fun h_store => h_position.current _ h_store rfl
        · exact fun h_store => h_position.ahead x h_later _ h_store rfl
      | store side var later =>
        rw [h_thread] at h_position h_mem
        rcases List.mem_cons.mp h_mem with rfl | h_later
        · rw [h_position.current.2]
          cases var <;> simp [ContextVar.earlier]
        · exact fun h_store => h_position.ahead x h_later _ h_store rfl
      | serving =>
        rw [h_thread] at h_mem
        cases h_mem
    refine ⟨h_behind, ?_⟩
    -- behind the thread it has failed, with nothing stored, or it is stored
    rcases h.position.behind x h_behind with ⟨-, h_none⟩ | ⟨h_ok, -⟩
    · exact absurd (h_all .id) (h_none .id)
    · exact h_ok
  · rintro ⟨h_behind, h_ok⟩
    rcases h.position.behind x h_behind with ⟨⟨step, h_fail⟩, -⟩ | ⟨-, h_all⟩
    · exact absurd h_fail (h_ok step)
    · exact h_all

/-! ### Requests for the other PU -/

/-- The requests that only the other PU can answer: FIFO_CONNECT of an unknown uuid, and FIFO_WRITE
to a FIFO that is not of this PU. -/
def NeedsPeer (P : Platform) (os : GlobalOS) : Syscall → Prop
  | .fifoConnect globalUuid _ =>
    P.smartc = true ∧ os.fifoGuuidTable.htLookup globalUuid = none
  | .fifoWrite globalFifo _ _ => P.smartc = true ∧ isGlobalFifoLocal os globalFifo = .ok false
  | _ => False

/-- These are the requests that run `dsm_call`. -/
theorem needsPeer_of_dsmCall {k : Kernel} {w w' : World} {call : Syscall} {msg : List Byte}
    {resume : World → Int32 → Exec (World × Int32)}
    (h : call.run P k w = .ok (.dsmCall w' msg resume)) : NeedsPeer P w.os call := by
  -- a handler that ends in `.reply` runs no `dsm_call`
  have h_reply : ∀ x : Exec (World × Int32),
      (x >>= fun r => .ok (Outcome.reply r.1 r.2)) ≠ .ok (.dsmCall w' msg resume) := by
    rintro (_ | _) h_eq <;> cases h_eq
  cases call with
  | registerSelfGlobal localPid => exact absurd h (h_reply _)
  | fifoInit localUuid ownerPid globalUuid =>
    obtain ⟨_, -, h_out⟩ := Exec.bind_eq_ok.mp h
    cases h_out
  | fifoRead globalFifo shmid length => exact absurd h (h_reply _)
  | fifoWrite globalFifo shmid length =>
    -- a local write replies, a remote one is sent
    obtain ⟨_, _, _, -, -, -, -, ⟨h_smartc, h_remote, -⟩ | ⟨-, _, _, -, h_out⟩⟩ :=
      syscallFifoWrite_cases h
    · exact ⟨h_smartc, h_remote⟩
    · cases h_out
  | fifoConnect globalUuid ownerPid =>
    have h_connect : syscallFifoConnect P k w globalUuid ownerPid
      = .ok (.dsmCall w' msg resume) := h
    rcases syscallFifoConnect_cases h_connect with
      ⟨_, -, h_out⟩ | ⟨-, -, h_out⟩ | ⟨h_none, h_smartc, -⟩
    · cases h_out
    · cases h_out
    · exact ⟨h_smartc, h_none⟩
  | gspawn puId shmid argvLen envpLen => exact absurd h (h_reply _)

/-- They are never answered without it, be it with an error. -/
theorem NeedsPeer.not_reply {k : Kernel} {w w' : World} {call : Syscall} {ret : Int32}
    (h : NeedsPeer P w.os call) : call.run P k w ≠ .ok (.reply w' ret) := by
  intro h_run
  cases call with
  | fifoConnect globalUuid ownerPid =>
    -- the two replies are for a known uuid and for the other build
    obtain ⟨h_smartc, h_none⟩ := h
    have h_connect : syscallFifoConnect P k w globalUuid ownerPid = .ok (.reply w' ret) := h_run
    rcases syscallFifoConnect_cases h_connect with
      ⟨_, h_found, -⟩ | ⟨-, h_not, -⟩ | ⟨-, -, _, _, h_out, -⟩
    · exact absurd (h_none.symm.trans h_found) nofun
    · exact absurd (h_smartc.symm.trans h_not) nofun
    · cases h_out
  | fifoWrite globalFifo shmid length =>
    obtain ⟨h_smartc, h_remote⟩ := h
    obtain ⟨_, _, _, -, -, -, -, ⟨-, -, h_write⟩ | ⟨h_local, -⟩⟩ := syscallFifoWrite_cases h_run
    · cases (writeRemoteFifo_eq_ok.mp h_write).2.2.2
    · exact absurd (h_remote.symm.trans (h_local h_smartc)) nofun
  | registerSelfGlobal localPid => exact h
  | fifoInit localUuid ownerPid globalUuid => exact h
  | fifoRead globalFifo shmid length => exact h
  | gspawn puId shmid argvLen envpLen => exact h

/-! ### No use of a context before it is set -/

/-- What start-up has to guarantee when a request comes: the server loop only runs on a server
context that is set, `dsm_call` only on a client context that is set, and a request that would need
it before gets an error reply. -/
structure ContextsRespected (P : Platform) (k : Kernel) (s : StartupState) (call : Syscall) :
    Prop where
  server : s.thread = .serving → s.IsSet .server
  client : ∀ {w msg resume}, call.run P k s.world = .ok (.dsmCall w msg resume) → s.IsSet .client
  refused : NeedsPeer P s.world.os call → ¬s.IsSet .client →
    ∃ w ret, call.run P k s.world = .ok (.reply w ret) ∧ ret.toInt < 0

/-- **Start-up.** Whatever the DSM thread and the main thread have done so far, the contexts are
respected exactly when the thread does not serve after a failure of the server's preparation, and
the request does not need the other PU before the client's preparation has ended, without
failure. -/
theorem startup_contexts_iff {puId osPort : Int32} {s : StartupState}
    (h : (startup P puId osPort caps).Reaches es s) (k : Kernel) (call : Syscall) :
    ContextsRespected P k s call ↔
      (s.thread = .serving → ∀ step, .fail .server step ∉ es) ∧
      (NeedsPeer P s.world.os call →
        .client ∉ s.thread.pending ∧ ∀ step, .fail .client step ∉ es) := by
  have h_inv := startupInv h
  constructor
  · intro h_respected
    refine ⟨fun h_serving => ((h_inv.isSet_iff .server).mp (h_respected.server h_serving)).2, ?_⟩
    -- no handler refuses a request because its context is not set
    intro h_needs
    rw [← h_inv.isSet_iff]
    by_contra h_unset
    obtain ⟨w, ret, h_reply, -⟩ := h_respected.refused h_needs h_unset
    exact h_needs.not_reply h_reply
  · rintro ⟨h_server, h_client⟩
    refine ⟨?_, ?_, ?_⟩
    · intro h_serving
      rw [h_inv.isSet_iff, h_serving]
      exact ⟨List.not_mem_nil, h_server h_serving⟩
    · intro w msg resume h_call
      exact (h_inv.isSet_iff .client).mpr (h_client (needsPeer_of_dsmCall h_call))
    · intro h_needs h_unset
      exact absurd ((h_inv.isSet_iff .client).mpr (h_client h_needs)) h_unset

/-- A PU before its DSM thread has done anything. -/
theorem exists_startup (P : Platform) (caps : Side → IfaceCaps) :
    ∃ s, (startup P 0 6000 caps).Reaches [] s ∧
      (∀ u, s.world.os.fifoGuuidTable.htLookup u = none) ∧
      s.thread = .prepare .server (prepareSteps (caps .server)) [.client] ∧
      ∀ side var, s.stored side var = false := by
  obtain ⟨os, h_os⟩ := exists_globalOsInit 0 6000 (by decide)
  have h_directory := UuidDirectory.init h_os
  let s : StartupState :=
    ⟨World.boot os, .next caps (contextOrder 0), fun _ _ => false⟩
  refine ⟨s, Reaches.start ⟨h_os, rfl, fun _ _ => rfl⟩, fun u => ?_, rfl, fun _ _ => rfl⟩
  exact congrFun h_directory.lookup u

/-- The events of a preparation in which nothing fails. -/
def prepared (caps : Side → IfaceCaps) (side : Side) : List StartupEvent :=
  (prepareSteps (caps side)).map (.pass side) ++
    [.store side .ifInfo, .store side .ep, .store side .id]

theorem unsupported_notMem_prepareSteps {c : IfaceCaps}
    (h : c.connectToIface = true ∨ c.connectToEp = true) :
    PrepareStep.unsupported ∉ prepareSteps c := by
  obtain ⟨toIface, toEp⟩ := c
  cases toIface <;> cases toEp <;> revert h <;> decide

/-- The steps of a preparation pass one after the other. -/
theorem reaches_passes {puId osPort : Int32} {later : List Side} {steps : List PrepareStep}
    (h_steps : .unsupported ∉ steps) {s : StartupState}
    (h_reach : (startup P puId osPort caps).Reaches es s)
    (h_thread : s.thread = .prepare side steps later) :
    (startup P puId osPort caps).Reaches (es ++ steps.map (.pass side))
      { s with thread := .prepare side [] later } := by
  induction steps generalizing es s with
  | nil =>
    rw [List.map_nil, List.append_nil, ← h_thread]
    exact h_reach
  | cons step rest ih =>
    obtain ⟨h_step, h_rest⟩ := not_or.mp (List.mem_cons.not.mp h_steps)
    have h_pass := h_reach.snoc (Startup.Step.pass h_thread (Ne.symm h_step))
    have h_passed := ih h_rest h_pass rfl
    rw [List.map_cons, List.append_cons]
    exact h_passed

/-- A preparation in which nothing fails sets its context. -/
theorem exists_prepared {puId osPort : Int32} {later : List Side} {s : StartupState}
    (h_caps : (caps side).connectToIface = true ∨ (caps side).connectToEp = true)
    (h_reach : (startup P puId osPort caps).Reaches es s)
    (h_thread : s.thread = .prepare side (prepareSteps (caps side)) later) :
    ∃ t, (startup P puId osPort caps).Reaches (es ++ prepared caps side) t ∧
      t.thread = .next caps later ∧ t.world = s.world ∧ t.IsSet side ∧
      ∀ x, s.IsSet x → t.IsSet x := by
  have h_passed := reaches_passes (unsupported_notMem_prepareSteps h_caps) h_reach h_thread
  -- the three stores at the end
  have h_ifInfo := h_passed.snoc (Startup.Step.store (Or.inr ⟨rfl, rfl⟩))
  have h_ep := h_ifInfo.snoc (Startup.Step.store (Or.inl rfl))
  have h_id := h_ep.snoc (Startup.Step.store (Or.inl rfl))
  simp only [List.append_assoc, List.singleton_append] at h_id
  refine ⟨_, h_id, rfl, rfl, fun var => ?_, fun x h_x var => ?_⟩
  · cases var <;> simp
  · have h_stored := h_x var
    simp [h_stored]

/-- Nothing fails on PU 0, and a FIFO_CONNECT of an unknown uuid comes when both contexts are
set. -/
theorem startup_contexts_iff_prepared : ∃ s,
    (startup ⟨true, fun _ => 0⟩ 0 6000 fun _ => ⟨false, true⟩).Reaches
      (prepared (fun _ => ⟨false, true⟩) .server ++ prepared (fun _ => ⟨false, true⟩) .client) s ∧
    s.thread = .serving ∧ s.IsSet .server ∧ s.IsSet .client ∧
    NeedsPeer ⟨true, fun _ => 0⟩ s.world.os (.fifoConnect 42 3) ∧
    ContextsRespected ⟨true, fun _ => 0⟩ .nominal s (.fifoConnect 42 3) := by
  obtain ⟨s₀, h_reach₀, h_unknown, h_thread₀, -⟩ :=
    exists_startup ⟨true, fun _ => 0⟩ fun _ => ⟨false, true⟩
  obtain ⟨s₁, h_reach₁, h_thread₁, h_world₁, h_server, -⟩ :=
    exists_prepared (Or.inr rfl) h_reach₀ h_thread₀
  obtain ⟨s, h_reach, h_thread, h_world, h_client, h_kept⟩ :=
    exists_prepared (Or.inr rfl) h_reach₁ h_thread₁
  have h_serving : s.thread = .serving := h_thread
  have h_inv := startupInv h_reach
  refine ⟨s, h_reach, h_serving, h_kept .server h_server, h_client, ⟨rfl, ?_⟩,
    (startup_contexts_iff h_reach .nominal (.fifoConnect 42 3)).mpr ⟨fun _ => ?_, fun _ => ?_⟩⟩
  · rw [h_world, h_world₁]
    exact h_unknown 42
  · exact ((h_inv.isSet_iff .server).mp (h_kept .server h_server)).2
  · exact (h_inv.isSet_iff .client).mp h_client

/-- On PU 0, a FIFO_CONNECT of an unknown uuid that comes first runs `dsm_call` on the unset client
context; and when the first step of either preparation fails, the server loop runs on an unset
server context. -/
theorem startup_contexts_unset :
    (∃ s, (startup ⟨true, fun _ => 0⟩ 0 6000 fun _ => ⟨true, false⟩).Reaches [] s ∧
      (∃ w msg resume, (Syscall.fifoConnect 42 3).run ⟨true, fun _ => 0⟩ .nominal s.world
        = .ok (.dsmCall w msg resume)) ∧
      ¬s.IsSet .client ∧ ¬ContextsRespected ⟨true, fun _ => 0⟩ .nominal s (.fifoConnect 42 3)) ∧
    ∃ s, (startup ⟨true, fun _ => 0⟩ 0 6000 fun _ => ⟨true, false⟩).Reaches
      [.fail .server .asyncContext, .fail .client .asyncContext] s ∧
      s.thread = .serving ∧ ¬s.IsSet .server ∧
      ¬ContextsRespected ⟨true, fun _ => 0⟩ .nominal s (.registerSelfGlobal 7) := by
  obtain ⟨s, h_reach, h_unknown, h_thread, h_stored⟩ :=
    exists_startup ⟨true, fun _ => 0⟩ fun _ => ⟨true, false⟩
  have h_unset : ∀ x, ¬s.IsSet x := fun x h_set =>
    absurd ((h_stored x .id).symm.trans (h_set .id)) nofun
  refine ⟨⟨s, h_reach, ?_, h_unset .client, ?_⟩, ?_⟩
  · obtain ⟨buffer, resume, -, h_ask, -⟩ :=
      syscallFifoConnect_unknown (P := ⟨true, fun _ => 0⟩) .nominal 3 rfl (h_unknown 42)
    exact ⟨s.world, buffer.data, resume, h_ask⟩
  · intro h_respected
    have h_needs : NeedsPeer ⟨true, fun _ => 0⟩ s.world.os (.fifoConnect 42 3) :=
      ⟨rfl, h_unknown 42⟩
    obtain ⟨w, ret, h_reply, -⟩ := h_respected.refused h_needs (h_unset .client)
    exact h_needs.not_reply h_reply
  · -- two failures, and the thread serves
    have h_fail := h_reach.snoc (Startup.Step.fail h_thread)
    have h_fail' := h_fail.snoc (Startup.Step.fail rfl)
    exact ⟨_, h_fail', rfl, h_unset .server,
      fun h_respected => h_unset .server (h_respected.server rfl)⟩

end MoleculeOS
