import MoleculeOS.Framing
import MoleculeOS.FifoTable

/-!
# The event loop when a call of the host fails

One round of `global_syscall_loop`: `epoll_wait` stores the ready descriptors at the start of `ep`
and returns how many there are, and the loop visits them one by one. At an entry it reads the
connection and serves what it has parsed (`LoopState.visit`).

The round tests no result but that of a `read` that returned nothing. The -1 of `epoll_wait` is
stored in a `size_t`, so the loop runs behind the end of `ep` (`visits_bound`); the -1 of `read` is
not 0, so `buf` is parsed as an earlier request has left it; and what a malformed request does not
assign is left from an earlier one. None of the three is ever without effect
(`failed_io_never_harmless`).
-/

namespace MoleculeOS

open Stdio Transition

variable {P : Platform} {L L' : LoopState}

/-! ### One round of the loop -/

/-- `MAX_OPEN_FD` -/
def maxOpenFd : ℕ := 1024

/-- What `read` returns. No bytes mean that the client has closed the connection. -/
inductive ReadResult
  | error
  | bytes (data : List Byte)

/-- What `epoll_wait` returns: an error, or ready descriptors. -/
inductive EpollResult
  | error
  | ready (fds : List Int32)

/-- What the host decides at one entry of `ep`, and what the other PU answers if it is asked. -/
structure Visit where
  read : ReadResult
  kernel : Kernel
  answer : Int32

/-- The loop after a `read`: the variables it parsed and the call it makes, if any. -/
def LoopState.parse (k : Kernel) (L : LoopState) : ReadResult → Exec (LoopState × Option Syscall)
  | .error => do
    -- `bytes` is -1, which is not 0
    let vars ← parseRequest k L.buf L.vars
    let call ← dispatch vars
    return ({ L with vars := vars }, some call)
  | .bytes [] => return (L, none)
  | .bytes data => do
    let (L, call) ← L.receive k data
    return (L, some call)

/-- A handler runs to its result, with the answer of the other PU if it waits for one. -/
def Outcome.settle (answer : Int32) : Outcome → Exec (World × Int32)
  | .reply w ret => .ok (w, ret)
  | .dsmCall w _ resume => resume w answer

/-- One connection that is ready: the handlers it has executed. -/
def LoopState.visit (P : Platform) (L : LoopState) (v : Visit) :
    Exec (LoopState × List Syscall) := do
  match ← L.parse v.kernel v.read with
  | (L, none) => return (L, [])
  | (L, some call) =>
    let out ← call.run P v.kernel L.world
    let (w, _) ← out.settle v.answer
    return ({ L with world := w }, [call])

/-- One entry of `ep`. A new client is accepted on `listenfd`, which changes nothing modelled
here. -/
def LoopState.entry (P : Platform) (listenfd fd : Int32) (L : LoopState) (v : Visit) :
    Exec (LoopState × List Syscall) :=
  if fd = listenfd then .ok (L, []) else L.visit P v

/-- The loop `for (i = 0; i < nready; ++i)`, with `n` rounds to go. -/
def LoopState.visits (P : Platform) (listenfd : Int32) (ep : List Int32) (host : ℕ → Visit) :
    ℕ → ℕ → LoopState → Exec (LoopState × List Syscall)
  | 0, _, L => return (L, [])
  | n + 1, i, L => do
    let fd ← access ep[i]?
    let (L, calls) ← L.entry P listenfd fd (host i)
    let (L, more) ← visits P listenfd ep host n (i + 1) L
    return (L, calls ++ more)

/-- `nready`, a `size_t`. -/
def EpollResult.nready : EpollResult → ℕ
  | .error => 2 ^ 64 - 1
  | .ready fds => fds.length

/-- `ep` after `epoll_wait`. -/
def EpollResult.store (ep : List Int32) : EpollResult → List Int32
  | .error => ep
  | .ready fds => fds ++ ep.drop fds.length

/-- One round of the outer loop. -/
def LoopState.round (P : Platform) (listenfd : Int32) (ep : List Int32) (host : ℕ → Visit)
    (L : LoopState) (result : EpollResult) : Exec (LoopState × List Syscall) :=
  L.visits P listenfd (result.store ep) host result.nready 0

/-! ### What an event can leave undone -/

/-- The process goes on, no handler was executed, and the tables are as they were. -/
def WithoutEffect (L : LoopState) (x : Exec (LoopState × List Syscall)) : Prop :=
  ∃ L', x = .ok (L', []) ∧ L'.world.os = L.world.os

/-- The bytes parse into all six fields, with a name that fits its variable and is known. -/
def WellFormedRequest (data : List Byte) : Prop :=
  ∃ v call, sscanf syscallReqFormat 0 (data ++ [0]) = v.fields ∧ v.funcName.length < 256 ∧
    dispatch v = .ok call

/-- **The loop never leaves `ep`** only if there are at most so many rounds as entries. -/
theorem visits_bound {listenfd : Int32} {ep : List Int32} {host : ℕ → Visit} {n i : ℕ}
    {calls : List Syscall} (h : L.visits P listenfd ep host n i = .ok (L', calls)) :
    n = 0 ∨ i + n ≤ ep.length := by
  induction n generalizing i L L' calls with
  | zero => exact Or.inl rfl
  | succ n ih =>
    -- the round has looked at its entry, so it is one of `ep`
    right
    unfold LoopState.visits at h
    simp only [Exec.bind_eq_ok, access_eq_ok] at h
    obtain ⟨fd, h_fd, ⟨L₁, first⟩, -, ⟨L₂, more⟩, h_more, -⟩ := h
    obtain ⟨h_i, -⟩ := List.getElem?_eq_some_iff.mp h_fd
    rcases ih h_more with h_last | h_rest
    · omega
    · omega

/-- **A visit that has not found its connection closed executes a handler**, or stops. -/
theorem visit_calls {v : Visit} {calls : List Syscall} (h_open : v.read ≠ .bytes [])
    (h : L.visit P v = .ok (L', calls)) : ∃ call, calls = [call] := by
  unfold LoopState.visit at h
  obtain ⟨⟨L₁, call?⟩, h_parse, h⟩ := Exec.bind_eq_ok.mp h
  cases call? with
  | some call =>
    simp only [Exec.bind_eq_ok] at h
    obtain ⟨out, -, ⟨w, ret⟩, -, h_ret⟩ := h
    exact ⟨call, (Prod.mk.inj (Except.ok.inj h_ret)).2.symm⟩
  | none =>
    -- only a closed connection makes no call
    unfold LoopState.parse at h_parse
    split at h_parse
    · simp only [Exec.bind_eq_ok] at h_parse
      obtain ⟨vars, -, call, -, h_eq⟩ := h_parse
      exact absurd (Prod.mk.inj (Except.ok.inj h_eq)).2 (by simp)
    · next h_read => exact absurd h_read h_open
    · obtain ⟨⟨L₂, call⟩, -, h_eq⟩ := Exec.bind_eq_ok.mp h_parse
      exact absurd (Prod.mk.inj (Except.ok.inj h_eq)).2 (by simp)

theorem not_withoutEffect_visit {v : Visit} (h_open : v.read ≠ .bytes []) :
    ¬ WithoutEffect L (L.visit P v) := by
  rintro ⟨L', h_visit, -⟩
  obtain ⟨call, h_calls⟩ := visit_calls h_open h_visit
  exact absurd h_calls (by simp)

/-- **No bad event is without effect.** Whatever the loop has done before: not an `epoll_wait` that
fails, not a `read` that fails, and not a request that is malformed. -/
theorem failed_io_never_harmless (P : Platform) (L : LoopState) :
    (∀ listenfd ep host, ep.length = maxOpenFd →
      ¬ WithoutEffect L (L.round P listenfd ep host .error)) ∧
    (∀ v : Visit, v.read = .error → ¬ WithoutEffect L (L.visit P v)) ∧
    (∀ (v : Visit) data, v.read = .bytes data → data ≠ [] → ¬ WellFormedRequest data →
      ¬ WithoutEffect L (L.visit P v)) := by
  refine ⟨?_, ?_, ?_⟩
  · -- 2 ^ 64 - 1 rounds, and 1024 entries
    rintro listenfd ep host h_ep ⟨L', h_round, -⟩
    have h_bound : EpollResult.error.nready = 0 ∨
        0 + EpollResult.error.nready ≤ (EpollResult.error.store ep).length := visits_bound h_round
    change 2 ^ 64 - 1 = 0 ∨ 0 + (2 ^ 64 - 1) ≤ ep.length at h_bound
    rw [h_ep] at h_bound
    unfold maxOpenFd at h_bound
    omega
  · intro v h_read
    refine not_withoutEffect_visit ?_
    rw [h_read]
    exact fun h => by cases h
  · intro v data h_read h_data _
    refine not_withoutEffect_visit ?_
    rw [h_read]
    rintro h_nil
    exact h_data (ReadResult.bytes.inj h_nil)

/-! ### A request that is executed twice -/

theorem parse_bytes {data : List Byte} (h_data : data ≠ []) (k : Kernel) (L : LoopState) :
    L.parse k (.bytes data) = (do
      let (L, call) ← L.receive k data
      return (L, some call)) := by
  cases data with
  | nil => exact absurd rfl h_data
  | cons b data => rfl

theorem visit_of_parse {v : Visit} {call : Syscall} {w : World} {ret : Int32}
    (h_parse : L.parse v.kernel v.read = .ok (L', some call))
    (h_run : call.run P v.kernel L'.world = .ok (.reply w ret)) :
    L.visit P v = .ok ({ L' with world := w }, [call]) := by
  unfold LoopState.visit
  rw [h_parse, Exec.ok_bind]
  simp only [h_run, Exec.ok_bind, Outcome.settle]
  rfl

/-- **A failing `read` executes the request before it once more.** -/
theorem visit_replays {v : SyscallVars} {call : Syscall} (h_call : dispatch v = .ok call)
    {w w' : World} {ret ret' : Int32} (h_run : call.run P .nominal L.world = .ok (.reply w ret))
    (h_again : call.run P .nominal w = .ok (.reply w' ret')) :
    ∃ L₁ L₂, L.visit P ⟨.bytes (requestText v), .nominal, 0⟩ = .ok (L₁, [call]) ∧ L₁.world = w ∧
      L₁.visit P ⟨.error, .nominal, 0⟩ = .ok (L₂, [call]) ∧ L₂.world = w' := by
  obtain ⟨h_word, h_len⟩ := funcName_of_dispatch h_call
  obtain ⟨buf, h_read⟩ := exists_poke_requestText h_word h_len L.buf
  have h_parse := parseRequest_poke h_word h_len h_read .nominal
  -- the request is parsed as it was written, and the variables keep its fields
  have h_first : L.parse .nominal (.bytes (requestText v))
      = .ok ({ L with buf := buf, vars := v }, some call) := by
    have h_receive := LoopState.receive_eq_ok.mpr ⟨buf, v, h_read, h_parse L.vars, h_call, rfl⟩
    rw [parse_bytes (requestText_ne_nil v), h_receive]
    rfl
  -- the buffer and the variables are as the first read has left them
  have h_second : LoopState.parse .nominal { world := w, buf := buf, vars := v } .error
      = .ok ({ world := w, buf := buf, vars := v }, some call) := by
    unfold LoopState.parse
    simp only [h_parse v, h_call, Exec.ok_bind]
    rfl
  exact ⟨_, _, visit_of_parse h_first h_run, rfl, visit_of_parse h_second h_again, rfl⟩

/-- A FIFO_INIT, and then a `read` that fails: a second FIFO is created. -/
theorem failed_read_harmful : ∃ L₁ L₂ : LoopState, ∃ es,
    (osInstance ⟨false, fun _ => 0⟩ (puNumber 0) 6000).Reaches es L₁.world ∧
    L₁.visit ⟨false, fun _ => 0⟩ ⟨.error, .nominal, 0⟩ = .ok (L₂, [.fifoInit 7 3 42]) ∧
    L₂.world.os.globalFifoNow ≠ L₁.world.os.globalFifoNow ∧
    ¬ WithoutEffect L₁ (L₁.visit ⟨false, fun _ => 0⟩ ⟨.error, .nominal, 0⟩) := by
  obtain ⟨os, h_os⟩ := exists_globalOsInit 0 6000 (by decide)
  have h_table := FifoTable.init h_os
  obtain ⟨os₁, h_ok₁, h_table₁⟩ := syscallFifoInit_spec h_table ⟨7, 3, 42⟩
  obtain ⟨os₂, h_ok₂, h_table₂⟩ := syscallFifoInit_spec h_table₁ ⟨7, 3, 42⟩
  have h_run : ∀ {w : World} {os' : GlobalOS} {ret : Int32},
      syscallFifoInit w.os 7 3 42 = .ok (os', ret) →
      Syscall.run ⟨false, fun _ => 0⟩ .nominal w (.fifoInit 7 3 42)
        = .ok (.reply { w with os := os' } ret) := by
    intro w os' ret h_ok
    change (syscallFifoInit w.os 7 3 42 >>= _) = _
    rw [h_ok]
    rfl
  have h_first := h_run (w := World.boot os) h_ok₁
  have h_call : dispatch ⟨0, bytes "FIFO_INIT", 7, 3, 42, 0⟩ = .ok (.fifoInit 7 3 42) := by
    decide +kernel
  obtain ⟨L₁, L₂, -, h_world₁, h_visit, h_world₂⟩ := visit_replays
    (L := ⟨World.boot os, Buffer.zero maxLen, ⟨0, [], 0, 0, 0, 0⟩⟩) h_call h_first (h_run h_ok₂)
  have h_start : (osInstance ⟨false, fun _ => 0⟩ (puNumber 0) 6000).Reaches [] (World.boot os) :=
    System.Reaches.start h_os
  have hstep : (osInstance ⟨false, fun _ => 0⟩ (puNumber 0) 6000).step (World.boot os)
      (.syscall (.fifoInit 7 3 42) (fifoInitReply 0 0)) L₁.world := by
    rw [h_world₁]
    exact Served.reply h_first
  refine ⟨L₁, L₂, _, h_start.snoc hstep, h_visit, ?_, not_withoutEffect_visit fun h => by cases h⟩
  rw [h_world₁, h_world₂]
  -- the cursor has moved twice
  change os₂.globalFifoNow ≠ os₁.globalFifoNow
  rw [h_table₁.now, h_table₂.now]
  decide

end MoleculeOS
