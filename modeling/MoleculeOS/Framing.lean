import MoleculeOS.Codec
import MoleculeOS.Model.Connection

/-!
# Request framing

The stream has no frames: the loop takes whatever one `read` returned for a whole request. When it
was a whole request the call is the right one, whatever earlier requests of any connection left in
the buffer and the variables (`LoopState.receive_requestText`). When the read ended inside the
request, the parse goes on into stale bytes and leaves stale variables, and the handler runs with
them; the rest of the request is taken for the next one.

`Server.Whole` is the condition that excludes this. A client that waits for its reply has at most
one message under way, a request or a reply; `Connection.Framed` says which, each step of the
connection is one lemma about it, and the framing of every run follows (`request_framing`).
-/

namespace MoleculeOS

open Stdio Transition

/-! ### The requests the dispatcher knows -/

/-- The names the dispatcher compares with are words that fit the loop's variable. -/
theorem funcName_of_dispatch {v : SyscallVars} {call : Syscall} (h : dispatch v = .ok call) :
    IsWord v.funcName ∧ v.funcName.length ≤ 255 := by
  -- one comparison for each handler; without a match the process exits
  have h_known : v.funcName ∈ ["RegisterSelfGlobal", "FIFO_INIT", "FIFO_READ", "FIFO_WRITE",
      "FIFO_CONNECT", "GSPAWN"].map bytes := by
    by_contra h_unknown
    simp only [List.map_cons, List.map_nil, List.mem_cons, List.not_mem_nil, or_false,
      not_or] at h_unknown
    obtain ⟨h₁, h₂, h₃, h₄, h₅, h₆⟩ := h_unknown
    unfold dispatch at h
    rw [if_neg h₁, if_neg h₂, if_neg h₃, if_neg h₄, if_neg h₅, if_neg h₆] at h
    exact absurd h (by simp)
  have h_all : ∀ name ∈ ["RegisterSelfGlobal", "FIFO_INIT", "FIFO_READ", "FIFO_WRITE",
      "FIFO_CONNECT", "GSPAWN"].map bytes, IsWord name ∧ name.length ≤ 255 := by
    decide +kernel
  exact h_all _ h_known

theorem requestText_ne_nil (v : SyscallVars) : requestText v ≠ [] := by
  -- the format starts with a letter, whatever the fields
  have h_format : syscallReqFormat = .lit 105 :: syscallReqFormat.tail := by decide +kernel
  unfold requestText
  rw [h_format, sprintf_lit]
  exact List.cons_ne_nil _ _

theorem LoopState.receive_eq_ok {k : Kernel} {L L' : LoopState} {data : List Byte}
    {call : Syscall} : L.receive k data = .ok (L', call) ↔
      ∃ buf vars, L.buf.poke 0 data = some buf ∧ parseRequest k buf L.vars = .ok vars ∧
        dispatch vars = .ok call ∧ L' = { L with buf := buf, vars := vars } := by
  unfold LoopState.receive
  simp only [Exec.bind_eq_ok, access_eq_ok]
  constructor
  · rintro ⟨buf, h_buf, vars, h_vars, call', h_call, h⟩
    obtain ⟨rfl, rfl⟩ := Prod.mk.inj (Except.ok.inj h)
    exact ⟨buf, vars, h_buf, h_vars, h_call, rfl⟩
  · rintro ⟨buf, vars, h_buf, h_vars, h_call, rfl⟩
    exact ⟨buf, h_buf, vars, h_vars, call, h_call, rfl⟩

/-- **A whole request is understood**, whatever the loop did before. -/
theorem LoopState.receive_requestText {v : SyscallVars} {call : Syscall}
    (h : dispatch v = .ok call) (k : Kernel) (L : LoopState) :
    ∃ L', L.receive k (requestText v) = .ok (L', call) ∧ L'.world = L.world := by
  obtain ⟨h_word, h_len⟩ := funcName_of_dispatch h
  obtain ⟨buf, h_read⟩ := exists_poke_requestText h_word h_len L.buf
  have h_parse := parseRequest_poke h_word h_len h_read k L.vars
  exact ⟨_, LoopState.receive_eq_ok.mpr ⟨buf, v, h_read, h_parse, h, rfl⟩, rfl⟩

/-! ### One connection -/

namespace Connection

variable {c : Connection} {v : SyscallVars} {call : Syscall} {unread : List SyscallVars}
  {unreplied : List Int32}

/-- **The invariant of a connection**: the requests the OS has not read and the results the client
has not read are what the two streams hold, and together they are at most one message. -/
structure Framed (c : Connection) (unread : List SyscallVars) (unreplied : List Int32) : Prop where
  /-- Execution for execution the requests, in order. -/
  calls : c.sent.map dispatch = c.executed.map .ok ++ unread.map dispatch
  toOs : c.toOs = (unread.map requestText).flatten
  toClient : c.toClient = (unreplied.map syscallResp).flatten
  results : c.results = c.replies ++ unreplied
  results_le : c.results.length ≤ c.executed.length
  one : unread.length + unreplied.length ≤ 1

theorem framed_opened : opened.Framed [] [] :=
  ⟨rfl, rfl, rfl, rfl, Nat.le_refl 0, Nat.zero_le 1⟩

theorem Framed.length_sent (h : c.Framed unread unreplied) :
    c.sent.length = c.executed.length + unread.length := by
  have h_length := congrArg List.length h.calls
  simpa only [List.length_map, List.length_append] using h_length

theorem Framed.length_results (h : c.Framed unread unreplied) :
    c.results.length = c.replies.length + unreplied.length := by
  rw [h.results, List.length_append]

/-- A client that has all its replies has nothing under way. -/
theorem Framed.of_idle (h : c.Framed unread unreplied) (h_idle : c.Idle) : c.Framed [] [] := by
  have h_sent := h.length_sent
  have h_results := h.length_results
  have h_le := h.results_le
  -- as many replies as requests: none of either is left
  unfold Idle at h_idle
  obtain rfl : unread = [] := List.eq_nil_of_length_eq_zero (by omega)
  obtain rfl : unreplied = [] := List.eq_nil_of_length_eq_zero (by omega)
  exact h

theorem Framed.request (h : c.Framed [] []) (v : SyscallVars) :
    (c.request v).Framed [v] [] where
  calls := by
    change (c.sent ++ [v]).map dispatch = _
    rw [List.map_append, h.calls, List.map_nil, List.append_nil]
    rfl
  toOs := by
    change c.toOs ++ requestText v = _
    rw [h.toOs, List.map_nil, List.flatten_nil, List.nil_append, List.map_singleton,
      List.flatten_singleton]
  toClient := h.toClient
  results := h.results
  results_le := h.results_le
  one := Nat.le_refl 1

/-- What is waiting to be read is a whole request. -/
theorem Framed.unread_eq (h : c.Framed unread unreplied) (h_toOs : c.toOs ≠ []) :
    ∃ v, unread = [v] ∧ unreplied = [] ∧ c.toOs = requestText v := by
  have h_one := h.one
  cases unread with
  | nil => exact absurd h.toOs h_toOs
  | cons v rest =>
    rw [List.length_cons] at h_one
    obtain rfl : rest = [] := List.eq_nil_of_length_eq_zero (by omega)
    obtain rfl : unreplied = [] := List.eq_nil_of_length_eq_zero (by omega)
    exact ⟨v, rfl, rfl, by rw [h.toOs, List.map_singleton, List.flatten_singleton]⟩

/-- The OS reads the request and makes the call. -/
theorem Framed.handle (h : c.Framed [v] []) (h_call : dispatch v = .ok call) :
    (c.handle (requestText v).length call).Framed [] [] ∧
      c.results.length < (c.handle (requestText v).length call).executed.length := by
  have h_le := h.results_le
  have h_executed : (c.executed ++ [call]).length = c.executed.length + 1 := by
    rw [List.length_append, List.length_singleton]
  refine ⟨⟨?_, ?_, h.toClient, h.results, ?_, Nat.zero_le 1⟩, ?_⟩
  · change c.sent.map dispatch = (c.executed ++ [call]).map .ok ++ [].map dispatch
    rw [h.calls, List.map_append, List.map_singleton, List.map_singleton, h_call, List.map_nil,
      List.append_nil]
  · -- the read took the whole stream
    change c.toOs.drop _ = _
    rw [h.toOs, List.map_singleton, List.flatten_singleton, List.drop_length]
    rfl
  · change c.results.length ≤ (c.executed ++ [call]).length
    omega
  · change c.results.length < (c.executed ++ [call]).length
    omega

/-- The OS writes the result. -/
theorem Framed.reply (h : c.Framed [] []) (h_lt : c.results.length < c.executed.length)
    (ret : Int32) : (c.reply ret).Framed [] [ret] where
  calls := h.calls
  toOs := h.toOs
  toClient := by
    change c.toClient ++ syscallResp ret = _
    rw [h.toClient, List.map_nil, List.flatten_nil, List.nil_append, List.map_singleton,
      List.flatten_singleton]
  results := by
    change c.results ++ [ret] = _
    rw [h.results, List.append_nil]
    rfl
  results_le := by
    change (c.results ++ [ret]).length ≤ c.executed.length
    rw [List.length_append, List.length_singleton]
    exact h_lt
  one := Nat.le_refl 1

/-- The client reads the result. -/
theorem Framed.receive (h : c.Framed unread unreplied) (h_arrived : c.toClient ≠ []) :
    ∃ ret, unread = [] ∧ unreplied = [ret] ∧
      ∀ old, invokeRet c.toClient old = ret ∧ (c.receive old).Framed [] [] := by
  have h_one := h.one
  cases unreplied with
  | nil => exact absurd h.toClient h_arrived
  | cons ret rest =>
    rw [List.length_cons] at h_one
    obtain rfl : rest = [] := List.eq_nil_of_length_eq_zero (by omega)
    obtain rfl : unread = [] := List.eq_nil_of_length_eq_zero (by omega)
    have h_toClient := h.toClient
    rw [List.map_singleton, List.flatten_singleton] at h_toClient
    have h_ret : ∀ old, invokeRet c.toClient old = ret := by
      intro old
      rw [h_toClient, invokeRet_syscallResp]
    refine ⟨ret, rfl, rfl, fun old => ⟨h_ret old, h.calls, h.toOs, ?_, ?_, h.results_le,
      Nat.zero_le 1⟩⟩
    · -- a reply fits into one read of 31 bytes
      have h_len := length_syscallResp_le ret
      change c.toClient.drop 31 = _
      rw [h_toClient, List.drop_eq_nil_of_le (by omega)]
      rfl
    · change c.results = c.replies ++ [invokeRet c.toClient old] ++ []
      rw [h_ret, h.results, List.append_nil]

/-- **The framing of a connection.** -/
structure InOrder (c : Connection) : Prop where
  /-- The handlers have run for the requests, each once and in order; a request for which none has
  run is still to be read, whole. -/
  calls : ∃ unread : List SyscallVars,
    c.sent.map dispatch = c.executed.map .ok ++ unread.map dispatch ∧
    c.toOs = (unread.map requestText).flatten
  /-- The k-th reply is the result of the k-th execution. -/
  replies : c.replies <+: c.results
  results_le : c.results.length ≤ c.executed.length
  /-- When the client has its replies, all its requests have been executed. -/
  idle : c.Idle → c.sent.map dispatch = c.executed.map .ok

theorem Framed.inOrder (h : c.Framed unread unreplied) : c.InOrder where
  calls := ⟨unread, h.calls, h.toOs⟩
  replies := ⟨unreplied, h.results.symm⟩
  results_le := h.results_le
  idle h_idle := by
    have h_calls := (h.of_idle h_idle).calls
    rwa [List.map_nil, List.append_nil] at h_calls

end Connection

/-! ### The loop -/

section Server

variable {ι : Type} [DecidableEq ι] {P : Platform}

/-- Every read returns the whole of what is waiting, and clients ask for what the dispatcher
knows. -/
def Server.Whole (s : Server ι) : ServerEvent ι → Prop
  | .request _ v => ∃ call, dispatch v = .ok call
  | .read i data => data = (s.conns i).toOs
  | .receive _ => True

/-- Each connection has at most one message under way, and the dispatcher knows the requests. -/
def Server.Framed (s : Server ι) : Prop := ∀ i, ∃ unread unreplied,
  (s.conns i).Framed unread unreplied ∧ ∀ v ∈ unread, ∃ call, dispatch v = .ok call

/-- A step on one connection leaves the others as they are. -/
theorem Server.Framed.setConn {s : Server ι} (h : s.Framed) {i : ι} {c : Connection}
    {unread : List SyscallVars} {unreplied : List Int32} (h_c : c.Framed unread unreplied)
    (h_known : ∀ v ∈ unread, ∃ call, dispatch v = .ok call) : (s.setConn i c).Framed := by
  intro j
  change ∃ unread unreplied, (Function.update s.conns i c j).Framed unread unreplied ∧ _
  by_cases h_j : j = i
  · subst h_j
    rw [Function.update_self]
    exact ⟨unread, unreplied, h_c, h_known⟩
  · rw [Function.update_of_ne h_j]
    exact h j

omit [DecidableEq ι] in
/-- A read of the whole of what is waiting is a request, and the call made is the request's. -/
theorem Server.Framed.read {s : Server ι} (h : s.Framed) {i : ι} {k : Kernel} {L : LoopState}
    {call : Syscall} (h_data : (s.conns i).toOs ≠ [])
    (h_receive : s.loop.receive k (s.conns i).toOs = .ok (L, call)) :
    ∃ v, (s.conns i).Framed [v] [] ∧ (s.conns i).toOs = requestText v ∧
      dispatch v = .ok call := by
  obtain ⟨unread, unreplied, h_i, h_known⟩ := h i
  obtain ⟨v, rfl, rfl, h_toOs⟩ := h_i.unread_eq h_data
  obtain ⟨call', h_call⟩ := h_known v List.mem_cons_self
  -- a whole request has one parse, so the call made is its call
  obtain ⟨L', h_parsed, -⟩ := s.loop.receive_requestText h_call k
  rw [← h_toOs, h_receive] at h_parsed
  obtain ⟨-, rfl⟩ := Prod.mk.inj (Except.ok.inj h_parsed)
  exact ⟨v, h_i, h_toOs, h_call⟩

/-- **One step of the loop or of a client.** -/
theorem Server.Framed.step {s t : Server ι} {l : ServerEvent ι} (h : s.Framed)
    (h_whole : s.Whole l) (hstep : s.Step P l t) : t.Framed := by
  cases hstep with
  | @request i h_idle v =>
    obtain ⟨unread, unreplied, h_i, -⟩ := h i
    refine h.setConn ((h_i.of_idle h_idle).request v) fun v' h_v => ?_
    rw [List.mem_singleton.mp h_v]
    exact h_whole
  | @serve i data k L call w ret h_live h_data h_max h_front h_receive h_served =>
    -- the request is handled, then its result written
    obtain rfl : data = (s.conns i).toOs := h_whole
    obtain ⟨v, h_v, h_toOs, h_call⟩ := h.read h_data h_receive
    obtain ⟨h_handled, h_lt⟩ := h_v.handle h_call
    rw [h_toOs]
    exact h.setConn (h_handled.reply h_lt ret) fun _ h' => absurd h' List.not_mem_nil
  | @stop i data k L call h_live h_data h_max h_front h_receive h_stopped =>
    -- the handler does not return, so no result follows
    obtain rfl : data = (s.conns i).toOs := h_whole
    obtain ⟨v, h_v, h_toOs, h_call⟩ := h.read h_data h_receive
    rw [h_toOs]
    exact h.setConn (h_v.handle h_call).1 fun _ h' => absurd h' List.not_mem_nil
  | unknown => exact h
  | @receive i h_waits h_arrived old =>
    obtain ⟨unread, unreplied, h_i, -⟩ := h i
    obtain ⟨ret, -, -, h_receive⟩ := h_i.receive h_arrived
    exact h.setConn (h_receive old).2 fun _ h' => absurd h' List.not_mem_nil

/-- **Request framing.** In every run in which each read returns a whole request that the dispatcher
knows, each connection's handlers run for its requests, in order, each once, and its k-th reply is
the k-th result: whatever the other connections do, and whatever state the loop was started in. -/
theorem request_framing (ls : List (ServerEvent ι)) (s : Server ι)
    (h_reach : ((server P).restrict Server.Whole).Reaches ls s) (i : ι) :
    (s.conns i).InOrder := by
  -- the invariant holds with the conditions on the labels, whatever the loop's state
  have h_framed : s.Framed := by
    refine System.Reaches.invariant ?_ ?_ h_reach
    · rintro s ⟨-, h_opened⟩ i
      rw [h_opened i]
      exact ⟨[], [], Connection.framed_opened, fun _ h' => absurd h' List.not_mem_nil⟩
    · intro s l t h hstep
      exact h.step hstep.1 hstep.2
  obtain ⟨unread, unreplied, h_i, -⟩ := h_framed i
  exact h_i.inOrder

end Server

/-! ### One request, whole and cut -/

/-- The single-PU build, where every file has the same key. -/
def lonePlatform : Platform := ⟨false, fun _ => 0⟩

/-- The loop as it starts, over zero memory. -/
def loneServer : Server ℕ :=
  ⟨⟨World.boot (bootOs 0 8888 0), Buffer.zero maxLen, ⟨0, [], 0, 0, 0, 0⟩⟩, false,
    fun _ => .opened⟩

/-- `FIFO_READ` of 8 bytes of FIFO 34. -/
def readRequest : SyscallVars := ⟨1, bytes "FIFO_READ", 34, 1, 8, 0⟩

theorem dispatch_readRequest : dispatch readRequest = .ok (.fifoRead 34 1 8) := by
  decide +kernel

/-- Client 0 has written the request. -/
def askedServer : Server ℕ := loneServer.setConn 0 (Connection.opened.request readRequest)

theorem step_request : Server.Step lonePlatform loneServer (.request 0 readRequest) askedServer :=
  have h_idle : (loneServer.conns 0).Idle := rfl
  .request h_idle readRequest

/-- The first bytes of `readRequest`, up to the first digit of the FIFO. -/
def readRequestStart : List Byte := bytes "id: 1 func:FIFO_READ args1:3"

theorem readRequestStart_prefix : readRequestStart <+: requestText readRequest := by
  decide +kernel

/-- The variables keep what they held for the arguments that have not arrived. -/
theorem receive_readRequestStart : ∃ L, loneServer.loop.receive .nominal readRequestStart
    = .ok (L, .fifoRead 3 0 0) := by
  obtain ⟨buf, h_buf⟩ := (Buffer.zero maxLen).exists_poke
    (show 0 + readRequestStart.length ≤ maxLen by decide)
  have h_data := Buffer.drop_of_poke h_buf
  -- behind the bytes read there is zero memory, where the scan ends
  have h_scan : sscanf syscallReqFormat 0 (readRequestStart ++ List.replicate 997 0)
      = [.int 1, .str (bytes "FIFO_READ"), .int 3] := by decide +kernel
  have h_zero : (Buffer.zero maxLen).data.drop (0 + readRequestStart.length)
      ++ Kernel.nominal.behindBuf = List.replicate 997 0 := by decide +kernel
  have h_parse : parseRequest .nominal buf ⟨0, [], 0, 0, 0, 0⟩
      = .ok ⟨1, bytes "FIFO_READ", 3, 0, 0, 0⟩ := by
    rw [List.drop_zero] at h_data
    unfold parseRequest
    rw [h_data, List.append_assoc, h_zero, h_scan]
    decide +kernel
  exact ⟨_, LoopState.receive_eq_ok.mpr ⟨buf, _, h_buf, h_parse, by decide +kernel, rfl⟩⟩

theorem request_framing_read : ∃ s, ((server lonePlatform).restrict Server.Whole).Reaches
      [.request 0 readRequest, .read 0 (requestText readRequest)] s ∧
    (s.conns 0).executed = [.fifoRead 34 1 8] ∧ (s.conns 0).InOrder := by
  have h₀ : ((server lonePlatform).restrict Server.Whole).Reaches [] loneServer :=
    System.Reaches.start ⟨rfl, fun _ => rfl⟩
  have h₁ : ((server lonePlatform).restrict Server.Whole).Reaches [.request 0 readRequest]
      askedServer := h₀.snoc ⟨⟨_, dispatch_readRequest⟩, step_request⟩
  obtain ⟨L, h_receive, -⟩ := loneServer.loop.receive_requestText dispatch_readRequest .nominal
  have h_read : Server.Step lonePlatform askedServer (.read 0 (requestText readRequest)) _ :=
    .serve rfl (requestText_ne_nil _) (by decide +kernel) (List.prefix_refl _) h_receive
      (.reply (k := .nominal) rfl)
  have h_whole : askedServer.Whole (.read 0 (requestText readRequest)) := rfl
  have h₂ := h₁.snoc ⟨h_whole, h_read⟩
  exact ⟨_, h₂, rfl, request_framing _ _ h₂ 0⟩

/-- The same request, of which the first read returns the part up to the first digit of the FIFO:
the handler runs for FIFO 3. -/
theorem request_cut : ∃ s, (server lonePlatform).Reaches
      [.request 0 readRequest, .read 0 readRequestStart] s ∧
    (s.conns 0).sent = [readRequest] ∧ (s.conns 0).executed = [.fifoRead 3 0 0] ∧
    ¬ (s.conns 0).InOrder := by
  have h₀ : (server lonePlatform).Reaches [] loneServer :=
    System.Reaches.start ⟨rfl, fun _ => rfl⟩
  have h₁ : (server lonePlatform).Reaches [.request 0 readRequest] askedServer :=
    h₀.snoc step_request
  obtain ⟨L, h_receive⟩ := receive_readRequestStart
  have h_read : Server.Step lonePlatform askedServer (.read 0 readRequestStart) _ :=
    .serve rfl (by decide) (by decide +kernel) readRequestStart_prefix h_receive
      (.reply (k := .nominal) rfl)
  refine ⟨_, h₁.snoc h_read, rfl, rfl, fun h => ?_⟩
  -- the first request is for FIFO 34 and the first execution is not
  obtain ⟨unread, h_calls, -⟩ := h.calls
  change [dispatch readRequest] = .ok (.fifoRead 3 0 0) :: unread.map dispatch at h_calls
  rw [dispatch_readRequest] at h_calls
  exact absurd (List.cons.inj h_calls).1 (by decide)

end MoleculeOS
