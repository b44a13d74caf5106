import Mathlib.Data.List.Basic

/-!
# The DSM channel over UCT (`uct_molecule_dsm.c`)

One side of the channel (`Endpoint`) is the code of `*_molecule_do_am_zcopy` and
`*_molecule_recv_msg` with the pointer the two share, `*_desc_holder`; the client's functions and
the server's are the same but for the pointer they use. Control is between the points where
something can happen meanwhile: `uct_worker_progress` fires callbacks, so it is a state of its own,
in which any number of completion callbacks and receive callbacks run, in any order.

The channel (`Channel`) is two endpoints, the messages on their way, and the loops around the
functions: `dsm_call` sends a request and receives a response, `run_two_way_server` receives a
request, handles it and sends the response. A request is known by its number, a response by the
number of the request it answers.

What UCT is relied on for: a send that returned `UCS_INPROGRESS` completes once, a message that was
accepted is delivered once, and callbacks run inside `uct_worker_progress` only. Where UCT keeps the
descriptor, the receive callback copies the message, and its `malloc` is taken to succeed: its exit
with `UCS_ERR_NO_MEMORY`, which leaves the holder as it is and loses the message, is left out.
-/

namespace MoleculeOS

/-! ### One side -/

/-- What `uct_ep_am_zcopy` returns. `err` is any error but `UCS_ERR_NO_RESOURCE`. -/
inductive UcsStatus
  | ok
  | inprogress
  | noResource
  | err
  deriving DecidableEq, Repr

/-- The content of `desc_holder`. -/
inductive Holder (M : Type)
  | null
  /-- `0xDEADBEEF`, stored by the completion callback. -/
  | marker
  /-- A received descriptor. -/
  | desc (m : M)
  deriving DecidableEq, Repr

/-- Where control is. -/
inductive Pc
  /-- Outside the two functions. -/
  | idle
  /-- Before `uct_ep_am_zcopy`. -/
  | post
  /-- In the `uct_worker_progress` behind it, which returned `status`. -/
  | postProgress (status : UcsStatus)
  /-- Before the test of `while (!desc_holder)`. -/
  | waitTest
  /-- In the `uct_worker_progress` of that loop. -/
  | waitProgress
  /-- Before `desc_holder = NULL; return status;`. -/
  | reset (status : UcsStatus)
  /-- Before the test of `while (desc_holder == NULL)` in `recv_msg`. -/
  | recvTest
  /-- In the `uct_worker_progress` of that loop. -/
  | recvProgress
  /-- `recv_msg` has followed `0xDEADBEEF`. -/
  | crashed
  deriving DecidableEq, Repr

/-- `uct_worker_progress` is running. -/
def Pc.inProgress : Pc → Prop
  | .postProgress _ | .waitProgress | .recvProgress => True
  | _ => False

structure Endpoint (M : Type) where
  holder : Holder M
  pc : Pc
  /-- The number of the current send, or of the last one. -/
  send : ℕ
  /-- The sends whose completion callback has not fired: the transport still uses their buffer and
  completion record. -/
  pending : List ℕ
  /-- A message has been delivered since the current send began. Nothing reads it. -/
  delivered : Bool
  deriving DecidableEq, Repr

/-- What happens at an endpoint. -/
inductive Act (M : Type)
  /-- `do_am_zcopy` is called; registering the memory succeeds or not. -/
  | send (registered : Bool)
  | amZcopy (status : UcsStatus)
  /-- The completion callback of a send. -/
  | complete (s : ℕ)
  /-- The receive callback. -/
  | deliver (m : M)
  /-- `uct_worker_progress` returns. -/
  | progressed
  /-- A waiting loop tests the holder. -/
  | test
  /-- `do_am_zcopy` resets the holder and returns. -/
  | finish (status : UcsStatus)
  /-- `recv_msg` is called. -/
  | recv
  /-- `recv_msg` has found the holder set and takes its content. -/
  | take (h : Holder M)
  deriving DecidableEq, Repr

namespace Endpoint

variable {M : Type}

def start : Endpoint M := ⟨.null, .idle, 0, [], false⟩

inductive Step : Endpoint M → Act M → Endpoint M → Prop
  | send {e : Endpoint M} (h_pc : e.pc = .idle) :
      Step e (.send true) { e with pc := .post, send := e.send + 1, delivered := false }
  -- `uct_md_mem_reg` fails, and nothing is posted
  | sendUnregistered {e : Endpoint M} (h_pc : e.pc = .idle) :
      Step e (.send false) { e with pc := .reset .err, send := e.send + 1, delivered := false }
  -- only `UCS_INPROGRESS` leaves a completion to come
  | amZcopy {e : Endpoint M} (h_pc : e.pc = .post) (status : UcsStatus) :
      Step e (.amZcopy status) { e with
        pc := .postProgress status
        pending := if status = .inprogress then e.send :: e.pending else e.pending }
  -- the callbacks store what they store without looking at the holder
  | complete {e : Endpoint M} {s : ℕ} (h_pc : e.pc.inProgress) (h_pending : s ∈ e.pending) :
      Step e (.complete s) { e with holder := .marker, pending := e.pending.erase s }
  | deliver {e : Endpoint M} (h_pc : e.pc.inProgress) (m : M) :
      Step e (.deliver m) { e with holder := .desc m, delivered := true }
  -- `while (status == UCS_ERR_NO_RESOURCE)`
  | retry {e : Endpoint M} (h_pc : e.pc = .postProgress .noResource) :
      Step e .progressed { e with pc := .post }
  | await {e : Endpoint M} (h_pc : e.pc = .postProgress .inprogress) :
      Step e .progressed { e with pc := .waitTest }
  -- nothing to wait for: it was sent at once, or not at all
  | posted {e : Endpoint M} {status : UcsStatus} (h_pc : e.pc = .postProgress status)
      (h_status : status = .ok ∨ status = .err) :
      Step e .progressed { e with pc := .reset status }
  | waited {e : Endpoint M} (h_pc : e.pc = .waitProgress) :
      Step e .progressed { e with pc := .waitTest }
  | received {e : Endpoint M} (h_pc : e.pc = .recvProgress) :
      Step e .progressed { e with pc := .recvTest }
  | waitNull {e : Endpoint M} (h_pc : e.pc = .waitTest) (h_holder : e.holder = .null) :
      Step e .test { e with pc := .waitProgress }
  -- whatever the holder is, a received descriptor included
  | waitSet {e : Endpoint M} (h_pc : e.pc = .waitTest) (h_holder : e.holder ≠ .null) :
      Step e .test { e with pc := .reset .ok }
  | recvNull {e : Endpoint M} (h_pc : e.pc = .recvTest) (h_holder : e.holder = .null) :
      Step e .test { e with pc := .recvProgress }
  | finish {e : Endpoint M} {status : UcsStatus} (h_pc : e.pc = .reset status) :
      Step e (.finish status) { e with pc := .idle, holder := .null }
  | recv {e : Endpoint M} (h_pc : e.pc = .idle) : Step e .recv { e with pc := .recvTest }
  | take {e : Endpoint M} {m : M} (h_pc : e.pc = .recvTest) (h_holder : e.holder = .desc m) :
      Step e (.take (.desc m)) { e with pc := .idle, holder := .null }
  -- the marker is followed like a descriptor
  | takeMarker {e : Endpoint M} (h_pc : e.pc = .recvTest) (h_holder : e.holder = .marker) :
      Step e (.take .marker) { e with pc := .crashed }

end Endpoint

/-! ### The two sides -/

/-- The transport accepted a send, so the message is on its way. -/
def UcsStatus.accepted : UcsStatus → Bool
  | .ok | .inprogress => true
  | .noResource | .err => false

structure Channel where
  client : Endpoint ℕ
  server : Endpoint ℕ
  /-- Requests on their way to the server. -/
  toServer : List ℕ
  /-- Responses on their way to the client. -/
  toClient : List ℕ
  /-- `dsm_call` has sent its request and waits for the response. -/
  calling : Bool
  /-- The request `run_two_way_server` has handled and not yet responded to. -/
  serving : Option ℕ
  /-- The number of requests that were accepted. -/
  issued : ℕ
  /-- The requests handled, in order. -/
  handled : List ℕ
  /-- The responses that were accepted, in order. -/
  responded : List ℕ
  /-- The responses `dsm_call` has received, in order. -/
  returned : List ℕ
  deriving DecidableEq, Repr

inductive Side
  | client
  | server
  deriving DecidableEq, Repr

namespace Channel

def start : Channel := ⟨.start, .start, [], [], false, none, 0, [], [], []⟩

/-- The rest of the channel when the client's endpoint makes a step: the loop of `dsm_call`, and
the transport. `none` where the loop or the transport does not allow the step. -/
def clientAct (c : Channel) : Act ℕ → Option Channel
  | .send _ => if c.calling then none else some c
  | .recv => if c.calling then some c else none
  | .amZcopy status =>
    some (if status.accepted then
      { c with toServer := c.toServer ++ [c.issued], issued := c.issued + 1 } else c)
  | .deliver m =>
    if m ∈ c.toClient then some { c with toClient := c.toClient.erase m } else none
  -- `dsm_call` does not look at what the send returned
  | .finish _ => some { c with calling := true }
  | .take (.desc m) => some { c with returned := c.returned ++ [m], calling := false }
  | _ => some c

/-- The same for the server's endpoint and the loop of `run_two_way_server`. -/
def serverAct (c : Channel) : Act ℕ → Option Channel
  | .send _ => if c.serving.isSome then some c else none
  | .recv => if c.serving.isSome then none else some c
  | .amZcopy status =>
    some (if status.accepted then
      { c with
        toClient := c.toClient ++ c.serving.toList
        responded := c.responded ++ c.serving.toList } else c)
  | .deliver m =>
    if m ∈ c.toServer then some { c with toServer := c.toServer.erase m } else none
  | .finish _ => some { c with serving := none }
  | .take (.desc m) => some { c with handled := c.handled ++ [m], serving := some m }
  | _ => some c

inductive Step : Channel → Side × Act ℕ → Channel → Prop
  | client {c c' : Channel} {a : Act ℕ} {e : Endpoint ℕ} (h_step : c.client.Step a e)
      (h_act : c.clientAct a = some c') : Step c (.client, a) { c' with client := e }
  | server {c c' : Channel} {a : Act ℕ} {e : Endpoint ℕ} (h_step : c.server.Step a e)
      (h_act : c.serverAct a = some c') : Step c (.server, a) { c' with server := e }

end Channel

end MoleculeOS
