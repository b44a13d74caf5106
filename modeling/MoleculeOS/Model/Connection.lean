import MoleculeOS.Library.Transition
import MoleculeOS.Handlers
import MoleculeOS.Model.Interfaces

/-!
# Connections to the OS

`invoke_global_syscall` writes a request to its stream and then blocks in one `read` for the reply.
`global_syscall_loop` takes one ready connection after the other; its `read` returns some of the
bytes that are waiting, at most `MAXLEN`, and whatever it returned is parsed as one request. All
connections share the buffer and the variables of the loop.

A `Connection` is the two streams of one client with what has happened on them. The direction to
the client is not cut: a read of the client returns what has been written, at most 31 bytes. Opening
and closing connections is left out, a connection that has nothing to read takes no part.
-/

namespace MoleculeOS

open Stdio Transition

/-- A syscall is not answered: a handler or what it does with the other PU's answer stops the OS. -/
inductive Stopped (P : Platform) (w : World) (call : Syscall) : Prop
  | running {k : Kernel} {h : Halt} (h_run : call.run P k w = .error h)
  | resumed {k : Kernel} {h : Halt} {w₁ : World} {msg : List Byte}
      {resume : World → Int32 → Exec (World × Int32)}
      (h_run : call.run P k w = .ok (.dsmCall w₁ msg resume)) (answer : Int32)
      (h_resume : resume w₁ answer = .error h)

/-! ### One connection -/

structure Connection where
  /-- Written by the client, not yet read by the OS. -/
  toOs : List Byte
  /-- Written by the OS, not yet read by the client. -/
  toClient : List Byte
  /-- The requests the client has written. -/
  sent : List SyscallVars
  /-- The handlers the OS has run for the connection, with their arguments. -/
  executed : List Syscall
  /-- The results of those that returned. -/
  results : List Int32
  /-- What `invoke_global_syscall` has returned to the client. -/
  replies : List Int32

namespace Connection

def opened : Connection := ⟨[], [], [], [], [], []⟩

/-- The client is not inside `invoke_global_syscall`. -/
def Idle (c : Connection) : Prop := c.sent.length = c.replies.length

/-- The client writes a request. -/
def request (c : Connection) (v : SyscallVars) : Connection :=
  { c with toOs := c.toOs ++ requestText v, sent := c.sent ++ [v] }

/-- The OS reads `n` bytes and makes the call it has parsed. -/
def handle (c : Connection) (n : ℕ) (call : Syscall) : Connection :=
  { c with toOs := c.toOs.drop n, executed := c.executed ++ [call] }

/-- The OS writes the result. -/
def reply (c : Connection) (ret : Int32) : Connection :=
  { c with toClient := c.toClient ++ syscallResp ret, results := c.results ++ [ret] }

/-- The client reads a reply into a variable that held `old`. -/
def receive (c : Connection) (old : Int32) : Connection :=
  { c with
    toClient := c.toClient.drop 31
    replies := c.replies ++ [invokeRet c.toClient old] }

end Connection

/-! ### The loop and its connections -/

structure Server (ι : Type) where
  loop : LoopState
  /-- The process has stopped. -/
  halted : Bool
  conns : ι → Connection

inductive ServerEvent (ι : Type)
  | request (i : ι) (v : SyscallVars)
  /-- `read` on the connection of `i` returns `data`. -/
  | read (i : ι) (data : List Byte)
  | receive (i : ι)

section Server

variable {ι : Type} [DecidableEq ι]

def Server.setConn (s : Server ι) (i : ι) (c : Connection) : Server ι :=
  { s with conns := Function.update s.conns i c }

inductive Server.Step (P : Platform) : Server ι → ServerEvent ι → Server ι → Prop
  -- a client writes when it has its last reply
  | request {s : Server ι} {i : ι} (h_idle : (s.conns i).Idle) (v : SyscallVars) :
      Step P s (.request i v) (s.setConn i ((s.conns i).request v))
  -- one `read`, which may end anywhere in what is waiting, and one handler
  | serve {s : Server ι} {i : ι} {data : List Byte} {k : Kernel} {L : LoopState} {call : Syscall}
      {w : World} {ret : Int32} (h_live : s.halted = false) (h_data : data ≠ [])
      (h_max : data.length ≤ maxLen) (h_front : data <+: (s.conns i).toOs)
      (h_receive : s.loop.receive k data = .ok (L, call)) (h_served : Served P L.world call w ret) :
      Step P s (.read i data) { (s.setConn i (((s.conns i).handle data.length call).reply ret)) with
        loop := { L with world := w } }
  -- the handler stops the process
  | stop {s : Server ι} {i : ι} {data : List Byte} {k : Kernel} {L : LoopState} {call : Syscall}
      (h_live : s.halted = false) (h_data : data ≠ []) (h_max : data.length ≤ maxLen)
      (h_front : data <+: (s.conns i).toOs) (h_receive : s.loop.receive k data = .ok (L, call))
      (h_stopped : Stopped P L.world call) :
      Step P s (.read i data) { (s.setConn i ((s.conns i).handle data.length call)) with
        loop := L, halted := true }
  -- what was read names no handler
  | unknown {s : Server ι} {i : ι} {data : List Byte} {k : Kernel} {h : Halt}
      (h_live : s.halted = false) (h_data : data ≠ []) (h_max : data.length ≤ maxLen)
      (h_front : data <+: (s.conns i).toOs) (h_receive : s.loop.receive k data = .error h) :
      Step P s (.read i data) { s with halted := true }
  -- what a failing scan leaves in the variable is `old`
  | receive {s : Server ι} {i : ι} (h_waits : ¬ (s.conns i).Idle)
      (h_arrived : (s.conns i).toClient ≠ []) (old : Int32) :
      Step P s (.receive i) (s.setConn i ((s.conns i).receive old))

/-- The loop with any number of clients, from any buffer and variables and any state of the PU. -/
def server (P : Platform) : System (Server ι) (ServerEvent ι) where
  init s := s.halted = false ∧ ∀ i, s.conns i = .opened
  step := Server.Step P

end Server

end MoleculeOS
