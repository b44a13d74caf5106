import MoleculeOS.Model.SyscallLoop

/-!
# The client library (`global_syscall_interfaces.c`, `global_syscall_runtime.c`)

The static data of a client process, the request each library call sends, what `global_fifo_write`
and `global_spawn` put into the client's segment before they send it, and how a reply is read.
-/

namespace MoleculeOS

open Stdio

/-- The static variables of the library in one client process. -/
structure Client where
  globalOsId : Int32
  selfGlobalId : Int32
  shmClientUuid : Int32
  shmClientAddr : ShmAddr
  deriving DecidableEq, Repr

/-- Before `register_self_global`. -/
def Client.unregistered : Client := ⟨-1, -1, -1, .null⟩

/-- A C string: it has no NUL inside. -/
structure CStr where
  chars : List Byte
  nul_free : ∀ b ∈ chars, b ≠ 0

/-- The six fields of a request, in the order they are printed. -/
def SyscallVars.fields (v : SyscallVars) : List Val :=
  [.int v.clientId, .str v.funcName, .int v.funcArgs1, .int v.funcArgs2, .int v.funcArgs3,
    .int v.funcArgs4]

/-- The text of a request. -/
def requestText (v : SyscallVars) : List Byte := sprintf syscallReqFormat v.fields

/-- A request with its name written as in the source. -/
def syscallReq (id : Int32) (name : String) (args1 args2 args3 args4 : Int32) : SyscallVars :=
  ⟨id, bytes name, args1, args2, args3, args4⟩

/-- What `invoke_global_syscall` makes of a reply: one `read` of at most 31 bytes, a NUL, and a
scan into a variable that held `old`. -/
def invokeRet (reply : List Byte) (old : Int32) : Int32 :=
  intAt (sscanf syscallRspFormat 0 (reply.take 31 ++ [0])) 0 old

/-! ### Requests -/

section Requests

variable (c : Client)

def registerSelfGlobalReq : SyscallVars := syscallReq 0 "RegisterSelfGlobal" 0 0 0 0

def globalFifoInitReq (localFifo : Int32) : SyscallVars :=
  syscallReq c.selfGlobalId "FIFO_INIT" localFifo c.selfGlobalId (-1) 0

def globalFifoConnectReq (globalUuid : Int32) : SyscallVars :=
  syscallReq c.selfGlobalId "FIFO_CONNECT" globalUuid c.selfGlobalId (-1) 0

def globalFifoInitUuidReq (localFifo globalUuid : Int32) : SyscallVars :=
  syscallReq c.selfGlobalId "FIFO_INIT" localFifo c.selfGlobalId globalUuid 0

def globalFifoCloseReq (globalFifo : Int32) : SyscallVars :=
  syscallReq c.selfGlobalId "FIFO_CLOSE" globalFifo 0 0 0

def globalFifoReadReq (globalFifo len : Int32) : SyscallVars :=
  syscallReq c.selfGlobalId "FIFO_READ" globalFifo c.shmClientUuid len 0

def globalFifoWriteReq (globalFifo len : Int32) : SyscallVars :=
  syscallReq c.selfGlobalId "FIFO_WRITE" globalFifo c.shmClientUuid len 0

def globalSpawnReq (puId argvLen envpLen : Int32) : SyscallVars :=
  syscallReq c.selfGlobalId "GSPAWN" puId c.shmClientUuid argvLen envpLen

end Requests

/-! ### The client's segment -/

/-- `global_fifo_write` up to its request: the length check and the copy into the segment. -/
def globalFifoWritePut (seg : Buffer 4096) (buf : List Byte) (len : Int32) :
    Exec (Buffer 4096) := do
  -- the length of the segment itself is accepted
  assert (len.toInt ≤ 4096)
  let n ← offset len
  let data ← load buf n
  access (seg.poke 0 data)

/-- One packing loop of `global_spawn`: every string with its NUL behind the one before. -/
def packStrings (seg : Buffer 4096) : List CStr → ℕ → Exec (Buffer 4096 × ℕ)
  | [], len => .ok (seg, len)
  | s :: rest, len => do
    -- the library counts bytes, the handler strings
    assert (len + s.chars.length + 1 ≤ 256)
    let seg ← access (seg.poke len s.chars)
    let seg ← access (seg.poke (len + s.chars.length) [0])
    packStrings seg rest (len + s.chars.length + 1)

/-- `global_spawn` up to its request. -/
def globalSpawnPut (seg : Buffer 4096) (path : CStr) (argv envp : List CStr) :
    Exec (Buffer 4096) := do
  assert (path.chars.length + 1 ≤ 256)
  let seg ← access (seg.poke 0 path.chars)
  let seg ← access (seg.poke path.chars.length [0])
  let (seg, len) ← packStrings seg argv (path.chars.length + 1)
  let (seg, _) ← packStrings seg envp len
  return seg

/-- `register_self_global` after the reply. Only the OS creates segments, so `shmget` finds the one
of a pid that the OS returned; for -1 there is none, and the library exits. -/
def registerSelfGlobalAttach (P : Platform) (c : Client) (pid : Int32) : Exec Client :=
  if 0 ≤ pid.toInt then
    .ok { c with
      selfGlobalId := pid
      shmClientUuid := pid
      shmClientAddr := .attached (P.ftok (shmPath pid)) }
  else .error .throw

/-! ### Library calls -/

/-- A call of the library with its arguments. -/
inductive LibCall
  | registerSelfGlobal
  | globalFifoInit (localFifo : Int32)
  | globalFifoInitUuid (localFifo globalUuid : Int32)
  | globalFifoConnect (globalUuid : Int32)
  | globalFifoRead (globalFifo len : Int32)
  | globalFifoWrite (globalFifo : Int32) (buf : List Byte) (len : Int32)
  | globalFifoClose (globalFifo : Int32)
  | globalSpawn (puId : Int32) (path : CStr) (argv envp : List CStr)

namespace LibCall

/-- The request of a call. -/
def request (c : Client) : LibCall → SyscallVars
  | registerSelfGlobal => registerSelfGlobalReq
  | globalFifoInit localFifo => globalFifoInitReq c localFifo
  | globalFifoInitUuid localFifo globalUuid => globalFifoInitUuidReq c localFifo globalUuid
  | globalFifoConnect globalUuid => globalFifoConnectReq c globalUuid
  | globalFifoRead globalFifo len => globalFifoReadReq c globalFifo len
  | globalFifoWrite globalFifo _ len => globalFifoWriteReq c globalFifo len
  | globalFifoClose globalFifo => globalFifoCloseReq c globalFifo
  | globalSpawn puId _ argv envp =>
    globalSpawnReq c puId (Int32.ofInt argv.length) (Int32.ofInt envp.length)

/-- What a call does to the client's segment before it sends its request. -/
def put (seg : Buffer 4096) : LibCall → Exec (Buffer 4096)
  | globalFifoWrite _ buf len => globalFifoWritePut seg buf len
  | globalSpawn _ path argv envp => globalSpawnPut seg path argv envp
  | _ => .ok seg

/-- The calls that copy into the segment of the client. -/
def usesSegment : LibCall → Bool
  | globalFifoWrite _ _ _ | globalSpawn _ _ _ _ => true
  | _ => false

/-- The FIFO a call names by its id. -/
def globalFifo : LibCall → Option Int32
  | globalFifoRead g _ | globalFifoWrite g _ _ | globalFifoClose g => some g
  | _ => none

/-- The FIFO id that a call has returned, if it was successful. -/
def issue (ret : Int32) : LibCall → List Int32
  | globalFifoInit _ | globalFifoInitUuid _ _ | globalFifoConnect _ =>
    if 0 ≤ ret.toInt then [ret] else []
  | _ => []

end LibCall

end MoleculeOS
