import MoleculeOS.Model.Dsm

/-!
# The syscall loop (`global_syscall_loop`)

What the loop does with one ready connection: `read` puts the next bytes of the stream at the
start of `buf`, over what was there; `sscanf` parses `buf` into the request variables; the
dispatcher compares the function name and runs the handler; the result is written back as text.
`buf` is neither cleared nor terminated, and the variables keep their values from request to
request.
-/

namespace MoleculeOS

open Stdio

/-- `MAXLEN` -/
def maxLen : ℕ := 1024

/-- The variables the loop parses a request into. -/
structure SyscallVars where
  clientId : Int32
  funcName : List Byte
  funcArgs1 : Int32
  funcArgs2 : Int32
  funcArgs3 : Int32
  funcArgs4 : Int32
  deriving DecidableEq, Repr

/-- The state of the loop: the OS it serves, the buffer and the variables. -/
structure LoopState where
  world : World
  buf : Buffer maxLen
  vars : SyscallVars

/-- The variables after the scan of a request. `func_name` has room for 255 characters. -/
def SyscallVars.scan (vars : SyscallVars) (vals : List Val) : Exec SyscallVars :=
  if (strAt vals 1 vars.funcName).length < 256 then
    .ok {
      clientId := intAt vals 0 vars.clientId
      funcName := strAt vals 1 vars.funcName
      funcArgs1 := intAt vals 2 vars.funcArgs1
      funcArgs2 := intAt vals 3 vars.funcArgs2
      funcArgs3 := intAt vals 4 vars.funcArgs3
      funcArgs4 := intAt vals 5 vars.funcArgs4 }
  else .error .outOfBounds

/-- `sscanf(buf, SYSCALL_REQ_FORMAT, ...)`. Nothing ends the string but what memory holds. -/
def parseRequest (k : Kernel) (buf : Buffer maxLen) (vars : SyscallVars) : Exec SyscallVars :=
  vars.scan (sscanf syscallReqFormat 0 (buf.data ++ k.behindBuf))

/-- A handler of the dispatch list with the arguments it is called with. -/
inductive Syscall
  | registerSelfGlobal (localPid : Int32)
  | fifoInit (localUuid ownerPid globalUuid : Int32)
  | fifoRead (globalFifo shmid length : Int32)
  | fifoWrite (globalFifo shmid length : Int32)
  | fifoConnect (globalUuid ownerPid : Int32)
  | gspawn (puId shmid argvLen envpLen : Int32)
  deriving DecidableEq, Repr

/-- The dispatch on the function name. An unknown name ends the process. -/
def dispatch (v : SyscallVars) : Exec Syscall :=
  if v.funcName = bytes "RegisterSelfGlobal" then .ok (.registerSelfGlobal v.funcArgs1)
  else if v.funcName = bytes "FIFO_INIT" then
    .ok (.fifoInit v.funcArgs1 v.funcArgs2 v.funcArgs3)
  else if v.funcName = bytes "FIFO_READ" then
    .ok (.fifoRead v.funcArgs1 v.funcArgs2 v.funcArgs3)
  else if v.funcName = bytes "FIFO_WRITE" then
    .ok (.fifoWrite v.funcArgs1 v.funcArgs2 v.funcArgs3)
  else if v.funcName = bytes "FIFO_CONNECT" then .ok (.fifoConnect v.funcArgs1 v.funcArgs2)
  else if v.funcName = bytes "GSPAWN" then
    .ok (.gspawn v.funcArgs1 v.funcArgs2 v.funcArgs3 v.funcArgs4)
  else .error .exit

/-- Run a handler. -/
def Syscall.run (P : Platform) (k : Kernel) (w : World) : Syscall → Exec Outcome
  | .registerSelfGlobal localPid => do
    let (w, ret) ← syscallRegisterGlobal P k w localPid
    return .reply w ret
  | .fifoInit localUuid ownerPid globalUuid => do
    let (os, ret) ← syscallFifoInit w.os localUuid ownerPid globalUuid
    return .reply { w with os := os } ret
  | .fifoRead globalFifo shmid length => do
    let (w, ret) ← syscallFifoRead P w globalFifo shmid length
    return .reply w ret
  | .fifoWrite globalFifo shmid length => syscallFifoWrite P k w globalFifo shmid length
  | .fifoConnect globalUuid ownerPid => syscallFifoConnect P k w globalUuid ownerPid
  | .gspawn puId shmid argvLen envpLen => do
    let (w, ret) ← syscallGspawn P k w puId shmid argvLen envpLen
    return .reply w ret

/-- The reply text. -/
def syscallResp (ret : Int32) : List Byte := sprintf syscallRspFormat [.int ret]

/-- The loop after `read` has returned `data`: the variables it parsed and the call it makes. -/
def LoopState.receive (k : Kernel) (L : LoopState) (data : List Byte) :
    Exec (LoopState × Syscall) := do
  -- what a shorter request does not overwrite stays in the buffer
  let buf ← access (L.buf.poke 0 data)
  let vars ← parseRequest k buf L.vars
  let call ← dispatch vars
  return ({ L with buf := buf, vars := vars }, call)

end MoleculeOS
