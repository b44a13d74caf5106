import MoleculeOS.Model.GlobalSyscall

/-!
# Requests from the other PU (`dsm_handlers.c`, `dsm_call`, `run_two_way_server`)

One exchange over the DSM channel, with the transport delivering the request and the response:
the server's receive buffer starts with the message, `dsm_handlers` parses it and runs the
operation, the result goes back as text, and `dsm_call` reads it. The mailbox that carries the
messages is `Model/Uct.lean`.

The NUL that `*_molecule_recv_msg` stores behind a message is left out in `runTwoWayServer` and
`dsmCallRet`, although it is stored behind the buffer when the message fills it, as every response
does (`Receive.lean`). It changes neither a reply nor the bytes that are written: each message is
printed with a NUL of its own, no reader gets past that one, and the byte behind the buffer is none
of the variables here.
-/

namespace MoleculeOS

open Stdio

/-- The variables after the scan of a message. `func_name` has room for 255 characters. -/
def DsmVars.scan (vars : DsmVars) (vals : List Val) : Exec DsmVars :=
  if (strAt vals 1 vars.funcName).length < 256 then
    .ok {
      clientId := intAt vals 0 vars.clientId
      funcName := strAt vals 1 vars.funcName
      funcArgs1 := intAt vals 2 vars.funcArgs1
      funcArgs2 := intAt vals 3 vars.funcArgs2
      funcArgs3 := intAt vals 4 vars.funcArgs3
      funcArgs4 := intAt vals 5 vars.funcArgs4
      bufLen := intAt vals 6 vars.bufLen
      bufOffset := posAt vals 7 vars.bufOffset }
  else .error .outOfBounds

def dsmHandlers (k : Kernel) (w : World) (dsmCallBuf : List Byte) (len : ℤ) :
    Exec (World × Int32) := do
  let vars ← k.dsmVars.scan (sscanf dsmReqFormatCallee 0 dsmCallBuf)
  -- offset and length come from the message, and their sum is an `int`
  let last ← cint (vars.bufOffset.toInt + vars.bufLen.toInt)
  assert (last.toInt < len)
  if vars.funcName = bytes "WRITEFIFO" then
    let off ← offset vars.bufOffset
    writeLocalFifo k w vars.funcArgs1 (dsmCallBuf.drop off) vars.bufLen
  else if vars.funcName = bytes "FIFOCONNECT" then
    return (w, localFifoConnect w.os vars.funcArgs1)
  else return (w, -1)

/-- One iteration of `run_two_way_server`: the message received, the response sent. -/
def runTwoWayServer (k : Kernel) (w : World) (msg : List Byte) : Exec (World × List Byte) := do
  let dsmCallBuf ← access (k.dsmCallBuf.poke 0 msg)
  let (w, ret) ← dsmHandlers k w dsmCallBuf.data 4096
  -- the whole response buffer is sent, whatever lies behind its text
  let dsmRespBuf ← access (k.dsmRespBuf.poke 0 (sprintf dsmRspFormat [.int ret] ++ [0]))
  return (w, dsmRespBuf.data)

/-- What `dsm_call` returns for a response. -/
def dsmCallRet (k : Kernel) (resp : List Byte) : Int32 :=
  intAt (sscanf dsmRspFormat 0 resp) 0 k.dsmRet

/-- A syscall runs to its end: if it waits for the other PU, that PU serves the message. -/
def Outcome.finish (k : Kernel) (peer : World) : Outcome → Exec (World × World × Int32)
  | .reply w ret => .ok (w, peer, ret)
  | .dsmCall w msg resume => do
    let (peer, resp) ← runTwoWayServer k peer msg
    let (w, ret) ← resume w (dsmCallRet k resp)
    return (w, peer, ret)

end MoleculeOS
