import MoleculeOS.Model.Interfaces

/-!
# Registering with the OS (`global_syscall_runtime.c`, `register_self_global`)

`register_self_global` with everything it calls: the connection, the first request, the reply, and
the segment. What the host and the OS do at each step is an argument, `RegisterHost`.

The requests that were written count even if the process stops afterwards, so they are kept beside
the result (`Issued`).
-/

namespace MoleculeOS

open Stdio

/-- What the host and the OS do while a process registers. -/
structure RegisterHost where
  /-- The result of `socket`: a descriptor, or negative. -/
  socket : Int32
  /-- The result of `inet_pton`: positive if the address was converted. -/
  inetPton : Int32
  /-- The result of `connect`: negative if it failed. -/
  connect : Int32
  /-- The pid that the OS answers on an established connection; none if it closes it. -/
  reply : Option Int32
  /-- What a `read` from any other descriptor gets; nothing at its end, or in case of an error. -/
  stray : List Byte
  /-- The variable that the reply is scanned into. -/
  ret : Int32
  /-- The result of `shmget`: the id of a segment, or negative. -/
  shmget : Int32
  /-- `shmat` attaches the segment. -/
  shmat : Bool

namespace RegisterHost

/-- The descriptor of the connection to the OS, if there is one. -/
def established (host : RegisterHost) : Option Int32 :=
  if 0 ≤ host.socket.toInt ∧ 0 < host.inetPton.toInt ∧ 0 ≤ host.connect.toInt then
    some host.socket
  else none

/-- What a `read` from a descriptor gets. -/
def read (host : RegisterHost) (fd : Int32) : List Byte :=
  if host.established = some fd then
    match host.reply with
    | some pid => syscallResp pid
    | none => []
  else host.stray

end RegisterHost

/-- The requests that were written, each with its descriptor, and the result. -/
structure Issued (α : Type) where
  sent : List (Int32 × List Byte)
  result : Exec α

def connectGlobalOS (host : RegisterHost) : Int32 :=
  if host.socket.toInt < 0 then 1
  else if host.inetPton.toInt ≤ 0 then 1
  -- the descriptor is not closed
  else if host.connect.toInt < 0 then 1
  else host.socket

def invokeGlobalSyscall (host : RegisterHost) (globalOsFd : Int32) (syscall : List Byte) :
    Issued Int32 where
  sent := [(globalOsFd, syscall)]
  result := do
    let recvBuff := host.read globalOsFd
    assert (0 < recvBuff.length)
    return invokeRet recvBuff host.ret

def registerSelfGlobal (P : Platform) (host : RegisterHost) : Issued (Client × Int32) :=
  -- the result is not compared with an error
  let globalOsId := connectGlobalOS host
  let issued := invokeGlobalSyscall host globalOsId (requestText registerSelfGlobalReq)
  { sent := issued.sent
    result := do
      let selfGlobalId ← issued.result
      let segmentKey := P.ftok (shmPath selfGlobalId)
      if host.shmget.toInt < 0 then .error .throw
      else
        -- `shared_memory < (char*)0` holds of no pointer
        let sharedMemory : ShmAddr := if host.shmat then .attached segmentKey else .failed
        return (⟨globalOsId, selfGlobalId, selfGlobalId, sharedMemory⟩, 0) }

end MoleculeOS
