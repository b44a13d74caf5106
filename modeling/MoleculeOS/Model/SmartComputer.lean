import MoleculeOS.FifoTable
import MoleculeOS.Model.Connection

/-!
# A smart computer: PUs, their OSs, and clients

Any number of PUs, each with its OS, and any number of client processes, each connected to the OS of
its own PU. A client makes one library call after the other: it writes its segment, sends the
request and waits for the reply, and in between everybody else may go on. The OS of a PU may have to
ask the OS of the PU at the other end of its DSM channel; that exchange goes through (when it does
is the subject of `Mailbox.lean`), and no other request of the asking OS is handled meanwhile.

A client names FIFOs by ids that earlier calls, its own or another client's, have returned. It may
register more than once. Before it has, the calls that copy into its segment end it, for the library
has the address of none; the others are sent all the same.
-/

namespace MoleculeOS

open Stdio Transition

/-- What is fixed: the build, the PUs and their channels, who runs where, and what the hosts may
do. -/
structure SmartComputer (κ ι : Type) where
  P : Platform
  puId : κ → Fin 8
  /-- The PU at the other end of the DSM channel. -/
  peer : κ → κ
  /-- The PU a client runs on. -/
  home : ι → κ
  host : Kernel → Prop

/-- Where a client is. -/
inductive Phase
  /-- Between two calls. -/
  | ready
  /-- The segment is written, the request is not yet sent. -/
  | prepared (call : LibCall)
  /-- In `invoke_global_syscall`. -/
  | waiting (call : LibCall)
  /-- The library has ended the process. -/
  | exited

structure ClientState where
  lib : Client
  phase : Phase
  /-- The calls whose request was sent. -/
  made : List LibCall

/-- The call a client waits for. -/
def Phase.pending : Phase → Option LibCall
  | .waiting call => some call
  | _ => none

/-- A call that the OS has answered. -/
structure Answer (ι : Type) where
  client : ι
  call : LibCall
  syscall : Syscall
  ret : Int32

structure SmartState (κ ι : Type) where
  pus : κ → LoopState
  /-- An OS has stopped. -/
  halted : Bool
  conns : ι → Connection
  clients : ι → ClientState
  /-- The FIFO ids that calls have returned. -/
  issued : List Int32
  /-- The calls that were answered, in order. Nothing reads it. -/
  answers : List (Answer ι)

inductive SmartEvent (ι : Type)
  /-- A client starts a call, and has written its segment. -/
  | call (i : ι) (call : LibCall)
  | request (i : ι)
  /-- The OS reads `data` from the connection of a client. -/
  | read (i : ι) (data : List Byte)
  | receive (i : ι)

/-- The OS handles what it has read: the state of its loop afterwards, the PU at the other end of
the channel, the syscall and its result. -/
def handleRead (P : Platform) (k peerKernel : Kernel) (L : LoopState) (peer : World)
    (data : List Byte) : Exec (LoopState × World × Syscall × Int32) := do
  let (L, call) ← L.receive k data
  let out ← call.run P k L.world
  let (w, peer, ret) ← out.finish peerKernel peer
  return ({ L with world := w }, peer, call, ret)

/-- A client after the reply to its call. -/
def ClientState.returned (P : Platform) (c : ClientState) (ret : Int32) : LibCall → ClientState
  | .registerSelfGlobal =>
    match registerSelfGlobalAttach P c.lib ret with
    | .ok lib => { c with lib := lib, phase := .ready }
    | .error _ => { c with phase := .exited }
  | _ => { c with phase := .ready }

section Step

variable {κ ι : Type} [DecidableEq κ] [DecidableEq ι]

namespace SmartState

def setConn (s : SmartState κ ι) (i : ι) (c : Connection) : SmartState κ ι :=
  { s with conns := Function.update s.conns i c }

def setClient (s : SmartState κ ι) (i : ι) (c : ClientState) : SmartState κ ι :=
  { s with clients := Function.update s.clients i c }

def setPu (s : SmartState κ ι) (p : κ) (L : LoopState) : SmartState κ ι :=
  { s with pus := Function.update s.pus p L }

def setWorld (s : SmartState κ ι) (p : κ) (w : World) : SmartState κ ι :=
  s.setPu p { s.pus p with world := w }

end SmartState

inductive SmartStep (D : SmartComputer κ ι) : SmartState κ ι → SmartEvent ι → SmartState κ ι → Prop
  | call {s : SmartState κ ι} {i : ι} {call : LibCall} (h_phase : (s.clients i).phase = .ready)
      (h_plain : call.usesSegment = false)
      (h_fifo : ∀ g, call.globalFifo = some g → g ∈ s.issued) :
      SmartStep D s (.call i call) (s.setClient i { s.clients i with phase := .prepared call })
  -- a failing assertion of the library would be the client's end, not the OS's
  | put {s : SmartState κ ι} {i : ι} {call : LibCall} {key : Int32} {seg : Buffer 4096}
      (h_phase : (s.clients i).phase = .ready) (h_uses : call.usesSegment = true)
      (h_fifo : ∀ g, call.globalFifo = some g → g ∈ s.issued)
      (h_addr : (s.clients i).lib.shmClientAddr = .attached key)
      (h_put : call.put ((s.pus (D.home i)).world.shm key) = .ok seg) :
      SmartStep D s (.call i call)
        ((s.setWorld (D.home i) ((s.pus (D.home i)).world.setSegment key seg)).setClient i
          { s.clients i with phase := .prepared call })
  | request {s : SmartState κ ι} {i : ι} {call : LibCall}
      (h_phase : (s.clients i).phase = .prepared call) :
      SmartStep D s (.request i)
        ((s.setConn i ((s.conns i).request (call.request (s.clients i).lib))).setClient i
          { s.clients i with phase := .waiting call, made := (s.clients i).made ++ [call] })
  -- the exchange with the other PU is part of the step
  | serve {s : SmartState κ ι} {i : ι} {data : List Byte} {k peerKernel : Kernel} {L : LoopState}
      {peer : World} {call : Syscall} {ret : Int32} (h_live : s.halted = false)
      (h_data : data ≠ []) (h_max : data.length ≤ maxLen) (h_front : data <+: (s.conns i).toOs)
      (h_host : D.host k) (h_peerHost : D.host peerKernel)
      (h_handle : handleRead D.P k peerKernel (s.pus (D.home i))
        (s.pus (D.peer (D.home i))).world data = .ok (L, peer, call, ret)) :
      SmartStep D s (.read i data)
        { ((s.setWorld (D.peer (D.home i)) peer).setPu (D.home i) L).setConn i
            (((s.conns i).handle data.length call).reply ret) with
          answers := s.answers ++
            (s.clients i).phase.pending.toList.map fun c => ⟨i, c, call, ret⟩ }
  -- one of the two OSs stops, and nobody is served any more
  | down {s : SmartState κ ι} {i : ι} {data : List Byte} {k peerKernel : Kernel} {h : Halt}
      (h_live : s.halted = false)
      (h_data : data ≠ []) (h_max : data.length ≤ maxLen) (h_front : data <+: (s.conns i).toOs)
      (h_host : D.host k) (h_peerHost : D.host peerKernel)
      (h_handle : handleRead D.P k peerKernel (s.pus (D.home i))
        (s.pus (D.peer (D.home i))).world data = .error h) :
      SmartStep D s (.read i data) { s with halted := true }
  | receive {s : SmartState κ ι} {i : ι} {call : LibCall}
      (h_phase : (s.clients i).phase = .waiting call) (h_arrived : (s.conns i).toClient ≠ [])
      (old : Int32) :
      SmartStep D s (.receive i)
        { (s.setConn i ((s.conns i).receive old)).setClient i
            ((s.clients i).returned D.P (invokeRet (s.conns i).toClient old) call) with
          issued := s.issued ++ call.issue (invokeRet (s.conns i).toClient old) }

/-- A smart computer from its start: every OS fresh from `global_os_init`, no client registered. -/
def smartComputer (D : SmartComputer κ ι) : System (SmartState κ ι) (SmartEvent ι) where
  init s :=
    (∀ p, ∃ osPort os, globalOsInit (puNumber (D.puId p)) osPort = .ok os ∧
      (s.pus p).world = World.boot os) ∧
    s.halted = false ∧ (∀ i, s.conns i = .opened) ∧
    (∀ i, s.clients i = ⟨.unregistered, .ready, []⟩) ∧ s.issued = [] ∧ s.answers = []
  step := SmartStep D

end Step

end MoleculeOS
