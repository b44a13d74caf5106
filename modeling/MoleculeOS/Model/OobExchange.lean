import MoleculeOS.Library.Stdio
import MoleculeOS.Library.Streams
import MoleculeOS.Startup

/-!
# The out-of-band exchange (`inter-device/uct_molecule_dsm.c`, `dsm_util.h`)

Before two PUs can talk over a transport, `molecule_prepare_dsm_ctx` exchanges their addresses over
a TCP connection: for each context, one PU listens and accepts (`server_connect`), the other
connects to it until it gets through (`client_connect`), and each sends blocks of its own and
receives the blocks of the other (`sendrecv`), with a `barrier` at the end when endpoints are
connected. A PU prepares its two contexts one after the other, in an order that depends on its
number.

Each PU is a script over streams: a `send` waits until the buffers of the sockets have room, and
`recv` with `MSG_WAITALL` waits for all it has asked for. Whether a step of a preparation passes is
data, as in `prepareSteps`. A step that fails ends the preparation before anything is sent; that it
closes the socket then, and what the other PU makes of that, is left out.
-/

namespace MoleculeOS

open Stdio Streams

/-! ### Sockets -/

/-- The two PUs. -/
inductive Pu
  | first
  | second
  deriving DecidableEq, Repr

def Pu.other : Pu → Pu
  | .first => .second
  | .second => .first

/-- The sockets on port 13337 of a PU: the one that listens, and the accepted one. -/
inductive OobPort
  | syn (server : Pu)
  | data (server : Pu)
  deriving DecidableEq, Repr

abbrev OobScript (ρ : Type) : Type := Script Pu OobPort Byte ρ

/-- `server_connect`: from `listen` on the other PU can connect; `accept` waits for it. -/
def serverConnect (self : Pu) : OobScript OobPort := do
  Script.sendAll self.other (.syn self) [0]
  let _ ← Script.recvN self.other (.syn self) 1
  return .data self

/-- `client_connect`: `connect` is tried until the other PU listens. -/
def clientConnect (self : Pu) : OobScript OobPort := do
  let _ ← Script.recvN self.other (.syn self.other) 1
  Script.sendAll self.other (.syn self.other) [0]
  return .data self.other

/-- The server of a context listens, the client connects. -/
def oobConnect (self : Pu) : Side → OobScript OobPort
  | .server => serverConnect self
  | .client => clientConnect self

/-! ### `sendrecv` and `barrier` -/

def sizeMax : ℕ := 2 ^ 64 - 1

/-- The bytes of a number of the given width, least significant first. -/
def sizeBytes : ℕ → ℕ → List Byte
  | 0, _ => []
  | width + 1, n => UInt8.ofNat n :: sizeBytes width (n / 256)

/-- The number that bytes are, least significant first. -/
def sizeOfBytes (bytes : List Byte) : ℕ := bytes.foldr (fun b n => b.toNat + 256 * n) 0

/-- `sendrecv`: the length and the block are sent, the length and the block of the other received.
`none` is the return value -1; a socket that is -1 cannot be sent to. -/
def sendrecv (peer : Pu) (oobSock : Option OobPort) (sbuf : List Byte) :
    OobScript (Option (List Byte)) :=
  match oobSock with
  | none => return none
  | some sock => do
    Script.sendAll peer sock (sizeBytes 8 sbuf.length)
    Script.sendAll peer sock sbuf
    let rlen ← Script.recvN peer sock 8
    if sizeMax / 2 < sizeOfBytes rlen then return none
    let rbuf ← Script.recvN peer sock (sizeOfBytes rlen)
    return some rbuf

/-- `barrier`: an `int` each way. -/
def barrier (peer : Pu) (oobSock : Option OobPort) : OobScript (Option Unit) :=
  match oobSock with
  | none => return none
  | some sock => do
    Script.sendAll peer sock [0, 0, 0, 0]
    let _ ← Script.recvN peer sock 4
    return some ()

/-! ### `molecule_prepare_dsm_ctx` -/

/-- The addresses of a PU: `own_dev`, `own_iface`, `own_ep`. -/
structure OwnAddrs where
  dev : List Byte
  iface : List Byte
  ep : List Byte

/-- The addresses received: `peer_dev`, `peer_iface`, `peer_ep`. -/
structure PeerAddrs where
  dev : Option (List Byte)
  iface : Option (List Byte)
  ep : Option (List Byte)
  deriving DecidableEq, Repr

/-- What a preparation keeps of the exchange: `oob_sock`, where -1 is `none`, and the addresses. -/
structure OobVars where
  oobSock : Option OobPort
  peer : PeerAddrs
  deriving DecidableEq, Repr

/-- What the variables are initialised with. -/
def OobVars.null : OobVars := ⟨none, none, none, none⟩

/-- What a step does on the socket, and to the variables. -/
def exchangeStep (own : OwnAddrs) (self : Pu) (side : Side) (vars : OobVars) :
    PrepareStep → OobScript (Option OobVars)
  | .oobConnect => do
    let sock ← oobConnect self side
    return some { vars with oobSock := some sock }
  | .deviceExchange => do
    let rbuf ← sendrecv self.other vars.oobSock own.dev
    return rbuf.map fun dev => { vars with peer.dev := some dev }
  | .ifaceExchange => do
    let rbuf ← sendrecv self.other vars.oobSock own.iface
    return rbuf.map fun iface => { vars with peer.iface := some iface }
  | .epExchange => do
    let rbuf ← sendrecv self.other vars.oobSock own.ep
    return rbuf.map fun ep => { vars with peer.ep := some ep }
  | .barrier => do
    let res ← barrier self.other vars.oobSock
    return res.map fun _ => vars
  | .unsupported => return none
  | _ => return some vars

/-- The steps of a preparation, one after the other, up to the first that fails. -/
def runSteps (passes : PrepareStep → Bool) (own : OwnAddrs) (self : Pu) (side : Side) :
    List PrepareStep → OobVars → OobScript (Option OobVars)
  | [], vars => return some vars
  | step :: rest, vars =>
    if passes step then do
      match ← exchangeStep own self side vars step with
      | none => return none
      | some vars' => runSteps passes own self side rest vars'
    else return none

/-- The preparation of one context: what it receives, or `none` if it fails. -/
def prepareDsmCtx (passes : PrepareStep → Bool) (caps : IfaceCaps) (own : OwnAddrs) (self : Pu)
    (side : Side) : OobScript (Option PeerAddrs) := do
  let vars ← runSteps passes own self side (prepareSteps caps) .null
  return vars.map OobVars.peer

/-! ### The DSM threads of two PUs -/

/-- The number of a PU, and for each of its contexts the transport, the addresses, and which steps
of the preparation pass. -/
structure PuConfig where
  puId : Int32
  caps : Side → IfaceCaps
  own : Side → OwnAddrs
  passes : Side → PrepareStep → Bool

/-- The contexts are prepared one after the other, whatever became of the one before. -/
def prepareAll (cfg : PuConfig) (self : Pu) : List Side → OobScript (List (Side × Option PeerAddrs))
  | [] => return []
  | side :: later => do
    let peer ← prepareDsmCtx (cfg.passes side) (cfg.caps side) (cfg.own side) self side
    let peers ← prepareAll cfg self later
    return (side, peer) :: peers

/-- What the DSM thread of a PU does before it serves. -/
def dsmThread (cfg : PuConfig) (self : Pu) : OobScript (List (Side × Option PeerAddrs)) :=
  prepareAll cfg self (contextOrder cfg.puId)

end MoleculeOS
