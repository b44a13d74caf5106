import MoleculeOS.Library.Leases
import MoleculeOS.Library.Stdio
import MoleculeOS.Startup

/-!
# Preparing a context (`inter-device/uct_molecule_dsm.c`)

`molecule_prepare_dsm_ctx` finds the transport with the given names (`dev_tl_lookup`, `init_iface`),
exchanges addresses with the other PU and connects an endpoint to it. Any call of UCT may fail; the
function then jumps to a label, and from there on releases what it has acquired.

What the calls answer is data: for `dev_tl_lookup` the components with their memory domains and
transports, for the rest whether each step passes. What the function holds is tracked as it goes
(`Leases`).
-/

namespace MoleculeOS

open Leases Stdio

/-! ### What is held -/

/-- What the functions acquire, by the variable they keep it in. -/
inductive Resource
  | async
  | worker
  | components
  | mdConfig
  | md
  | tlResources
  | config
  | iface
  | ownDev
  | ownIface
  | oobSock
  | peerDev
  | peerIface
  | ownEp
  | ep
  | peerEp
  deriving DecidableEq, Repr

/-- A worker runs in an asynchronous context, an interface is opened on a memory domain for a
worker, an endpoint belongs to an interface. -/
instance : Resources Resource where
  needs
    | .worker => {.async}
    | .iface => {.md, .worker}
    | .ep => {.iface}
    | _ => ∅

/-! ### `init_iface` -/

/-- `func_am_t` -/
inductive FuncAm
  | short
  | bcopy
  | zcopy
  deriving DecidableEq, Repr

/-- What `uct_iface_query` answers. -/
structure IfaceAttr where
  caps : IfaceCaps
  /-- `UCT_IFACE_FLAG_AM_*` -/
  am : FuncAm → Bool
  /-- `cap.am.max_*` -/
  maxSize : FuncAm → ℕ

/-- A transport resource, and what the calls on it answer. -/
structure TlResource where
  devName : List Byte
  tlName : List Byte
  configRead : Bool
  opens : Bool
  attr : Option IfaceAttr

inductive InitLabel
  | errorIface
  | errorRet

/-- `init_iface` up to its labels. The memory type is that of the host. -/
def initIfaceBody (funcAmType : FuncAm) (tl : TlResource) :
    Leasing Resource InitLabel IfaceAttr := do
  use .md
  check tl.configRead .errorRet
  acquire .config
  assertNull .iface
  use .md
  use .worker
  use .config
  acquireIf tl.opens .iface
  release .config
  check tl.opens .errorRet
  use .iface
  let attr ← get tl.attr .errorIface
  check (attr.am funcAmType) .errorIface
  return attr

/-- `init_iface`: `some` is `UCS_OK`, `none` is `UCS_ERR_UNSUPPORTED`. -/
def initIface {ε : Type} (funcAmType : FuncAm) (tl : TlResource) :
    Leasing Resource ε (Option IfaceAttr) := do
  match ← attempt (initIfaceBody funcAmType tl) with
  | .ok attr => return some attr
  | .error .errorIface =>
    release .iface
    clear .iface
    return none
  | .error .errorRet => return none

/-! ### `dev_tl_lookup` -/

/-- A memory domain: whether its configuration can be read and it can be opened, whether it
registers memory of the host, and its transports. -/
structure MdResource where
  configRead : Bool
  opens : Bool
  regHost : Option Bool
  tls : Option (List TlResource)

/-- A component: whether it can be queried, and its memory domains. -/
structure Component where
  query : Bool
  mds : Option (List MdResource)

/-- The members of `cmd_args_t` that are read here. -/
structure CmdArgs where
  devName : List Byte
  tlName : List Byte
  funcAmType : FuncAm
  testStrlen : ℕ

inductive LookupLabel
  | closeMd
  | releaseComponentList

/-- The loop over the transports of a memory domain. It ends at the first transport with the given
names, whatever comes of it. -/
def lookupTl {ε : Type} (args : CmdArgs) (regHost : Bool) :
    List TlResource → Leasing Resource ε (Option IfaceAttr)
  | [] => return none
  | tl :: tls => do
    use .tlResources
    if args.devName = tl.devName ∧ args.tlName = tl.tlName then
      if regHost then initIface args.funcAmType tl else return none
    else lookupTl args regHost tls

/-- The loop over the memory domains of a component. -/
def lookupMd (args : CmdArgs) : List MdResource → Leasing Resource LookupLabel (Option IfaceAttr)
  | [] => return none
  | md :: mds => do
    use .components
    check md.configRead .releaseComponentList
    acquire .mdConfig
    use .components
    use .mdConfig
    acquireIf md.opens .md
    release .mdConfig
    check md.opens .releaseComponentList
    use .md
    let regHost ← get md.regHost .closeMd
    use .md
    let tls ← get md.tls .closeMd
    acquire .tlResources
    let found ← lookupTl args regHost tls
    release .tlResources
    if found.isSome then return found
    clear .tlResources
    release .md
    lookupMd args mds

/-- The loop over the components. -/
def lookupComponent (args : CmdArgs) :
    List Component → Leasing Resource LookupLabel (Option IfaceAttr)
  | [] => return none
  | c :: cs => do
    use .components
    check c.query .releaseComponentList
    use .components
    let mds ← get c.mds .releaseComponentList
    clear .iface
    let found ← lookupMd args mds
    if found.isSome then return found
    lookupComponent args cs

/-- `dev_tl_lookup`: `none` is any status but `UCS_OK`. -/
def devTlLookup {ε : Type} (args : CmdArgs) (components : Option (List Component)) :
    Leasing Resource ε (Option IfaceAttr) :=
  match components with
  | none => return none
  | some cs => do
    acquire .components
    match ← attempt (lookupComponent args cs) with
    | .ok found =>
      release .components
      return found
    | .error .closeMd =>
      release .md
      release .components
      return none
    | .error .releaseComponentList =>
      release .components
      return none

/-! ### `molecule_prepare_dsm_ctx` -/

/-- What the calls of a preparation answer. -/
structure PrepareHost where
  components : Option (List Component)
  /-- Whether a step passes; `transport`, `unsupported` and `maxSize` are not asked here. -/
  passes : PrepareStep → Bool
  /-- Whether `uct_ep_connect_to_ep` answers `UCS_OK`. -/
  connectsToEp : Bool
  /-- An exchange that fails may have allocated its buffer before. -/
  allocates : PrepareStep → Bool

inductive PrepareLabel
  | outFreeEp
  | outFreeEpAddrs
  | outCloseOobSock
  | outFreeIfAddrs
  | outFreeDevAddrs
  | outDestroyIface
  | outDestroyWorker
  | outCleanupAsync
  | out

section Labels

variable {ε : Type}

def outCleanupAsync : Leasing Resource ε Unit := release .async

def outDestroyWorker : Leasing Resource ε Unit := do
  release .worker
  outCleanupAsync

def outDestroyIface : Leasing Resource ε Unit := do
  release .iface
  release .md
  outDestroyWorker

def outFreeDevAddrs : Leasing Resource ε Unit := do
  release .ownDev
  free .peerDev
  outDestroyIface

def outFreeIfAddrs : Leasing Resource ε Unit := do
  release .ownIface
  free .peerIface
  outFreeDevAddrs

/-- The socket may be -1, and closing it does nothing then. -/
def outCloseOobSock : Leasing Resource ε Unit := do
  free .oobSock
  outFreeIfAddrs

def outFreeEpAddrs : Leasing Resource ε Unit := do
  free .ownEp
  free .peerEp
  outCloseOobSock

def outFreeEp : Leasing Resource ε Unit := do
  release .ep
  outFreeEpAddrs

/-- What is done from a label on. -/
def cleanupFrom : PrepareLabel → Leasing Resource ε Unit
  | .outFreeEp => outFreeEp
  | .outFreeEpAddrs => outFreeEpAddrs
  | .outCloseOobSock => outCloseOobSock
  | .outFreeIfAddrs => outFreeIfAddrs
  | .outFreeDevAddrs => outFreeDevAddrs
  | .outDestroyIface => outDestroyIface
  | .outDestroyWorker => outDestroyWorker
  | .outCleanupAsync => outCleanupAsync
  | .out => return ()

end Labels

namespace PrepareHost

variable (host : PrepareHost)

/-- A call of `sendrecv`: `*rbuf` is set once it has been allocated. -/
def exchange (own peer : Resource) (step : PrepareStep) (label : PrepareLabel) :
    Leasing Resource PrepareLabel Unit := do
  use .oobSock
  use own
  acquireIf (host.passes step || host.allocates step) peer
  check (host.passes step) label

/-- From the context to a peer that can be reached. -/
def reachPeer (args : CmdArgs) : Leasing Resource PrepareLabel IfaceAttr := do
  check (host.passes .asyncContext) .out
  acquire .async
  check (host.passes .worker) .outCleanupAsync
  acquire .worker
  let found ← devTlLookup args host.components
  let attr ← get found .outDestroyWorker
  check (host.passes .deviceAddrMemory) .outDestroyIface
  acquire .ownDev
  check (host.passes .ifaceAddrMemory) .outFreeDevAddrs
  acquire .ownIface
  use .iface
  use .ownDev
  check (host.passes .deviceAddress) .outFreeIfAddrs
  check (host.passes .oobConnect) .outCloseOobSock
  acquire .oobSock
  host.exchange .ownDev .peerDev .deviceExchange .outCloseOobSock
  use .iface
  use .peerDev
  check (host.passes .reachable) .outCloseOobSock
  return attr

/-- The exchange of interface addresses. -/
def exchangeIface (caps : IfaceCaps) : Leasing Resource PrepareLabel Unit :=
  if caps.connectToIface then do
    use .iface
    use .ownIface
    check (host.passes .ifaceAddress) .outCloseOobSock
    host.exchange .ownIface .peerIface .ifaceExchange .outCloseOobSock
  else return ()

/-- `uct_ep_connect_to_ep` -/
def uctEpConnectToEp : Leasing Resource PrepareLabel Bool := do
  use .ep
  use .peerDev
  use .peerEp
  return host.connectsToEp

/-- The endpoint. -/
def connectEp (caps : IfaceCaps) : Leasing Resource PrepareLabel Unit :=
  if caps.connectToEp then do
    check (host.passes .epAddrMemory) .outCloseOobSock
    acquire .ownEp
    check (host.passes .epCreate) .outFreeEpAddrs
    acquire .ep
    use .ep
    use .ownEp
    check (host.passes .epAddress) .outFreeEp
    host.exchange .ownEp .peerEp .epExchange .outFreeEp
    -- `status` is not looked at before it is stored again
    let _status ← host.uctEpConnectToEp
    use .oobSock
    check (host.passes .barrier) .outFreeEp
  else if caps.connectToIface then do
    use .peerDev
    use .peerIface
    check (host.passes .epCreate) .outFreeEpAddrs
    acquire .ep
  else jump .outFreeEpAddrs

/-- `molecule_prepare_dsm_ctx` up to its labels. -/
def prepareBody (args : CmdArgs) : Leasing Resource PrepareLabel Unit := do
  -- the pointers that are initialised
  clear .peerDev
  clear .peerIface
  clear .ownEp
  clear .peerEp
  clear .oobSock
  let attr ← host.reachPeer args
  host.exchangeIface attr.caps
  host.connectEp attr.caps
  check (args.testStrlen ≤ attr.maxSize args.funcAmType) .outFreeEp
  use .iface
  check (host.passes .amHandler) .outFreeEp

/-- `molecule_prepare_dsm_ctx`: whether it comes to store the variables of the context. -/
def moleculePrepareDsmCtx (args : CmdArgs) : Leasing Resource Empty Bool := do
  match ← attempt (host.prepareBody args) with
  | .ok _ => return true
  | .error label =>
    cleanupFrom label
    return false

end PrepareHost

end MoleculeOS
