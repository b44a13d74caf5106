import MoleculeOS.Model.HashTable
import MoleculeOS.Model.Protocol

/-!
# The global OS (`global_syscall.c`, `ipc.c`)

The tables of one OS instance, the memory and files of the PU it runs on, and the syscall
handlers. What the host decides while a handler runs (whether a file opens, how much of a write
goes through, what memory holds that nobody has initialised) is an argument, `Kernel`.

A handler of the distributed build may have to ask the OS of the other PU. Then it has not
returned yet: it yields the message of its `dsm_call` and how it goes on with the answer
(`Outcome.dsmCall`). The other PU's side is `Model/Dsm.lean`.

A segment is known by the key `shmget` finds it with, a local FIFO by its path. Messages printed
to the console are left out, and so is `fifo_close`, which changes nothing modelled here.
-/

namespace MoleculeOS

open Stdio

/-! ### State -/

/-- What `shmat` returned: an attached segment, the error pointer, or nothing yet. -/
inductive ShmAddr
  | null
  | failed
  | attached (key : Int32)
  deriving DecidableEq, Repr

structure PermContainer where
  perm : Int32
  containerId : Int32
  deriving DecidableEq, Repr

structure GlobalFifo where
  puId : Int32
  ownerPid : Int32
  localUuid : Int32
  globalId : Int32
  globalUuid : Int32
  perms : PermContainer
  deriving DecidableEq, Repr

structure GlobalProcess where
  puId : Int32
  localPid : Int32
  globalPid : Int32
  shm : ShmAddr
  deriving DecidableEq, Repr

/-- The static data of one global OS. -/
structure GlobalOS where
  globalProcessList : Slot → GlobalProcess
  globalProcessNow : Int32
  globalFifoList : Slot → GlobalFifo
  globalFifoNow : Int32
  fifoGuuidTable : HashTable Int32 Int32
  currentPuId : Int32
  globalOsPort : Int32

/-- One entry of an argument vector: the terminator, a string, or a pointer to nowhere. -/
inductive ArgSlot
  | null
  | str (s : List Byte)
  | stray
  deriving DecidableEq, Repr

/-- What `posix_spawn` was called with. -/
structure SpawnCall where
  path : List Byte
  argv : List ArgSlot
  envp : List ArgSlot
  deriving DecidableEq, Repr

/-- A PU: its OS, its shared segments by key, and the bytes written to its local FIFOs. -/
structure World where
  os : GlobalOS
  shm : Int32 → Buffer 4096
  fifos : List Byte → List Byte
  spawned : List SpawnCall

/-- What is fixed when the program is built and installed: whether `SMARTC` is defined, and the
keys `ftok` makes from paths. -/
structure Platform where
  smartc : Bool
  ftok : List Byte → Int32

/-- How a `write` to a pipe ends. -/
inductive WriteResult
  | complete
  | short (n : ℕ)
  | error
  deriving DecidableEq, Repr

/-- The variables `dsm_handlers` parses a message into. -/
structure DsmVars where
  clientId : Int32
  funcName : List Byte
  funcArgs1 : Int32
  funcArgs2 : Int32
  funcArgs3 : Int32
  funcArgs4 : Int32
  bufLen : Int32
  bufOffset : Int32

/-- What the host decides while one request is handled. -/
structure Kernel where
  /-- `fopen` of the segment's file succeeds. -/
  fopen : Bool
  /-- `shmget` finds or creates the segment. -/
  shmget : Bool
  /-- `shmat` attaches it. -/
  shmat : Bool
  /-- `open` of the local FIFO succeeds. -/
  openFifo : Bool
  write : WriteResult
  /-- The status of `posix_spawn`. -/
  posixSpawn : Int32
  /-- The memory behind the request buffer. -/
  behindBuf : List Byte
  /-- The message buffer of a `FIFOCONNECT` before it is filled. -/
  connectBuf : Buffer 256
  /-- `argv` and `envp` of `syscall_gspawn` before they are filled. -/
  argv : List ArgSlot
  envp : List ArgSlot
  /-- The receive buffer and the variables of the DSM server before they are filled, its
  response buffer, and the answer variable of `dsm_call`. -/
  dsmCallBuf : Buffer 4096
  dsmVars : DsmVars
  dsmRespBuf : Buffer 256
  dsmRet : Int32

/-- A host on which everything succeeds and fresh memory is zero. -/
def Kernel.nominal : Kernel where
  fopen := true
  shmget := true
  shmat := true
  openFifo := true
  write := .complete
  posixSpawn := 0
  behindBuf := [0]
  connectBuf := Buffer.zero 256
  argv := List.replicate 8 .null
  envp := List.replicate 8 .null
  dsmCallBuf := Buffer.zero 4096
  dsmVars := ⟨0, [], 0, 0, 0, 0, 0, 0⟩
  dsmRespBuf := Buffer.zero 256
  dsmRet := 0

/-- A syscall returns, or waits for the answer to a DSM message. -/
inductive Outcome
  | reply (w : World) (ret : Int32)
  | dsmCall (w : World) (msg : List Byte) (resume : World → Int32 → Exec (World × Int32))

/-! ### Memory -/

/-- An `int` used as an offset or a length. A negative one wraps to a huge `size_t`. -/
def offset (x : Int32) : Exec ℕ := if 0 ≤ x.toInt then .ok x.toInt.toNat else .error .outOfBounds

theorem offset_of {x : Int32} (h : 0 ≤ x.toInt) : offset x = .ok x.toInt.toNat := if_pos h

theorem offset_eq_ok {x : Int32} {n : ℕ} : offset x = .ok n ↔ x.toInt = n := by
  unfold offset
  constructor
  · intro h
    split at h
    · next h_nonneg => rw [← Except.ok.inj h]; exact (Int.toNat_of_nonneg h_nonneg).symm
    · exact absurd h (by simp)
  · intro h
    rw [if_pos (by omega), h, Int.toNat_natCast]

/-- The first `n` bytes behind a pointer to the memory `mem`. -/
def load (mem : List Byte) (n : ℕ) : Exec (List Byte) :=
  access (if n ≤ mem.length then some (mem.take n) else none)

theorem load_eq_ok {mem data : List Byte} {n : ℕ} :
    load mem n = .ok data ↔ n ≤ mem.length ∧ mem.take n = data := by
  unfold load
  rw [access_eq_ok]
  constructor
  · intro h
    split at h
    · next h_le => exact ⟨h_le, Option.some.inj h⟩
    · exact absurd h (by simp)
  · rintro ⟨h_le, rfl⟩
    exact if_pos h_le

/-- The segment behind a pointer. -/
def World.segment (w : World) : ShmAddr → Exec (Int32 × Buffer 4096)
  | .attached key => .ok (key, w.shm key)
  | _ => .error .outOfBounds

def World.setSegment (w : World) (key : Int32) (seg : Buffer 4096) : World :=
  { w with shm := Function.update w.shm key seg }

/-- Bytes arrive in the local FIFO at `path`. -/
def World.append (w : World) (path data : List Byte) : World :=
  { w with fifos := Function.update w.fifos path (w.fifos path ++ data) }

@[simp] theorem World.setSegment_os (w : World) (key : Int32) (seg : Buffer 4096) :
    (w.setSegment key seg).os = w.os := rfl

@[simp] theorem World.setSegment_fifos (w : World) (key : Int32) (seg : Buffer 4096) :
    (w.setSegment key seg).fifos = w.fifos := rfl

@[simp] theorem World.append_os (w : World) (path data : List Byte) :
    (w.append path data).os = w.os := rfl

@[simp] theorem World.append_shm (w : World) (path data : List Byte) :
    (w.append path data).shm = w.shm := rfl

theorem World.append_fifos (w : World) (path data : List Byte) :
    (w.append path data).fifos = Function.update w.fifos path (w.fifos path ++ data) := rfl

theorem World.segment_eq_ok {w : World} {a : ShmAddr} {key : Int32} {seg : Buffer 4096} :
    w.segment a = .ok (key, seg) ↔ a = .attached key ∧ w.shm key = seg := by
  cases a with
  | null => exact ⟨fun h => absurd h (by simp [World.segment]), fun h => absurd h.1 (by simp)⟩
  | failed => exact ⟨fun h => absurd h (by simp [World.segment]), fun h => absurd h.1 (by simp)⟩
  | attached key' =>
    constructor
    · intro h
      obtain ⟨rfl, rfl⟩ := Prod.mk.inj (Except.ok.inj h)
      exact ⟨rfl, rfl⟩
    · rintro ⟨h_key, rfl⟩
      obtain rfl := ShmAddr.attached.inj h_key
      rfl

/-! ### Start-up and the FIFO partition -/

def globalFifoListSize : ℤ := 4096
def localFifoListSize : ℤ := 512
def globalProcessListSize : ℤ := 4096

/-- A free process entry, as `global_os_init` leaves it. -/
def freeProcess (i : Slot) : GlobalProcess := ⟨-1, -1, Slot.toInt32 i, .null⟩

/-- A free FIFO entry: static memory is zero, the PU and the uuid are set to -1. -/
def freeFifo : GlobalFifo := ⟨-1, 0, 0, 0, -1, ⟨0, 0⟩⟩

def globalOsInit (puId osPort : Int32) : Exec GlobalOS := do
  -- both are `int` arithmetic
  let port ← cint (osPort.toInt + puId.toInt)
  let now ← cint (puId.toInt * localFifoListSize)
  return {
    globalProcessList := freeProcess
    globalProcessNow := 0
    globalFifoList := fun _ => freeFifo
    globalFifoNow := now
    -- 10240 is given as the initial capacity, 1024 is reserved afterwards
    fifoGuuidTable := (HashTable.htSetup 10240).htReserve 1024
    currentPuId := puId
    globalOsPort := port }

/-- The OS that `global_os_init` leaves, with its port and its first FIFO cursor. -/
def bootOs (puId port now : Int32) : GlobalOS where
  globalProcessList := freeProcess
  globalProcessNow := 0
  globalFifoList := fun _ => freeFifo
  globalFifoNow := now
  fifoGuuidTable := (HashTable.htSetup 10240).htReserve 1024
  currentPuId := puId
  globalOsPort := port

theorem globalOsInit_eq_ok {puId osPort : Int32} {os : GlobalOS} :
    globalOsInit puId osPort = .ok os ↔ ∃ port now, cint (osPort.toInt + puId.toInt) = .ok port ∧
      cint (puId.toInt * localFifoListSize) = .ok now ∧ os = bootOs puId port now := by
  unfold globalOsInit
  simp only [Exec.bind_eq_ok]
  constructor
  · rintro ⟨port, h_port, now, h_now, h_os⟩
    exact ⟨port, now, h_port, h_now, (Except.ok.inj h_os).symm⟩
  · rintro ⟨port, now, h_port, h_now, rfl⟩
    exact ⟨port, h_port, now, h_now, rfl⟩

/-- A PU as it is started: segments zero, nothing written, nothing spawned. -/
def World.boot (os : GlobalOS) : World := ⟨os, fun _ => Buffer.zero 4096, fun _ => [], []⟩

/-- `now = (now + 1) % size` of a table cursor. C's remainder truncates. -/
def nextSlot (now : Int32) (size : ℤ) : Exec Int32 := do
  let sum ← cint (now.toInt + 1)
  cint (sum.toInt.tmod size)

def checkGlobalFifoBound (globalFifo : Int32) : Exec Unit :=
  if 0 ≤ globalFifo.toInt ∧ globalFifo.toInt < globalFifoListSize then .ok ()
  else .error .exit

def isGlobalFifoLocal (os : GlobalOS) (globalFifo : Int32) : Exec Bool := do
  checkGlobalFifoBound globalFifo
  -- static partition of the ids
  let first ← cint (os.currentPuId.toInt * localFifoListSize)
  if globalFifo.toInt < first.toInt then return false
  let nextPu ← cint (os.currentPuId.toInt + 1)
  let last ← cint (nextPu.toInt * localFifoListSize)
  if last.toInt ≤ globalFifo.toInt then return false
  let i ← slot globalFifo
  return (os.globalFifoList i).puId = os.currentPuId

/-! ### Local FIFOs (`ipc.c`) -/

/-- `MAX_MSG_LEN` -/
def maxMsgLen : ℤ := 4096

/-- Open the FIFO named by a uuid for writing. The path stands for the descriptor. -/
def fifoConnect (k : Kernel) (uuid : Int32) : Exec (List Byte) :=
  if k.openFifo then .ok (fifoPath uuid) else .error .throw

def fifoWrite (k : Kernel) (w : World) (fd buf : List Byte) (len : Int32) :
    Exec (World × Int32) := do
  assert (0 < len.toInt)
  assert (len.toInt ≤ maxMsgLen)
  let n ← offset len
  let data ← load buf n
  match k.write with
  | .complete => return (w.append fd data, len)
  -- what did not fit is not written again
  | .short j => return (w.append fd (data.take j), Int32.ofInt (min j n : ℕ))
  | .error => return (w, -1)

/-! ### Handlers -/

section Handlers

variable (P : Platform) (k : Kernel)

def syscallRegisterGlobal (w : World) (localPid : Int32) : Exec (World × Int32) := do
  -- the cursor moves even if the entry is taken
  let now ← nextSlot w.os.globalProcessNow globalProcessListSize
  let i ← slot now
  let os := { w.os with globalProcessNow := now }
  if (os.globalProcessList i).localPid.toInt < 0 then
    let entry : GlobalProcess :=
      { os.globalProcessList i with
        puId := os.currentPuId, localPid := localPid, globalPid := now }
    if k.fopen then
      let key := P.ftok (shmPath now)
      if k.shmget then
        let shm : ShmAddr := if k.shmat then .attached key else .failed
        let entry := { entry with shm := shm }
        return ({ w with
          os := { os with globalProcessList := Function.update os.globalProcessList i entry } },
          now)
      else .error .throw
    else
      -- the entry is released by its `local_pid` alone
      let entry := { entry with localPid := -1 }
      return ({ w with
        os := { os with globalProcessList := Function.update os.globalProcessList i entry } }, -1)
  else
    return ({ w with os := os }, -1)

def syscallFifoInit (os : GlobalOS) (localUuid ownerPid globalUuid : Int32) :
    Exec (GlobalOS × Int32) := do
  -- here, too
  let now ← nextSlot os.globalFifoNow globalFifoListSize
  let i ← slot now
  let os := { os with globalFifoNow := now }
  if (os.globalFifoList i).puId = -1 then
    let entry : GlobalFifo :=
      { puId := os.currentPuId, globalId := now, localUuid := localUuid, ownerPid := ownerPid,
        perms := ⟨0x3, ownerPid⟩, globalUuid := globalUuid }
    let os := { os with globalFifoList := Function.update os.globalFifoList i entry }
    if globalUuid ≠ -1 then
      let (table, _) ← os.fifoGuuidTable.htInsert globalUuid now
      return ({ os with fifoGuuidTable := table }, now)
    else return (os, now)
  else return (os, -1)

/-- Not dispatched by the syscall loop. -/
def syscallFifoClose (_globalFifo : Int32) : Int32 := 0

def localFifoConnect (os : GlobalOS) (globalUuid : Int32) : Int32 :=
  (os.fifoGuuidTable.htLookup globalUuid).getD (-1)

def syscallFifoConnect (w : World) (globalUuid _ownerPid : Int32) : Exec Outcome :=
  match w.os.fifoGuuidTable.htLookup globalUuid with
  | some globalFifo => .ok (.reply w globalFifo)
  | none =>
    if P.smartc then do
      let text := sprintf dsmReqFormat [.int 0, .str (bytes "FIFOCONNECT"), .int globalUuid,
        .int 0, .int 0, .int 0, .int 0]
      assert (text.length < 256)
      let buffer ← access (k.connectBuf.poke 0 (text ++ [0]))
      return .dsmCall w buffer.data fun w ret => do
        -- the id 0 of the other PU is returned, but not cached
        if 0 < ret.toInt then
          let (table, _) ← w.os.fifoGuuidTable.htInsert globalUuid ret
          return ({ w with os := { w.os with fifoGuuidTable := table } }, ret)
        else return (w, ret)
    else .ok (.reply w (-1))

/-- `EFIFOLOCAL` -/
def eFifoLocal : Int32 := 205

def syscallFifoRead (w : World) (globalFifo _shmid _length : Int32) : Exec (World × Int32) := do
  if P.smartc then
    let here ← isGlobalFifoLocal w.os globalFifo
    if !here then return (w, -1)
  return (w, -eFifoLocal)

/-- Send the payload to the OS of the other PU. Its answer is dropped. -/
def writeRemoteFifo (w : World) (globalFifo : Int32) (sharedMemory : List Byte)
    (length : Int32) : Exec Outcome := do
  let header := sprintf dsmReqFormat [.int 0, .str (bytes "WRITEFIFO"), .int globalFifo,
    .int 0, .int 0, .int 0, .int length]
  let total ← cint (header.length + length.toInt)
  assert (total.toInt < 4096)
  let n ← offset length
  let data ← load sharedMemory n
  return .dsmCall w (header ++ data ++ [0]) fun w _ => .ok (w, 0)

def writeLocalFifo (w : World) (globalFifo : Int32) (sharedMemory : List Byte)
    (length : Int32) : Exec (World × Int32) := do
  let i ← slot globalFifo
  let localFifo ← fifoConnect k (w.os.globalFifoList i).localUuid
  fifoWrite k w localFifo sharedMemory length

def syscallFifoWrite (w : World) (globalFifo shmid length : Int32) : Exec Outcome := do
  let i ← slot shmid
  -- `shared_memory < (char*)0` holds of no pointer
  let (key, seg) ← w.segment (w.os.globalProcessList i).shm
  -- the payload is terminated in the segment, before anything is checked
  let n ← offset length
  let seg ← access (seg.poke n [0])
  let w := w.setSegment key seg
  if P.smartc then
    let here ← isGlobalFifoLocal w.os globalFifo
    if !here then
      return ← writeRemoteFifo w globalFifo seg.data length
  -- the result of `write_local_fifo` is not looked at
  let (w, _) ← writeLocalFifo k w globalFifo seg.data length
  return .reply w length

/-- `MAX_GSPAWN_ARGS_LEN` -/
def maxGspawnArgsLen : ℤ := 8

/-- One unpacking loop of `syscall_gspawn`: `n` strings, each behind the NUL of the one before.
The offset is that of the last NUL seen. -/
def unpackStrings (seg : Buffer 4096) : ℕ → ℕ → Exec (List (List Byte) × ℕ)
  | 0, len => .ok ([], len)
  | n + 1, len => do
    let s ← access (seg.cstr (len + 1))
    let (rest, len) ← unpackStrings seg n (len + 1 + s.length)
    return (s :: rest, len)

/-- The first entries of a vector are assigned, the others are as they were. -/
def fillSlots (strs : List (List Byte)) (slots : List ArgSlot) : List ArgSlot :=
  strs.map .str ++ slots.drop strs.length

def syscallGspawn (w : World) (puId shmid argvLen envpLen : Int32) : Exec (World × Int32) := do
  let i ← slot shmid
  let (_, seg) ← w.segment (w.os.globalProcessList i).shm
  let path ← access (seg.cstr 0)
  assert (argvLen.toInt < maxGspawnArgsLen)
  assert (envpLen.toInt < maxGspawnArgsLen)
  let (argv, len) ← unpackStrings seg argvLen.toInt.toNat path.length
  let (envp, len) ← unpackStrings seg envpLen.toInt.toNat len
  assert (len < 256)
  -- a spawn on another PU is not implemented
  if P.smartc ∧ puId ≠ w.os.currentPuId then
    return (w, -1)
  return ({ w with
    spawned := w.spawned ++ [⟨path, fillSlots argv k.argv, fillSlots envp k.envp⟩] },
    k.posixSpawn)

end Handlers

end MoleculeOS
