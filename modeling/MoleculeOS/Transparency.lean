import MoleculeOS.Codec
import MoleculeOS.Partition
import MoleculeOS.Remote

/-!
# Local and remote writes compared

The same payload written to the same FIFO through the PU that owns it, and through another PU
(`CrossWrite`). The two paths append the same bytes exactly when the message fits the 4096-byte
buffer and the payload does not start with white space (`sameBytes_iff`). The reply never agrees:
the owner answers the length, `write_remote_fifo` drops what `dsm_call` returned and answers 0.

The owner's side of the remote path is `runTwoWayServer_write`, whatever stale bytes are in the
server's receive buffer.
-/

namespace MoleculeOS

open Stdio

variable {P : Platform} {k : Kernel} {w : World}

/-! ### The owner serves a remote write -/

/-- The bytes that `dsm_handlers` takes for the payload, with `stale` behind the message. -/
def takenBytes (payload stale : List Byte) : List Byte :=
  ((payload ++ 0 :: stale).drop (payload.takeWhile isSpace).length).take payload.length

theorem takenBytes_of_not_blank {payload : List Byte} (h : startsWithBlank payload = false)
    (stale : List Byte) : takenBytes payload stale = payload := by
  unfold takenBytes
  rw [takeWhile_isSpace_eq_nil h, List.length_nil, List.drop_zero, List.take_left]

/-- **The server's side of a write.** It appends what it takes for the payload, unless the blanks
it skipped push the end of that behind the buffer. -/
theorem runTwoWayServer_write {globalFifo : Slot} {length : Int32} {payload : List Byte}
    (h_open : k.openFifo = true) (h_write : k.write = .complete)
    (h_len : length.toInt = payload.length) (h_pos : 0 < length.toInt)
    (h_fits : (dsmWriteHeader globalFifo.toInt32 length).length + length.toInt < 4096) :
    ∃ stale resp, runTwoWayServer k w
        (dsmWriteHeader globalFifo.toInt32 length ++ payload ++ [0])
      = if (dsmWriteHeader globalFifo.toInt32 length).length
            + (payload.takeWhile isSpace).length + payload.length < 4096 then
          .ok (w.append (fifoPath (w.os.globalFifoList globalFifo).localUuid)
            (takenBytes payload stale), resp)
        else .error .assertion := by
  obtain ⟨buf, stale, h_poke, h_data, -⟩ := exists_poke_dsmMessage h_len h_fits k
  have h_blank := (List.takeWhile_sublist (p := isSpace) (l := payload)).length_le
  obtain ⟨resp, h_resp⟩ := exists_poke_dsmResp k.dsmRespBuf length
  have h_serve := dsmHandlers_write k w globalFifo.toInt32 length payload stale h_len h_fits
  rw [← h_data] at h_serve
  refine ⟨stale, resp.data, ?_⟩
  unfold runTwoWayServer
  rw [h_poke, access_some, Exec.ok_bind, h_serve]
  split
  · have h_mem : length.toInt.toNat
        ≤ ((payload ++ 0 :: stale).drop (payload.takeWhile isSpace).length).length := by
      have h_buf := congrArg List.length h_data
      rw [buf.length_data, List.length_append] at h_buf
      rw [List.length_drop]
      omega
    rw [writeLocalFifo_of_open h_open,
      fifoWrite_of_complete h_write h_pos (by unfold maxMsgLen; omega) h_mem, Exec.ok_bind]
    simp only [h_resp, access_some, Exec.ok_bind, h_len, Int.toNat_natCast]
    rfl
  · rfl

/-! ### A client that has put its payload -/

/-- A registered client whose segment holds what `global_fifo_write` copied into it. -/
structure Writer (w : World) (buf : List Byte) (len : Int32) where
  pid : Slot
  key : Int32
  attached : (w.os.globalProcessList pid).shm = .attached key
  /-- The segment before the copy. -/
  before : Buffer 4096
  put : globalFifoWritePut before buf len = .ok (w.shm key)

/-- `global_fifo_write` accepts lengths up to 4096 and copies the payload to the start of the
segment. -/
theorem globalFifoWritePut_eq_ok {seg seg' : Buffer 4096} {buf : List Byte} {len : Int32} :
    globalFifoWritePut seg buf len = .ok seg' ↔
      len.toInt ≤ 4096 ∧ 0 ≤ len.toInt ∧ len.toInt.toNat ≤ buf.length ∧
        seg.poke 0 (buf.take len.toInt.toNat) = some seg' := by
  unfold globalFifoWritePut
  simp only [Exec.bind_eq_ok, assert_eq_ok, offset_eq_ok, load_eq_ok, access_eq_ok]
  constructor
  · rintro ⟨-, h_le, n, h_n, data, ⟨h_buf, rfl⟩, h_poke⟩
    obtain rfl : n = len.toInt.toNat := by omega
    exact ⟨h_le, by omega, h_buf, h_poke⟩
  · rintro ⟨h_le, h_nonneg, h_buf, h_poke⟩
    exact ⟨(), h_le, _, (Int.toNat_of_nonneg h_nonneg).symm, _, ⟨h_buf, rfl⟩, h_poke⟩

/-- The OS finds the payload in the segment, with a NUL behind it, unless it fills the segment. -/
theorem Writer.exists_poke {buf : List Byte} {len : Int32} (x : Writer w buf len)
    (h_len : len.toInt < 4096) :
    ∃ seg, (w.shm x.key).poke len.toInt.toNat [0] = some seg ∧
      seg.data.take len.toInt.toNat = buf.take len.toInt.toNat := by
  obtain ⟨-, h_nonneg, h_buf, h_put⟩ := globalFifoWritePut_eq_ok.mp x.put
  obtain ⟨seg, h_poke⟩ := (w.shm x.key).exists_poke
    (show len.toInt.toNat + ([0] : List Byte).length ≤ 4096 by rw [List.length_singleton]; omega)
  refine ⟨seg, h_poke, ?_⟩
  have h_data := Buffer.drop_of_poke h_put
  -- the NUL goes behind the payload and leaves it alone
  have h_length : (buf.take len.toInt.toNat).length = len.toInt.toNat := by
    rw [List.length_take, Nat.min_eq_left h_buf]
  rw [List.drop_zero] at h_data
  rw [Buffer.take_of_poke h_poke, h_data, List.take_left' h_length]

/-! ### The same write on two PUs -/

/-- A write of one payload to a FIFO of the owner's partition, through a client of the owner and
through a client of another PU. -/
structure CrossWrite where
  P : Platform
  smartc : P.smartc = true
  ownerPu : Fin 8
  otherPu : Fin 8
  otherPu_ne : otherPu ≠ ownerPu
  owner : World
  other : World
  owner_pu : owner.os.currentPuId = puNumber ownerPu
  other_pu : other.os.currentPuId = puNumber otherPu
  globalFifo : Slot
  /-- The FIFO is in the owner's partition and was allocated by it. -/
  owned : isGlobalFifoLocal owner.os globalFifo.toInt32 = .ok true
  buf : List Byte
  len : Int32
  len_pos : 0 < len.toInt
  onOwner : Writer owner buf len
  onOther : Writer other buf len
  /-- The host of the PU that handles the request. -/
  host : Kernel
  host_open : host.openFifo = true
  host_write : host.write = .complete
  /-- The host of the PU that serves the DSM message. -/
  peerHost : Kernel
  peerHost_open : peerHost.openFifo = true
  peerHost_write : peerHost.write = .complete

namespace CrossWrite

variable (x : CrossWrite)

def payload : List Byte := x.buf.take x.len.toInt.toNat

/-- The request handled by the owner: the owner afterwards, and the reply. -/
def viaOwner : Exec (World × Int32) := do
  let out ← syscallFifoWrite x.P x.host x.owner x.globalFifo.toInt32 x.onOwner.pid.toInt32 x.len
  let r ← out.finish x.peerHost x.other
  return (r.1, r.2.2)

/-- The request handled by the other PU: the owner afterwards, and the reply. -/
def viaOther : Exec (World × Int32) := do
  let out ← syscallFifoWrite x.P x.host x.other x.globalFifo.toInt32 x.onOther.pid.toInt32 x.len
  let r ← out.finish x.peerHost x.owner
  return (r.2.1, r.2.2)

/-- Both ways return, and leave the same bytes in the owner's FIFOs. -/
def SameBytes : Prop :=
  ∃ owner₁ owner₂ ret₁ ret₂, x.viaOwner = .ok (owner₁, ret₁) ∧ x.viaOther = .ok (owner₂, ret₂) ∧
    owner₂.fifos = owner₁.fifos

/-- Both ways return, with the same bytes and the same reply. -/
def Transparent : Prop :=
  ∃ owner₁ owner₂ ret, x.viaOwner = .ok (owner₁, ret) ∧ x.viaOther = .ok (owner₂, ret) ∧
    owner₂.fifos = owner₁.fifos

/-- What the message takes in `write_remote_fifo`'s buffer. -/
def messageLength : ℤ := (dsmWriteHeader x.globalFifo.toInt32 x.len).length + x.len.toInt

variable {x}

theorem length_payload : x.len.toInt = x.payload.length := by
  obtain ⟨-, h_nonneg, h_buf, -⟩ := globalFifoWritePut_eq_ok.mp x.onOwner.put
  unfold payload
  rw [List.length_take, Nat.min_eq_left h_buf]
  omega

/-- The other PU finds the FIFO not to be its own. -/
theorem not_local_other : isGlobalFifoLocal x.other.os x.globalFifo.toInt32 = .ok false := by
  have h_owned := x.owned
  -- the id is in the owner's partition, hence not in the other PU's
  rw [isGlobalFifoLocal_eq x.owner_pu] at h_owned
  obtain ⟨h_in, -⟩ := of_decide_eq_true (Except.ok.inj h_owned)
  rw [isGlobalFifoLocal_eq x.other_pu]
  refine congrArg Except.ok (decide_eq_false ?_)
  rintro ⟨h_in', -⟩
  exact x.otherPu_ne (h_in'.unique h_in)

/-- The owner appends the payload and answers its length. -/
theorem viaOwner_eq (h_len : x.len.toInt < 4096) :
    ∃ owner₁, x.viaOwner = .ok (owner₁, x.len) ∧ owner₁.fifos
      = (x.owner.append (fifoPath (x.owner.os.globalFifoList x.globalFifo).localUuid)
          x.payload).fifos := by
  obtain ⟨seg, h_poke, h_data⟩ := x.onOwner.exists_poke h_len
  have h_run := syscallFifoWrite_local (P := x.P) x.onOwner.attached x.len_pos h_poke
    (fun _ => x.owned) x.host_open x.host_write
  unfold viaOwner
  rw [h_run, h_data]
  exact ⟨_, rfl, rfl⟩

/-- A payload that fills the segment is not written through the owner. -/
theorem lt_of_viaOwner {owner₁ : World} {ret : Int32} (h : x.viaOwner = .ok (owner₁, ret)) :
    x.len.toInt < 4096 := by
  obtain ⟨out, h_out, -⟩ := Exec.bind_eq_ok.mp h
  -- the OS stores a NUL behind the payload, in the same segment
  obtain ⟨i, key, seg, -, -, h_nonneg, h_poke, -⟩ := syscallFifoWrite_cases h_out
  have h_fits := (Buffer.poke_eq_some.mp h_poke).1
  rw [List.length_singleton] at h_fits
  omega

/-- The other PU refuses what does not fit its message buffer. -/
theorem messageLength_lt_of_viaOther {owner₂ : World} {ret : Int32}
    (h : x.viaOther = .ok (owner₂, ret)) : x.messageLength < 4096 := by
  obtain ⟨out, h_out, -⟩ := Exec.bind_eq_ok.mp h
  obtain ⟨i, key, seg, -, -, -, -, h_case⟩ := syscallFifoWrite_cases h_out
  rcases h_case with ⟨-, -, h_remote⟩ | ⟨h_local, -⟩
  · exact (writeRemoteFifo_eq_ok.mp h_remote).1
  · exact absurd ((h_local x.smartc).symm.trans x.not_local_other) (by simp)

/-- Through the other PU, the owner appends what it takes for the payload, and the reply is 0. -/
theorem viaOther_eq (h_fits : x.messageLength < 4096) :
    ∃ stale, x.viaOther
      = if (dsmWriteHeader x.globalFifo.toInt32 x.len).length
            + (x.payload.takeWhile isSpace).length + x.payload.length < 4096 then
          .ok (x.owner.append (fifoPath (x.owner.os.globalFifoList x.globalFifo).localUuid)
            (takenBytes x.payload stale), 0)
        else .error .assertion := by
  have h_pos := x.len_pos
  have h_len : x.len.toInt < 4096 := by unfold messageLength at h_fits; omega
  obtain ⟨seg, h_poke, h_data⟩ := x.onOther.exists_poke h_len
  have h_remote : writeRemoteFifo (x.other.setSegment x.onOther.key seg) x.globalFifo.toInt32
      seg.data x.len = .ok (.dsmCall (x.other.setSegment x.onOther.key seg)
        (dsmWriteHeader x.globalFifo.toInt32 x.len ++ x.payload ++ [0])
        fun w _ => .ok (w, 0)) := by
    refine writeRemoteFifo_eq_ok.mpr ⟨h_fits, h_pos.le, by rw [seg.length_data]; omega, ?_⟩
    rw [h_data]
    rfl
  obtain ⟨stale, resp, h_serve⟩ := runTwoWayServer_write (w := x.owner) x.peerHost_open
    x.peerHost_write x.length_payload h_pos h_fits
  refine ⟨stale, ?_⟩
  unfold viaOther
  rw [syscallFifoWrite_remote x.onOther.attached h_pos.le h_poke x.smartc x.not_local_other,
    h_remote, Exec.ok_bind]
  change ((runTwoWayServer x.peerHost x.owner _ >>= _) >>= _) = _
  rw [h_serve]
  split
  · rfl
  · rfl

/-- The reply is the length through the owner, and 0 through the other PU. -/
theorem replies {owner₁ owner₂ : World} {ret₁ ret₂ : Int32}
    (h₁ : x.viaOwner = .ok (owner₁, ret₁)) (h₂ : x.viaOther = .ok (owner₂, ret₂)) :
    ret₁ = x.len ∧ ret₂ = 0 := by
  obtain ⟨owner₁', h_owner, -⟩ := x.viaOwner_eq (lt_of_viaOwner h₁)
  obtain ⟨-, rfl⟩ := Prod.mk.inj (Except.ok.inj (h_owner.symm.trans h₁))
  obtain ⟨stale, h_other⟩ := x.viaOther_eq (messageLength_lt_of_viaOther h₂)
  rw [h_other] at h₂
  split at h₂
  · exact ⟨rfl, ((Prod.mk.inj (Except.ok.inj h₂)).2).symm⟩
  · exact absurd h₂ (by simp)

theorem not_transparent : ¬ x.Transparent := by
  rintro ⟨owner₁, owner₂, ret, h₁, h₂, -⟩
  -- one reply cannot be a positive length and 0
  obtain ⟨rfl, h_zero⟩ := replies h₁ h₂
  have h_pos := x.len_pos
  rw [h_zero] at h_pos
  exact absurd h_pos (by decide)

end CrossWrite

/-- **Location transparency of writes** fails for every write: the replies differ. The bytes agree
exactly when the message fits and the payload does not start with white space. -/
theorem write_transparency (x : CrossWrite) :
    ¬ x.Transparent ∧
      (x.SameBytes ↔ startsWithBlank x.payload = false ∧ x.messageLength < 4096) := by
  refine ⟨CrossWrite.not_transparent, ?_⟩
  constructor
  · rintro ⟨owner₁, owner₂, ret₁, ret₂, h₁, h₂, h_fifos⟩
    have h_fits := CrossWrite.messageLength_lt_of_viaOther h₂
    refine ⟨?_, h_fits⟩
    obtain ⟨owner₁', h_owner, h_fifos₁⟩ := x.viaOwner_eq (CrossWrite.lt_of_viaOwner h₁)
    obtain ⟨rfl, -⟩ := Prod.mk.inj (Except.ok.inj (h_owner.symm.trans h₁))
    obtain ⟨stale, h_other⟩ := x.viaOther_eq h_fits
    rw [h_other] at h₂
    split at h₂
    · -- the FIFO got the payload one way, and what was taken for it the other way
      obtain ⟨rfl, -⟩ := Prod.mk.inj (Except.ok.inj h₂)
      rw [h_fifos₁] at h_fifos
      have h_fifo := congrFun h_fifos
        (fifoPath (x.owner.os.globalFifoList x.globalFifo).localUuid)
      rw [World.append_fifos, World.append_fifos, Function.update_self, Function.update_self]
        at h_fifo
      by_contra h_blank
      exact take_drop_ne (by simpa using h_blank) stale (List.append_cancel_left h_fifo)
    · exact absurd h₂ (by simp)
  · rintro ⟨h_blank, h_fits⟩
    have h_pos := x.len_pos
    have h_len : x.len.toInt < 4096 := by
      unfold CrossWrite.messageLength at h_fits
      omega
    obtain ⟨owner₁, h_owner, h_fifos₁⟩ := x.viaOwner_eq h_len
    obtain ⟨stale, h_other⟩ := x.viaOther_eq h_fits
    have h_room : (dsmWriteHeader x.globalFifo.toInt32 x.len).length
        + (x.payload.takeWhile isSpace).length + x.payload.length < 4096 := by
      have h_payload := x.length_payload
      unfold CrossWrite.messageLength at h_fits
      rw [takeWhile_isSpace_eq_nil h_blank, List.length_nil]
      omega
    rw [if_pos h_room, takenBytes_of_not_blank h_blank] at h_other
    exact ⟨owner₁, _, _, _, h_owner, h_other, h_fifos₁.symm⟩

/-! ### A concrete write -/

/-- A segment that starts with the letter d. -/
def letterSegment : Buffer 4096 := ⟨bytes "d" ++ List.replicate 4095 0, by
  rw [List.length_append, List.length_replicate]; rfl⟩

/-- A PU with one FIFO, 1, and one client, 1, whose segment has been written. -/
def letterWorld (p : Fin 8) : World where
  os := { bootOs (puNumber p) 0 0 with
    globalProcessList := Function.update freeProcess 1 ⟨puNumber p, 0, 1, .attached 7⟩
    globalFifoList := Function.update (fun _ => freeFifo) 1 (FifoInit.entry ⟨5, 1, -1⟩ p 1) }
  shm _ := letterSegment
  fifos _ := []
  spawned := []

def letterWriter (p : Fin 8) : Writer (letterWorld p) (bytes "d") 1 where
  pid := 1
  key := 7
  attached := by
    change (Function.update freeProcess (1 : Slot) ⟨puNumber p, 0, 1, .attached 7⟩ 1).shm = _
    rw [Function.update_self]
  before := Buffer.zero 4096
  put := globalFifoWritePut_eq_ok.mpr ⟨by decide, by decide, by decide,
    Buffer.poke_eq_some.mpr ⟨by decide, by
      change bytes "d" ++ List.replicate 4095 0 = _ ++ (List.replicate 4096 0).drop _
      rw [List.drop_replicate]
      rfl⟩⟩

/-- PU 1 writes the letter d to FIFO 1 of PU 0. -/
def letterWrite : CrossWrite where
  P := ⟨true, fun _ => 0⟩
  smartc := rfl
  ownerPu := 0
  otherPu := 1
  otherPu_ne := by decide
  owner := letterWorld 0
  other := letterWorld 1
  owner_pu := rfl
  other_pu := rfl
  globalFifo := 1
  owned := by
    have h_entry : (letterWorld 0).os.globalFifoList 1 = FifoInit.entry ⟨5, 1, -1⟩ 0 1 := by
      change Function.update (fun _ => freeFifo) (1 : Slot) (FifoInit.entry ⟨5, 1, -1⟩ 0 1) 1 = _
      rw [Function.update_self]
    have h_eq := isGlobalFifoLocal_eq (show (letterWorld 0).os.currentPuId = puNumber 0 from rfl) 1
    rw [h_eq, h_entry]
    rfl
  buf := bytes "d"
  len := 1
  len_pos := by decide
  onOwner := letterWriter 0
  onOther := letterWriter 1
  host := Kernel.nominal
  host_open := rfl
  host_write := rfl
  peerHost := Kernel.nominal
  peerHost_open := rfl
  peerHost_write := rfl

theorem write_not_transparent : letterWrite.payload = bytes "d" ∧ ¬ letterWrite.Transparent :=
  ⟨by decide, CrossWrite.not_transparent⟩

end MoleculeOS
