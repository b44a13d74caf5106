import MoleculeOS.Exchange
import MoleculeOS.Library.Packed

/-!
# The receive buffers of the DSM channel

`*_molecule_recv_msg` copies what has arrived to the caller's buffer and stores a NUL behind it. It
is given the size of that buffer and does not look at it. So a message stays inside its buffer
exactly when it is shorter than the buffer (`moleculeRecvMsg_returns`), and four limits that were
written in four places have to agree: the assertion of `write_remote_fifo` on header and payload,
the NUL it sends behind them, the 256 bytes in which a FIFO_CONNECT and every response are sent, and
the two buffers (`recv_in_bounds_iff`). -/

namespace MoleculeOS

open Stdio

variable {n : ℕ}

/-- `*_molecule_recv_msg`, once a descriptor has arrived. -/
def moleculeRecvMsg (msgBuf : Buffer n) (_len : Int32) (rdesc : List Byte) :
    Exec (Buffer n × ℕ) := do
  let msgBuf ← access (msgBuf.poke 0 rdesc)
  let msgBuf ← access (msgBuf.poke rdesc.length [0])
  return (msgBuf, rdesc.length)

/-- `client_molecule_recv_msg` -/
def clientMoleculeRecvMsg (msgBuf : Buffer n) (len : Int32) (rdesc : List Byte) :
    Exec (Buffer n × ℕ) := moleculeRecvMsg msgBuf len rdesc

/-- `server_molecule_recv_msg` -/
def serverMoleculeRecvMsg (msgBuf : Buffer n) (len : Int32) (rdesc : List Byte) :
    Exec (Buffer n × ℕ) := moleculeRecvMsg msgBuf len rdesc

/-- What the buffer holds after a message was received: the message, a NUL, and what was there. -/
theorem moleculeRecvMsg_eq_ok {msgBuf msgBuf' : Buffer n} {len : Int32} {rdesc : List Byte} {m : ℕ}
    (h : moleculeRecvMsg msgBuf len rdesc = .ok (msgBuf', m)) :
    rdesc.length < n ∧ m = rdesc.length ∧
      msgBuf'.data = rdesc ++ 0 :: msgBuf.data.drop (rdesc.length + 1) := by
  unfold moleculeRecvMsg at h
  simp only [Exec.bind_eq_ok, access_eq_ok] at h
  obtain ⟨copied, h_copy, nulled, h_nul, h_ret⟩ := h
  obtain ⟨rfl, rfl⟩ := Prod.mk.inj (Except.ok.inj h_ret)
  -- the NUL is what has to fit, one byte behind the message
  obtain ⟨h_fits, h_data⟩ := Buffer.poke_eq_some.mp h_nul
  have h_front := Buffer.take_add_of_poke h_copy
  have h_back := Buffer.drop_of_poke h_copy
  rw [Nat.zero_add, List.take_zero, List.nil_append] at h_front
  rw [List.drop_zero, Nat.zero_add] at h_back
  rw [List.length_singleton] at h_fits h_data
  refine ⟨h_fits, rfl, ?_⟩
  rw [h_data, h_front, h_back, List.drop_length_add_append, List.drop_drop, List.append_assoc,
    List.singleton_append]

/-- **A message stays inside the buffer** exactly when it is shorter than the buffer. -/
theorem moleculeRecvMsg_returns (msgBuf : Buffer n) (len : Int32) (rdesc : List Byte) :
    (∃ r, moleculeRecvMsg msgBuf len rdesc = .ok r) ↔ rdesc.length < n := by
  constructor
  · rintro ⟨⟨msgBuf', m⟩, h⟩
    exact (moleculeRecvMsg_eq_ok h).1
  · intro h_lt
    obtain ⟨copied, h_copy⟩ := msgBuf.exists_poke (show 0 + rdesc.length ≤ n by omega)
    obtain ⟨nulled, h_nul⟩ := copied.exists_poke
      (show rdesc.length + [(0 : Byte)].length ≤ n from h_lt)
    unfold moleculeRecvMsg
    rw [h_copy, access_some, Exec.ok_bind, h_nul]
    exact ⟨_, rfl⟩

/-! ### What is sent -/

/-- The message of a write: header, payload and NUL. -/
theorem length_of_writeRemoteFifo {w w' : World} {globalFifo length : Int32} {mem msg : List Byte}
    {resume : World → Int32 → Exec (World × Int32)}
    (h : writeRemoteFifo w globalFifo mem length = .ok (.dsmCall w' msg resume)) :
    (msg.length : ℤ) = (dsmWriteHeader globalFifo length).length + length.toInt + 1 := by
  obtain ⟨-, h_nonneg, h_mem, h_out⟩ := writeRemoteFifo_eq_ok.mp h
  obtain ⟨-, rfl, -⟩ := Outcome.dsmCall.inj h_out
  rw [List.length_append, List.length_append, List.length_take, List.length_singleton,
    Nat.min_eq_left h_mem]
  omega

/-- The message of a FIFO_CONNECT is the whole of a 256-byte buffer. -/
theorem length_of_syscallFifoConnect {P : Platform} {k : Kernel} {w w' : World}
    {globalUuid ownerPid : Int32} {msg : List Byte}
    {resume : World → Int32 → Exec (World × Int32)}
    (h : syscallFifoConnect P k w globalUuid ownerPid = .ok (.dsmCall w' msg resume)) :
    msg.length = 256 := by
  -- only the branch that asks the other PU sends anything
  unfold syscallFifoConnect at h
  split at h
  · exact absurd (Except.ok.inj h) (by simp)
  · split at h
    · simp only [Exec.bind_eq_ok] at h
      obtain ⟨-, -, buffer, -, h_out⟩ := h
      obtain ⟨-, rfl, -⟩ := Outcome.dsmCall.inj (Except.ok.inj h_out)
      exact buffer.length_data
    · exact absurd (Except.ok.inj h) (by simp)

/-- A response is the whole of a 256-byte buffer. -/
theorem length_of_runTwoWayServer {k : Kernel} {w w' : World} {msg resp : List Byte}
    (h : runTwoWayServer k w msg = .ok (w', resp)) : resp.length = 256 := by
  unfold runTwoWayServer at h
  simp only [Exec.bind_eq_ok] at h
  obtain ⟨buf, -, ⟨w₁, ret⟩, -, respBuf, -, h_out⟩ := h
  obtain ⟨-, rfl⟩ := Prod.mk.inj (Except.ok.inj h_out)
  exact respBuf.length_data

/-- **Receiving stays inside the buffer**: of a write, exactly when header, payload and NUL leave a
byte of the 4096; of a FIFO_CONNECT, always; of a response, never. -/
theorem recv_in_bounds_iff (P : Platform) (k : Kernel) (w w' : World) (msg : List Byte)
    (resume : World → Int32 → Exec (World × Int32)) (dsmCallBuf : Buffer 4096)
    (dsmRespBuf : Buffer 256) :
    (∀ globalFifo length mem,
      writeRemoteFifo w globalFifo mem length = .ok (.dsmCall w' msg resume) →
      ((∃ r, serverMoleculeRecvMsg dsmCallBuf 4096 msg = .ok r) ↔
        (dsmWriteHeader globalFifo length).length + length.toInt + 1 < 4096)) ∧
    (∀ globalUuid ownerPid,
      syscallFifoConnect P k w globalUuid ownerPid = .ok (.dsmCall w' msg resume) →
      ∃ r, serverMoleculeRecvMsg dsmCallBuf 4096 msg = .ok r) ∧
    ∀ resp, runTwoWayServer k w msg = .ok (w', resp) →
      ¬ ∃ r, clientMoleculeRecvMsg dsmRespBuf 256 resp = .ok r := by
  refine ⟨?_, ?_, ?_⟩
  · intro globalFifo length mem h_sent
    have h_len := length_of_writeRemoteFifo h_sent
    refine (moleculeRecvMsg_returns dsmCallBuf 4096 msg).trans ?_
    omega
  · intro globalUuid ownerPid h_sent
    refine (moleculeRecvMsg_returns dsmCallBuf 4096 msg).mpr ?_
    rw [length_of_syscallFifoConnect h_sent]
    decide
  · -- the response fills the 256 bytes, and the NUL comes behind them
    intro resp h_sent h_returns
    have h_lt := (moleculeRecvMsg_returns dsmRespBuf 256 resp).mp h_returns
    rw [length_of_runTwoWayServer h_sent] at h_lt
    exact absurd h_lt (by decide)

/-- A write of one byte is received, and so is a FIFO_CONNECT, but not the response to it. -/
theorem recv_in_bounds_iff_one :
    (∃ msg resume, writeRemoteFifo (World.boot (bootOs 0 0 0)) 512 (bytes "d") 1
        = .ok (.dsmCall (World.boot (bootOs 0 0 0)) msg resume) ∧
      ∃ r, serverMoleculeRecvMsg (Buffer.zero 4096) 4096 msg = .ok r) ∧
    ∃ msg resume resp,
      syscallFifoConnect ⟨true, fun _ => 0⟩ .nominal (World.boot (bootOs 0 0 0)) 42 3
        = .ok (.dsmCall (World.boot (bootOs 0 0 0)) msg resume) ∧
      (∃ r, serverMoleculeRecvMsg (Buffer.zero 4096) 4096 msg = .ok r) ∧
      runTwoWayServer .nominal (World.boot (bootOs 1 0 0)) msg
        = .ok (World.boot (bootOs 1 0 0), resp) ∧
      ¬ ∃ r, clientMoleculeRecvMsg (Buffer.zero 256) 256 resp = .ok r := by
  have h_fits : ((dsmWriteHeader 512 1).length : ℤ) + (1 : Int32).toInt < 4096 := by
    decide +kernel
  have h_mem : (1 : Int32).toInt.toNat ≤ (bytes "d").length := by decide
  have h_write := writeRemoteFifo_eq_ok (w := World.boot (bootOs 0 0 0)).mpr
    ⟨h_fits, by decide, h_mem, rfl⟩
  obtain ⟨buffer, resume, h_poke, h_ask, -⟩ := syscallFifoConnect_unknown (P := ⟨true, fun _ => 0⟩)
    (w := World.boot (bootOs 0 0 0)) .nominal 3 rfl rfl
  obtain ⟨resp, h_serve, -⟩ := runTwoWayServer_connect .nominal (World.boot (bootOs 1 0 0)) h_poke
  refine ⟨⟨_, _, h_write, ?_⟩, buffer.data, resume, resp, h_ask, ?_, h_serve, ?_⟩
  · exact ((recv_in_bounds_iff ⟨true, fun _ => 0⟩ .nominal _ _ _ _ _ (Buffer.zero 256)).1 _ _ _
      h_write).mpr (by decide +kernel)
  · exact (recv_in_bounds_iff _ _ _ _ _ _ _ (Buffer.zero 256)).2.1 _ _ h_ask
  · exact (recv_in_bounds_iff ⟨true, fun _ => 0⟩ _ _ _ _ resume (Buffer.zero 4096) _).2.2 _ h_serve

/-- A write whose header and payload take 4095 bytes is accepted, and the NUL behind the message
falls behind the receive buffer. The NUL behind a response always does. -/
theorem recv_out_of_bounds :
    (∃ msg resume, writeRemoteFifo (World.boot (bootOs 0 0 0)) 512 (Buffer.zero 4096).data 4025
        = .ok (.dsmCall (World.boot (bootOs 0 0 0)) msg resume) ∧
      ¬ ∃ r, serverMoleculeRecvMsg (Buffer.zero 4096) 4096 msg = .ok r) ∧
    ∃ msg resp, runTwoWayServer .nominal (World.boot (bootOs 1 0 0)) msg
        = .ok (World.boot (bootOs 1 0 0), resp) ∧
      ¬ ∃ r, clientMoleculeRecvMsg (Buffer.zero 256) 256 resp = .ok r := by
  -- 70 bytes of header and 4025 of payload pass the assertion
  have h_header : (dsmWriteHeader 512 4025).length = 70 := by decide +kernel
  have h_fits : ((dsmWriteHeader 512 4025).length : ℤ) + (4025 : Int32).toInt < 4096 := by
    rw [h_header]
    decide
  have h_mem : (4025 : Int32).toInt.toNat ≤ (Buffer.zero 4096).data.length := by
    rw [(Buffer.zero 4096).length_data]
    decide
  have h_write := writeRemoteFifo_eq_ok (w := World.boot (bootOs 0 0 0)).mpr
    ⟨h_fits, by decide, h_mem, rfl⟩
  have h_sent := length_of_writeRemoteFifo h_write
  rw [h_header] at h_sent
  obtain ⟨buffer, h_poke⟩ := Kernel.nominal.connectBuf.exists_poke
    (show 0 + (dsmConnectText 42 ++ [0]).length ≤ 256 by
      have h_len := length_dsmConnectText_le 42
      rw [List.length_append, List.length_singleton]
      omega)
  obtain ⟨resp, h_serve, -⟩ := runTwoWayServer_connect .nominal
    (World.boot (bootOs 1 0 0)) h_poke
  refine ⟨⟨_, _, h_write, ?_⟩, _, resp, h_serve, ?_⟩
  · intro h_returns
    have h_lt := (moleculeRecvMsg_returns _ _ _).mp h_returns
    change (_ : ℤ) = 70 + 4025 + 1 at h_sent
    omega
  · intro h_returns
    have h_lt := (moleculeRecvMsg_returns _ _ _).mp h_returns
    rw [length_of_runTwoWayServer h_serve] at h_lt
    exact absurd h_lt (by decide)

end MoleculeOS
