import MoleculeOS.Availability

/-!
# What the reply to a write says

A write passes its result upwards: the host's `write` to `fifo_write`, to `write_local_fifo`, and on
the way from another PU through the response text and `dsm_call` to `write_remote_fifo`. Both ways
lose it at the last step. `syscall_fifo_write` answers the length it was asked to write, whatever
`write_local_fifo` returned; `write_remote_fifo` answers 0, whatever `dsm_call` returned.

So there is a reply, and it counts the bytes that arrived, exactly when the length leaves room for
the NUL behind the payload, the FIFO is a local one that opens, and the host took all bytes
(`write_reply_truthful_iff`).
-/

namespace MoleculeOS

open Stdio

variable {P : Platform} {k peerKernel : Kernel} {w w' peer peer' : World} {ret : Int32}

/-- How many of `n` bytes a `write` takes. -/
def WriteResult.taken (n : ℕ) : WriteResult → ℕ
  | .complete => n
  | .short j => min j n
  | .error => 0

theorem WriteResult.taken_le (n : ℕ) (r : WriteResult) : r.taken n ≤ n := by
  cases r with
  | complete => exact le_rfl
  | short j => exact min_le_right j n
  | error => exact Nat.zero_le n

/-- `fifo_write` appends what the host takes of the payload. -/
theorem fifoWrite_appended {fd buf : List Byte} {len : Int32}
    (h : fifoWrite k w fd buf len = .ok (w', ret)) :
    w'.fifos fd = w.fifos fd ++ buf.take (k.write.taken len.toInt.toNat) := by
  unfold fifoWrite at h
  simp only [Exec.bind_eq_ok, assert_eq_ok, offset_eq_ok, load_eq_ok] at h
  obtain ⟨-, -, -, -, n, h_n, data, ⟨-, rfl⟩, h⟩ := h
  obtain rfl : n = len.toInt.toNat := by omega
  cases h_write : k.write with
  | complete =>
    rw [h_write] at h
    obtain ⟨rfl, -⟩ := Prod.mk.inj (Except.ok.inj h)
    rw [World.append_fifos, Function.update_self]
    rfl
  | short j =>
    rw [h_write] at h
    obtain ⟨rfl, -⟩ := Prod.mk.inj (Except.ok.inj h)
    rw [World.append_fifos, Function.update_self, List.take_take]
    rfl
  | error =>
    rw [h_write] at h
    obtain ⟨rfl, -⟩ := Prod.mk.inj (Except.ok.inj h)
    exact (List.append_nil _).symm

/-- How many bytes the local FIFO behind an id has got. -/
def World.appended (w w' : World) (g : Slot) : ℕ :=
  (w'.fifos (fifoPath (w.os.globalFifoList g).localUuid)).length
    - (w.fifos (fifoPath (w.os.globalFifoList g).localUuid)).length

/-- A reply is the number of bytes that were appended, or negative if there were none. -/
structure Truthful (appended : ℕ) (ret : Int32) : Prop where
  some : 0 < appended → ret.toInt = appended
  none : appended = 0 → ret.toInt < 0

/-- The OS sends writes to this FIFO to the other PU. -/
def ServedThere (P : Platform) (w : World) (g : Slot) : Prop :=
  P.smartc = true ∧ isGlobalFifoLocal w.os g.toInt32 = .ok false

/-- The reply to a write is truthful about the FIFO of the PU that owns it: this one, or the other
one if the write is served there. -/
structure TruthfulReply (P : Platform) (w w' peer peer' : World) (g : Slot) (ret : Int32) :
    Prop where
  here : ¬ ServedThere P w g → Truthful (w.appended w' g) ret
  there : ServedThere P w g → Truthful (peer.appended peer' g) ret

/-- No count of bytes is answered with 0. -/
theorem not_truthful_zero (appended : ℕ) : ¬ Truthful appended 0 := by
  rintro ⟨h_some, h_none⟩
  have h_zero : (0 : Int32).toInt = 0 := rfl
  rcases Nat.eq_zero_or_pos appended with h | h
  · exact absurd (h_none h) (by omega)
  · have h_eq := h_some h
    omega

section Answered

variable {g shmid : Slot} {len : Int32}

/-- A write that is served by the other PU is answered with 0. -/
theorem reply_there (h_there : ServedThere P w g)
    (h : (Syscall.fifoWrite g.toInt32 shmid.toInt32 len).answer P k peerKernel w peer
      = .ok (w', peer', ret)) : ret = 0 := by
  rcases Syscall.answer_cases h with ⟨h_run, -⟩ | ⟨w₁, msg, resume, resp, h_run, -, h_resume⟩
  · obtain ⟨i, key, seg, -, -, -, -, h_case⟩ := syscallFifoWrite_cases h_run
    rcases h_case with ⟨-, -, h_remote⟩ | ⟨h_local, -⟩
    · exact absurd (writeRemoteFifo_eq_ok.mp h_remote).2.2.2 (by simp)
    · exact absurd ((h_local h_there.1).symm.trans h_there.2) (by simp)
  · obtain ⟨i, key, seg, -, -, -, -, h_case⟩ := syscallFifoWrite_cases h_run
    rcases h_case with ⟨-, -, h_remote⟩ | ⟨-, w₂, n, -, h_out⟩
    · -- what the other PU answered is dropped
      obtain ⟨-, -, rfl⟩ := Outcome.dsmCall.inj (writeRemoteFifo_eq_ok.mp h_remote).2.2.2
      exact ((Prod.mk.inj (Except.ok.inj h_resume)).2).symm
    · exact absurd h_out (by simp)

/-- A write that is served here is answered with its length, and the FIFO gets what the host
takes. -/
theorem reply_here (h_here : ¬ ServedThere P w g)
    (h : (Syscall.fifoWrite g.toInt32 shmid.toInt32 len).answer P k peerKernel w peer
      = .ok (w', peer', ret)) :
    ret = len ∧ 0 < len.toInt ∧ w.appended w' g = k.write.taken len.toInt.toNat := by
  rcases Syscall.answer_cases h with ⟨h_run, -⟩ | ⟨w₁, msg, resume, resp, h_run, -, -⟩
  · obtain ⟨i, key, seg, -, -, -, -, h_case⟩ := syscallFifoWrite_cases h_run
    rcases h_case with ⟨h_smartc, h_remote, -⟩ | ⟨-, w₁, n, h_local, h_out⟩
    · exact absurd ⟨h_smartc, h_remote⟩ h_here
    · obtain ⟨rfl, rfl⟩ := Outcome.reply.inj h_out
      obtain ⟨j, h_j, -, h_write⟩ := writeLocalFifo_cases h_local
      rw [slot_toInt32] at h_j
      obtain rfl := Except.ok.inj h_j
      obtain ⟨h_pos, -, h_mem, -⟩ := fifoWrite_cases h_write
      have h_taken := k.write.taken_le ret.toInt.toNat
      have h_fifo := fifoWrite_appended h_write
      rw [World.setSegment_os, World.setSegment_fifos] at h_fifo
      refine ⟨rfl, h_pos, ?_⟩
      unfold World.appended
      rw [h_fifo, List.length_append, Nat.add_sub_cancel_left, List.length_take]
      omega
  · obtain ⟨i, key, seg, -, -, -, -, h_case⟩ := syscallFifoWrite_cases h_run
    rcases h_case with ⟨h_smartc, h_remote, -⟩ | ⟨-, w₂, n, -, h_out⟩
    · exact absurd ⟨h_smartc, h_remote⟩ h_here
    · exact absurd h_out (by simp)

/-- A length is a truthful answer if all of it was taken. -/
theorem truthful_taken_iff {r : WriteResult} (h_pos : 0 < len.toInt) :
    Truthful (r.taken len.toInt.toNat) len ↔ r.taken len.toInt.toNat = len.toInt.toNat := by
  constructor
  · rintro ⟨h_some, h_none⟩
    rcases Nat.eq_zero_or_pos (r.taken len.toInt.toNat) with h | h
    · exact absurd (h_none h) (by omega)
    · have h_eq := h_some h
      omega
  · intro h_all
    exact ⟨fun _ => by omega, fun h_zero => by omega⟩

/-- A write that the OS serves itself is answered, if the NUL behind the payload fits the segment
and the FIFO opens. -/
theorem answered_here {buf : List Byte} (x : Writer w buf len) (h_pos : 0 < len.toInt)
    (h_lt : len.toInt < 4096)
    (h_local : P.smartc = true → isGlobalFifoLocal w.os g.toInt32 = .ok true)
    (h_open : k.openFifo = true) :
    ((Syscall.fifoWrite g.toInt32 x.pid.toInt32 len).answer P k peerKernel w peer).Returns := by
  obtain ⟨seg, h_poke, -⟩ := x.exists_poke h_lt
  have h_mem : len.toInt.toNat ≤ seg.data.length := by
    rw [seg.length_data]
    omega
  have h_write := (writeHere_returns_iff peerKernel peer (w.setSegment x.key seg) h_open
    (show len.toInt ≤ maxMsgLen by unfold maxMsgLen; omega) h_mem g).mpr h_pos
  change (syscallFifoWrite P k w g.toInt32 x.pid.toInt32 len >>= _).Returns
  rw [syscallFifoWrite_eq x.attached h_pos.le h_poke]
  by_cases h_smartc : P.smartc = true
  · rw [if_pos h_smartc, h_local h_smartc]
    exact h_write
  · rw [if_neg h_smartc]
    exact h_write

/-- **The reply to FIFO_WRITE.** Whatever the payload and however the host's write ends, the OS
answers, and the reply is the number of bytes that the FIFO got, or negative if there were none,
exactly when the payload is not empty and shorter than the segment, the FIFO is served here and
opens, and the write took all bytes. -/
theorem write_reply_truthful_iff {buf : List Byte} (x : Writer w buf len) :
    (∃ w' peer' ret, (Syscall.fifoWrite g.toInt32 x.pid.toInt32 len).answer P k peerKernel w peer
        = .ok (w', peer', ret) ∧ TruthfulReply P w w' peer peer' g ret) ↔
      0 < len.toInt ∧ len.toInt < 4096 ∧
        (P.smartc = true → isGlobalFifoLocal w.os g.toInt32 = .ok true) ∧ k.openFifo = true ∧
        k.write.taken len.toInt.toNat = len.toInt.toNat := by
  constructor
  · rintro ⟨w', peer', ret, h_answer, h_truthful⟩
    -- 0 is what the other way answers, and 0 is never truthful
    have h_here : ¬ ServedThere P w g := by
      intro h_there
      have h_zero := reply_there h_there h_answer
      rw [h_zero] at h_truthful
      exact not_truthful_zero _ (h_truthful.there h_there)
    obtain ⟨rfl, h_pos, h_appended⟩ := reply_here h_here h_answer
    have h_taken := h_truthful.here h_here
    rw [h_appended, truthful_taken_iff h_pos] at h_taken
    -- what a write that was answered has passed on its way
    rcases Syscall.answer_cases h_answer with ⟨h_run, -⟩ | ⟨w₁, msg, resume, resp, h_run, -, -⟩
    · obtain ⟨i, key, seg, -, -, -, h_poke, h_case⟩ := syscallFifoWrite_cases h_run
      have h_room := (Buffer.poke_eq_some.mp h_poke).1
      rw [List.length_singleton] at h_room
      rcases h_case with ⟨h_smartc, h_remote, -⟩ | ⟨h_local, w₁, n, h_write, -⟩
      · exact absurd ⟨h_smartc, h_remote⟩ h_here
      · obtain ⟨-, -, h_open, -⟩ := writeLocalFifo_cases h_write
        exact ⟨h_pos, by omega, h_local, h_open, h_taken⟩
    · obtain ⟨i, key, seg, -, -, -, -, h_case⟩ := syscallFifoWrite_cases h_run
      rcases h_case with ⟨h_smartc, h_remote, -⟩ | ⟨-, w₂, n, -, h_out⟩
      · exact absurd ⟨h_smartc, h_remote⟩ h_here
      · exact absurd h_out (by simp)
  · rintro ⟨h_pos, h_lt, h_local, h_open, h_taken⟩
    have h_returns : ((Syscall.fifoWrite g.toInt32 x.pid.toInt32 len).answer P k peerKernel w
        peer).Returns := answered_here x h_pos h_lt h_local h_open
    obtain ⟨⟨w', peer', ret⟩, h_answer⟩ := h_returns
    have h_here : ¬ ServedThere P w g := fun h =>
      absurd ((h_local h.1).symm.trans h.2) (by simp)
    obtain ⟨rfl, -, h_appended⟩ := reply_here h_here h_answer
    refine ⟨w', peer', ret, h_answer, fun _ => ?_, fun h_there => absurd h_there h_here⟩
    rw [h_appended, truthful_taken_iff h_pos]
    exact h_taken

end Answered

/-- If the host takes the letter, the reply is there and truthful. -/
theorem write_reply_complete : ∃ w' peer' ret,
    (Syscall.fifoWrite (Slot.toInt32 1) (letterWriter 0).pid.toInt32 1).answer
        ⟨false, fun _ => 0⟩ .nominal .nominal (letterWorld 0) (letterWorld 1)
        = .ok (w', peer', ret) ∧
      TruthfulReply ⟨false, fun _ => 0⟩ (letterWorld 0) w' (letterWorld 1) peer' 1 ret :=
  (write_reply_truthful_iff (letterWriter 0)).mpr
    ⟨by decide, by decide, fun h => absurd h (by simp), rfl, rfl⟩

/-- If its write fails, the letter is reported as written. -/
theorem write_reply_error : ∃ w' peer' ret,
    (Syscall.fifoWrite (Slot.toInt32 1) (letterWriter 0).pid.toInt32 1).answer
        ⟨false, fun _ => 0⟩ { Kernel.nominal with write := .error } .nominal (letterWorld 0)
        (letterWorld 1) = .ok (w', peer', ret) ∧
      ret = 1 ∧ (letterWorld 0).appended w' 1 = 0 ∧
      ¬ TruthfulReply ⟨false, fun _ => 0⟩ (letterWorld 0) w' (letterWorld 1) peer' 1 ret := by
  have h_returns : ((Syscall.fifoWrite (Slot.toInt32 1) (letterWriter 0).pid.toInt32 1).answer
      ⟨false, fun _ => 0⟩ { Kernel.nominal with write := .error } .nominal (letterWorld 0)
      (letterWorld 1)).Returns :=
    answered_here (letterWriter 0) (by decide) (by decide) (fun h => absurd h (by simp)) rfl
  obtain ⟨⟨w', peer', ret⟩, h_answer⟩ := h_returns
  have h_here : ¬ ServedThere ⟨false, fun _ => 0⟩ (letterWorld 0) 1 := fun h =>
    absurd h.1 (by simp)
  obtain ⟨rfl, -, h_appended⟩ := reply_here h_here h_answer
  refine ⟨w', peer', 1, h_answer, rfl, h_appended, fun h => ?_⟩
  -- nothing arrived, and 1 is not negative
  exact absurd ((h.here h_here).none h_appended) (by decide)

end MoleculeOS
