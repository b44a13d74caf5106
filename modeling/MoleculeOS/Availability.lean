import MoleculeOS.Processes
import MoleculeOS.Queues
import MoleculeOS.Spawn

/-!
# Requests of correct clients

Whether the OS answers a request of the library or stops. `Exec.Returns` is decided handler by
handler; `LibCall.Admissible` has the answers, in terms of the arguments of the call:

* registrations, FIFO_INITs, FIFO_CONNECTs and FIFO_READs are always answered;
* the dispatcher does not know FIFO_CLOSE;
* `syscall_gspawn` takes at most seven arguments and seven variables, the library any number that
  fits its 256 bytes;
* `fifo_write` and the NUL behind the payload want `0 < len < 4096`, the library only asks for
  `len ≤ 4096`; on the way to the other PU, header, payload and the blanks it starts with must
  together stay below 4096 bytes.

In every run that meets these conditions, whose reads return whole requests and whose clients have
segments of their own, no OS stops (`requests_answered`); a request that does not meet them stops
its OS.
-/

namespace MoleculeOS

open Stdio Transition

/-! ### Returning -/

/-- The computation does not stop the process. -/
def Exec.Returns {α : Type} (x : Exec α) : Prop := ∃ r, x = .ok r

namespace Exec

variable {α β : Type}

@[simp] theorem returns_ok (a : α) : Returns (.ok a : Exec α) := ⟨a, rfl⟩

theorem returns_bind {x : Exec α} {f : α → Exec β} :
    (x >>= f).Returns ↔ ∃ a, x = .ok a ∧ (f a).Returns := by
  constructor
  · rintro ⟨r, h_r⟩
    obtain ⟨a, h_a, h_f⟩ := bind_eq_ok.mp h_r
    exact ⟨a, h_a, r, h_f⟩
  · rintro ⟨a, h_a, r, h_f⟩
    exact ⟨r, bind_eq_ok.mpr ⟨a, h_a, h_f⟩⟩

/-- What comes afterwards cannot stop the process. -/
theorem returns_bind_of {x : Exec α} {f : α → Exec β} (h : ∀ a, (f a).Returns) :
    (x >>= f).Returns ↔ x.Returns := by
  rw [returns_bind]
  exact exists_congr fun a => and_iff_left (h a)

end Exec

variable {P : Platform} {k peerKernel : Kernel} {w peer : World}

/-! ### Handlers that return -/

/-- `fifo_write` checks the length; how the `write` ends does not matter. -/
theorem fifoWrite_returns_iff {fd buf : List Byte} {len : Int32} :
    (fifoWrite k w fd buf len).Returns ↔
      0 < len.toInt ∧ len.toInt ≤ maxMsgLen ∧ len.toInt.toNat ≤ buf.length := by
  constructor
  · rintro ⟨⟨w', ret⟩, h_write⟩
    obtain ⟨h_pos, h_le, h_mem, -⟩ := fifoWrite_cases h_write
    exact ⟨h_pos, h_le, h_mem⟩
  · rintro ⟨h_pos, h_le, h_mem⟩
    unfold fifoWrite
    rw [assert_of h_pos, Exec.ok_bind, assert_of h_le, Exec.ok_bind, offset_of h_pos.le,
      Exec.ok_bind, load_eq_ok.mpr ⟨h_mem, rfl⟩, Exec.ok_bind]
    -- a failing `write` is reported, not fatal
    cases k.write <;> exact ⟨_, rfl⟩

theorem writeLocalFifo_returns_iff {i : Slot} {len : Int32} {mem : List Byte}
    (h_open : k.openFifo = true) : (writeLocalFifo k w i.toInt32 mem len).Returns ↔
      0 < len.toInt ∧ len.toInt ≤ maxMsgLen ∧ len.toInt.toNat ≤ mem.length := by
  rw [writeLocalFifo_of_open h_open, fifoWrite_returns_iff]

/-- A write to a FIFO of this PU, from the segment that holds the payload. -/
theorem writeHere_returns_iff (peerKernel : Kernel) (peer w₁ : World) {len : Int32}
    {mem : List Byte} (h_open : k.openFifo = true) (h_le : len.toInt ≤ maxMsgLen)
    (h_mem : len.toInt.toNat ≤ mem.length) (g : Slot) :
    ((writeLocalFifo k w₁ g.toInt32 mem len >>= fun r => Except.ok (Outcome.reply r.1 len))
      >>= Outcome.finish peerKernel peer).Returns ↔ 0 < len.toInt := by
  have h_then : ∀ r : World × Int32, Exec.Returns ((Except.ok (Outcome.reply r.1 len) :
      Exec Outcome) >>= Outcome.finish peerKernel peer) := fun r => ⟨_, rfl⟩
  rw [bind_assoc]
  calc (writeLocalFifo k w₁ g.toInt32 mem len >>= fun r =>
          Except.ok (Outcome.reply r.1 len) >>= Outcome.finish peerKernel peer).Returns
      ↔ (writeLocalFifo k w₁ g.toInt32 mem len).Returns := Exec.returns_bind_of h_then
    _ ↔ 0 < len.toInt ∧ len.toInt ≤ maxMsgLen ∧ len.toInt.toNat ≤ mem.length :=
      writeLocalFifo_returns_iff h_open
    _ ↔ 0 < len.toInt := and_iff_left ⟨h_le, h_mem⟩

variable {κ ι : Type} [DecidableEq κ] [DecidableEq ι] {D : SmartComputer κ ι}
  {s t : SmartState κ ι} {i : ι} {call : LibCall}

omit [DecidableEq ι] in
/-- A FIFO id is an index of the FIFO table. -/
theorem Inited.exists_slot {g : Int32} (h : Inited D s.answers g) (h_pus : ∀ p, PuOk D s p) :
    ∃ a : Slot, g = a.toInt32 := by
  obtain ⟨p, h_nonneg, f, h_f⟩ := h
  obtain ⟨n, h_n⟩ := List.mem_iff_getElem?.mp h_f
  have h_reply := (h_pus p).history.reply n f g h_n
  unfold fifoInitReply at h_reply
  split at h_reply
  · exact ⟨_, h_reply⟩
  · rw [h_reply] at h_nonneg
    exact absurd h_nonneg (by decide)

end MoleculeOS
