import MoleculeOS.Processes
import MoleculeOS.Remote

/-!
# Writes to a FIFO the PU does not own

A PU owns the ids that its own FIFO_INITs have returned (`Owned`). `write_local_fifo` looks at the
entry of whatever id it is given, on both paths that end there: FIFO_WRITE of a PU alone, and a
WRITEFIFO of the other PU. A free entry has a zero uuid, so a write to an id that nobody owns goes
to the local FIFO 0, and a write to no entry at all leaves the table (`writeLocalFifo_unowned`).
Neither path ever answers that it rejects a write (`write_rejected_iff`). -/

namespace MoleculeOS

open Stdio Transition System

variable {P : Platform} {p : Fin 8} {k : Kernel} {w w' : World} {es : List Event}

/-- The id was returned by a successful FIFO_INIT of this PU. -/
def Owned (es : List Event) (n : Int32) : Prop := 0 ≤ n.toInt ∧ ∃ f, (f, n) ∈ fifoInits es

/-- The handler returns a negative reply, no local FIFO has got a byte, and none was opened: all
this is so whatever the host answers to an `open`. -/
def RejectedWithoutEffect (k : Kernel) (w : World) (run : Kernel → Exec Outcome) : Prop :=
  ∀ answer, ∃ w' ret, run { k with openFifo := answer } = .ok (.reply w' ret) ∧ ret.toInt < 0 ∧
    w'.fifos = w.fifos

/-- A request of the other PU, as `run_two_way_server` has it served. -/
def serveDsm (k : Kernel) (w : World) (dsmCallBuf : List Byte) : Exec Outcome := do
  let (w, ret) ← dsmHandlers k w dsmCallBuf 4096
  return .reply w ret

/-! ### Where an unowned write goes -/

/-- Every id is an entry of the table, or it is none. -/
theorem slot_cases (n : Int32) : (∃ i : Slot, n = i.toInt32) ∨ slot n = .error .outOfBounds := by
  by_cases h : 0 ≤ n.toInt ∧ n.toInt < 4096
  · exact Or.inl (exists_slot h.1 h.2)
  · exact Or.inr (dif_neg h)

/-- **A write to an id this PU does not own** is a write to the local FIFO 0, or leaves the
table. -/
theorem writeLocalFifo_unowned (h : FifoHistory p es w) {n : Int32} (h_unowned : ¬ Owned es n)
    (k : Kernel) (w₁ : World) (h_os : w₁.os = w.os) (mem : List Byte) (length : Int32) :
    (∃ i : Slot, n = i.toInt32 ∧ writeLocalFifo k w₁ n mem length
        = if k.openFifo then fifoWrite k w₁ (fifoPath 0) mem length else .error .throw) ∨
      (n.toInt < 0 ∨ 4096 ≤ n.toInt) ∧ writeLocalFifo k w₁ n mem length = .error .outOfBounds := by
  rcases slot_cases n with ⟨i, rfl⟩ | h_slot
  · refine Or.inl ⟨i, rfl, ?_⟩
    -- an entry that was never handed out is free, and its uuid is 0
    have h_free : w₁.os.globalFifoList i = freeFifo := by
      rw [h_os]
      refine h.free fun f h_mem => h_unowned ⟨?_, f, h_mem⟩
      rw [Slot.toInt_toInt32]
      exact Int.natCast_nonneg _
    cases h_open : k.openFifo with
    | true =>
      rw [writeLocalFifo_of_open h_open, h_free]
      rfl
    | false =>
      unfold writeLocalFifo fifoConnect
      rw [slot_toInt32, Exec.ok_bind, h_open]
      rfl
  · refine Or.inr ⟨?_, ?_⟩
    · by_contra h_range
      obtain ⟨i, rfl⟩ := exists_slot (x := n) (by omega) (by omega)
      rw [slot_toInt32] at h_slot
      exact absurd h_slot (by simp)
    · unfold writeLocalFifo
      rw [h_slot, Exec.error_bind]

/-! ### Neither path rejects -/

/-- FIFO_WRITE that returns has opened a local FIFO. -/
theorem openFifo_of_syscallFifoWrite {n shmid length ret : Int32} (h_single : P.smartc = false)
    (h : syscallFifoWrite P k w n shmid length = .ok (.reply w' ret)) : k.openFifo = true := by
  obtain ⟨i, key, seg, -, -, -, -, ⟨h_smartc, -⟩ | ⟨-, w₁, r, h_write, -⟩⟩ :=
    syscallFifoWrite_cases h
  · exact absurd (h_single.symm.trans h_smartc) (by decide)
  · obtain ⟨-, -, h_open, -⟩ := writeLocalFifo_cases h_write
    exact h_open

/-- A WRITEFIFO that was served has opened a local FIFO. -/
theorem openFifo_of_serveDsm {n length ret : Int32} {payload stale : List Byte}
    (h : serveDsm k w (dsmWriteHeader n length ++ (payload ++ 0 :: stale)) = .ok (.reply w' ret)) :
    k.openFifo = true := by
  obtain ⟨⟨w₁, r⟩, h_serve, -⟩ := Exec.bind_eq_ok.mp h
  -- the name of the request leads to `write_local_fifo`
  have h_name : (writeVars n length payload).funcName = bytes "WRITEFIFO" := rfl
  unfold dsmHandlers at h_serve
  rw [scan_dsmMessage, Exec.ok_bind] at h_serve
  simp only [Exec.bind_eq_ok] at h_serve
  obtain ⟨last, -, -, -, h_serve⟩ := h_serve
  rw [if_pos h_name] at h_serve
  obtain ⟨off, -, h_write⟩ := Exec.bind_eq_ok.mp h_serve
  obtain ⟨-, -, h_open, -⟩ := writeLocalFifo_cases h_write
  exact h_open

/-- A handler that returns only after an `open` that succeeded does not reject. -/
theorem not_rejectedWithoutEffect {run : Kernel → Exec Outcome}
    (h : ∀ k w' ret, run k = .ok (.reply w' ret) → k.openFifo = true) :
    ¬ RejectedWithoutEffect k w run := by
  intro h_rejected
  -- a host that opens nothing would have been asked to
  obtain ⟨w', ret, h_run, -⟩ := h_rejected false
  exact absurd (h _ w' ret h_run) (by simp)

/-- **Writes are not rejected.** In every reachable state, a FIFO_WRITE of a PU alone and a
WRITEFIFO of the other PU do what is asked of writes to ids that are not owned exactly when the id
is owned, so that nothing is asked. Otherwise the write goes to the local FIFO 0, or leaves the
table. -/
theorem write_rejected_iff (P : Platform) (p : Fin 8) (osPort : Int32) (es : List Event) (w : World)
    (h_reach : (osInstance P (puNumber p) osPort).Reaches es w) (n : Int32) :
    (P.smartc = false → ∀ k shmid length,
      (¬ Owned es n →
        RejectedWithoutEffect k w fun k => syscallFifoWrite P k w n shmid length) ↔ Owned es n) ∧
    (P.smartc = true → ∀ k length payload stale,
      (¬ Owned es n → RejectedWithoutEffect k w fun k =>
        serveDsm k w (dsmWriteHeader n length ++ (payload ++ 0 :: stale))) ↔ Owned es n) ∧
    (¬ Owned es n → ∀ k mem length,
      (∃ i : Slot, n = i.toInt32 ∧ writeLocalFifo k w n mem length
        = if k.openFifo then fifoWrite k w (fifoPath 0) mem length else .error .throw) ∨
      (n.toInt < 0 ∨ 4096 ≤ n.toInt) ∧ writeLocalFifo k w n mem length = .error .outOfBounds) := by
  have h_iff : ∀ {rejected : Prop}, ¬ rejected → ((¬ Owned es n → rejected) ↔ Owned es n) := by
    intro rejected h_not
    exact ⟨fun h => by_contra fun h_unowned => h_not (h h_unowned),
      fun h_owned h_unowned => absurd h_owned h_unowned⟩
  refine ⟨?_, ?_, ?_⟩
  · intro h_single k shmid length
    exact h_iff (not_rejectedWithoutEffect fun k w' ret h =>
      openFifo_of_syscallFifoWrite h_single h)
  · intro _ k length payload stale
    exact h_iff (not_rejectedWithoutEffect fun k w' ret h => openFifo_of_serveDsm h)
  · intro h_unowned k mem length
    exact writeLocalFifo_unowned (fifoHistory h_reach) h_unowned k w rfl mem length

/-- A registered client of PU 0, which owns no FIFO. -/
theorem exists_registered (P : Platform) :
    ∃ es w, (osInstance P (puNumber 0) 6000).Reaches es w ∧ (∀ n, ¬ Owned es n) ∧
      w.fifos (fifoPath 0) = [] ∧ (w.os.globalProcessList 1).shm
        = .attached (P.ftok (shmPath 1)) ∧ w.shm (P.ftok (shmPath 1)) = Buffer.zero 4096 := by
  obtain ⟨os, h_os⟩ := exists_globalOsInit 0 6000 (by decide)
  have h_start : (osInstance P (puNumber 0) 6000).Reaches [] (World.boot os) := Reaches.start h_os
  refine ⟨_, _, h_start.snoc (first_register_step P 7 h_os), ?_, rfl,
    World.registered_self P (World.boot os) 1 7, rfl⟩
  rintro n ⟨-, f, h_mem⟩
  exact absurd h_mem (by simp [fifoInits, Event.fifoInit?])

/-- The third part for an id that nobody owns, and both parts for a client that owns nothing. -/
theorem write_rejected_iff_one :
    (∃ es w, (osInstance ⟨false, fun _ => 0⟩ (puNumber 0) 6000).Reaches es w ∧
      ¬ (¬ Owned es 5 → RejectedWithoutEffect .nominal w fun k =>
        syscallFifoWrite ⟨false, fun _ => 0⟩ k w 5 1 3)) ∧
    ∃ es w, (osInstance ⟨true, fun _ => 0⟩ (puNumber 0) 6000).Reaches es w ∧
      ¬ (¬ Owned es 5 → RejectedWithoutEffect .nominal w fun k =>
        serveDsm k w (dsmWriteHeader 5 3 ++ (bytes "abc" ++ [0]))) := by
  obtain ⟨es, w, h_reach, h_unowned, -⟩ := exists_registered ⟨false, fun _ => 0⟩
  obtain ⟨es', w', h_reach', h_unowned', -⟩ := exists_registered ⟨true, fun _ => 0⟩
  refine ⟨⟨es, w, h_reach, ?_⟩, es', w', h_reach', ?_⟩
  · rw [(write_rejected_iff _ 0 6000 es w h_reach 5).1 rfl]
    exact h_unowned 5
  · rw [(write_rejected_iff _ 0 6000 es' w' h_reach' 5).2.1 rfl]
    exact h_unowned' 5

/-- A write of three bytes to the free id 5, on either path: they go to the local FIFO 0, and the
reply is 3. -/
theorem write_not_rejected :
    (∃ es w w', (osInstance ⟨false, fun _ => 0⟩ (puNumber 0) 6000).Reaches es w ∧ ¬ Owned es 5 ∧
      syscallFifoWrite ⟨false, fun _ => 0⟩ .nominal w 5 1 3 = .ok (.reply w' 3) ∧
      w.fifos (fifoPath 0) = [] ∧ w'.fifos (fifoPath 0) = [0, 0, 0] ∧
      ¬ RejectedWithoutEffect .nominal w fun k =>
        syscallFifoWrite ⟨false, fun _ => 0⟩ k w 5 1 3) ∧
    ∃ es w w', (osInstance ⟨true, fun _ => 0⟩ (puNumber 0) 6000).Reaches es w ∧ ¬ Owned es 5 ∧
      serveDsm .nominal w (dsmWriteHeader 5 3 ++ (bytes "abc" ++ [0])) = .ok (.reply w' 3) ∧
      w.fifos (fifoPath 0) = [] ∧ w'.fifos (fifoPath 0) = bytes "abc" ∧
      ¬ RejectedWithoutEffect .nominal w fun k =>
        serveDsm k w (dsmWriteHeader 5 3 ++ (bytes "abc" ++ [0])) := by
  constructor
  · obtain ⟨es, w, h_reach, h_unowned, h_empty, h_key, h_zero⟩ :=
      exists_registered ⟨false, fun _ => 0⟩
    obtain ⟨seg, h_poke⟩ := (w.shm 0).exists_poke (show 3 + [(0 : Byte)].length ≤ 4096 by decide)
    have h_run : syscallFifoWrite ⟨false, fun _ => 0⟩ .nominal w (Slot.toInt32 5)
        (Slot.toInt32 1) 3 = _ :=
      syscallFifoWrite_local h_key (by decide) h_poke (fun h => absurd h (by decide)) rfl rfl
    -- entry 5 is free, so the bytes go to the local FIFO 0
    have h_free := (fifoHistory h_reach).free (i := 5) fun f h_mem =>
      h_unowned 5 ⟨by decide, f, h_mem⟩
    rw [h_free] at h_run
    refine ⟨es, w, _, h_reach, h_unowned 5, h_run, h_empty, ?_, ?_⟩
    · rw [World.append_fifos, World.setSegment_fifos]
      refine (Function.update_self _ _ _).trans ?_
      rw [show freeFifo.localUuid = 0 from rfl, h_empty, List.nil_append]
      refine (Buffer.take_of_poke h_poke).trans ?_
      rw [h_zero]
      rfl
    · exact not_rejectedWithoutEffect fun k w' ret h => openFifo_of_syscallFifoWrite rfl h
  · obtain ⟨es, w, h_reach, h_unowned, h_empty, -⟩ := exists_registered ⟨true, fun _ => 0⟩
    have h_serve := dsmHandlers_write .nominal w 5 3 (bytes "abc") [] (by decide +kernel)
      (by decide +kernel)
    have h_free := (fifoHistory h_reach).free (i := 5) fun f h_mem =>
      h_unowned 5 ⟨by decide, f, h_mem⟩
    rw [if_pos (by decide +kernel), show (5 : Int32) = Slot.toInt32 5 from rfl,
      writeLocalFifo_of_open rfl, h_free,
      fifoWrite_of_complete rfl (by decide) (by decide) (by decide +kernel)] at h_serve
    refine ⟨es, w, _, h_reach, h_unowned 5, congrArg (· >>= _) h_serve, h_empty, ?_, ?_⟩
    · rw [World.append_fifos]
      refine (Function.update_self _ _ _).trans ?_
      rw [show freeFifo.localUuid = 0 from rfl, h_empty, List.nil_append]
      decide +kernel
    · exact not_rejectedWithoutEffect fun k w' ret h => openFifo_of_serveDsm h

end MoleculeOS
