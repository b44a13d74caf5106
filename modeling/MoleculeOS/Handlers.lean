import MoleculeOS.Model.SyscallLoop

/-!
# What each handler can do

One inversion lemma for each syscall handler: from a handler that returned, everything it did. The
results on tables, partitions and runs are derived from these lemmas and never unfold a handler.

`Served` puts them together: one syscall from the request to its result, with any answer the other
PU may give when the handler has to ask it.
-/

namespace MoleculeOS

open Stdio

variable {P : Platform} {k : Kernel} {w w' : World} {ret : Int32}

/-! ### Registration -/

/-- **Registration.** The cursor moves to the next entry. If the entry is taken, nothing else
changes; if the segment's file cannot be opened, the entry stays free; else it holds the process
and its segment. -/
theorem syscallRegisterGlobal_cases {localPid : Int32}
    (h : syscallRegisterGlobal P k w localPid = .ok (w', ret)) :
    ∃ now i list, nextSlot w.os.globalProcessNow globalProcessListSize = .ok now ∧
      slot now = .ok i ∧
      w' = { w with os := { w.os with globalProcessNow := now, globalProcessList := list } } ∧
      ((0 ≤ (w.os.globalProcessList i).localPid.toInt ∧ list = w.os.globalProcessList ∧
          ret = -1) ∨
        ((w.os.globalProcessList i).localPid.toInt < 0 ∧ k.fopen = false ∧ ret = -1 ∧
          list = Function.update w.os.globalProcessList i
            ⟨w.os.currentPuId, -1, now, (w.os.globalProcessList i).shm⟩) ∨
        ((w.os.globalProcessList i).localPid.toInt < 0 ∧ k.fopen = true ∧ k.shmget = true ∧
          ret = now ∧
          list = Function.update w.os.globalProcessList i ⟨w.os.currentPuId, localPid, now,
            if k.shmat then .attached (P.ftok (shmPath now)) else .failed⟩)) := by
  -- the branches of the source: entry free and file opened, file refused, entry taken
  unfold syscallRegisterGlobal at h
  simp only [Exec.bind_eq_ok] at h
  obtain ⟨now, h_now, i, h_i, h⟩ := h
  refine ⟨now, i, ?_⟩
  split at h
  · next h_free =>
    split at h
    · next h_fopen =>
      split at h
      · next h_shmget =>
        obtain ⟨rfl, rfl⟩ := Prod.mk.inj (Except.ok.inj h)
        exact ⟨_, h_now, h_i, rfl, Or.inr (Or.inr ⟨h_free, h_fopen, h_shmget, rfl, rfl⟩)⟩
      · -- without a segment the handler exits
        exact absurd h (by simp)
    · next h_fopen =>
      obtain ⟨rfl, rfl⟩ := Prod.mk.inj (Except.ok.inj h)
      exact ⟨_, h_now, h_i, rfl, Or.inr (Or.inl ⟨h_free, by simpa using h_fopen, rfl, rfl⟩)⟩
  · next h_taken =>
    obtain ⟨rfl, rfl⟩ := Prod.mk.inj (Except.ok.inj h)
    exact ⟨_, h_now, h_i, rfl, Or.inl ⟨not_lt.mp h_taken, rfl, rfl⟩⟩

/-! ### Writing -/

/-- A write to a local FIFO appends some bytes to it, or nothing; all of the payload if the host
completes the write. -/
theorem fifoWrite_cases {fd buf : List Byte} {len : Int32}
    (h : fifoWrite k w fd buf len = .ok (w', ret)) :
    0 < len.toInt ∧ len.toInt ≤ maxMsgLen ∧ len.toInt.toNat ≤ buf.length ∧
      (w' = w ∨ ∃ data, w' = w.append fd data) ∧
      (k.write = .complete → w' = w.append fd (buf.take len.toInt.toNat) ∧ ret = len) := by
  unfold fifoWrite at h
  simp only [Exec.bind_eq_ok, assert_eq_ok, offset_eq_ok, load_eq_ok] at h
  obtain ⟨-, h_pos, -, h_le, n, h_n, data, ⟨h_mem, rfl⟩, h⟩ := h
  obtain rfl : n = len.toInt.toNat := by omega
  refine ⟨h_pos, h_le, h_mem, ?_⟩
  -- what the host does with the write: all of it, a part, an error
  split at h
  · obtain ⟨rfl, rfl⟩ := Prod.mk.inj (Except.ok.inj h)
    exact ⟨Or.inr ⟨_, rfl⟩, fun _ => ⟨rfl, rfl⟩⟩
  · next h_write =>
    obtain ⟨rfl, rfl⟩ := Prod.mk.inj (Except.ok.inj h)
    exact ⟨Or.inr ⟨_, rfl⟩, fun h_complete => absurd (h_write.symm.trans h_complete) (by simp)⟩
  · next h_write =>
    obtain ⟨rfl, rfl⟩ := Prod.mk.inj (Except.ok.inj h)
    exact ⟨Or.inl rfl, fun h_complete => absurd (h_write.symm.trans h_complete) (by simp)⟩

/-- A write the host completes. -/
theorem fifoWrite_of_complete {fd buf : List Byte} {len : Int32} (h_write : k.write = .complete)
    (h_pos : 0 < len.toInt) (h_le : len.toInt ≤ maxMsgLen)
    (h_mem : len.toInt.toNat ≤ buf.length) :
    fifoWrite k w fd buf len = .ok (w.append fd (buf.take len.toInt.toNat), len) := by
  have h_load := load_eq_ok.mpr ⟨h_mem, rfl⟩
  unfold fifoWrite
  simp only [assert_of h_pos, assert_of h_le, offset_of h_pos.le, h_load, Exec.ok_bind, h_write]
  rfl

theorem writeLocalFifo_cases {globalFifo len : Int32} {mem : List Byte}
    (h : writeLocalFifo k w globalFifo mem len = .ok (w', ret)) :
    ∃ i, slot globalFifo = .ok i ∧ k.openFifo = true ∧
      fifoWrite k w (fifoPath (w.os.globalFifoList i).localUuid) mem len = .ok (w', ret) := by
  unfold writeLocalFifo at h
  simp only [Exec.bind_eq_ok] at h
  obtain ⟨i, h_i, fd, h_open, h_write⟩ := h
  unfold fifoConnect at h_open
  split at h_open
  · next h_openFifo =>
    obtain rfl := Except.ok.inj h_open
    exact ⟨i, h_i, h_openFifo, h_write⟩
  · exact absurd h_open (by simp)

theorem writeLocalFifo_of_open {i : Slot} {len : Int32} {mem : List Byte}
    (h_open : k.openFifo = true) :
    writeLocalFifo k w i.toInt32 mem len
      = fifoWrite k w (fifoPath (w.os.globalFifoList i).localUuid) mem len := by
  unfold writeLocalFifo fifoConnect
  simp only [slot_toInt32, h_open, if_true, Exec.ok_bind]

/-- What `write_remote_fifo` prints in front of the payload. -/
def dsmWriteHeader (globalFifo length : Int32) : List Byte :=
  sprintf dsmReqFormat [.int 0, .str (bytes "WRITEFIFO"), .int globalFifo, .int 0, .int 0, .int 0,
    .int length]

/-- `write_remote_fifo` accepts a payload exactly when header and payload take fewer than 4096
bytes; the message is the header, the payload and a NUL. -/
theorem writeRemoteFifo_eq_ok {w : World} {globalFifo length : Int32} {mem : List Byte}
    {out : Outcome} : writeRemoteFifo w globalFifo mem length = .ok out ↔
      (dsmWriteHeader globalFifo length).length + length.toInt < 4096 ∧ 0 ≤ length.toInt ∧
        length.toInt.toNat ≤ mem.length ∧
        out = .dsmCall w
          (dsmWriteHeader globalFifo length ++ mem.take length.toInt.toNat ++ [0])
          fun w _ => .ok (w, 0) := by
  have h_lo := length.le_toInt
  unfold writeRemoteFifo
  simp only [Exec.bind_eq_ok, assert_eq_ok, offset_eq_ok, load_eq_ok]
  constructor
  · rintro ⟨total, h_total, -, h_fits, n, h_n, data, ⟨h_le, rfl⟩, h_out⟩
    -- the source adds in `int`; the sum it compares is the true one
    rw [cint_eq_ok h_total] at h_fits
    obtain rfl : length.toInt.toNat = n := by omega
    exact ⟨h_fits, by omega, h_le, (Except.ok.inj h_out).symm⟩
  · rintro ⟨h_fits, h_nonneg, h_le, rfl⟩
    have h_total := cint_of (z := (dsmWriteHeader globalFifo length).length + length.toInt)
      (by omega) (by omega)
    refine ⟨_, h_total, (), ?_, _, (Int.toNat_of_nonneg h_nonneg).symm, _, ⟨h_le, rfl⟩, rfl⟩
    rw [cint_eq_ok h_total]
    exact h_fits

/-- **FIFO_WRITE.** The caller's segment gets a NUL behind the payload. Then the payload is written
to the local FIFO of the entry, or sent to the other PU when the distributed build finds the FIFO
not to be its own. -/
theorem syscallFifoWrite_cases {globalFifo shmid length : Int32} {out : Outcome}
    (h : syscallFifoWrite P k w globalFifo shmid length = .ok out) :
    ∃ i key seg, slot shmid = .ok i ∧ (w.os.globalProcessList i).shm = .attached key ∧
      0 ≤ length.toInt ∧ (w.shm key).poke length.toInt.toNat [0] = some seg ∧
      ((P.smartc = true ∧ isGlobalFifoLocal w.os globalFifo = .ok false ∧
          writeRemoteFifo (w.setSegment key seg) globalFifo seg.data length = .ok out) ∨
        ((P.smartc = true → isGlobalFifoLocal w.os globalFifo = .ok true) ∧
          ∃ w' n, writeLocalFifo k (w.setSegment key seg) globalFifo seg.data length
            = .ok (w', n) ∧ out = .reply w' length)) := by
  unfold syscallFifoWrite at h
  simp only [Exec.bind_eq_ok, offset_eq_ok, access_eq_ok] at h
  obtain ⟨i, h_i, ⟨key, seg₀⟩, h_seg, n, h_n, seg, h_poke, h⟩ := h
  obtain ⟨h_key, rfl⟩ := World.segment_eq_ok.mp h_seg
  obtain rfl : n = length.toInt.toNat := by omega
  refine ⟨i, key, seg, h_i, h_key, by omega, h_poke, ?_⟩
  -- only the distributed build looks where the FIFO lives
  by_cases h_smartc : P.smartc = true
  · rw [if_pos h_smartc] at h
    obtain ⟨here, h_here, h⟩ := Exec.bind_eq_ok.mp h
    rw [World.setSegment_os] at h_here
    cases here with
    | false =>
      refine Or.inl ⟨h_smartc, h_here, ?_⟩
      simpa using h
    | true =>
      obtain ⟨⟨w', n⟩, h_write, h_out⟩ := Exec.bind_eq_ok.mp h
      exact Or.inr ⟨fun _ => h_here, w', n, h_write, (Except.ok.inj h_out).symm⟩
  · rw [if_neg h_smartc] at h
    obtain ⟨⟨w', n⟩, h_write, h_out⟩ := Exec.bind_eq_ok.mp h
    exact Or.inr ⟨fun h' => absurd h' h_smartc, w', n, h_write, (Except.ok.inj h_out).symm⟩

/-- FIFO_WRITE as an equation, once the caller's segment is found and takes the NUL. -/
theorem syscallFifoWrite_eq {globalFifo length key : Int32} {i : Slot} {seg : Buffer 4096}
    (h_shm : (w.os.globalProcessList i).shm = .attached key) (h_len : 0 ≤ length.toInt)
    (h_poke : (w.shm key).poke length.toInt.toNat [0] = some seg) :
    syscallFifoWrite P k w globalFifo i.toInt32 length = (do
      if P.smartc then
        let here ← isGlobalFifoLocal w.os globalFifo
        if !here then
          return ← writeRemoteFifo (w.setSegment key seg) globalFifo seg.data length
      let (w', _) ← writeLocalFifo k (w.setSegment key seg) globalFifo seg.data length
      return .reply w' length) := by
  have h_segment : w.segment (w.os.globalProcessList i).shm = .ok (key, w.shm key) :=
    World.segment_eq_ok.mpr ⟨h_shm, rfl⟩
  unfold syscallFifoWrite
  simp only [slot_toInt32, Exec.ok_bind, h_segment, offset_of h_len, h_poke, access_some,
    World.setSegment_os]

/-- FIFO_WRITE on the local path, when the host completes it. -/
theorem syscallFifoWrite_local {globalFifo i : Slot} {length key : Int32} {seg : Buffer 4096}
    (h_shm : (w.os.globalProcessList i).shm = .attached key) (h_pos : 0 < length.toInt)
    (h_poke : (w.shm key).poke length.toInt.toNat [0] = some seg)
    (h_local : P.smartc = true → isGlobalFifoLocal w.os globalFifo.toInt32 = .ok true)
    (h_open : k.openFifo = true) (h_write : k.write = .complete) :
    syscallFifoWrite P k w globalFifo.toInt32 i.toInt32 length
      = .ok (.reply ((w.setSegment key seg).append
          (fifoPath (w.os.globalFifoList globalFifo).localUuid)
          (seg.data.take length.toInt.toNat)) length) := by
  have h_fits := (Buffer.poke_eq_some.mp h_poke).1
  rw [List.length_singleton] at h_fits
  -- the NUL behind the payload fits, so the payload does
  have h_data : length.toInt.toNat ≤ seg.data.length := by rw [seg.length_data]; omega
  have h_run : writeLocalFifo k (w.setSegment key seg) globalFifo.toInt32 seg.data length
      = .ok ((w.setSegment key seg).append
          (fifoPath (w.os.globalFifoList globalFifo).localUuid)
          (seg.data.take length.toInt.toNat), length) := by
    rw [writeLocalFifo_of_open h_open, World.setSegment_os]
    exact fifoWrite_of_complete h_write h_pos (by unfold maxMsgLen; omega) h_data
  rw [syscallFifoWrite_eq h_shm h_pos.le h_poke]
  by_cases h_smartc : P.smartc = true
  · rw [if_pos h_smartc, h_local h_smartc, h_run]
    rfl
  · rw [if_neg h_smartc, h_run]
    rfl

/-- FIFO_WRITE on the remote path. -/
theorem syscallFifoWrite_remote {globalFifo length key : Int32} {i : Slot} {seg : Buffer 4096}
    (h_shm : (w.os.globalProcessList i).shm = .attached key) (h_len : 0 ≤ length.toInt)
    (h_poke : (w.shm key).poke length.toInt.toNat [0] = some seg) (h_smartc : P.smartc = true)
    (h_remote : isGlobalFifoLocal w.os globalFifo = .ok false) :
    syscallFifoWrite P k w globalFifo i.toInt32 length
      = writeRemoteFifo (w.setSegment key seg) globalFifo seg.data length := by
  rw [syscallFifoWrite_eq h_shm h_len h_poke, if_pos h_smartc, h_remote, Exec.ok_bind]
  cases writeRemoteFifo (w.setSegment key seg) globalFifo seg.data length <;> rfl

/-! ### Allocating -/

/-- **FIFO_INIT.** The cursor moves to the next entry. The call is refused, or fills that entry and
returns it; then the uuid, unless it is -1, enters the directory. -/
theorem syscallFifoInit_cases {os os' : GlobalOS} {localUuid ownerPid globalUuid : Int32}
    (h : syscallFifoInit os localUuid ownerPid globalUuid = .ok (os', ret)) :
    ∃ now list table, os' = { os with
        globalFifoNow := now, globalFifoList := list, fifoGuuidTable := table } ∧
      ((table = os.fifoGuuidTable ∧ (ret = -1 ∨ 0 ≤ ret.toInt ∧ globalUuid = -1)) ∨
        (globalUuid ≠ -1 ∧ 0 ≤ ret.toInt ∧ ∃ code,
          os.fifoGuuidTable.htInsert globalUuid ret = .ok (table, code))) := by
  unfold syscallFifoInit at h
  simp only [Exec.bind_eq_ok] at h
  obtain ⟨now, -, i, h_i, h⟩ := h
  -- an entry's number is what the call returns
  have h_nonneg : 0 ≤ now.toInt := by
    rw [slot_eq_ok h_i, Slot.toInt_toInt32]
    omega
  split at h
  · split at h
    · next h_uuid =>
      obtain ⟨⟨table, code⟩, h_insert, h_eq⟩ := Exec.bind_eq_ok.mp h
      obtain ⟨rfl, rfl⟩ := Prod.mk.inj (Except.ok.inj h_eq)
      exact ⟨_, _, table, rfl, Or.inr ⟨h_uuid, h_nonneg, code, h_insert⟩⟩
    · next h_uuid =>
      obtain ⟨rfl, rfl⟩ := Prod.mk.inj (Except.ok.inj h)
      exact ⟨_, _, _, rfl, Or.inl ⟨rfl, Or.inr ⟨h_nonneg, not_not.mp h_uuid⟩⟩⟩
  · obtain ⟨rfl, rfl⟩ := Prod.mk.inj (Except.ok.inj h)
    exact ⟨_, _, _, rfl, Or.inl ⟨rfl, Or.inl rfl⟩⟩

/-! ### Reading, connecting, spawning -/

/-- FIFO_READ changes nothing: the client reads a local FIFO itself. -/
theorem syscallFifoRead_cases {globalFifo shmid length : Int32}
    (h : syscallFifoRead P w globalFifo shmid length = .ok (w', ret)) : w' = w := by
  unfold syscallFifoRead at h
  by_cases h_smartc : P.smartc = true
  · rw [if_pos h_smartc] at h
    obtain ⟨here, -, h⟩ := Exec.bind_eq_ok.mp h
    cases here <;> exact ((Prod.mk.inj (Except.ok.inj h)).1).symm
  · rw [if_neg h_smartc] at h
    exact ((Prod.mk.inj (Except.ok.inj h)).1).symm

/-- **FIFO_CONNECT.** A uuid of the directory is answered from it; for another one, the distributed
build asks the other PU and enters a positive answer into the directory. -/
theorem syscallFifoConnect_cases {globalUuid ownerPid : Int32} {out : Outcome}
    (h : syscallFifoConnect P k w globalUuid ownerPid = .ok out) :
    (∃ globalFifo, w.os.fifoGuuidTable.htLookup globalUuid = some globalFifo ∧
        out = .reply w globalFifo) ∨
      (w.os.fifoGuuidTable.htLookup globalUuid = none ∧ P.smartc = false ∧
        out = .reply w (-1)) ∨
      (w.os.fifoGuuidTable.htLookup globalUuid = none ∧ P.smartc = true ∧ ∃ msg resume,
        out = .dsmCall w msg resume ∧ ∀ w₁ answer w₂ r, resume w₁ answer = .ok (w₂, r) →
          r = answer ∧ ((answer.toInt ≤ 0 ∧ w₂ = w₁) ∨ (0 < answer.toInt ∧ ∃ table code,
            w₁.os.fifoGuuidTable.htInsert globalUuid answer = .ok (table, code) ∧
            w₂ = { w₁ with os := { w₁.os with fifoGuuidTable := table } }))) := by
  unfold syscallFifoConnect at h
  split at h
  · next globalFifo h_found =>
    exact Or.inl ⟨globalFifo, h_found, (Except.ok.inj h).symm⟩
  · next h_none =>
    split at h
    · next h_smartc =>
      simp only [Exec.bind_eq_ok] at h
      obtain ⟨-, -, buffer, -, h_out⟩ := h
      refine Or.inr (Or.inr ⟨h_none, h_smartc, buffer.data, _, (Except.ok.inj h_out).symm, ?_⟩)
      -- after the answer: 0 counts as a failure and is not entered
      intro w₁ answer w₂ r h_resume
      by_cases h_pos : 0 < answer.toInt
      · rw [if_pos h_pos] at h_resume
        obtain ⟨⟨table, code⟩, h_insert, h_ret⟩ := Exec.bind_eq_ok.mp h_resume
        obtain ⟨rfl, rfl⟩ := Prod.mk.inj (Except.ok.inj h_ret)
        exact ⟨rfl, Or.inr ⟨h_pos, table, code, h_insert, rfl⟩⟩
      · rw [if_neg h_pos] at h_resume
        obtain ⟨rfl, rfl⟩ := Prod.mk.inj (Except.ok.inj h_resume)
        exact ⟨rfl, Or.inl ⟨not_lt.mp h_pos, rfl⟩⟩
    · next h_smartc =>
      exact Or.inr (Or.inl ⟨h_none, by simpa using h_smartc, (Except.ok.inj h).symm⟩)

/-- GSPAWN changes nothing but the list of spawned programs. -/
theorem syscallGspawn_cases {puId shmid argvLen envpLen : Int32}
    (h : syscallGspawn P k w puId shmid argvLen envpLen = .ok (w', ret)) :
    ∃ spawned, w' = { w with spawned := spawned } := by
  unfold syscallGspawn at h
  simp only [Exec.bind_eq_ok] at h
  obtain ⟨i, -, ⟨key, seg⟩, -, path, -, -, -, -, -, ⟨argv, n⟩, -, ⟨envp, m⟩, -, -, -, h⟩ := h
  split at h
  · exact ⟨w.spawned, ((Prod.mk.inj (Except.ok.inj h)).1).symm⟩
  · exact ⟨_, ((Prod.mk.inj (Except.ok.inj h)).1).symm⟩

/-! ### One syscall from request to result -/

/-- A syscall runs to its result. When the handler asks the other PU, the answer is any number. -/
inductive Served (P : Platform) (w : World) (call : Syscall) : World → Int32 → Prop
  | reply {k : Kernel} {w' : World} {ret : Int32} (h : call.run P k w = .ok (.reply w' ret)) :
      Served P w call w' ret
  | answered {k : Kernel} {w₁ w' : World} {ret : Int32} {msg : List Byte}
      {resume : World → Int32 → Exec (World × Int32)}
      (h : call.run P k w = .ok (.dsmCall w₁ msg resume)) (answer : Int32)
      (h_resume : resume w₁ answer = .ok (w', ret)) : Served P w call w' ret

/-- A handler that never asks the other PU. -/
theorem Served.of_reply {call : Syscall} {x : Kernel → Exec (World × Int32)}
    (h : Served P w call w' ret)
    (h_run : ∀ k, call.run P k w = (do let (w, ret) ← x k; return .reply w ret)) :
    ∃ k, x k = .ok (w', ret) := by
  cases h with
  | @reply k _ _ h =>
    rw [h_run k] at h
    obtain ⟨⟨w₁, r⟩, h_ok, h_out⟩ := Exec.bind_eq_ok.mp h
    obtain ⟨rfl, rfl⟩ := Outcome.reply.inj (Except.ok.inj h_out)
    exact ⟨k, h_ok⟩
  | @answered k _ _ _ _ _ h =>
    -- its outcome is a reply
    rw [h_run k] at h
    obtain ⟨⟨w₁, r⟩, -, h_out⟩ := Exec.bind_eq_ok.mp h
    exact absurd (Except.ok.inj h_out) (by simp)

/-- FIFO_INIT never asks the other PU. -/
theorem Served.fifoInit {localUuid ownerPid globalUuid : Int32}
    (h : Served P w (.fifoInit localUuid ownerPid globalUuid) w' ret) :
    ∃ os', syscallFifoInit w.os localUuid ownerPid globalUuid = .ok (os', ret) ∧
      w' = { w with os := os' } := by
  obtain ⟨k, h_run⟩ := h.of_reply
    (x := fun _ => syscallFifoInit w.os localUuid ownerPid globalUuid >>=
      fun r => .ok ({ w with os := r.1 }, r.2)) fun k => by
        change (syscallFifoInit w.os localUuid ownerPid globalUuid >>= _) = _
        cases syscallFifoInit w.os localUuid ownerPid globalUuid <;> rfl
  obtain ⟨⟨os', r⟩, h_init, h_eq⟩ := Exec.bind_eq_ok.mp h_run
  obtain ⟨rfl, rfl⟩ := Prod.mk.inj (Except.ok.inj h_eq)
  exact ⟨os', h_init, rfl⟩

/-- The FIFO table, its cursor and the PU's number are the same; the directory is still sound. -/
structure SameFifoTable (os os' : GlobalOS) : Prop where
  puId : os'.currentPuId = os.currentPuId
  now : os'.globalFifoNow = os.globalFifoNow
  list : os'.globalFifoList = os.globalFifoList
  table : os.fifoGuuidTable.WellFormed → os'.fifoGuuidTable.WellFormed

theorem SameFifoTable.refl (os : GlobalOS) : SameFifoTable os os := ⟨rfl, rfl, rfl, id⟩

theorem SameFifoTable.of_eq {os os' : GlobalOS} (h : os' = os) : SameFifoTable os os' := by
  subst h
  exact SameFifoTable.refl os'

/-- The operations behind the write leave the OS alone. -/
theorem writeLocalFifo_os {globalFifo len : Int32} {mem : List Byte}
    (h : writeLocalFifo k w globalFifo mem len = .ok (w', ret)) : w'.os = w.os := by
  obtain ⟨i, -, -, h_write⟩ := writeLocalFifo_cases h
  obtain ⟨-, -, -, h_world | ⟨data, h_world⟩, -⟩ := fifoWrite_cases h_write
  · rw [h_world]
  · rw [h_world, World.append_os]

/-- FIFO_WRITE leaves the OS alone. -/
theorem os_fifoWrite {globalFifo shmid length : Int32}
    (h : Served P w (.fifoWrite globalFifo shmid length) w' ret) : w'.os = w.os := by
  cases h with
  | reply h =>
    obtain ⟨i, key, seg, -, -, -, -, h_case⟩ := syscallFifoWrite_cases h
    rcases h_case with ⟨-, -, h_remote⟩ | ⟨-, w₁, n, h_local, h_out⟩
    · -- the remote path has no result of its own
      exact absurd (writeRemoteFifo_eq_ok.mp h_remote).2.2.2 (by simp)
    · obtain ⟨rfl, rfl⟩ := Outcome.reply.inj h_out
      have h_os := writeLocalFifo_os h_local
      rwa [World.setSegment_os] at h_os
  | answered h answer h_resume =>
    obtain ⟨i, key, seg, -, -, -, -, h_case⟩ := syscallFifoWrite_cases h
    rcases h_case with ⟨-, -, h_remote⟩ | ⟨-, w₁, n, h_local, h_out⟩
    · -- the answer is ignored
      obtain ⟨rfl, -, rfl⟩ := Outcome.dsmCall.inj (writeRemoteFifo_eq_ok.mp h_remote).2.2.2
      obtain ⟨rfl, -⟩ := Prod.mk.inj (Except.ok.inj h_resume)
      rfl
    · exact absurd h_out (by simp)

/-- **FIFO_CONNECT** leaves the OS alone, or enters an unknown uuid into the directory with the
positive answer it returns. -/
theorem Served.fifoConnect {globalUuid ownerPid : Int32}
    (h : Served P w (.fifoConnect globalUuid ownerPid) w' ret) :
    (w'.os = w.os ∧ (w.os.fifoGuuidTable.htLookup globalUuid = some ret ∨
        w.os.fifoGuuidTable.htLookup globalUuid = none ∧ ret.toInt ≤ 0)) ∨
      (w.os.fifoGuuidTable.htLookup globalUuid = none ∧ P.smartc = true ∧ 0 < ret.toInt ∧
        ∃ table code, w.os.fifoGuuidTable.htInsert globalUuid ret = .ok (table, code) ∧
          w'.os = { w.os with fifoGuuidTable := table }) := by
  cases h with
  | reply h =>
    change syscallFifoConnect P _ w globalUuid ownerPid = _ at h
    rcases syscallFifoConnect_cases h with ⟨g, h_found, h_out⟩ | ⟨h_none, -, h_out⟩ |
      ⟨-, -, _, _, h_out, -⟩
    · obtain ⟨rfl, rfl⟩ := Outcome.reply.inj h_out
      exact Or.inl ⟨rfl, Or.inl h_found⟩
    · obtain ⟨rfl, rfl⟩ := Outcome.reply.inj h_out
      exact Or.inl ⟨rfl, Or.inr ⟨h_none, by decide⟩⟩
    · exact absurd h_out (by simp)
  | answered h answer h_resume =>
    change syscallFifoConnect P _ w globalUuid ownerPid = _ at h
    rcases syscallFifoConnect_cases h with ⟨g, -, h_out⟩ | ⟨-, -, h_out⟩ |
      ⟨h_none, h_smartc, msg, resume, h_out, h_then⟩
    · exact absurd h_out (by simp)
    · exact absurd h_out (by simp)
    · obtain ⟨rfl, rfl, rfl⟩ := Outcome.dsmCall.inj h_out
      obtain ⟨rfl, ⟨h_le, rfl⟩ | ⟨h_pos, table, code, h_insert, rfl⟩⟩ := h_then _ _ _ _ h_resume
      · exact Or.inl ⟨rfl, Or.inr ⟨h_none, h_le⟩⟩
      · exact Or.inr ⟨h_none, h_smartc, h_pos, table, code, h_insert, rfl⟩

/-- Reading, writing and spawning leave the OS alone. -/
theorem Served.os_eq {call : Syscall} (h : Served P w call w' ret)
    (h_register : ∀ localPid, call ≠ .registerSelfGlobal localPid)
    (h_init : ∀ localUuid ownerPid globalUuid, call ≠ .fifoInit localUuid ownerPid globalUuid)
    (h_connect : ∀ globalUuid ownerPid, call ≠ .fifoConnect globalUuid ownerPid) :
    w'.os = w.os := by
  cases call with
  | registerSelfGlobal localPid => exact absurd rfl (h_register _)
  | fifoInit localUuid ownerPid globalUuid => exact absurd rfl (h_init _ _ _)
  | fifoConnect globalUuid ownerPid => exact absurd rfl (h_connect _ _)
  | fifoRead globalFifo shmid length =>
    obtain ⟨k, h_run⟩ := h.of_reply fun _ => rfl
    rw [syscallFifoRead_cases h_run]
  | fifoWrite globalFifo shmid length => exact os_fifoWrite h
  | gspawn puId shmid argvLen envpLen =>
    obtain ⟨k, h_run⟩ := h.of_reply fun _ => rfl
    obtain ⟨spawned, rfl⟩ := syscallGspawn_cases h_run
    rfl

/-- **No syscall but a registration touches the process table.** -/
theorem Served.sameProcesses {call : Syscall} (h : Served P w call w' ret)
    (h_call : ∀ localPid, call ≠ .registerSelfGlobal localPid) :
    w'.os.globalProcessList = w.os.globalProcessList ∧
      w'.os.globalProcessNow = w.os.globalProcessNow := by
  cases call with
  | registerSelfGlobal localPid => exact absurd rfl (h_call localPid)
  | fifoInit localUuid ownerPid globalUuid =>
    obtain ⟨os', h_init, rfl⟩ := h.fifoInit
    obtain ⟨now, list, table, rfl, -⟩ := syscallFifoInit_cases h_init
    exact ⟨rfl, rfl⟩
  | fifoConnect globalUuid ownerPid =>
    rcases h.fifoConnect with ⟨h_os, -⟩ | ⟨-, -, -, table, code, -, h_os⟩
    · rw [h_os]
      exact ⟨rfl, rfl⟩
    · rw [h_os]
      exact ⟨rfl, rfl⟩
  | _ =>
    rw [h.os_eq (by simp) (by simp) (by simp)]
    exact ⟨rfl, rfl⟩

theorem sameFifoTable_fifoConnect {globalUuid ownerPid : Int32}
    (h : Served P w (.fifoConnect globalUuid ownerPid) w' ret) : SameFifoTable w.os w'.os := by
  rcases h.fifoConnect with ⟨h_os, -⟩ | ⟨-, -, -, table, code, h_insert, h_os⟩
  · exact SameFifoTable.of_eq h_os
  · rw [h_os]
    refine ⟨rfl, rfl, rfl, fun h_wf => ?_⟩
    obtain ⟨table', code', h_ok, h_wf', -⟩ := HashTable.htInsert_spec h_wf globalUuid ret
    obtain ⟨rfl, rfl⟩ := Prod.mk.inj (Except.ok.inj (h_insert.symm.trans h_ok))
    exact h_wf'

/-- **No syscall but FIFO_INIT touches the FIFO table.** -/
theorem Served.sameFifoTable {call : Syscall} (h : Served P w call w' ret)
    (h_call : ∀ localUuid ownerPid globalUuid, call ≠ .fifoInit localUuid ownerPid globalUuid) :
    SameFifoTable w.os w'.os := by
  cases call with
  | registerSelfGlobal localPid =>
    obtain ⟨k, h_run⟩ := h.of_reply fun _ => rfl
    obtain ⟨now, i, list, -, -, rfl, -⟩ := syscallRegisterGlobal_cases h_run
    exact ⟨rfl, rfl, rfl, id⟩
  | fifoInit localUuid ownerPid globalUuid => exact absurd rfl (h_call _ _ _)
  | fifoConnect globalUuid ownerPid => exact sameFifoTable_fifoConnect h
  | _ => exact SameFifoTable.of_eq (h.os_eq (by simp) (by simp) (by simp))

/-- **No request of the other PU touches the OS's tables.** -/
theorem dsmHandlers_os {dsmCallBuf : List Byte} {len : ℤ}
    (h : dsmHandlers k w dsmCallBuf len = .ok (w', ret)) : w'.os = w.os := by
  unfold dsmHandlers at h
  simp only [Exec.bind_eq_ok] at h
  obtain ⟨vars, -, last, -, -, -, h⟩ := h
  split at h
  · obtain ⟨off, -, h_write⟩ := Exec.bind_eq_ok.mp h
    exact writeLocalFifo_os h_write
  · split at h
    · exact congrArg World.os ((Prod.mk.inj (Except.ok.inj h)).1).symm
    · exact congrArg World.os ((Prod.mk.inj (Except.ok.inj h)).1).symm

end MoleculeOS
