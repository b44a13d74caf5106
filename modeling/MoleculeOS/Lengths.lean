import MoleculeOS.Availability

/-!
# Lengths at the boundaries

Two places where a length that one side checks meets a buffer of the other side.

A write: the library asks for `len ≤ 4096`, the OS stores a NUL behind the payload in a segment of
4096 bytes, and `write_remote_fifo` wants its header and the payload to stay below 4096. So the
length of the segment itself, which the library accepts, leaves the segment, and the last 65 lengths
or more are refused on the way to another PU: the header takes 63 characters and the digits of the
FIFO's id and of the length (`client_writes_admitted_iff`).

A message: `sprintf` into a buffer of the stack. All encoders have room for the longest numbers but
`global_fifo_read`, whose 64 bytes are used up by four numbers of more than 14 characters together
(`encoders_fit_iff`).
-/

namespace MoleculeOS

open Stdio

variable {P : Platform} {k : Kernel} {w : World}

/-! ### Accesses -/

namespace Exec

variable {α β : Type} {h : Halt}

@[simp] theorem pure_ne_error (a : α) : (pure a : Exec α) ≠ .error h := by
  intro h_eq
  cases h_eq

/-- A computation that stops in none of its parts does not stop. -/
theorem bind_ne_error {x : Exec α} {f : α → Exec β} (h_first : x ≠ .error h)
    (h_then : ∀ a, x = .ok a → f a ≠ .error h) : (x >>= f) ≠ .error h := by
  cases x with
  | error h' =>
    intro h_eq
    exact h_first (congrArg Except.error (Except.error.inj h_eq))
  | ok a => exact h_then a rfl

end Exec

theorem cint_ne_outOfBounds (z : ℤ) : cint z ≠ .error .outOfBounds := by
  unfold cint
  split <;> simp

theorem assert_ne_outOfBounds (c : Prop) [Decidable c] : assert c ≠ .error .outOfBounds := by
  unfold assert
  split <;> simp

/-- Looking where a FIFO lives touches the entry of its id only. -/
theorem isGlobalFifoLocal_ne_outOfBounds (os : GlobalOS) (g : Slot) :
    isGlobalFifoLocal os g.toInt32 ≠ .error .outOfBounds := by
  unfold isGlobalFifoLocal
  refine Exec.bind_ne_error (by unfold checkGlobalFifoBound; split <;> simp) fun _ _ => ?_
  refine Exec.bind_ne_error (cint_ne_outOfBounds _) fun first _ => ?_
  split
  · simp
  · -- the products may overflow, which is another way to stop
    refine Exec.bind_ne_error (cint_ne_outOfBounds _) fun nextPu _ => ?_
    refine Exec.bind_ne_error (cint_ne_outOfBounds _) fun last _ => ?_
    split
    · simp
    · rw [slot_toInt32, Exec.ok_bind]
      simp

/-- A write to a local FIFO reads the payload only. -/
theorem writeLocalFifo_ne_outOfBounds {g : Slot} {len : Int32} {mem : List Byte}
    (h_nonneg : 0 ≤ len.toInt) (h_mem : len.toInt.toNat ≤ mem.length) :
    writeLocalFifo k w g.toInt32 mem len ≠ .error .outOfBounds := by
  have h_load := load_eq_ok.mpr ⟨h_mem, rfl⟩
  unfold writeLocalFifo
  rw [slot_toInt32, Exec.ok_bind]
  refine Exec.bind_ne_error (by unfold fifoConnect; split <;> simp) fun fd _ => ?_
  unfold fifoWrite
  refine Exec.bind_ne_error (assert_ne_outOfBounds _) fun _ _ => ?_
  refine Exec.bind_ne_error (assert_ne_outOfBounds _) fun _ _ => ?_
  rw [offset_of h_nonneg, Exec.ok_bind, h_load, Exec.ok_bind]
  -- the `write` itself fails, if it does, with a result
  cases k.write <;> simp

theorem writeRemoteFifo_ne_outOfBounds {globalFifo len : Int32} {mem : List Byte}
    (h_nonneg : 0 ≤ len.toInt) (h_mem : len.toInt.toNat ≤ mem.length) :
    writeRemoteFifo w globalFifo mem len ≠ .error .outOfBounds := by
  have h_load := load_eq_ok.mpr ⟨h_mem, rfl⟩
  unfold writeRemoteFifo
  refine Exec.bind_ne_error (cint_ne_outOfBounds _) fun total _ => ?_
  refine Exec.bind_ne_error (assert_ne_outOfBounds _) fun _ _ => ?_
  rw [offset_of h_nonneg, Exec.ok_bind, h_load, Exec.ok_bind]
  simp

/-! ### Writes of the library -/

/-- The header in front of a payload: the literals, the name, four zeros, and two numbers. -/
theorem length_dsmWriteHeader (globalFifo len : Int32) :
    (dsmWriteHeader globalFifo len).length
      = 63 + (decInt globalFifo.toInt).length + (decInt len.toInt).length := by
  have h_conv : conversions dsmReqFormat = [.d, .s, .d, .d, .d, .d, .d] := by decide +kernel
  have h_lits : dsmReqFormat.countP Dir.isLit = 50 := by decide +kernel
  have h_name : (bytes "WRITEFIFO").length = 9 := by decide +kernel
  have h_zero : (decInt (0 : Int32).toInt).length = 1 := by decide +kernel
  have h_match : Matches dsmReqFormat [.int 0, .str (bytes "WRITEFIFO"), .int globalFifo, .int 0,
      .int 0, .int 0, .int len] := by
    apply matches_conversions
    rw [h_conv]
    exact ⟨by decide +kernel, trivial⟩
  unfold dsmWriteHeader
  rw [length_sprintf h_match, h_conv, h_lits]
  simp only [sprintf_d, sprintf_s, sprintf_nil, List.length_append, List.length_nil, h_name, h_zero]
  omega

/-- The OS admits a write that the library has admitted: it accesses the segment inside its bounds,
and the message of a write to another PU, with its NUL, fits the buffer of `write_remote_fifo`. -/
structure WriteAdmitted (P : Platform) (k : Kernel) {buf : List Byte} {len : Int32}
    (x : Writer w buf len) (globalFifo : Slot) : Prop where
  segment : syscallFifoWrite P k w globalFifo.toInt32 x.pid.toInt32 len ≠ .error .outOfBounds
  message : P.smartc = true → isGlobalFifoLocal w.os globalFifo.toInt32 = .ok false →
    ∃ w' msg resume, syscallFifoWrite P k w globalFifo.toInt32 x.pid.toInt32 len
      = .ok (.dsmCall w' msg resume) ∧ msg.length ≤ 4096

/-- The NUL behind a payload that fills the segment is stored outside of it. -/
theorem syscallFifoWrite_outOfBounds {buf : List Byte} {len : Int32} (x : Writer w buf len)
    (h_full : ¬ len.toInt < 4096) (globalFifo : Int32) :
    syscallFifoWrite P k w globalFifo x.pid.toInt32 len = .error .outOfBounds := by
  obtain ⟨-, h_nonneg, -, -⟩ := globalFifoWritePut_eq_ok.mp x.put
  have h_segment : w.segment (w.os.globalProcessList x.pid).shm = .ok (x.key, w.shm x.key) :=
    World.segment_eq_ok.mpr ⟨x.attached, rfl⟩
  have h_poke : (w.shm x.key).poke len.toInt.toNat [0] = none :=
    dif_neg (by rw [List.length_singleton]; omega)
  unfold syscallFifoWrite
  simp only [slot_toInt32, Exec.ok_bind, h_segment, offset_of h_nonneg, h_poke]
  rfl

/-- A payload that leaves room for the NUL is accessed inside the segment. -/
theorem syscallFifoWrite_ne_outOfBounds {buf : List Byte} {len : Int32} (x : Writer w buf len)
    (h_lt : len.toInt < 4096) (globalFifo : Slot) :
    syscallFifoWrite P k w globalFifo.toInt32 x.pid.toInt32 len ≠ .error .outOfBounds := by
  obtain ⟨-, h_nonneg, -, -⟩ := globalFifoWritePut_eq_ok.mp x.put
  obtain ⟨seg, h_poke, -⟩ := x.exists_poke h_lt
  -- the segment is longer than the payload
  have h_mem : len.toInt.toNat ≤ seg.data.length := by
    rw [seg.length_data]
    omega
  have h_local : (writeLocalFifo k (w.setSegment x.key seg) globalFifo.toInt32 seg.data len
      >>= fun r => Except.ok (Outcome.reply r.1 len)) ≠ .error .outOfBounds :=
    Exec.bind_ne_error (writeLocalFifo_ne_outOfBounds h_nonneg h_mem) fun r _ => by simp
  rw [syscallFifoWrite_eq x.attached h_nonneg h_poke]
  split
  · refine Exec.bind_ne_error (isGlobalFifoLocal_ne_outOfBounds _ _) fun here _ => ?_
    cases here with
    | false => exact writeRemoteFifo_ne_outOfBounds h_nonneg h_mem
    | true => exact h_local
  · exact h_local

/-- **Lengths of writes.** For every FIFO id, every payload and every positive length that the
library accepts: the OS admits the write exactly when it is shorter than the segment and, on the way
to another PU, the payload is below 4096 together with the header. -/
theorem client_writes_admitted_iff (P : Platform) (k : Kernel) {buf : List Byte} {len : Int32}
    (x : Writer w buf len) (globalFifo : Slot) (h_pos : 0 < len.toInt) :
    WriteAdmitted P k x globalFifo ↔ len.toInt < 4096 ∧
      (P.smartc = true → isGlobalFifoLocal w.os globalFifo.toInt32 = .ok false →
        63 + (decInt globalFifo.toInt32.toInt).length + (decInt len.toInt).length + len.toInt
          < 4096) := by
  have h_header := length_dsmWriteHeader globalFifo.toInt32 len
  constructor
  · rintro ⟨h_segment, h_message⟩
    have h_lt : len.toInt < 4096 := by
      by_contra h_full
      exact h_segment (syscallFifoWrite_outOfBounds x h_full _)
    refine ⟨h_lt, fun h_smartc h_remote => ?_⟩
    obtain ⟨seg, h_poke, -⟩ := x.exists_poke h_lt
    obtain ⟨w', msg, resume, h_run, -⟩ := h_message h_smartc h_remote
    rw [syscallFifoWrite_remote x.attached h_pos.le h_poke h_smartc h_remote] at h_run
    -- the assertion of `write_remote_fifo` leaves room for the NUL
    have h_fits := (writeRemoteFifo_eq_ok.mp h_run).1
    omega
  · rintro ⟨h_lt, h_fits⟩
    refine ⟨syscallFifoWrite_ne_outOfBounds x h_lt globalFifo, fun h_smartc h_remote => ?_⟩
    obtain ⟨seg, h_poke, -⟩ := x.exists_poke h_lt
    have h_mem : len.toInt.toNat ≤ seg.data.length := by
      rw [seg.length_data]
      omega
    have h_room := h_fits h_smartc h_remote
    refine ⟨_, _, _, (syscallFifoWrite_remote x.attached h_pos.le h_poke h_smartc h_remote).trans
      (writeRemoteFifo_eq_ok.mpr ⟨by omega, h_pos.le, h_mem, rfl⟩), ?_⟩
    -- header, payload and NUL
    rw [List.length_append, List.length_append, List.length_singleton, List.length_take]
    omega

/-- A short write to another PU is admitted. -/
theorem client_writes_admitted_short :
    WriteAdmitted ⟨true, fun _ => 0⟩ .nominal (letterWriter 1) 1 :=
  (client_writes_admitted_iff _ _ (letterWriter 1) 1 (by decide)).mpr
    ⟨by decide, fun _ _ => by decide +kernel⟩

/-- A segment full of its payload. -/
def fullSegment : Buffer 4096 := ⟨List.replicate 4096 100, List.length_replicate⟩

theorem put_fullSegment :
    globalFifoWritePut (Buffer.zero 4096) (List.replicate 4096 100) 4096 = .ok fullSegment := by
  have h_len : (4096 : Int32).toInt.toNat = 4096 := rfl
  refine globalFifoWritePut_eq_ok.mpr ⟨by decide, by decide, ?_, Buffer.poke_eq_some.mpr ?_⟩
  · rw [h_len, List.length_replicate]
  · rw [h_len, List.take_replicate, List.length_replicate]
    refine ⟨le_rfl, ?_⟩
    change List.replicate 4096 100 = [] ++ _ ++ (List.replicate 4096 0).drop (0 + 4096)
    rw [List.drop_replicate, List.nil_append]
    exact (List.append_nil _).symm

/-- A client has put it into its segment. -/
def fullWriter (p : Fin 8) :
    Writer { letterWorld p with shm := fun _ => fullSegment } (List.replicate 4096 100) 4096 where
  pid := (letterWriter p).pid
  key := 7
  attached := (letterWriter p).attached
  before := Buffer.zero 4096
  put := put_fullSegment

/-- The library accepts it, and the OS leaves the segment. -/
theorem full_write_not_admitted :
    (4096 : Int32).toInt ≤ 4096 ∧
      ¬ WriteAdmitted ⟨false, fun _ => 0⟩ .nominal (fullWriter 0) 1 := by
  refine ⟨by decide, fun h => h.segment ?_⟩
  exact syscallFifoWrite_outOfBounds (fullWriter 0) (show ¬ (4096 : Int32).toInt < 4096 by decide) _

/-! ### Messages in their buffers -/

/-- The size of the buffer that a library call prints its request into. -/
def LibCall.bufferSize : LibCall → ℕ
  | globalFifoRead _ _ => 64
  | _ => 256

/-- The places that print a message, with what they print. -/
inductive Encoder
  | request (c : Client) (call : LibCall)
  /-- `sys_resp` of the syscall loop. -/
  | syscallReply (ret : Int32)
  /-- `buffer` of `syscall_fifo_connect`. -/
  | dsmConnect (globalUuid : Int32)
  /-- `buffer` of `write_remote_fifo`, the payload apart. -/
  | dsmWrite (globalFifo length : Int32)
  /-- `dsm_resp_buf` of the DSM server. -/
  | dsmReply (ret : Int32)

namespace Encoder

/-- The size of the destination. -/
def size : Encoder → ℕ
  | request _ call => call.bufferSize
  | syscallReply _ => 256
  | dsmConnect _ => 256
  | dsmWrite _ _ => 4096
  | dsmReply _ => 256

def text : Encoder → List Byte
  | request c call => requestText (call.request c)
  | syscallReply ret => syscallResp ret
  | dsmConnect globalUuid => dsmConnectText globalUuid
  | dsmWrite globalFifo length => dsmWriteHeader globalFifo length
  | dsmReply ret => sprintf dsmRspFormat [.int ret]

/-- `sprintf` into the destination, NUL included. -/
def print (e : Encoder) (buffer : Buffer e.size) : Exec (Buffer e.size) :=
  access (buffer.poke 0 (e.text ++ [0]))

/-- The numbers of a FIFO_READ leave room for its 49 other characters and the NUL. -/
def ShortRead : Encoder → Prop
  | request c (.globalFifoRead globalFifo len) =>
    (decInt c.selfGlobalId.toInt).length + (decInt globalFifo.toInt).length
      + (decInt c.shmClientUuid.toInt).length + (decInt len.toInt).length ≤ 14
  | _ => True

theorem print_returns_iff (e : Encoder) (buffer : Buffer e.size) :
    (e.print buffer).Returns ↔ e.text.length < e.size := by
  constructor
  · rintro ⟨b, h_print⟩
    have h_fits := (Buffer.poke_eq_some.mp (access_eq_ok.mp h_print)).1
    rw [List.length_append, List.length_singleton] at h_fits
    omega
  · intro h_lt
    obtain ⟨b, h_poke⟩ := buffer.exists_poke
      (show 0 + (e.text ++ [0]).length ≤ e.size by
        rw [List.length_append, List.length_singleton]; omega)
    exact ⟨b, access_eq_ok.mpr h_poke⟩

end Encoder

/-- All texts but that of a FIFO_READ fit, whatever the numbers. -/
theorem Encoder.length_text_lt {e : Encoder}
    (h : ∀ c g len, e ≠ .request c (.globalFifoRead g len)) : e.text.length < e.size := by
  cases e with
  | request c call =>
    -- the longest name has 18 characters, and the rest of a request at most 94
    have h_all : ∀ name ∈ requestNames, name.length ≤ 18 := by decide +kernel
    have h_name := h_all _ (funcName_mem c call)
    have h_text := length_requestText_le (isWord_request c call).1
    have h_size : call.bufferSize = 256 := by
      cases call with
      | globalFifoRead g len => exact absurd rfl (h c g len)
      | _ => rfl
    change (requestText (call.request c)).length < call.bufferSize
    omega
  | syscallReply ret | dsmReply ret =>
    have h_text := length_syscallResp_le ret
    change (syscallResp ret).length < 256
    omega
  | dsmConnect globalUuid =>
    have h_text := length_dsmConnectText_le globalUuid
    change (dsmConnectText globalUuid).length < 256
    omega
  | dsmWrite globalFifo length =>
    have h_text := length_dsmWriteHeader globalFifo length
    have h_id := decInt_length_le globalFifo
    have h_length := decInt_length_le length
    change (dsmWriteHeader globalFifo length).length < 4096
    omega

/-- **Messages fit their buffers**, for all numbers that are printed, whatever the buffer held,
except that a FIFO_READ fits exactly when its four numbers are short. -/
theorem encoders_fit_iff (e : Encoder) (buffer : Buffer e.size) :
    (e.print buffer).Returns ↔ e.ShortRead := by
  rw [Encoder.print_returns_iff]
  by_cases h_read : ∃ c g len, e = .request c (.globalFifoRead g len)
  · obtain ⟨c, g, len, rfl⟩ := h_read
    have h_text := length_requestText (isWord_request c (.globalFifoRead g len)).1
    have h_name : (bytes "FIFO_READ").length = 9 := by decide +kernel
    have h_zero : (decInt (0 : Int32).toInt).length = 1 := by decide +kernel
    change (requestText (globalFifoReadReq c g len)).length < 64 ↔ _ ≤ 14
    change (requestText (globalFifoReadReq c g len)).length = 39 + _ + (bytes "FIFO_READ").length
      + _ + _ + _ + (decInt (0 : Int32).toInt).length at h_text
    rw [h_name, h_zero] at h_text
    rw [h_text]
    change 39 + (decInt c.selfGlobalId.toInt).length + 9 + (decInt g.toInt).length
      + (decInt c.shmClientUuid.toInt).length + (decInt len.toInt).length + 1 < 64 ↔ _
    omega
  · refine iff_of_true (Encoder.length_text_lt fun c g len h_eq => h_read ⟨c, g, len, h_eq⟩) ?_
    cases e with
    | request c call =>
      cases call with
      | globalFifoRead g len => exact absurd ⟨c, g, len, rfl⟩ h_read
      | _ => trivial
    | _ => trivial

/-- Process 1000 reads 100 bytes from FIFO 1000: 64 characters and a NUL. -/
theorem fifo_read_overflows :
    (Encoder.request ⟨3, 1000, 1000, .attached 0⟩ (.globalFifoRead 1000 100)).print (Buffer.zero 64)
      = .error .outOfBounds := by
  have h_none : (Buffer.zero 64).poke 0 ((Encoder.request ⟨3, 1000, 1000, .attached 0⟩
      (.globalFifoRead 1000 100)).text ++ [0]) = none := dif_neg (by decide +kernel)
  exact congrArg access h_none

end MoleculeOS
