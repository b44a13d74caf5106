import MoleculeOS.Handlers

/-!
# Writes to a FIFO of the other PU

`write_remote_fifo` sends a text header with the payload behind it, and `dsm_handlers` locates the
payload with the `%n` that follows the last blank of its format. That blank is a white-space
directive: it also takes the white space the payload starts with. So the payload is found where it
was put exactly when it does not start with white space (`dsm_decode_iff`).

The header is `dsmWriteHeader`; `scan_dsmMessage` says what a scan of a received message assigns,
whatever stale bytes follow it in the receive buffer.
-/

namespace MoleculeOS

open Stdio

/-- The payload starts with a white-space byte. -/
def startsWithBlank (payload : List Byte) : Bool := payload.head?.any isSpace

theorem takeWhile_isSpace_eq_nil {payload : List Byte} (h : startsWithBlank payload = false) :
    payload.takeWhile isSpace = [] := by
  cases payload with
  | nil => rfl
  | cons b payload =>
    have h_b : isSpace b = false := h
    exact List.takeWhile_cons_of_neg (by rw [h_b]; decide)

/-- The NUL behind the payload ends its leading white space at the latest. -/
theorem takeWhile_isSpace_append (payload rest : List Byte) :
    (payload ++ 0 :: rest).takeWhile isSpace = payload.takeWhile isSpace := by
  induction payload with
  | nil => rfl
  | cons b payload ih =>
    rw [List.cons_append, List.takeWhile_cons, List.takeWhile_cons, ih]

/-- The byte behind the leading white space of a payload is not white space; at the latest it is
the NUL. -/
theorem head_drop_takeWhile (payload rest : List Byte) :
    ∃ b bs, (payload ++ 0 :: rest).drop (payload.takeWhile isSpace).length = b :: bs ∧
      isSpace b = false := by
  induction payload with
  | nil => exact ⟨0, rest, rfl, by decide⟩
  | cons c payload ih =>
    by_cases hc : isSpace c = true
    · rw [List.takeWhile_cons_of_pos hc, List.length_cons, List.cons_append, List.drop_succ_cons]
      exact ih
    · rw [List.takeWhile_cons_of_neg hc]
      exact ⟨c, payload ++ 0 :: rest, rfl, by simpa using hc⟩

/-- No copy of a payload that starts with white space is found behind that white space. -/
theorem take_drop_ne {payload : List Byte} (h : startsWithBlank payload = true)
    (rest : List Byte) :
    ((payload ++ 0 :: rest).drop (payload.takeWhile isSpace).length).take payload.length
      ≠ payload := by
  obtain ⟨b, bs, h_drop, hb⟩ := head_drop_takeWhile payload rest
  rw [h_drop]
  -- the payload starts with white space, and what is found there does not
  cases payload with
  | nil => exact absurd h (by decide)
  | cons c payload =>
    have hc : isSpace c = true := h
    intro h_eq
    rw [List.length_cons, List.take_succ_cons] at h_eq
    rw [(List.cons.inj h_eq).1, hc] at hb
    exact absurd hb (by decide)

/-! ### The message -/

/-- The variables of `dsm_handlers` after it has scanned a message with this payload. -/
def writeVars (globalFifo length : Int32) (payload : List Byte) : DsmVars where
  clientId := 0
  funcName := bytes "WRITEFIFO"
  funcArgs1 := globalFifo
  funcArgs2 := 0
  funcArgs3 := 0
  funcArgs4 := 0
  bufLen := length
  bufOffset := Int32.ofInt
    ((dsmWriteHeader globalFifo length).length + (payload.takeWhile isSpace).length : ℕ)

/-- Scanning a message of the other PU, with a NUL behind its payload: the variables are assigned
from the header alone, but for the offset. -/
theorem scan_dsm {name : List Byte} (h_word : IsWord name) (h_len : name.length < 256)
    (args1 length : Int32) (payload stale : List Byte) (old : DsmVars) :
    old.scan (sscanf dsmReqFormatCallee 0
      (sprintf dsmReqFormat [.int 0, .str name, .int args1, .int 0, .int 0, .int 0, .int length]
        ++ (payload ++ 0 :: stale)))
      = .ok ⟨0, name, args1, 0, 0, 0, length, Int32.ofInt
          ((sprintf dsmReqFormat [.int 0, .str name, .int args1, .int 0, .int 0, .int 0,
            .int length]).length + (payload.takeWhile isSpace).length : ℕ)⟩ := by
  have h_conv : conversions dsmReqFormat = [.d, .s, .d, .d, .d, .d, .d] := by decide +kernel
  have h_match : Matches dsmReqFormat [.int 0, .str name, .int args1, .int 0, .int 0, .int 0,
      .int length] := by
    apply matches_conversions
    rw [h_conv]
    exact ⟨h_word, trivial⟩
  -- the two formats differ in the `%n` at the end, which stores how far the scan has come
  rw [dsmReqFormatCallee_eq, sscanf_sprintf [.n] dsmReqFormat_delimited h_match,
    takeWhile_isSpace_append, Nat.zero_add]
  exact if_pos h_len

theorem scan_dsmMessage (globalFifo length : Int32) (payload stale : List Byte)
    (old : DsmVars) :
    old.scan (sscanf dsmReqFormatCallee 0
      (dsmWriteHeader globalFifo length ++ (payload ++ 0 :: stale)))
        = .ok (writeVars globalFifo length payload) :=
  scan_dsm (by decide +kernel) (by decide +kernel) globalFifo length
    payload stale old

/-! ### Decoding what was encoded -/

/-- A message received over the stale bytes of the receive buffer is read as a write of the payload
to the FIFO: name, id and length, and the payload at the offset. -/
def DecodesWrite (k : Kernel) (msg : List Byte) (globalFifo : Int32) (payload : List Byte) :
    Prop :=
  ∃ buf vars, k.dsmCallBuf.poke 0 msg = some buf ∧
    k.dsmVars.scan (sscanf dsmReqFormatCallee 0 buf.data) = .ok vars ∧
    vars.funcName = bytes "WRITEFIFO" ∧ vars.funcArgs1 = globalFifo ∧
    vars.bufLen.toInt = payload.length ∧ 0 ≤ vars.bufOffset.toInt ∧
    (buf.data.drop vars.bufOffset.toInt.toNat).take payload.length = payload

/-- The message of an accepted write fits the receive buffer, and the variables of `dsm_handlers`
are assigned from it alone. -/
theorem exists_poke_dsmMessage {globalFifo length : Int32} {payload : List Byte}
    (h_len : length.toInt = payload.length)
    (h_fits : (dsmWriteHeader globalFifo length).length + length.toInt < 4096) (k : Kernel) :
    ∃ buf stale, k.dsmCallBuf.poke 0 (dsmWriteHeader globalFifo length ++ payload ++ [0])
        = some buf ∧
      buf.data = dsmWriteHeader globalFifo length ++ (payload ++ 0 :: stale) ∧
      k.dsmVars.scan (sscanf dsmReqFormatCallee 0 buf.data)
        = .ok (writeVars globalFifo length payload) := by
  have h_msg : (dsmWriteHeader globalFifo length ++ payload ++ [0]).length
      = (dsmWriteHeader globalFifo length).length + payload.length + 1 := by
    rw [List.length_append, List.length_append, List.length_singleton]
  obtain ⟨buf, h_poke⟩ := k.dsmCallBuf.exists_poke
    (show 0 + (dsmWriteHeader globalFifo length ++ payload ++ [0]).length ≤ 4096 by omega)
  have h_data := Buffer.drop_of_poke h_poke
  rw [List.drop_zero, List.append_assoc, List.append_assoc, List.singleton_append] at h_data
  refine ⟨buf, _, h_poke, h_data, ?_⟩
  rw [h_data]
  exact scan_dsmMessage globalFifo length payload _ k.dsmVars

/-- The offset is the end of the header, moved over the payload's leading white space. -/
theorem toInt_bufOffset {globalFifo length : Int32} {payload : List Byte}
    (h_len : length.toInt = payload.length)
    (h_fits : (dsmWriteHeader globalFifo length).length + length.toInt < 4096) :
    (writeVars globalFifo length payload).bufOffset.toInt
      = ((dsmWriteHeader globalFifo length).length + (payload.takeWhile isSpace).length : ℕ) := by
  have h_blank := (List.takeWhile_sublist (p := isSpace) (l := payload)).length_le
  exact Int32.toInt_ofInt_of_le (by omega) (by omega)

/-- **Serving a write.** What is written starts behind the white space that the scan has skipped,
and must end before the 4096-th byte of the buffer. -/
theorem dsmHandlers_write (k : Kernel) (w : World) (globalFifo length : Int32)
    (payload stale : List Byte) (h_len : length.toInt = payload.length)
    (h_fits : (dsmWriteHeader globalFifo length).length + length.toInt < 4096) :
    dsmHandlers k w (dsmWriteHeader globalFifo length ++ (payload ++ 0 :: stale)) 4096
      = if (dsmWriteHeader globalFifo length).length + (payload.takeWhile isSpace).length
            + payload.length < 4096 then
          writeLocalFifo k w globalFifo
            ((payload ++ 0 :: stale).drop (payload.takeWhile isSpace).length) length
        else .error .assertion := by
  have h_off := toInt_bufOffset h_len h_fits
  have h_blank := (List.takeWhile_sublist (p := isSpace) (l := payload)).length_le
  have h_last : cint ((writeVars globalFifo length payload).bufOffset.toInt + length.toInt)
      = .ok (Int32.ofInt ((writeVars globalFifo length payload).bufOffset.toInt + length.toInt)) :=
    cint_of (by omega) (by omega)
  have h_last_val := cint_eq_ok h_last
  have h_name : (writeVars globalFifo length payload).funcName = bytes "WRITEFIFO" := rfl
  unfold dsmHandlers
  rw [scan_dsmMessage, Exec.ok_bind]
  change (cint ((writeVars globalFifo length payload).bufOffset.toInt + length.toInt) >>= _) = _
  rw [h_last, Exec.ok_bind, h_last_val, h_off]
  by_cases h_room : (dsmWriteHeader globalFifo length).length
      + (payload.takeWhile isSpace).length + payload.length < 4096
  · rw [assert_of (by omega), if_pos h_room, Exec.ok_bind, if_pos h_name,
      offset_of (by rw [h_off]; omega), h_off, Int.toNat_natCast, Exec.ok_bind,
      List.drop_length_add_append]
    rfl
  · -- the blanks push the end of the payload behind the buffer
    have h_assert : assert ((((dsmWriteHeader globalFifo length).length
        + (payload.takeWhile isSpace).length : ℕ) : ℤ) + length.toInt < 4096)
          = .error .assertion := if_neg (by omega)
    rw [h_assert, if_neg h_room]
    rfl

theorem decodesWrite_iff {globalFifo length : Int32} {payload : List Byte}
    (h_len : length.toInt = payload.length)
    (h_fits : (dsmWriteHeader globalFifo length).length + length.toInt < 4096) (k : Kernel) :
    DecodesWrite k (dsmWriteHeader globalFifo length ++ payload ++ [0]) globalFifo payload ↔
      startsWithBlank payload = false := by
  obtain ⟨buf, stale, h_poke, h_data, h_scan⟩ := exists_poke_dsmMessage h_len h_fits k
  have h_off := toInt_bufOffset h_len h_fits
  constructor
  · rintro ⟨buf', vars, h_poke', h_scan', -, -, -, -, h_payload⟩
    -- there is one buffer and one scan of it
    obtain rfl := Option.some.inj (h_poke.symm.trans h_poke')
    obtain rfl := Except.ok.inj (h_scan.symm.trans h_scan')
    rw [h_off, Int.toNat_natCast, h_data, List.drop_length_add_append] at h_payload
    by_contra h_blank
    exact take_drop_ne (by simpa using h_blank) stale h_payload
  · intro h_blank
    refine ⟨buf, _, h_poke, h_scan, rfl, rfl, h_len, by rw [h_off]; omega, ?_⟩
    rw [h_off, Int.toNat_natCast, h_data, List.drop_length_add_append,
      takeWhile_isSpace_eq_nil h_blank, List.length_nil, List.drop_zero, List.take_left]

/-- **The DSM codec.** A message that `write_remote_fifo` built for a non-empty payload is decoded
to the function, the FIFO id, the length and the payload, whatever the receive buffer and the
variables held, exactly when the payload does not start with white space. -/
theorem dsm_decode_iff (w w' : World) (globalFifo length : Int32) (mem msg : List Byte)
    (resume : World → Int32 → Exec (World × Int32)) (k : Kernel) (h_pos : 0 < length.toInt)
    (h_accept : writeRemoteFifo w globalFifo mem length = .ok (.dsmCall w' msg resume)) :
    DecodesWrite k msg globalFifo (mem.take length.toInt.toNat) ↔
      startsWithBlank (mem.take length.toInt.toNat) = false := by
  obtain ⟨h_fits, -, h_le, h_out⟩ := writeRemoteFifo_eq_ok.mp h_accept
  obtain ⟨-, rfl, -⟩ := Outcome.dsmCall.inj h_out
  have h_len : length.toInt = (mem.take length.toInt.toNat).length := by
    rw [List.length_take, Nat.min_eq_left h_le]
    omega
  exact decodesWrite_iff h_len h_fits k

theorem dsm_decode_iff_letter :
    DecodesWrite Kernel.nominal (dsmWriteHeader 512 1 ++ bytes "d" ++ [0]) 512 (bytes "d") ↔
      startsWithBlank (bytes "d") = false :=
  dsm_decode_iff (World.boot (bootOs 0 0 0)) (World.boot (bootOs 0 0 0)) 512 1 (bytes "d") _ _
    Kernel.nominal (by decide)
    (writeRemoteFifo_eq_ok.mpr ⟨by decide +kernel, by decide, by decide, rfl⟩)

/-- A payload of a blank and a letter is accepted, and decoded as something else. -/
theorem dsm_decode_blank :
    ∃ out, writeRemoteFifo (World.boot (bootOs 0 0 0)) 512 (bytes " d") 2 = .ok out ∧
      (∃ resume, out = .dsmCall (World.boot (bootOs 0 0 0))
        (dsmWriteHeader 512 2 ++ bytes " d" ++ [0]) resume) ∧
      ¬ DecodesWrite Kernel.nominal (dsmWriteHeader 512 2 ++ bytes " d" ++ [0]) 512
        (bytes " d") := by
  refine ⟨_, writeRemoteFifo_eq_ok.mpr ⟨by decide +kernel, by decide, by decide, rfl⟩,
    ⟨_, rfl⟩, ?_⟩
  rw [decodesWrite_iff (by decide) (by decide +kernel)]
  decide

end MoleculeOS
