import MoleculeOS.Codec
import MoleculeOS.Model.SmartComputer
import MoleculeOS.Remote

/-!
# One answered request

What the two PUs of a channel look like after the OS of one of them has answered a syscall, with the
exchange over the channel when the handler needs one (`Syscall.answer`).

The other PU keeps its tables and segments, whatever it was asked (`runTwoWayServer_frame`). What a
syscall may change of its own PU is said once, for all syscalls, in `Frame`: the process table is
changed by a registration only, a segment by a write only, and an id enters the uuid directory only
if the syscall returns it, and it is a new id or one from the directory of the other PU. The last
part rests on the exchange of a FIFO_CONNECT being exact: the uuid arrives, and the id that comes
back is what the other directory says (`runTwoWayServer_connect`).
-/

namespace MoleculeOS

open Stdio

variable {P : Platform} {k peerKernel : Kernel} {w w' peer peer' : World} {ret : Int32}

/-- A handler runs to its result, with the exchange it may need. -/
def Syscall.answer (P : Platform) (k peerKernel : Kernel) (w peer : World) (call : Syscall) :
    Exec (World × World × Int32) := do
  let out ← call.run P k w
  out.finish peerKernel peer

theorem handleRead_eq_ok {L L' : LoopState} {data : List Byte} {call : Syscall} :
    handleRead P k peerKernel L peer data = .ok (L', peer', call, ret) ↔
      ∃ L₁ w, L.receive k data = .ok (L₁, call) ∧
        call.answer P k peerKernel L₁.world peer = .ok (w, peer', ret) ∧
        L' = { L₁ with world := w } := by
  unfold handleRead Syscall.answer
  simp only [Exec.bind_eq_ok]
  constructor
  · rintro ⟨⟨L₁, call₁⟩, h_receive, out, h_run, ⟨w, p, r⟩, h_finish, h⟩
    obtain ⟨rfl, h_peer, h_call, h_ret⟩ :
        _ ∧ p = peer' ∧ call₁ = call ∧ r = ret := by simpa using Except.ok.inj h
    subst h_peer h_call h_ret
    exact ⟨L₁, w, h_receive, ⟨out, h_run, h_finish⟩, rfl⟩
  · rintro ⟨L₁, w, h_receive, ⟨out, h_run, h_finish⟩, rfl⟩
    exact ⟨(L₁, call), h_receive, out, h_run, (w, peer', ret), h_finish, rfl⟩

/-! ### The other PU -/

/-- Serving the other PU leaves tables and segments alone. -/
theorem runTwoWayServer_frame {msg resp : List Byte}
    (h : runTwoWayServer k w msg = .ok (w', resp)) : w'.os = w.os ∧ w'.shm = w.shm := by
  unfold runTwoWayServer at h
  simp only [Exec.bind_eq_ok] at h
  obtain ⟨buf, -, ⟨w₁, r⟩, h_serve, respBuf, -, h⟩ := h
  obtain ⟨rfl, -⟩ := Prod.mk.inj (Except.ok.inj h)
  -- the tables are not in the handlers' reach; of the memory they write local FIFOs only
  refine ⟨dsmHandlers_os h_serve, ?_⟩
  unfold dsmHandlers at h_serve
  simp only [Exec.bind_eq_ok] at h_serve
  obtain ⟨vars, -, last, -, -, -, h_serve⟩ := h_serve
  split at h_serve
  · obtain ⟨off, -, h_write⟩ := Exec.bind_eq_ok.mp h_serve
    obtain ⟨i, -, -, h_write⟩ := writeLocalFifo_cases h_write
    obtain ⟨-, -, -, h_world | ⟨data, h_world⟩, -⟩ := fifoWrite_cases h_write
    · rw [h_world]
    · rw [h_world, World.append_shm]
  · split at h_serve
    · exact congrArg World.shm (Prod.mk.inj (Except.ok.inj h_serve)).1.symm
    · exact congrArg World.shm (Prod.mk.inj (Except.ok.inj h_serve)).1.symm

/-- A syscall that is answered either needs no exchange, or its message is served and the answer
taken. -/
theorem Syscall.answer_cases {call : Syscall}
    (h : call.answer P k peerKernel w peer = .ok (w', peer', ret)) :
    (call.run P k w = .ok (.reply w' ret) ∧ peer' = peer) ∨
      ∃ w₁ msg resume resp, call.run P k w = .ok (.dsmCall w₁ msg resume) ∧
        runTwoWayServer peerKernel peer msg = .ok (peer', resp) ∧
        resume w₁ (dsmCallRet peerKernel resp) = .ok (w', ret) := by
  obtain ⟨out, h_run, h_finish⟩ := Exec.bind_eq_ok.mp h
  cases out with
  | reply w₁ r =>
    obtain ⟨rfl, h_rest⟩ := Prod.mk.inj (Except.ok.inj h_finish)
    obtain ⟨rfl, rfl⟩ := Prod.mk.inj h_rest
    exact Or.inl ⟨h_run, rfl⟩
  | dsmCall w₁ msg resume =>
    simp only [Outcome.finish, Exec.bind_eq_ok] at h_finish
    obtain ⟨⟨peer₁, resp⟩, h_serve, ⟨w₂, r⟩, h_resume, h_eq⟩ := h_finish
    obtain ⟨rfl, h_rest⟩ := Prod.mk.inj (Except.ok.inj h_eq)
    obtain ⟨rfl, rfl⟩ := Prod.mk.inj h_rest
    exact Or.inr ⟨w₁, msg, resume, resp, h_run, h_serve, h_resume⟩

theorem Syscall.served_of_answer {call : Syscall}
    (h : call.answer P k peerKernel w peer = .ok (w', peer', ret)) : Served P w call w' ret := by
  rcases Syscall.answer_cases h with ⟨h_run, -⟩ | ⟨w₁, msg, resume, resp, h_run, -, h_resume⟩
  · exact .reply h_run
  · exact .answered h_run _ h_resume

/-- The message of a FIFO_CONNECT. -/
def dsmConnectText (globalUuid : Int32) : List Byte :=
  sprintf dsmReqFormat [.int 0, .str (bytes "FIFOCONNECT"), .int globalUuid, .int 0, .int 0,
    .int 0, .int 0]

theorem length_dsmConnectText_le (globalUuid : Int32) :
    (dsmConnectText globalUuid).length ≤ 200 := by
  have h_conv : conversions dsmReqFormat = [.d, .s, .d, .d, .d, .d, .d] := by decide +kernel
  have h_lits : dsmReqFormat.countP Dir.isLit ≤ 100 := by decide +kernel
  have h_name : (bytes "FIFOCONNECT").length = 11 := by decide +kernel
  -- the length is that of the literals, of the name and of six numbers
  have h_match : Matches dsmReqFormat [.int 0, .str (bytes "FIFOCONNECT"), .int globalUuid,
      .int 0, .int 0, .int 0, .int 0] := by
    apply matches_conversions
    rw [h_conv]
    exact ⟨by decide +kernel, trivial⟩
  have h_zero := decInt_length_le (0 : Int32)
  have h_uuid := decInt_length_le globalUuid
  unfold dsmConnectText
  rw [length_sprintf h_match, h_conv]
  simp only [sprintf_d, sprintf_s, sprintf_nil, List.length_append, List.length_nil, h_name]
  omega

/-- FIFO_CONNECT of an unknown uuid, in the distributed build: the message is the filled buffer, the
OS is not changed while the other PU is asked, and every answer is taken. -/
theorem syscallFifoConnect_unknown (k : Kernel) {globalUuid : Int32} (ownerPid : Int32)
    (h_smartc : P.smartc = true) (h_none : w.os.fifoGuuidTable.htLookup globalUuid = none) :
    ∃ buffer resume, k.connectBuf.poke 0 (dsmConnectText globalUuid ++ [0]) = some buffer ∧
      syscallFifoConnect P k w globalUuid ownerPid = .ok (.dsmCall w buffer.data resume) ∧
      (w.os.fifoGuuidTable.WellFormed →
        ∀ answer, ∃ w' ret, resume w answer = .ok (w', ret)) := by
  have h_len := length_dsmConnectText_le globalUuid
  obtain ⟨buffer, h_poke⟩ := k.connectBuf.exists_poke
    (show 0 + (dsmConnectText globalUuid ++ [0]).length ≤ 256 by
      rw [List.length_append, List.length_singleton]; omega)
  have h_assert : assert ((dsmConnectText globalUuid).length < 256) = .ok () :=
    assert_of (by omega)
  -- the handler stops neither at its assertion nor at its buffer
  have h_ask : ∃ resume, syscallFifoConnect P k w globalUuid ownerPid
      = .ok (.dsmCall w buffer.data resume) ∧ (w.os.fifoGuuidTable.WellFormed →
        ∀ answer, ∃ w' ret, resume w answer = .ok (w', ret)) := by
    have h_filled := h_poke
    unfold dsmConnectText at h_assert h_filled
    unfold syscallFifoConnect
    simp only [h_none, h_smartc, if_true, h_assert, h_filled, Exec.ok_bind, access_some]
    refine ⟨_, rfl, fun h_wf answer => ?_⟩
    split
    · obtain ⟨table, code, h_insert, -⟩ := HashTable.htInsert_spec h_wf globalUuid answer
      rw [h_insert, Exec.ok_bind]
      exact ⟨_, _, rfl⟩
    · exact ⟨_, _, rfl⟩
  obtain ⟨resume, h_ask, h_resume⟩ := h_ask
  exact ⟨buffer, resume, h_poke, h_ask, h_resume⟩

/-- The response carries the result back. -/
theorem dsmCallRet_of_poke {buf buf' : Buffer 256}
    (h : buf.poke 0 (sprintf dsmRspFormat [.int ret] ++ [0]) = some buf') (k : Kernel) :
    dsmCallRet k buf'.data = ret := by
  have h_conv : conversions dsmRspFormat = [.d] := by decide
  have h_match : Matches dsmRspFormat [.int ret] := matches_conversions (by rw [h_conv]; trivial)
  have h_data := Buffer.drop_of_poke h
  rw [List.drop_zero, List.append_assoc] at h_data
  unfold dsmCallRet
  rw [h_data, sscanf_sprintf_self dsmRspFormat_delimited h_match]
  rfl

/-- **Serving a lookup.** The handler answers from its directory, whatever follows the request. -/
theorem dsmHandlers_connect (k : Kernel) (w : World) (globalUuid : Int32) (stale : List Byte) :
    dsmHandlers k w (dsmConnectText globalUuid ++ 0 :: stale) 4096
      = .ok (w, localFifoConnect w.os globalUuid) := by
  have h_len := length_dsmConnectText_le globalUuid
  -- the scan stops at the NUL behind the message, which has no payload
  have h_scan : k.dsmVars.scan (sscanf dsmReqFormatCallee 0
      (dsmConnectText globalUuid ++ 0 :: stale))
        = .ok ⟨0, bytes "FIFOCONNECT", globalUuid, 0, 0, 0, 0,
            Int32.ofInt ((dsmConnectText globalUuid).length + 0 : ℕ)⟩ :=
    scan_dsm (by decide +kernel) (by decide +kernel) globalUuid 0 [] stale _
  -- the offset of the payload stays within the request
  have h_off : (Int32.ofInt ((dsmConnectText globalUuid).length + 0 : ℕ)).toInt
      = (dsmConnectText globalUuid).length := Int32.toInt_ofInt_of_le (by omega) (by omega)
  have h_last : cint ((Int32.ofInt ((dsmConnectText globalUuid).length + 0 : ℕ)).toInt
      + (0 : Int32).toInt) = .ok (Int32.ofInt (dsmConnectText globalUuid).length) := by
    rw [h_off]
    exact cint_of (by simp) (by simp; omega)
  have h_last_val := cint_eq_ok h_last
  have h_write : bytes "FIFOCONNECT" ≠ bytes "WRITEFIFO" := by decide +kernel
  unfold dsmHandlers
  simp only [h_scan, Exec.ok_bind, h_last]
  rw [assert_of (by rw [h_last_val, h_off]; simp; omega), Exec.ok_bind, if_neg h_write,
    if_pos trivial]
  rfl

/-- **The exchange of a FIFO_CONNECT.** The other PU looks the uuid up in its directory, and what it
found arrives. -/
theorem runTwoWayServer_connect (peerKernel : Kernel) (peer : World) {globalUuid : Int32}
    {buffer : Buffer 256}
    (h_buffer : k.connectBuf.poke 0 (dsmConnectText globalUuid ++ [0]) = some buffer) :
    ∃ resp, runTwoWayServer peerKernel peer buffer.data = .ok (peer, resp) ∧
      dsmCallRet peerKernel resp = localFifoConnect peer.os globalUuid := by
  obtain ⟨buf, h_poke⟩ := peerKernel.dsmCallBuf.exists_poke
    (show 0 + buffer.data.length ≤ 4096 by rw [buffer.length_data]; omega)
  have h_data := Buffer.drop_of_poke h_poke
  have h_sent := Buffer.drop_of_poke h_buffer
  rw [List.drop_zero] at h_data h_sent
  obtain ⟨resp, h_resp⟩ := exists_poke_dsmResp peerKernel.dsmRespBuf
    (localFifoConnect peer.os globalUuid)
  -- behind the request come the rest of the sender's buffer and that of the receiver's
  have h_message : buf.data = dsmConnectText globalUuid ++ 0 ::
      (k.connectBuf.data.drop (0 + (dsmConnectText globalUuid ++ [0]).length)
        ++ peerKernel.dsmCallBuf.data.drop (0 + buffer.data.length)) := by
    rw [h_data, h_sent, List.append_assoc, List.append_assoc]
    rfl
  have h_serve := dsmHandlers_connect peerKernel peer globalUuid
    (k.connectBuf.data.drop (0 + (dsmConnectText globalUuid ++ [0]).length)
      ++ peerKernel.dsmCallBuf.data.drop (0 + buffer.data.length))
  rw [← h_message] at h_serve
  refine ⟨resp.data, ?_, dsmCallRet_of_poke h_resp peerKernel⟩
  unfold runTwoWayServer
  simp only [h_poke, access_some, Exec.ok_bind, h_serve, h_resp]
  rfl

/-- **An answered FIFO_CONNECT** returns what the directory has under the uuid, or else what the
other PU's directory has, which is entered into its own if it is positive. -/
theorem Syscall.answer_connect_cases {globalUuid ownerPid : Int32}
    (h : (Syscall.fifoConnect globalUuid ownerPid).answer P k peerKernel w peer
      = .ok (w', peer', ret)) :
    (w.os.fifoGuuidTable.htLookup globalUuid = some ret ∧ w' = w) ∨
      (w.os.fifoGuuidTable.htLookup globalUuid = none ∧ P.smartc = false ∧ w' = w ∧ ret = -1) ∨
      (w.os.fifoGuuidTable.htLookup globalUuid = none ∧ P.smartc = true ∧
        ret = localFifoConnect peer.os globalUuid ∧
        (ret.toInt ≤ 0 ∧ w' = w ∨ 0 < ret.toInt ∧ ∃ table code,
          w.os.fifoGuuidTable.htInsert globalUuid ret = .ok (table, code) ∧
          w' = { w with os := { w.os with fifoGuuidTable := table } })) := by
  rcases Syscall.answer_cases h with ⟨h_run, -⟩ | ⟨w₁, msg, resume, resp, h_run, h_serve, h_resume⟩
  · -- without an exchange: the uuid is known, or the build is not distributed
    change syscallFifoConnect P k w globalUuid ownerPid = _ at h_run
    rcases syscallFifoConnect_cases h_run with ⟨g, h_lookup, h_out⟩ | ⟨h_none, h_single, h_out⟩ |
      ⟨-, -, _, _, h_out, -⟩
    · obtain ⟨rfl, rfl⟩ := Outcome.reply.inj h_out
      exact Or.inl ⟨h_lookup, rfl⟩
    · obtain ⟨rfl, rfl⟩ := Outcome.reply.inj h_out
      exact Or.inr (Or.inl ⟨h_none, h_single, rfl, rfl⟩)
    · exact absurd h_out (by simp)
  · -- with one: the uuid is unknown here
    change syscallFifoConnect P k w globalUuid ownerPid = _ at h_run
    rcases syscallFifoConnect_cases h_run with ⟨g, -, h_out⟩ | ⟨-, -, h_out⟩ |
      ⟨h_none, h_smartc, msg', resume', h_out, h_then⟩
    · exact absurd h_out (by simp)
    · exact absurd h_out (by simp)
    · obtain ⟨rfl, rfl, rfl⟩ := Outcome.dsmCall.inj h_out
      -- the message is the buffer that the handler filled
      obtain ⟨buffer, resume'', h_poke, h_ask, -⟩ :=
        syscallFifoConnect_unknown k ownerPid h_smartc h_none
      obtain ⟨-, rfl, -⟩ := Outcome.dsmCall.inj (Except.ok.inj (h_ask.symm.trans h_run))
      obtain ⟨resp', h_serve', h_ret⟩ := runTwoWayServer_connect peerKernel peer h_poke
      obtain ⟨rfl, rfl⟩ := Prod.mk.inj (Except.ok.inj (h_serve'.symm.trans h_serve))
      obtain ⟨rfl, h_case⟩ := h_then _ _ _ _ h_resume
      exact Or.inr (Or.inr ⟨h_none, h_smartc, h_ret, h_case⟩)

/-- What the directory returns, unless it is the -1 for an unknown uuid, is in it. -/
theorem htLookup_of_localFifoConnect {os : GlobalOS} {globalUuid g : Int32}
    (h : g = localFifoConnect os globalUuid) (h_ne : g ≠ -1) :
    os.fifoGuuidTable.htLookup globalUuid = some g := by
  unfold localFifoConnect at h
  cases h_lookup : os.fifoGuuidTable.htLookup globalUuid with
  | none =>
    rw [h_lookup] at h
    exact absurd h h_ne
  | some g' =>
    rw [h, h_lookup]
    rfl

theorem stores_localFifoConnect (os : GlobalOS) (globalUuid : Int32) :
    localFifoConnect os globalUuid = -1 ∨
      os.fifoGuuidTable.Stores (localFifoConnect os globalUuid) := by
  by_cases h_minus : localFifoConnect os globalUuid = -1
  · exact Or.inl h_minus
  · exact Or.inr (HashTable.stores_of_htLookup (htLookup_of_localFifoConnect rfl h_minus))

/-- It returns -1, an id from the directory, or one from the directory of the other PU. -/
theorem Syscall.answer_connect {globalUuid ownerPid : Int32}
    (h : (Syscall.fifoConnect globalUuid ownerPid).answer P k peerKernel w peer
      = .ok (w', peer', ret)) :
    (w' = w ∧ (ret = -1 ∨ w.os.fifoGuuidTable.Stores ret ∨
        P.smartc = true ∧ peer.os.fifoGuuidTable.Stores ret)) ∨
      (P.smartc = true ∧ peer.os.fifoGuuidTable.Stores ret ∧ ∃ table code,
        w.os.fifoGuuidTable.htInsert globalUuid ret = .ok (table, code) ∧
        w' = { w with os := { w.os with fifoGuuidTable := table } }) := by
  rcases Syscall.answer_connect_cases h with ⟨h_lookup, rfl⟩ | ⟨-, -, rfl, rfl⟩ |
    ⟨-, h_smartc, rfl, ⟨-, rfl⟩ | ⟨h_pos, h_insert⟩⟩
  · exact Or.inl ⟨rfl, Or.inr (Or.inl (HashTable.stores_of_htLookup h_lookup))⟩
  · exact Or.inl ⟨rfl, Or.inl rfl⟩
  · refine Or.inl ⟨rfl, (stores_localFifoConnect peer.os globalUuid).imp id fun h_peer => ?_⟩
    exact Or.inr ⟨h_smartc, h_peer⟩
  · -- what is entered is positive, so the other directory had it
    refine Or.inr ⟨h_smartc, (stores_localFifoConnect peer.os globalUuid).resolve_left ?_, h_insert⟩
    intro h_minus
    rw [h_minus] at h_pos
    exact absurd h_pos (by decide)

/-! ### What a syscall may change -/

/-- **What an answered syscall leaves alone** on its own PU. -/
structure Frame (P : Platform) (w peer : World) (call : Syscall) (w' : World) (ret : Int32) :
    Prop where
  /-- Only a registration changes the process table. -/
  processes : (∀ localPid, call ≠ .registerSelfGlobal localPid) →
    w'.os.globalProcessList = w.os.globalProcessList ∧
      w'.os.globalProcessNow = w.os.globalProcessNow
  /-- Only a write changes segments and local FIFOs. -/
  memory : (∀ globalFifo shmid length, call ≠ .fifoWrite globalFifo shmid length) →
    w'.shm = w.shm ∧ w'.fifos = w.fifos
  /-- An id enters the directory only when it is returned, new or known to the other PU. -/
  directory : w.os.fifoGuuidTable.WellFormed → ∀ g, w'.os.fifoGuuidTable.Stores g →
    w.os.fifoGuuidTable.Stores g ∨ g = ret ∧
      ((0 ≤ ret.toInt ∧ ∃ localUuid ownerPid globalUuid,
          call = .fifoInit localUuid ownerPid globalUuid) ∨
        P.smartc = true ∧ peer.os.fifoGuuidTable.Stores g)

/-- An insertion adds no value but the inserted one. -/
theorem stores_of_htInsert {table table' : HashTable Int32 Int32} {key value g : Int32}
    {code : HtInsert} (h_wf : table.WellFormed)
    (h : table.htInsert key value = .ok (table', code)) (h_g : table'.Stores g) :
    g = value ∨ table.Stores g := by
  obtain ⟨t, c, h_ok, -, h_stores⟩ := HashTable.htInsert_spec h_wf key value
  obtain ⟨rfl, rfl⟩ := Prod.mk.inj (Except.ok.inj (h.symm.trans h_ok))
  exact h_stores g h_g

theorem Frame.of_os_eq {call : Syscall} (h_os : w'.os = w.os)
    (h_memory : (∀ globalFifo shmid length, call ≠ .fifoWrite globalFifo shmid length) →
      w'.shm = w.shm ∧ w'.fifos = w.fifos) : Frame P w peer call w' ret where
  processes _ := by rw [h_os]; exact ⟨rfl, rfl⟩
  memory := h_memory
  directory _ g h_g := by rw [h_os] at h_g; exact Or.inl h_g

theorem Syscall.answer_frame {call : Syscall}
    (h : call.answer P k peerKernel w peer = .ok (w', peer', ret)) :
    Frame P w peer call w' ret := by
  have h_served := Syscall.served_of_answer h
  cases call with
  | registerSelfGlobal localPid =>
    obtain ⟨k', h_run⟩ := h_served.of_reply fun _ => rfl
    obtain ⟨now, i, list, -, -, rfl, -⟩ := syscallRegisterGlobal_cases h_run
    exact ⟨fun h' => absurd rfl (h' _), fun _ => ⟨rfl, rfl⟩, fun _ g h_g => Or.inl h_g⟩
  | fifoInit localUuid ownerPid globalUuid =>
    obtain ⟨os', h_init, rfl⟩ := h_served.fifoInit
    obtain ⟨now, list, table, rfl, h_table⟩ := syscallFifoInit_cases h_init
    refine ⟨fun _ => ⟨rfl, rfl⟩, fun _ => ⟨rfl, rfl⟩, fun h_wf g h_g => ?_⟩
    -- a FIFO_INIT without a uuid enters nothing
    rcases h_table with ⟨rfl, -⟩ | ⟨-, h_nonneg, code, h_insert⟩
    · exact Or.inl h_g
    · exact (stores_of_htInsert h_wf h_insert h_g).symm.imp id
        fun h_eq => ⟨h_eq, Or.inl ⟨h_nonneg, _, _, _, rfl⟩⟩
  | fifoRead globalFifo shmid length =>
    obtain ⟨k', h_run⟩ := h_served.of_reply fun _ => rfl
    rw [syscallFifoRead_cases h_run]
    exact Frame.of_os_eq rfl fun _ => ⟨rfl, rfl⟩
  | fifoWrite globalFifo shmid length =>
    exact Frame.of_os_eq (os_fifoWrite h_served) fun h' => absurd rfl (h' _ _ _)
  | fifoConnect globalUuid ownerPid =>
    rcases Syscall.answer_connect h with ⟨rfl, -⟩ | ⟨h_smartc, h_peer, table, code, h_insert, rfl⟩
    · exact Frame.of_os_eq rfl fun _ => ⟨rfl, rfl⟩
    · refine ⟨fun _ => ⟨rfl, rfl⟩, fun _ => ⟨rfl, rfl⟩, fun h_wf g h_g => ?_⟩
      -- what is new came from the other PU
      refine (stores_of_htInsert h_wf h_insert h_g).symm.imp id fun h_eq => ⟨h_eq, Or.inr ?_⟩
      exact ⟨h_smartc, h_eq ▸ h_peer⟩
  | gspawn puId shmid argvLen envpLen =>
    obtain ⟨k', h_run⟩ := h_served.of_reply fun _ => rfl
    obtain ⟨spawned, rfl⟩ := syscallGspawn_cases h_run
    exact Frame.of_os_eq rfl fun _ => ⟨rfl, rfl⟩

/-- A write that is answered was made through a client's segment, which is all that changes in the
memory the PU shares with its clients. -/
theorem Syscall.answer_write {globalFifo shmid length : Int32}
    (h : (Syscall.fifoWrite globalFifo shmid length).answer P k peerKernel w peer
      = .ok (w', peer', ret)) :
    ∃ i key seg, slot shmid = .ok i ∧ (w.os.globalProcessList i).shm = .attached key ∧
      w'.shm = Function.update w.shm key seg := by
  rcases Syscall.answer_cases h with ⟨h_run, -⟩ | ⟨w₁, msg, resume, resp, h_run, -, h_resume⟩
  · obtain ⟨i, key, seg, h_i, h_key, -, -, h_case⟩ := syscallFifoWrite_cases h_run
    refine ⟨i, key, seg, h_i, h_key, ?_⟩
    rcases h_case with ⟨-, -, h_remote⟩ | ⟨-, w₁, n, h_local, h_out⟩
    · -- a write to a remote FIFO is no reply
      exact absurd (writeRemoteFifo_eq_ok.mp h_remote).2.2.2 (by simp)
    · obtain ⟨rfl, rfl⟩ := Outcome.reply.inj h_out
      obtain ⟨j, -, -, h_write⟩ := writeLocalFifo_cases h_local
      obtain ⟨-, -, -, h_world | ⟨data, h_world⟩, -⟩ := fifoWrite_cases h_write
      · rw [h_world]
        rfl
      · rw [h_world, World.append_shm]
        rfl
  · obtain ⟨i, key, seg, h_i, h_key, -, -, h_case⟩ := syscallFifoWrite_cases h_run
    refine ⟨i, key, seg, h_i, h_key, ?_⟩
    rcases h_case with ⟨-, -, h_remote⟩ | ⟨-, w₂, n, -, h_out⟩
    · obtain ⟨rfl, -, rfl⟩ := Outcome.dsmCall.inj (writeRemoteFifo_eq_ok.mp h_remote).2.2.2
      obtain ⟨rfl, -⟩ := Prod.mk.inj (Except.ok.inj h_resume)
      rfl
    · exact absurd h_out (by simp)

end MoleculeOS
