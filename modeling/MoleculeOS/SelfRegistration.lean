import MoleculeOS.Codec
import MoleculeOS.Model.Runtime

/-!
# A client that believes it is registered

`register_self_global` has four ways to fail, and looks at one of them. Without a connection
`connect_global_OS` returns 1, which is a descriptor like any other: the request is written to the
standard output, and the reply read from it. A pid of -1 is taken for a pid. An error pointer of
`shmat` passes the comparison meant for it, since no pointer is below null. Only a missing segment
ends the process.

So the function keeps its promise exactly if the connection is established and, whenever a segment
is found for the pid the OS returned, the pid is one and the segment can be attached
(`register_sound_iff`).
-/

namespace MoleculeOS

open Stdio

variable {P : Platform} {host : RegisterHost}

/-! ### The steps -/

theorem connectGlobalOS_of_established {fd : Int32} (h : host.established = some fd) :
    connectGlobalOS host = fd := by
  unfold RegisterHost.established at h
  split at h
  · next h_steps =>
    obtain ⟨h_socket, h_inetPton, h_connect⟩ := h_steps
    unfold connectGlobalOS
    rw [if_neg (by omega), if_neg (by omega), if_neg (by omega)]
    exact Option.some.inj h
  · exact absurd h (by simp)

/-- Without a connection, the standard output takes its place. -/
theorem connectGlobalOS_of_not_established (h : host.established = none) :
    connectGlobalOS host = 1 := by
  unfold RegisterHost.established at h
  -- each of the three failures returns the 1
  split at h
  · exact absurd h (by simp)
  · next h_steps =>
    unfold connectGlobalOS
    split
    · rfl
    split
    · rfl
    split
    · rfl
    · exact absurd ⟨by omega, by omega, by omega⟩ h_steps

/-- So the request goes there. -/
theorem registerSelfGlobal_sent (P : Platform) (h : host.established = none) :
    (registerSelfGlobal P host).sent = [(1, requestText registerSelfGlobalReq)] := by
  change [(connectGlobalOS host, requestText registerSelfGlobalReq)] = _
  rw [connectGlobalOS_of_not_established h]

theorem length_syscallResp_pos (ret : Int32) : 0 < (syscallResp ret).length := by
  have h_conv : conversions syscallRspFormat = [.d] := by decide
  have h_lits : syscallRspFormat.countP Dir.isLit = 6 := by decide
  have h_match : Matches syscallRspFormat [.int ret] :=
    matches_conversions (by rw [h_conv]; trivial)
  unfold syscallResp
  rw [length_sprintf h_match, h_lits]
  omega

/-- The request on an established connection returns the pid that the OS answers. -/
theorem invokeGlobalSyscall_result {fd : Int32} (h : host.established = some fd)
    (syscall : List Byte) : (invokeGlobalSyscall host fd syscall).result
      = match host.reply with
        | some pid => .ok pid
        | none => .error .assertion := by
  change (assert (0 < (host.read fd).length) >>= fun _ => pure (invokeRet (host.read fd) host.ret))
    = _
  unfold RegisterHost.read
  rw [if_pos h]
  cases host.reply with
  | none => rfl
  | some pid =>
    dsimp only
    rw [assert_of (length_syscallResp_pos pid), Exec.ok_bind, invokeRet_syscallResp]
    rfl

/-- **Registering over an established connection.** -/
theorem registerSelfGlobal_result {fd : Int32} (h : host.established = some fd) :
    (registerSelfGlobal P host).result = match host.reply with
      | some pid =>
        if host.shmget.toInt < 0 then .error .throw
        else
          .ok (⟨fd, pid, pid, if host.shmat then .attached (P.ftok (shmPath pid)) else .failed⟩, 0)
      | none => .error .assertion := by
  have h_fd := connectGlobalOS_of_established h
  unfold registerSelfGlobal
  simp only [h_fd, invokeGlobalSyscall_result h]
  cases host.reply with
  | none => rfl
  | some pid => rfl

/-- On a host that finds a segment for a pid and for nothing else, and attaches it, the library
variables are those of the client model. -/
theorem registerSelfGlobal_attach {fd pid : Int32} (h : host.established = some fd)
    (h_reply : host.reply = some pid) (h_shmget : 0 ≤ host.shmget.toInt ↔ 0 ≤ pid.toInt)
    (h_shmat : host.shmat = true) : (registerSelfGlobal P host).result
      = (do
          let c ← registerSelfGlobalAttach P { Client.unregistered with globalOsId := fd } pid
          return (c, 0)) := by
  rw [registerSelfGlobal_result h, h_reply, h_shmat]
  unfold registerSelfGlobalAttach
  -- -1 has no segment, and the library throws
  by_cases h_pid : 0 ≤ pid.toInt
  · rw [if_pos h_pid]
    dsimp only
    rw [if_neg (by omega)]
    rfl
  · rw [if_neg h_pid]
    dsimp only
    rw [if_pos (by omega)]
    rfl

/-! ### What a return of 0 means -/

/-- The client is registered: it has the connection, the pid that the OS returned, and the segment
of that pid. -/
structure Client.RegisteredAt (P : Platform) (host : RegisterHost) (c : Client) : Prop where
  connection : host.established = some c.globalOsId
  pid : host.reply = some c.selfGlobalId
  pid_nonneg : 0 ≤ c.selfGlobalId.toInt
  segment : c.shmClientAddr = .attached (P.ftok (shmPath c.selfGlobalId))

/-- A return of 0 means that the client is registered; else the failure is reported, by another
result or by the end of the process, and no request has gone to a descriptor other than that of the
connection. -/
structure RegisterSound (P : Platform) (host : RegisterHost) : Prop where
  registered : ∀ c, (registerSelfGlobal P host).result = .ok (c, 0) → c.RegisteredAt P host
  reported : (∀ c, (registerSelfGlobal P host).result ≠ .ok (c, 0)) →
    ∀ x ∈ (registerSelfGlobal P host).sent, host.established = some x.1

/-- **Registered clients.** Whatever the host and the OS do: `register_self_global` keeps its
promise exactly if the connection is established and, when a segment is found for the pid that the
OS returned, the pid is not negative and the segment is attached. -/
theorem register_sound_iff (P : Platform) (host : RegisterHost) :
    RegisterSound P host ↔ host.established ≠ none ∧
      ∀ pid, host.reply = some pid → 0 ≤ host.shmget.toInt →
        0 ≤ pid.toInt ∧ host.shmat = true := by
  cases h_established : host.established with
  | none =>
    refine iff_of_false (fun h => ?_) fun h => h.1 rfl
    by_cases h_zero : ∃ c, (registerSelfGlobal P host).result = .ok (c, 0)
    · -- it returns 0 without a connection
      obtain ⟨c, h_c⟩ := h_zero
      have h_fd := (h.registered c h_c).connection
      rw [h_established] at h_fd
      exact absurd h_fd (by simp)
    · -- the request has gone to the standard output
      have h_fd := h.reported (fun c h_c => h_zero ⟨c, h_c⟩)
        (1, requestText registerSelfGlobalReq)
        (by rw [registerSelfGlobal_sent P h_established]; exact List.mem_cons_self)
      rw [h_established] at h_fd
      exact absurd h_fd (by simp)
  | some fd =>
    have h_result := registerSelfGlobal_result (P := P) h_established
    have h_fd := connectGlobalOS_of_established h_established
    refine ⟨fun h => ?_, ?_⟩
    · -- it returns 0 whatever the pid is and whatever `shmat` answers
      refine ⟨by simp, fun pid h_reply h_shmget => ?_⟩
      rw [h_reply] at h_result
      dsimp only at h_result
      rw [if_neg (by omega)] at h_result
      obtain ⟨-, -, h_pid, h_segment⟩ := h.registered _ h_result
      refine ⟨h_pid, ?_⟩
      by_contra h_shmat
      rw [if_neg h_shmat] at h_segment
      exact absurd h_segment (by simp)
    · rintro ⟨-, h_reply⟩
      refine ⟨fun c h_c => ?_, fun _ x h_x => ?_⟩
      · rw [h_result] at h_c
        cases h_pid : host.reply with
        | none =>
          rw [h_pid] at h_c
          exact absurd h_c (by simp)
        | some pid =>
          rw [h_pid] at h_c
          dsimp only at h_c
          split at h_c
          · exact absurd h_c (by simp)
          · next h_shmget =>
            obtain ⟨h_nonneg, h_shmat⟩ := h_reply pid h_pid (not_lt.mp h_shmget)
            obtain ⟨rfl, -⟩ := Prod.mk.inj (Except.ok.inj h_c)
            rw [h_shmat]
            exact ⟨h_established, h_pid, h_nonneg, rfl⟩
      · -- and the one request went to the connection
        obtain rfl := List.mem_singleton.mp h_x
        rw [h_established, h_fd]

/-- The OS cannot be reached, and the standard output is a terminal on which somebody types a
reply. -/
def unreachable : RegisterHost where
  socket := 3
  inetPton := 1
  connect := -1
  reply := none
  stray := bytes "ret: 0 "
  ret := 0
  shmget := 5
  shmat := true

/-- The client is told that it is registered, with the standard output for a connection. -/
theorem unreachable_not_sound :
    (registerSelfGlobal ⟨false, fun _ => 0⟩ unreachable).sent
        = [(1, requestText registerSelfGlobalReq)] ∧
      (registerSelfGlobal ⟨false, fun _ => 0⟩ unreachable).result
        = .ok (⟨1, 0, 0, .attached 0⟩, 0) ∧
      ¬ RegisterSound ⟨false, fun _ => 0⟩ unreachable := by
  have h_result : (registerSelfGlobal ⟨false, fun _ => 0⟩ unreachable).result
      = .ok (⟨1, 0, 0, .attached 0⟩, 0) := by decide +kernel
  refine ⟨registerSelfGlobal_sent _ (by decide), h_result, fun h => ?_⟩
  exact absurd (h.registered _ h_result).connection (by decide)

end MoleculeOS
