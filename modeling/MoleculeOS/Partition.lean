import MoleculeOS.FifoTable
import Mathlib.Data.Fin.Embedding

/-!
# The partition of global FIFO ids between PUs

Instances of the OS with different PU numbers, side by side. Ids are partitioned statically, 512
for each PU, and `is_global_fifo_local` tests the partition. `syscall_fifo_init` does not: its
cursor starts at the first id of the partition and runs through all 4096. The first FIFO_INIT takes
the *second* id of the partition, so the 512th one leaves it. Up to then ids of different instances
are different and the locality test finds exactly the creator (`partition_iff`); the 512th id is
local to no instance, and the next ones coincide with ids of another PU.
-/

namespace MoleculeOS

open Transition System

section Deployment

variable {ι : Type} [DecidableEq ι]

/-- OS instances side by side, with different PU numbers. -/
def deployment (P : Platform) (pu : ι ↪ Fin 8) (osPort : Int32) :
    System (ι → World) (ι × Event) :=
  System.family fun i => osInstance P (puNumber (pu i)) osPort

/-- A successful FIFO_INIT at instance `i` returned the id. -/
def Returned (es : List (ι × Event)) (i : ι) (globalFifo : Int32) : Prop :=
  globalFifo ≠ -1 ∧ ∃ f, (f, globalFifo) ∈ fifoInits (labelsAt i es)

/-- No id was returned by two instances, and each id is local to the instance that returned it and
to no other. -/
structure Partitioned (es : List (ι × Event)) (s : ι → World) : Prop where
  disjoint : ∀ i j globalFifo, Returned es i globalFifo → Returned es j globalFifo → i = j
  local_iff : ∀ i globalFifo, Returned es i globalFifo →
    ∀ j, isGlobalFifoLocal (s j).os globalFifo = .ok (decide (j = i))

/-! ### The locality test -/

/-- An id is in the partition of a PU. -/
def InPartition (p : Fin 8) (i : Slot) : Prop := 512 * p.val ≤ i.val ∧ i.val < 512 * (p.val + 1)

instance (p : Fin 8) (i : Slot) : Decidable (InPartition p i) := by
  unfold InPartition; infer_instance

/-- The locality test: the id is in the partition, and its entry belongs to the PU. -/
theorem isGlobalFifoLocal_eq {p : Fin 8} {os : GlobalOS} (h_pu : os.currentPuId = puNumber p)
    (i : Slot) : isGlobalFifoLocal os i.toInt32
      = .ok (decide (InPartition p i ∧ (os.globalFifoList i).puId = puNumber p)) := by
  have h_p := p.isLt
  have h_i := i.isLt
  have h_val := Slot.toInt_toInt32 i
  -- none of the arithmetic of the test overflows
  have h_bound : checkGlobalFifoBound i.toInt32 = .ok () :=
    if_pos ⟨by omega, by unfold globalFifoListSize; omega⟩
  have h_first : cint ((puNumber p).toInt * localFifoListSize)
      = .ok (Int32.ofInt (512 * p.val)) := by
    rw [toInt_puNumber, show (p.val : ℤ) * localFifoListSize = 512 * p.val from Int.mul_comm _ _]
    exact cint_of (by omega) (by omega)
  have h_next : cint ((puNumber p).toInt + 1) = .ok (Int32.ofInt (p.val + 1)) := by
    rw [toInt_puNumber]
    exact cint_of (by omega) (by omega)
  have h_next_val : (Int32.ofInt (p.val + 1)).toInt = p.val + 1 :=
    Int32.toInt_ofInt_of_le (by omega) (by omega)
  have h_last : cint ((Int32.ofInt (p.val + 1)).toInt * localFifoListSize)
      = .ok (Int32.ofInt (512 * (p.val + 1))) := by
    rw [h_next_val, show ((p.val : ℤ) + 1) * localFifoListSize = 512 * (p.val + 1) from
      Int.mul_comm _ _]
    exact cint_of (by omega) (by omega)
  have h_first_val : (Int32.ofInt (512 * (p.val : ℤ))).toInt = 512 * p.val :=
    Int32.toInt_ofInt_of_le (by omega) (by omega)
  have h_last_val : (Int32.ofInt (512 * ((p.val : ℤ) + 1))).toInt = 512 * (p.val + 1) :=
    Int32.toInt_ofInt_of_le (by omega) (by omega)
  unfold isGlobalFifoLocal InPartition
  simp only [h_bound, h_pu, h_first, Exec.ok_bind, h_first_val, h_val]
  by_cases h_low : (i.val : ℤ) < 512 * p.val
  · rw [if_pos h_low, decide_eq_false (by omega)]
    rfl
  · rw [if_neg h_low]
    simp only [h_next, h_last, Exec.ok_bind, h_last_val]
    by_cases h_high : 512 * ((p.val : ℤ) + 1) ≤ i.val
    · rw [if_pos h_high, decide_eq_false (by omega)]
      rfl
    · rw [if_neg h_high, slot_toInt32]
      have h_in : 512 * p.val ≤ i.val ∧ i.val < 512 * (p.val + 1) := by omega
      simp only [Exec.ok_bind, h_in, true_and]
      rfl

/-- The first 511 ids of a PU are in its partition, the 512th is not. -/
theorem inPartition_position {p : Fin 8} {n : ℕ} (hn : n ≤ 511) :
    InPartition p (Rotary.position (firstSlot p) (n + 1)) ↔ n + 1 ≤ 511 := by
  have h_p := p.isLt
  have h_val := Rotary.position_val (firstSlot p) (n + 1)
  change _ = (512 * p.val + (n + 1)) % 4096 at h_val
  unfold InPartition
  omega

/-- Partitions of different PUs have no id in common. -/
theorem InPartition.unique {p q : Fin 8} {i : Slot} (hp : InPartition p i)
    (hq : InPartition q i) : p = q := by
  unfold InPartition at hp hq
  exact Fin.ext (by omega)

/-! ### Ids of the deployment -/

variable {P : Platform} {pu : ι ↪ Fin 8} {osPort : Int32} {es : List (ι × Event)} {s : ι → World}

/-- Each instance has the history of its own events. -/
theorem deployment_history (h : (deployment P pu osPort).Reaches es s) (i : ι) :
    FifoHistory (pu i) (labelsAt i es) (s i) :=
  fifoHistory (Reaches.component h i)

/-- A returned id is that of a place in the instance's sequence of FIFO_INITs. -/
theorem Returned.exists_place (h : (deployment P pu osPort).Reaches es s) {i : ι}
    {globalFifo : Int32} (h_ret : Returned es i globalFifo) :
    ∃ n < (fifoInits (labelsAt i es)).length,
      globalFifo = Slot.toInt32 (Rotary.position (firstSlot (pu i)) (n + 1)) := by
  obtain ⟨h_ne, f, h_mem⟩ := h_ret
  obtain ⟨n, h_get⟩ := List.mem_iff_getElem?.mp h_mem
  have h_reply := (deployment_history h i).reply n f globalFifo h_get
  rw [(fifoInitReply_of_ne (h_reply ▸ h_ne)).2] at h_reply
  exact ⟨n, (List.getElem?_eq_some_iff.mp h_get).1, h_reply⟩

/-- While an instance has handled at most 511 FIFO_INITs, its ids are in its partition. -/
theorem Returned.inPartition (h : (deployment P pu osPort).Reaches es s) {i : ι}
    (h_few : (fifoInits (labelsAt i es)).length ≤ 511) {globalFifo : Int32}
    (h_ret : Returned es i globalFifo) :
    ∃ j : Slot, globalFifo = j.toInt32 ∧ InPartition (pu i) j := by
  obtain ⟨n, hn, rfl⟩ := h_ret.exists_place h
  exact ⟨_, rfl, (inPartition_position (by omega)).mpr (by omega)⟩

/-- The locality test at every instance, for an id in the partition of the one that returned it. -/
theorem Returned.isGlobalFifoLocal (h : (deployment P pu osPort).Reaches es s) {i : ι}
    {g : Slot} (h_ret : Returned es i g.toInt32) (h_in : InPartition (pu i) g) (j : ι) :
    MoleculeOS.isGlobalFifoLocal (s j).os g.toInt32 = .ok (decide (j = i)) := by
  -- at its creator the entry carries the creator's number; elsewhere the range test decides
  rw [isGlobalFifoLocal_eq (deployment_history h j).table.puId]
  refine congrArg Except.ok (decide_eq_decide.mpr ?_)
  constructor
  · rintro ⟨h_in', -⟩
    exact pu.injective (h_in'.unique h_in)
  · rintro rfl
    obtain ⟨-, f, h_mem⟩ := h_ret
    refine ⟨h_in, ?_⟩
    rw [(deployment_history h j).entry h_mem]
    rfl

/-- The 512th FIFO_INIT of an instance returns an id that is not local to it. -/
theorem exists_returned_not_local (h : (deployment P pu osPort).Reaches es s) {i : ι}
    (h_many : 512 ≤ (fifoInits (labelsAt i es)).length) :
    ∃ globalFifo, Returned es i globalFifo ∧
      MoleculeOS.isGlobalFifoLocal (s i).os globalFifo = .ok false := by
  obtain ⟨⟨f, ret⟩, h_get⟩ : ∃ e, (fifoInits (labelsAt i es))[511]? = some e :=
    ⟨_, List.getElem?_eq_getElem (by omega)⟩
  have h_reply := (deployment_history h i).reply 511 f ret h_get
  -- counted from 0: the cursor starts at the first id and moves before it allocates
  have h_slot : fifoInitReply (pu i) 511
      = Slot.toInt32 (Rotary.position (firstSlot (pu i)) (511 + 1)) := if_pos (by omega)
  refine ⟨ret, ⟨?_, f, List.mem_of_getElem? h_get⟩, ?_⟩
  · rw [h_reply, Ne, fifoInitReply_eq_neg_one]
    omega
  · rw [h_reply, h_slot, isGlobalFifoLocal_eq (deployment_history h i).table.puId]
    refine congrArg Except.ok (decide_eq_false ?_)
    rintro ⟨h_in, -⟩
    exact absurd ((inPartition_position le_rfl).mp h_in) (by omega)

/-- A run of any number of FIFO_INITs at one instance. -/
theorem exists_run_fifoInit (P : Platform) (pu : ι ↪ Fin 8) {osPort : Int32}
    (h_port : osPort.toInt < 2 ^ 31 - 8) (i : ι) (n : ℕ) :
    ∃ es s, (deployment P pu osPort).Reaches es s ∧ (fifoInits (labelsAt i es)).length = n ∧
      ∀ j ≠ i, labelsAt j es = [] := by
  induction n with
  | zero =>
    choose os h_os using fun j => exists_globalOsInit (pu j) osPort h_port
    exact ⟨[], fun j => World.boot (os j), Reaches.start h_os, rfl, fun _ _ => rfl⟩
  | succ n ih =>
    obtain ⟨es, s, h, h_len, h_other⟩ := ih
    obtain ⟨w, hstep⟩ := (deployment_history h i).exists_step (P := P) ⟨7, 1, -1⟩ osPort
    refine ⟨_, _, h.snoc (l := (i, _)) ⟨w, hstep, rfl⟩, ?_, ?_⟩
    · rw [labelsAt_snoc_self]
      unfold fifoInits at h_len ⊢
      rw [List.filterMap_append, List.length_append, h_len]
      rfl
    · intro j hj
      rw [labelsAt_snoc_of_ne (Ne.symm hj), h_other j hj]

end Deployment

/-- **The partition.** In every reachable state of OS instances with different PU numbers, ids are
partitioned exactly when no instance has handled more than 511 FIFO_INITs. -/
theorem partition_iff {ι : Type} [DecidableEq ι] (P : Platform) (pu : ι ↪ Fin 8) (osPort : Int32)
    (es : List (ι × Event)) (s : ι → World) (h_reach : (deployment P pu osPort).Reaches es s) :
    Partitioned es s ↔ ∀ i, (fifoInits (labelsAt i es)).length ≤ 511 := by
  constructor
  · intro h_part i
    by_contra h_many
    -- an instance with 512 FIFO_INITs has an id that is not local to it
    obtain ⟨globalFifo, h_ret, h_not⟩ := exists_returned_not_local h_reach
      (show 512 ≤ (fifoInits (labelsAt i es)).length by omega)
    have h_local := h_part.local_iff i globalFifo h_ret i
    rw [h_not, decide_eq_true rfl] at h_local
    exact absurd (Except.ok.inj h_local) (by decide)
  · intro h_few
    constructor
    · intro i j globalFifo h_i h_j
      obtain ⟨g, rfl, h_in⟩ := h_i.inPartition h_reach (h_few i)
      obtain ⟨g', h_eq, h_in'⟩ := h_j.inPartition h_reach (h_few j)
      rw [← Slot.toInt32_injective h_eq] at h_in'
      exact pu.injective (h_in.unique h_in')
    · intro i globalFifo h_i j
      obtain ⟨g, rfl, h_in⟩ := h_i.inPartition h_reach (h_few i)
      exact h_i.isGlobalFifoLocal h_reach h_in j

/-- Two PUs, the first of which has handled 511 FIFO_INITs. -/
theorem partition_iff_511 :
    ∃ es s, (deployment ⟨true, fun _ => 0⟩ (Fin.castLEEmb (by decide : 2 ≤ 8)) 6000).Reaches es s ∧
      (fifoInits (labelsAt 0 es)).length = 511 ∧ Partitioned es s := by
  obtain ⟨es, s, h, h_len, h_other⟩ := exists_run_fifoInit ⟨true, fun _ => 0⟩
    (Fin.castLEEmb (by decide : 2 ≤ 8)) (show (6000 : Int32).toInt < 2 ^ 31 - 8 by decide) 0 511
  refine ⟨es, s, h, h_len, (partition_iff _ _ _ es s h).mpr fun i => ?_⟩
  by_cases hi : i = 0
  · rw [hi, h_len]
  · rw [h_other i hi]
    exact Nat.zero_le _

/-- Two PUs, the first of which has handled 512 FIFO_INITs: its last id is local to neither. -/
theorem partition_fails_512 :
    ∃ es s, (deployment ⟨true, fun _ => 0⟩ (Fin.castLEEmb (by decide : 2 ≤ 8)) 6000).Reaches es s ∧
      (fifoInits (labelsAt 0 es)).length = 512 ∧ labelsAt 1 es = [] ∧ ¬ Partitioned es s := by
  obtain ⟨es, s, h, h_len, h_other⟩ := exists_run_fifoInit ⟨true, fun _ => 0⟩
    (Fin.castLEEmb (by decide : 2 ≤ 8)) (show (6000 : Int32).toInt < 2 ^ 31 - 8 by decide) 0 512
  refine ⟨es, s, h, h_len, h_other 1 (by decide), fun h_part => ?_⟩
  obtain ⟨globalFifo, h_ret, h_not⟩ := exists_returned_not_local h h_len.ge
  have h_local := h_part.local_iff 0 globalFifo h_ret 0
  rw [h_not, decide_eq_true rfl] at h_local
  exact absurd (Except.ok.inj h_local) (by decide)

end MoleculeOS
