import MoleculeOS.Exchange
import MoleculeOS.HashMap

/-!
# The uuid directory

What an OS instance has stored under the uuids of FIFOs, read off the history of its requests
(`stores`): a FIFO_INIT that is granted stores its id, unless the uuid is -1, and a FIFO_CONNECT of
an unknown uuid stores the positive answer of the other PU. The hash table is that log
(`UuidDirectory`): a lookup finds the id that was stored last, and nothing for a uuid that was never
stored (`uuid_directory`).
-/

namespace MoleculeOS

open Stdio Transition System

variable {P : Platform} {puId osPort : Int32} {w w' : World} {es : List Event} {e : Event}

/-! ### The log -/

/-- The id that was stored last under a uuid. -/
def lastStored (log : List (Int32 × Int32)) (uuid : Int32) : Option Int32 := log.reverse.lookup uuid

@[simp] theorem lastStored_nil (uuid : Int32) : lastStored [] uuid = none := rfl

theorem lastStored_snoc (log : List (Int32 × Int32)) (uuid g : Int32) :
    lastStored (log ++ [(uuid, g)]) = Function.update (lastStored log) uuid (some g) := by
  funext u
  unfold lastStored
  rw [List.reverse_append, List.reverse_singleton, List.singleton_append, List.lookup_cons]
  by_cases h_u : u = uuid
  · rw [h_u, Function.update_self, beq_self_eq_true]
  · rw [Function.update_of_ne h_u, beq_eq_false_iff_ne.mpr h_u]

/-- What a FIFO_INIT stores, given its reply. -/
def FifoInit.store? (x : FifoInit × Int32) : Option (Int32 × Int32) :=
  if x.1.globalUuid ≠ -1 ∧ 0 ≤ x.2.toInt then some (x.1.globalUuid, x.2) else none

/-- What an event stores, given what was stored before: uuid and id. -/
def Event.store? (log : List (Int32 × Int32)) : Event → Option (Int32 × Int32)
  | .syscall (.fifoInit localUuid ownerPid globalUuid) ret =>
    FifoInit.store? (⟨localUuid, ownerPid, globalUuid⟩, ret)
  | .syscall (.fifoConnect globalUuid _) ret =>
    if lastStored log globalUuid = none ∧ 0 < ret.toInt then some (globalUuid, ret) else none
  | _ => none

/-- Everything a history has stored, in order. -/
def stores (es : List Event) : List (Int32 × Int32) :=
  es.foldl (fun log e => log ++ (e.store? log).toList) []

theorem stores_snoc (es : List Event) (e : Event) :
    stores (es ++ [e]) = stores es ++ (e.store? (stores es)).toList := by
  unfold stores
  rw [List.foldl_append]
  rfl

/-! ### The table is the log -/

/-- **The invariant of the directory.** -/
structure UuidDirectory (es : List Event) (os : GlobalOS) : Prop where
  wellFormed : os.fifoGuuidTable.WellFormed
  placed : os.fifoGuuidTable.Placed
  lookup : os.fifoGuuidTable.htLookup = lastStored (stores es)

theorem UuidDirectory.init {os : GlobalOS} (h : globalOsInit puId osPort = .ok os) :
    UuidDirectory [] os := by
  obtain ⟨port, now, -, -, rfl⟩ := globalOsInit_eq_ok.mp h
  -- there is room for 1024 entries, so reserving them does nothing
  have h_reserve : ((HashTable.htSetup 10240).htReserve 1024 : HashTable Int32 Int32)
      = HashTable.htSetup 10240 := if_neg (by decide)
  have h_table : (bootOs puId port now).fifoGuuidTable = HashTable.htSetup 10240 := h_reserve
  refine ⟨?_, ?_, ?_⟩
  · rw [h_table]
    exact HashTable.wellFormed_htSetup 10240
  · rw [h_table]
    exact HashTable.placed_htSetup 10240
  · rw [h_table]
    rfl

/-- An event that stores nothing and leaves the table alone. -/
theorem UuidDirectory.of_same {os os' : GlobalOS} (h : UuidDirectory es os)
    (h_event : e.store? (stores es) = none) (h_table : os'.fifoGuuidTable = os.fifoGuuidTable) :
    UuidDirectory (es ++ [e]) os' := by
  refine ⟨by rw [h_table]; exact h.wellFormed, by rw [h_table]; exact h.placed, ?_⟩
  rw [h_table, stores_snoc, h_event, h.lookup]
  exact congrArg lastStored (List.append_nil _).symm

/-- An event that stores an id, which is inserted into the table. -/
theorem UuidDirectory.of_insert {os os' : GlobalOS} {uuid g : Int32} {code : HtInsert}
    (h : UuidDirectory es os) (h_event : e.store? (stores es) = some (uuid, g))
    (h_insert : os.fifoGuuidTable.htInsert uuid g = .ok (os'.fifoGuuidTable, code)) :
    UuidDirectory (es ++ [e]) os' := by
  obtain ⟨h_wf, h_placed, h_lookup⟩ :=
    HashTable.htInsert_map HashTable.raw_injective h.wellFormed h.placed h_insert
  refine ⟨h_wf, h_placed, ?_⟩
  rw [h_lookup, stores_snoc, h_event, h.lookup]
  exact (lastStored_snoc _ _ _).symm

theorem UuidDirectory.step (h : UuidDirectory es w.os)
    (hstep : (osInstance P puId osPort).step w e w') : UuidDirectory (es ++ [e]) w'.os := by
  cases e with
  | dsm msg ret =>
    obtain ⟨k, h_dsm⟩ := hstep
    exact h.of_same rfl (by rw [dsmHandlers_os h_dsm])
  | syscall call ret =>
    have h_served : Served P w call w' ret := hstep
    cases call with
    | fifoInit localUuid ownerPid globalUuid =>
      obtain ⟨os', h_init, rfl⟩ := h_served.fifoInit
      obtain ⟨now, list, table, rfl, ⟨rfl, h_ret⟩ | ⟨h_uuid, h_nonneg, code, h_insert⟩⟩ :=
        syscallFifoInit_cases h_init
      · -- refused, or without a uuid
        refine h.of_same (if_neg ?_) rfl
        rintro ⟨h_uuid, h_nonneg⟩
        rcases h_ret with rfl | ⟨-, h_minus⟩
        · exact absurd (show 0 ≤ (-1 : Int32).toInt from h_nonneg) (by decide)
        · exact h_uuid h_minus
      · exact h.of_insert (if_pos ⟨h_uuid, h_nonneg⟩) h_insert
    | fifoConnect globalUuid ownerPid =>
      rcases h_served.fifoConnect with ⟨h_os, h_found⟩ |
        ⟨h_none, -, h_pos, table, code, h_insert, h_os⟩
      · -- answered from the directory, or with nothing to store
        refine h.of_same (if_neg ?_) (by rw [h_os])
        rw [← h.lookup]
        rintro ⟨h_none, h_pos⟩
        rcases h_found with h_some | ⟨-, h_le⟩
        · exact absurd (h_none.symm.trans h_some) (by simp)
        · omega
      · -- the id of the other PU is stored
        rw [h.lookup] at h_none
        have h_table : w.os.fifoGuuidTable.htInsert globalUuid ret
            = .ok (w'.os.fifoGuuidTable, code) := by
          rw [h_os]
          exact h_insert
        exact h.of_insert (if_pos ⟨h_none, h_pos⟩) h_table
    | registerSelfGlobal localPid =>
      obtain ⟨k, h_run⟩ := h_served.of_reply fun _ => rfl
      obtain ⟨now, i, list, -, -, rfl, -⟩ := syscallRegisterGlobal_cases h_run
      exact h.of_same rfl rfl
    | _ => exact h.of_same rfl (by rw [h_served.os_eq (by simp) (by simp) (by simp)])

theorem uuidDirectory (h : (osInstance P puId osPort).Reaches es w) : UuidDirectory es w.os := by
  refine System.Reaches.induction (P := fun es w => UuidDirectory es w.os) ?_ ?_ h
  · intro w h_init
    exact UuidDirectory.init h_init
  · intro es w e w' _ h_dir hstep
    exact h_dir.step hstep

/-! ### One PU alone -/

/-- What the granted FIFO_INITs of a history have stored, in order. -/
def initStores (es : List Event) : List (Int32 × Int32) := (fifoInits es).filterMap FifoInit.store?

theorem initStores_snoc (es : List Event) (e : Event) :
    initStores (es ++ [e])
      = initStores es ++ (e.fifoInit?.toList.filterMap FifoInit.store?) := by
  unfold initStores
  rw [fifoInits_snoc, List.filterMap_append]

/-- Without a second PU, nothing but FIFO_INIT stores. -/
theorem stores_eq_initStores (h_single : P.smartc = false)
    (h : (osInstance P puId osPort).Reaches es w) : stores es = initStores es := by
  refine System.Reaches.induction (P := fun es _ => stores es = initStores es) ?_ ?_ h
  · intro w _
    rfl
  · intro es w e w' h_reach ih hstep
    rw [stores_snoc, initStores_snoc, ih]
    refine congrArg (initStores es ++ ·) ?_
    rw [← ih]
    cases e with
    | dsm msg ret => rfl
    | syscall call ret =>
      have h_served : Served P w call w' ret := hstep
      cases call with
      | fifoInit localUuid ownerPid globalUuid =>
        change (FifoInit.store? (⟨localUuid, ownerPid, globalUuid⟩, ret)).toList
          = [(⟨localUuid, ownerPid, globalUuid⟩, ret)].filterMap FifoInit.store?
        exact (filterMap_snoc FifoInit.store? [] _).symm
      | fifoConnect globalUuid ownerPid =>
        -- an unknown uuid is answered with -1
        have h_dir := uuidDirectory h_reach
        have h_none : Event.store? (stores es) (.syscall (.fifoConnect globalUuid ownerPid) ret)
            = none := by
          refine if_neg ?_
          rw [← h_dir.lookup]
          rintro ⟨h_unknown, h_pos⟩
          rcases h_served.fifoConnect with ⟨-, h_found | ⟨-, h_le⟩⟩ | ⟨-, h_smartc, -⟩
          · exact absurd (h_unknown.symm.trans h_found) (by simp)
          · omega
          · exact absurd (h_single.symm.trans h_smartc) (by decide)
        rw [h_none]
        rfl
      | _ => rfl

/-! ### The directory -/

/-- **The uuid directory.** In every reachable state of an OS instance, the lookup of FIFO_CONNECT
and of the other PU's requests finds what was stored last under the uuid, and nothing if nothing
was; it changes nothing. On a PU alone, FIFO_CONNECT returns the id of the last granted FIFO_INIT
with the uuid, or -1. -/
theorem uuid_directory (P : Platform) (puId osPort : Int32) (es : List Event) (w : World)
    (h_reach : (osInstance P puId osPort).Reaches es w) :
    (∀ u, w.os.fifoGuuidTable.htLookup u = lastStored (stores es) u) ∧
    (∀ u, localFifoConnect w.os u = (lastStored (stores es) u).getD (-1)) ∧
    (∀ k u ownerPid g, lastStored (stores es) u = some g →
      syscallFifoConnect P k w u ownerPid = .ok (.reply w g)) ∧
    (∀ k u ownerPid, lastStored (stores es) u = none →
      (P.smartc = false ∧ syscallFifoConnect P k w u ownerPid = .ok (.reply w (-1))) ∨
      (P.smartc = true ∧
        ∃ msg resume, syscallFifoConnect P k w u ownerPid = .ok (.dsmCall w msg resume))) ∧
    (P.smartc = false → ∀ k u ownerPid, u ≠ -1 → syscallFifoConnect P k w u ownerPid
      = .ok (.reply w ((lastStored (initStores es) u).getD (-1)))) := by
  have h_lookup : ∀ u, w.os.fifoGuuidTable.htLookup u = lastStored (stores es) u :=
    fun u => congrFun (uuidDirectory h_reach).lookup u
  have h_known : ∀ k u ownerPid g, lastStored (stores es) u = some g →
      syscallFifoConnect P k w u ownerPid = .ok (.reply w g) := by
    intro k u ownerPid g h_g
    rw [← h_lookup] at h_g
    unfold syscallFifoConnect
    rw [h_g]
  have h_unknown : P.smartc = false → ∀ k u ownerPid, lastStored (stores es) u = none →
      syscallFifoConnect P k w u ownerPid = .ok (.reply w (-1)) := by
    intro h_single k u ownerPid h_none
    rw [← h_lookup] at h_none
    unfold syscallFifoConnect
    rw [h_none, h_single]
    rfl
  refine ⟨h_lookup, fun u => congrArg (·.getD (-1)) (h_lookup u), h_known, ?_, ?_⟩
  · intro k u ownerPid h_none
    cases h_smartc : P.smartc with
    | false => exact Or.inl ⟨rfl, h_unknown h_smartc k u ownerPid h_none⟩
    | true =>
      rw [← h_lookup] at h_none
      obtain ⟨buffer, resume, -, h_ask, -⟩ := syscallFifoConnect_unknown k ownerPid h_smartc h_none
      exact Or.inr ⟨rfl, _, _, h_ask⟩
  · intro h_single k u ownerPid _
    rw [← stores_eq_initStores h_single h_reach]
    cases h_stored : lastStored (stores es) u with
    | none => exact h_unknown h_single k u ownerPid h_stored
    | some g => exact h_known k u ownerPid g h_stored

/-- A uuid that one FIFO_INIT has stored. -/
theorem uuid_directory_one : ∃ es w, (osInstance ⟨false, fun _ => 0⟩ (puNumber 1) 6000).Reaches es w
    ∧ syscallFifoConnect ⟨false, fun _ => 0⟩ .nominal w 42 3 = .ok (.reply w 513) := by
  obtain ⟨os, h_os⟩ := exists_globalOsInit 1 6000 (by decide)
  obtain ⟨w, hstep⟩ := FifoHistory.exists_step (P := ⟨false, fun _ => 0⟩)
    (FifoHistory.init (w := World.boot os) h_os) ⟨7, 3, 42⟩ 6000
  have h_reach := (System.Reaches.start (s := World.boot os) h_os).snoc hstep
  refine ⟨_, w, h_reach, ?_⟩
  rw [(uuid_directory _ _ _ _ w h_reach).2.2.2.2 rfl .nominal 42 3 (by decide)]
  rfl

end MoleculeOS
