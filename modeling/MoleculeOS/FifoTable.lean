import Mathlib.Data.List.Induction
import MoleculeOS.Handlers
import MoleculeOS.Library.Rotary
import MoleculeOS.Library.Transition

/-!
# Allocation of global FIFO ids

One OS instance over whole runs. Its FIFO table is a rotary table (`Rotary`): FIFO_INIT moves the
cursor to the next entry modulo 4096, takes the entry if it is free, and is refused otherwise; no
syscall gives an entry back. `HoldsTable p os t` says that the tables of `os` are those of the
rotary table `t`, and `syscallFifoInit_alloc` that a FIFO_INIT then is `Rotary.alloc`. `FifoTable p
os inits` is `HoldsTable` of the rotary table after the FIFO_INITs `inits`, which one more FIFO_INIT
leads on to (`syscallFifoInit_spec`). Since the rotary table is known in closed form, so are all
replies and all entries (`fifo_allocation`).

The insertion into the uuid directory has a part in this only by returning: the directory stays
well-formed, so it always does.
-/

namespace MoleculeOS

open Stdio Transition

variable {P : Platform} {p : Fin 8}

/-- The number of a PU. -/
def puNumber (p : Fin 8) : Int32 := Int32.ofInt p.val

@[simp] theorem toInt_puNumber (p : Fin 8) : (puNumber p).toInt = p.val := by
  have h := p.isLt
  exact Int32.toInt_ofInt_of_le (by omega) (by omega)

theorem puNumber_ne (p : Fin 8) : puNumber p ≠ -1 := by
  intro h
  have h_val := toInt_puNumber p
  rw [h] at h_val
  exact absurd h_val (by decide +revert)

/-- The first id of the partition of a PU, where its cursor starts. -/
def firstSlot (p : Fin 8) : Slot := ⟨512 * p.val, by omega⟩

/-- The arguments of a FIFO_INIT. -/
structure FifoInit where
  localUuid : Int32
  ownerPid : Int32
  globalUuid : Int32
  deriving DecidableEq, Repr

/-- The entry a FIFO_INIT fills. -/
def FifoInit.entry (f : FifoInit) (p : Fin 8) (i : Slot) : GlobalFifo where
  puId := puNumber p
  ownerPid := f.ownerPid
  localUuid := f.localUuid
  globalId := i.toInt32
  globalUuid := f.globalUuid
  perms := ⟨0x3, f.ownerPid⟩

/-! ### The table as a rotary table -/

/-- The FIFO table of `os` is the rotary table `t`. -/
structure HoldsTable (p : Fin 8) (os : GlobalOS) (t : Rotary 4096 FifoInit) : Prop where
  puId : os.currentPuId = puNumber p
  now : os.globalFifoNow = Slot.toInt32 t.cursor
  /-- An entry holds the FIFO_INIT that the rotary table has there, or is free. -/
  list : ∀ i, os.globalFifoList i = (t.slots i).elim freeFifo fun f => f.entry p i
  table : os.fifoGuuidTable.WellFormed

/-- **The invariant.** The FIFO table of `os` is the rotary table after the FIFO_INITs `inits`: the
cursor has moved by one entry for each, refused or not. -/
abbrev FifoTable (p : Fin 8) (os : GlobalOS) (inits : List FifoInit) : Prop :=
  HoldsTable p os (Rotary.after (firstSlot p) inits)

/-- A cursor that is not negative moves to an entry. -/
theorem nextSlot_of_nonneg {now : Int32} {i : Slot} (h_lo : 0 ≤ now.toInt)
    (h_hi : now.toInt < 2 ^ 31 - 1) (h_i : (i.val : ℤ) = (now.toInt + 1) % 4096) :
    nextSlot now 4096 = .ok i.toInt32 := by
  have h_lt := i.isLt
  have h_sum := cint_of (z := now.toInt + 1) (by omega) (by omega)
  -- `%` of C, of a number that is not negative
  have h_mod : (now.toInt + 1).tmod 4096 = (i.val : ℤ) := by
    rw [Int.tmod_eq_emod_of_nonneg (by omega), h_i]
  unfold nextSlot
  rw [h_sum, Exec.ok_bind, cint_eq_ok h_sum, h_mod, cint_of (by omega) (by omega)]
  rfl

theorem nextSlot_toInt32 (i : Slot) :
    nextSlot i.toInt32 4096 = .ok (Slot.toInt32 (Rotary.position i 1)) := by
  have h_lt := i.isLt
  have h_val := Slot.toInt_toInt32 i
  refine nextSlot_of_nonneg (by omega) (by omega) ?_
  rw [Rotary.position_val, h_val]
  omega

theorem FifoTable.init {osPort : Int32} {os : GlobalOS}
    (h : globalOsInit (puNumber p) osPort = .ok os) : FifoTable p os [] := by
  obtain ⟨port, now, -, h_now, rfl⟩ := globalOsInit_eq_ok.mp h
  refine ⟨rfl, ?_, fun i => rfl, ?_⟩
  · change now = Slot.toInt32 (Rotary.position (firstSlot p) 0)
    rw [Rotary.position_zero]
    apply Int32.toInt_inj.mp
    rw [cint_eq_ok h_now, toInt_puNumber, Slot.toInt_toInt32]
    change (p.val : ℤ) * 512 = ((512 * p.val : ℕ) : ℤ)
    omega
  · -- reserving 1024 entries of 10240 does nothing
    exact HashTable.wellFormed_htSetup 10240

/-- What the `n`-th FIFO_INIT of a PU returns, counted from 0. -/
def fifoInitReply (p : Fin 8) (n : ℕ) : Int32 :=
  if n < 4096 then Slot.toInt32 (Rotary.position (firstSlot p) (n + 1)) else -1

/-- FIFO_INIT allocates in the rotary table. It returns the slot it got, or -1. -/
theorem syscallFifoInit_alloc {os : GlobalOS} {t : Rotary 4096 FifoInit} (h : HoldsTable p os t)
    (f : FifoInit) :
    ∃ os', syscallFifoInit os f.localUuid f.ownerPid f.globalUuid
        = .ok (os', (t.alloc f).2.elim (-1) Slot.toInt32) ∧ HoldsTable p os' (t.alloc f).1 := by
  have h_now : nextSlot os.globalFifoNow globalFifoListSize
      = .ok (Slot.toInt32 (Rotary.position t.cursor 1)) := by
    rw [h.now]
    exact nextSlot_toInt32 _
  unfold syscallFifoInit Rotary.alloc
  simp only [h_now, Exec.ok_bind, slot_toInt32]
  cases h_slot : t.slots (Rotary.position t.cursor 1) with
  | none =>
    -- the source takes an entry without a PU for a free one
    have h_free : (os.globalFifoList (Rotary.position t.cursor 1)).puId = -1 := by
      rw [h.list, h_slot]
      rfl
    have h_list : ∀ i, Function.update os.globalFifoList (Rotary.position t.cursor 1)
        (f.entry p (Rotary.position t.cursor 1)) i
          = (Function.update t.slots (Rotary.position t.cursor 1) (some f) i).elim freeFifo
              fun f => f.entry p i := by
      intro i
      by_cases hi : i = Rotary.position t.cursor 1
      · subst hi
        rw [Function.update_self, Function.update_self]
        rfl
      · rw [Function.update_of_ne hi, Function.update_of_ne hi, h.list]
    rw [if_pos h_free, h.puId]
    split
    · -- the directory gets the global uuid, which only has to return
      obtain ⟨table, code, h_insert, h_table, -⟩ := HashTable.htInsert_spec h.table f.globalUuid
        (Slot.toInt32 (Rotary.position t.cursor 1))
      rw [h_insert]
      exact ⟨_, rfl, rfl, rfl, h_list, h_table⟩
    · exact ⟨_, rfl, rfl, rfl, h_list, h.table⟩
  | some g =>
    have h_taken : (os.globalFifoList (Rotary.position t.cursor 1)).puId ≠ -1 := by
      rw [h.list, h_slot]
      exact puNumber_ne p
    -- the cursor has moved all the same
    rw [if_neg h_taken]
    exact ⟨_, rfl, h.puId, rfl, h.list, h.table⟩

/-- **FIFO_INIT is one allocation.** It returns, with the reply that its place in the sequence of
FIFO_INITs determines. -/
theorem syscallFifoInit_spec {os : GlobalOS} {inits : List FifoInit} (h : FifoTable p os inits)
    (f : FifoInit) :
    ∃ os', syscallFifoInit os f.localUuid f.ownerPid f.globalUuid
        = .ok (os', fifoInitReply p inits.length) ∧ FifoTable p os' (inits ++ [f]) := by
  obtain ⟨os', h_ok, h_table⟩ := syscallFifoInit_alloc h f
  rw [Rotary.alloc_after] at h_ok h_table
  refine ⟨os', ?_, h_table⟩
  rw [h_ok]
  unfold fifoInitReply
  by_cases h_room : inits.length < 4096
  · rw [if_pos h_room, if_pos h_room]
    rfl
  · rw [if_neg h_room, if_neg h_room]
    rfl

/-- The FIFO table survives whatever leaves it alone. -/
theorem FifoTable.of_same {os os' : GlobalOS} {inits : List FifoInit} (h : FifoTable p os inits)
    (h_same : SameFifoTable os os') : FifoTable p os' inits where
  puId := by rw [h_same.puId, h.puId]
  now := by rw [h_same.now, h.now]
  list := by rw [h_same.list]; exact h.list
  table := h_same.table h.table

/-! ### One instance over whole runs -/

/-- What happens at one OS instance: a syscall with its result, or a request of the other PU. -/
inductive Event
  | syscall (call : Syscall) (ret : Int32)
  | dsm (msg : List Byte) (ret : Int32)

/-- One OS instance, started by `global_os_init`, on any memory and files. -/
def osInstance (P : Platform) (puId osPort : Int32) : System World Event where
  init w := globalOsInit puId osPort = .ok w.os
  step w e w' :=
    match e with
    | .syscall call ret => Served P w call w' ret
    | .dsm msg ret => ∃ k, dsmHandlers k w msg 4096 = .ok (w', ret)

/-- The FIFO_INIT an event is, with its reply. -/
def Event.fifoInit? : Event → Option (FifoInit × Int32)
  | .syscall (.fifoInit localUuid ownerPid globalUuid) ret =>
    some (⟨localUuid, ownerPid, globalUuid⟩, ret)
  | _ => none

/-- The FIFO_INITs of a history, with their replies. -/
def fifoInits (es : List Event) : List (FifoInit × Int32) := es.filterMap Event.fifoInit?

theorem fifoInits_snoc (es : List Event) (e : Event) :
    fifoInits (es ++ [e]) = fifoInits es ++ e.fifoInit?.toList :=
  System.filterMap_snoc Event.fifoInit? es e

/-- **The invariant over histories.** The table is that of the FIFO_INITs seen so far, and each of
them got the reply of its place. -/
structure FifoHistory (p : Fin 8) (es : List Event) (w : World) : Prop where
  table : FifoTable p w.os ((fifoInits es).map Prod.fst)
  reply : ∀ n f ret, (fifoInits es)[n]? = some (f, ret) → ret = fifoInitReply p n

theorem FifoHistory.init {osPort : Int32} {w : World}
    (h : globalOsInit (puNumber p) osPort = .ok w.os) : FifoHistory p [] w where
  table := FifoTable.init h
  reply n f ret h_get := absurd h_get (by simp [fifoInits])

/-- The history is about the OS alone. -/
theorem FifoHistory.of_os_eq {es : List Event} {w w' : World} (h : FifoHistory p es w)
    (h_os : w'.os = w.os) : FifoHistory p es w' where
  table := by rw [h_os]; exact h.table
  reply := h.reply

/-- An event that is no FIFO_INIT leaves table and history as they are. -/
theorem FifoHistory.step_of_same {es : List Event} {w w' : World} {e : Event}
    (h : FifoHistory p es w) (h_event : e.fifoInit? = none)
    (h_same : SameFifoTable w.os w'.os) : FifoHistory p (es ++ [e]) w' := by
  have h_inits : fifoInits (es ++ [e]) = fifoInits es := by
    rw [fifoInits_snoc, h_event]
    exact List.append_nil _
  constructor
  · rw [h_inits]
    exact h.table.of_same h_same
  · rw [h_inits]
    exact h.reply

/-- An entry of a history that got one more event is an old one or the last. -/
theorem getElem?_concat_eq_some {α : Type*} {xs : List α} {x y : α} {n : ℕ} :
    (xs ++ [x])[n]? = some y ↔ xs[n]? = some y ∨ n = xs.length ∧ x = y := by
  -- an old entry, the new one, or none
  rcases lt_trichotomy n xs.length with h_lt | rfl | h_gt
  · rw [List.getElem?_append_left h_lt]
    exact ⟨Or.inl, fun h => h.resolve_right fun h' => by omega⟩
  · rw [List.getElem?_concat_length, List.getElem?_eq_none le_rfl]
    simp
  · rw [List.getElem?_eq_none (by rw [List.length_append, List.length_singleton]; exact h_gt),
      List.getElem?_eq_none h_gt.le]
    simp
    omega

theorem FifoHistory.step_fifoInit {es : List Event} {w w' : World} {f : FifoInit} {ret : Int32}
    (h : FifoHistory p es w)
    (h_served : Served P w (.fifoInit f.localUuid f.ownerPid f.globalUuid) w' ret) :
    FifoHistory p (es ++ [.syscall (.fifoInit f.localUuid f.ownerPid f.globalUuid) ret]) w' := by
  obtain ⟨os', h_ok, h_table⟩ := syscallFifoInit_spec h.table f
  rw [List.length_map] at h_ok
  -- the reply is the one of its place, whatever the host did
  obtain ⟨k, h_run⟩ := h_served.of_reply
    (x := fun _ => .ok ({ w with os := os' }, fifoInitReply p (fifoInits es).length)) fun k => by
      change (syscallFifoInit w.os f.localUuid f.ownerPid f.globalUuid >>= _) = _
      rw [h_ok]
      rfl
  obtain ⟨rfl, rfl⟩ := Prod.mk.inj (Except.ok.inj h_run)
  have h_inits : ∀ ret, fifoInits
      (es ++ [.syscall (.fifoInit f.localUuid f.ownerPid f.globalUuid) ret])
        = fifoInits es ++ [(f, ret)] := fun ret => fifoInits_snoc es _
  constructor
  · rw [h_inits, List.map_append]
    exact h_table
  · intro n f r h_get
    rw [h_inits] at h_get
    rcases getElem?_concat_eq_some.mp h_get with h_old | ⟨rfl, h_new⟩
    · exact h.reply n f r h_old
    · exact ((Prod.mk.inj h_new).2).symm

theorem FifoHistory.step {es : List Event} {w w' : World} {e : Event} {osPort : Int32}
    (h : FifoHistory p es w) (hstep : (osInstance P (puNumber p) osPort).step w e w') :
    FifoHistory p (es ++ [e]) w' := by
  cases e with
  | dsm msg ret =>
    obtain ⟨k, h_dsm⟩ := hstep
    exact h.step_of_same rfl (SameFifoTable.of_eq (dsmHandlers_os h_dsm))
  | syscall call ret =>
    have h_served : Served P w call w' ret := hstep
    by_cases h_call : ∃ f : FifoInit, call = .fifoInit f.localUuid f.ownerPid f.globalUuid
    · obtain ⟨f, rfl⟩ := h_call
      exact h.step_fifoInit h_served
    · have h_other : ∀ localUuid ownerPid globalUuid,
          call ≠ .fifoInit localUuid ownerPid globalUuid := by
        rintro localUuid ownerPid globalUuid rfl
        exact h_call ⟨⟨localUuid, ownerPid, globalUuid⟩, rfl⟩
      have h_none : (Event.syscall call ret).fifoInit? = none := by
        cases call with
        | fifoInit localUuid ownerPid globalUuid => exact absurd rfl (h_other _ _ _)
        | _ => rfl
      exact h.step_of_same h_none (h_served.sameFifoTable h_other)

theorem fifoHistory {osPort : Int32} {es : List Event} {w : World}
    (h : (osInstance P (puNumber p) osPort).Reaches es w) : FifoHistory p es w := by
  refine System.Reaches.induction ?_ ?_ h
  · intro w h_init
    exact FifoHistory.init h_init
  · intro es w e w' _ h_hist hstep
    exact h_hist.step hstep

/-! ### What the history says about replies and entries -/

/-- Ids are counted from the start of the partition, modulo 4096. -/
theorem toInt_fifoInitReply {n : ℕ} (hn : n < 4096) :
    (fifoInitReply p n).toInt = ((512 * p.val + (n + 1)) % 4096 : ℕ) := by
  unfold fifoInitReply
  rw [if_pos hn, Slot.toInt_toInt32, Rotary.position_val]
  rfl

theorem fifoInitReply_eq_neg_one {n : ℕ} : fifoInitReply p n = -1 ↔ 4096 ≤ n := by
  unfold fifoInitReply
  split
  · next h_lt =>
    constructor
    · intro h_eq
      exact absurd h_eq (Slot.toInt32_ne_neg_one _)
    · intro h_le
      omega
  · next h_ge => exact ⟨fun _ => not_lt.mp h_ge, fun _ => rfl⟩

theorem fifoInitReply_eq_slot {n : ℕ} {i : Slot} :
    fifoInitReply p n = i.toInt32 ↔ n < 4096 ∧ i = Rotary.position (firstSlot p) (n + 1) := by
  unfold fifoInitReply
  split
  · next h_lt =>
    exact ⟨fun h => ⟨h_lt, (Slot.toInt32_injective h).symm⟩, fun h => by rw [h.2]⟩
  · next h_ge =>
    constructor
    · intro h_eq
      exact absurd h_eq.symm (Slot.toInt32_ne_neg_one i)
    · intro h
      omega

theorem fifoInitReply_of_ne {n : ℕ} (h : fifoInitReply p n ≠ -1) :
    n < 4096 ∧ fifoInitReply p n = Slot.toInt32 (Rotary.position (firstSlot p) (n + 1)) := by
  have hn : n < 4096 := by
    by_contra h_ge
    exact h (fifoInitReply_eq_neg_one.mpr (not_lt.mp h_ge))
  exact ⟨hn, if_pos hn⟩

/-- Successful FIFO_INITs return different ids. -/
theorem fifoInitReply_injOn {m n : ℕ} (h_ne : fifoInitReply p n ≠ -1)
    (h : fifoInitReply p m = fifoInitReply p n) : m = n := by
  obtain ⟨hn, h_n⟩ := fifoInitReply_of_ne h_ne
  obtain ⟨hm, h_pos⟩ := fifoInitReply_eq_slot.mp (h.trans h_n)
  -- both count from the entry behind the first
  rw [Nat.add_comm m, Nat.add_comm n, ← Rotary.position_position,
    ← Rotary.position_position] at h_pos
  exact (Rotary.position_injOn hn hm h_pos).symm

/-- An id is handed out by one FIFO_INIT. -/
theorem FifoHistory.injOn {es : List Event} {w : World} (h : FifoHistory p es w) {m n : ℕ}
    {f g : FifoInit} {ret : Int32} (h_ne : ret ≠ -1) (h_m : (fifoInits es)[m]? = some (f, ret))
    (h_n : (fifoInits es)[n]? = some (g, ret)) : m = n := by
  have h_ret := h.reply n g ret h_n
  exact fifoInitReply_injOn (h_ret ▸ h_ne) ((h.reply m f ret h_m).symm.trans h_ret)

/-- The id that the last FIFO_INIT of a history got was not handed out before. -/
theorem FifoHistory.fresh {es : List Event} {w : World} (h : FifoHistory p es w)
    {earlier : List (FifoInit × Int32)} {f g : FifoInit} {ret : Int32}
    (h_inits : fifoInits es = earlier ++ [(g, ret)]) (h_ne : ret ≠ -1) :
    (f, ret) ∉ earlier := by
  intro h_mem
  obtain ⟨m, h_m⟩ := List.mem_iff_getElem?.mp h_mem
  have h_lt := (List.getElem?_eq_some_iff.mp h_m).1
  have h_first : (fifoInits es)[m]? = some (f, ret) := by
    rw [h_inits, List.getElem?_append_left h_lt, h_m]
  have h_last : (fifoInits es)[earlier.length]? = some (g, ret) := by
    rw [h_inits]
    exact List.getElem?_concat_length
  exact absurd (h.injOn h_ne h_first h_last) h_lt.ne

/-- A slot that was handed out holds what the FIFO_INIT stored. -/
theorem FifoHistory.entry {es : List Event} {w : World} (h : FifoHistory p es w) {f : FifoInit}
    {i : Slot} (h_mem : (f, i.toInt32) ∈ fifoInits es) :
    w.os.globalFifoList i = f.entry p i := by
  obtain ⟨n, h_get⟩ := List.mem_iff_getElem?.mp h_mem
  obtain ⟨hn, rfl⟩ := fifoInitReply_eq_slot.mp (h.reply n _ _ h_get).symm
  rw [h.table.list, Rotary.slots_after_position _ _ hn, List.getElem?_map, h_get]
  rfl

/-- A slot that was never handed out is free. -/
theorem FifoHistory.free {es : List Event} {w : World} (h : FifoHistory p es w) {i : Slot}
    (h_new : ∀ f, (f, i.toInt32) ∉ fifoInits es) : w.os.globalFifoList i = freeFifo := by
  rw [h.table.list]
  cases h_slot : (Rotary.after (firstSlot p) ((fifoInits es).map Prod.fst)).slots i with
  | none => rfl
  | some f =>
    -- what is in the slot was stored by a FIFO_INIT, which returned the slot
    obtain ⟨n, hn, h_get, h_i⟩ := Rotary.slots_after_eq_some.mp h_slot
    rw [List.getElem?_map] at h_get
    obtain ⟨⟨g, ret⟩, h_init, -⟩ := Option.map_eq_some_iff.mp h_get
    have h_ret := h.reply n g ret h_init
    rw [fifoInitReply_eq_slot.mpr ⟨hn, h_i⟩] at h_ret
    subst h_ret
    exact absurd (List.mem_of_getElem? h_init) (h_new g)

/-! ### Runs exist -/

/-- `global_os_init` succeeds for every PU, unless the port overflows. -/
theorem exists_globalOsInit (p : Fin 8) (osPort : Int32) (h : osPort.toInt < 2 ^ 31 - 8) :
    ∃ os, globalOsInit (puNumber p) osPort = .ok os := by
  have h_lt := p.isLt
  have h_lo := osPort.le_toInt
  have h_pu := toInt_puNumber p
  have h_port := cint_of (z := osPort.toInt + (puNumber p).toInt) (by omega) (by omega)
  have h_now := cint_of (z := (puNumber p).toInt * localFifoListSize)
    (by rw [h_pu]; unfold localFifoListSize; omega)
    (by rw [h_pu]; unfold localFifoListSize; omega)
  exact ⟨_, globalOsInit_eq_ok.mpr ⟨_, _, h_port, h_now, rfl⟩⟩

/-- FIFO_INIT can be served in every reachable state. -/
theorem FifoHistory.exists_step {es : List Event} {w : World} (h : FifoHistory p es w)
    (f : FifoInit) (osPort : Int32) :
    ∃ w', (osInstance P (puNumber p) osPort).step w
      (.syscall (.fifoInit f.localUuid f.ownerPid f.globalUuid)
        (fifoInitReply p (fifoInits es).length)) w' := by
  obtain ⟨os', h_ok, -⟩ := syscallFifoInit_spec h.table f
  rw [List.length_map] at h_ok
  have h_run : Syscall.run P Kernel.nominal w (.fifoInit f.localUuid f.ownerPid f.globalUuid)
      = .ok (.reply { w with os := os' } (fifoInitReply p (fifoInits es).length)) := by
    change (syscallFifoInit w.os f.localUuid f.ownerPid f.globalUuid >>= _) = _
    rw [h_ok]
    rfl
  exact ⟨_, Served.reply h_run⟩

/-- Any FIFO_INITs can follow one another. -/
theorem exists_fifoInit_run (P : Platform) (p : Fin 8) {osPort : Int32}
    (h_port : osPort.toInt < 2 ^ 31 - 8) (fs : List FifoInit) :
    ∃ es w, (osInstance P (puNumber p) osPort).Reaches es w ∧ (fifoInits es).map Prod.fst = fs := by
  induction fs using List.reverseRecOn with
  | nil =>
    obtain ⟨os, h_os⟩ := exists_globalOsInit p osPort h_port
    exact ⟨[], World.boot os, System.Reaches.start h_os, rfl⟩
  | append_singleton fs f ih =>
    obtain ⟨es, w, h_reach, h_inits⟩ := ih
    obtain ⟨w', hstep⟩ := (fifoHistory h_reach).exists_step (P := P) f osPort
    refine ⟨_, w', h_reach.snoc hstep, ?_⟩
    rw [fifoInits_snoc, List.map_append, h_inits]
    rfl

/-- **FIFO allocation on one instance.** In every reachable state of PU `p`: the `n`-th FIFO_INIT
returned `(512 p + n) mod 4096` if `n ≤ 4096` and -1 otherwise; no two returned the same id; one
that returned -1 came when every entry had been handed out; every entry handed out holds what its
FIFO_INIT stored, every other entry is free; and a further FIFO_INIT returns. -/
theorem fifo_allocation (P : Platform) (p : Fin 8) (osPort : Int32) (es : List Event) (w : World)
    (h_reach : (osInstance P (puNumber p) osPort).Reaches es w) :
    (∀ n f ret, (fifoInits es)[n]? = some (f, ret) →
      ret.toInt = if n + 1 ≤ 4096 then (((512 * p.val + (n + 1)) % 4096 : ℕ) : ℤ) else -1) ∧
    (∀ (m n : ℕ) f g ret, (fifoInits es)[m]? = some (f, ret) → (fifoInits es)[n]? = some (g, ret) →
      ret ≠ -1 → m = n) ∧
    (∀ (n : ℕ) f, (fifoInits es)[n]? = some (f, -1) →
      ∀ i : Slot, ∃ m < n, ∃ g, (fifoInits es)[m]? = some (g, i.toInt32)) ∧
    (∀ f ret, (f, ret) ∈ fifoInits es → ret ≠ -1 → ∃ i : Slot, ret = i.toInt32 ∧
      w.os.globalFifoList i = ⟨puNumber p, f.ownerPid, f.localUuid, i.toInt32, f.globalUuid,
        ⟨0x3, f.ownerPid⟩⟩) ∧
    (∀ i : Slot, (∀ f, (f, i.toInt32) ∉ fifoInits es) →
      (w.os.globalFifoList i).puId = -1 ∧ (w.os.globalFifoList i).globalUuid = -1) ∧
    ∀ f : FifoInit, ∃ os' ret,
      syscallFifoInit w.os f.localUuid f.ownerPid f.globalUuid = .ok (os', ret) := by
  have h := fifoHistory h_reach
  refine ⟨?_, ?_, ?_, ?_, ?_, ?_⟩
  · intro n f ret h_get
    rw [h.reply n f ret h_get]
    by_cases hn : n < 4096
    · rw [if_pos (by omega), toInt_fifoInitReply hn]
    · rw [if_neg (by omega), fifoInitReply_eq_neg_one.mpr (not_lt.mp hn)]
      rfl
  · intro m n f g ret h_m h_n h_ret
    exact h.injOn h_ret h_m h_n
  · intro n f h_get i
    have hn := fifoInitReply_eq_neg_one.mp (h.reply n f _ h_get).symm
    have h_len := (List.getElem?_eq_some_iff.mp h_get).1
    -- the 4096 FIFO_INITs before went once around the table
    obtain ⟨m, hm, h_pos⟩ := Rotary.exists_position (Rotary.position (firstSlot p) 1) i
    rw [Rotary.position_position, Nat.add_comm 1] at h_pos
    have h_m := List.getElem?_eq_getElem (show m < (fifoInits es).length by omega)
    refine ⟨m, by omega, ((fifoInits es)[m]).1, h_m.trans ?_⟩
    have h_ret := h.reply m ((fifoInits es)[m]).1 ((fifoInits es)[m]).2 h_m
    rw [fifoInitReply_eq_slot.mpr ⟨hm, h_pos.symm⟩] at h_ret
    rw [← h_ret]
  · intro f ret h_mem h_ret
    obtain ⟨n, h_get⟩ := List.mem_iff_getElem?.mp h_mem
    have h_slot := h.reply n f ret h_get
    rw [(fifoInitReply_of_ne (h_slot ▸ h_ret)).2] at h_slot
    subst h_slot
    exact ⟨_, rfl, h.entry h_mem⟩
  · intro i h_new
    rw [h.free h_new]
    exact ⟨rfl, rfl⟩
  · intro f
    obtain ⟨os', h_ok, -⟩ := syscallFifoInit_spec h.table f
    exact ⟨os', _, h_ok⟩

/-- On PU 1, FIFO_INIT number 3583 (counted from 0) gets the id 0, behind the last entry of the
table, and number 4096 is refused. -/
theorem fifo_allocation_4097 : ∃ es w,
    (osInstance ⟨false, fun _ => 0⟩ (puNumber 1) 6000).Reaches es w ∧
      (fifoInits es).map Prod.fst = List.replicate 4097 ⟨7, 3, -1⟩ ∧
      (∃ ret, (fifoInits es)[3583]? = some (⟨7, 3, -1⟩, ret) ∧ ret.toInt = 0) ∧
      ∃ ret, (fifoInits es)[4096]? = some (⟨7, 3, -1⟩, ret) ∧ ret.toInt = -1 := by
  obtain ⟨es, w, h_reach, h_inits⟩ := exists_fifoInit_run ⟨false, fun _ => 0⟩ 1
    (show (6000 : Int32).toInt < 2 ^ 31 - 8 by decide) (List.replicate 4097 ⟨7, 3, -1⟩)
  have h_get : ∀ n < 4097, ∃ ret, (fifoInits es)[n]? = some (⟨7, 3, -1⟩, ret) := by
    intro n hn
    have h_map := congrArg (fun fs => fs[n]?) h_inits
    simp only [List.getElem?_map, List.getElem?_replicate, if_pos hn] at h_map
    obtain ⟨⟨f, ret⟩, h_some, rfl⟩ := Option.map_eq_some_iff.mp h_map
    exact ⟨ret, h_some⟩
  obtain ⟨ret, h_wrap⟩ := h_get 3583 (by omega)
  obtain ⟨ret', h_full⟩ := h_get 4096 (by omega)
  have h_replies := (fifo_allocation ⟨false, fun _ => 0⟩ 1 6000 es w h_reach).1
  exact ⟨es, w, h_reach, h_inits, ⟨ret, h_wrap, h_replies 3583 _ ret h_wrap⟩, ret', h_full,
    h_replies 4096 _ ret' h_full⟩

end MoleculeOS
