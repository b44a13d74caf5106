import Mathlib.Data.List.Induction
import MoleculeOS.Library.Probing
import MoleculeOS.Processes

/-!
# Registration over whole runs

An entry of the process table is taken when its `local_pid` is not negative. Nothing ever frees or
overwrites a taken entry (`entry_kept`): RegisterSelfGlobal writes to the entry at its cursor, and
only if that one is free. So as long as processes register with a local pid that is not negative,
their pids are different entries, and every entry stays as its registration left it
(`registration_kept`).

What does go wrong is the other answer. A registration whose segment file cannot be created leaves
its entry free and the cursor behind it. The cursor comes back only after a whole round, and what it
meets in the meantime is taken: the handler says that the table is full while that entry is free
(`full_only_full_iff`).
-/

namespace MoleculeOS

open Stdio Transition System Probing

variable {P : Platform} {k : Kernel} {w w' w₁ : World} {ret puId osPort : Int32}

/-! ### Taken entries -/

/-- One event leaves a taken entry alone. -/
theorem entry_kept_step {i : Slot} {e : Event} (hstep : (osInstance P puId osPort).step w e w')
    (h_taken : 0 ≤ (w.os.globalProcessList i).localPid.toInt) :
    w'.os.globalProcessList i = w.os.globalProcessList i := by
  cases e with
  | dsm msg ret =>
    obtain ⟨k, h_dsm⟩ := hstep
    rw [dsmHandlers_os h_dsm]
  | syscall call ret =>
    have h_served : Served P w call w' ret := hstep
    by_cases h_call : ∃ localPid, call = .registerSelfGlobal localPid
    · obtain ⟨localPid, rfl⟩ := h_call
      obtain ⟨k, h_run⟩ := h_served.of_reply fun _ => rfl
      obtain ⟨now, a, list, -, -, rfl, h_case⟩ := syscallRegisterGlobal_cases h_run
      -- the only entry that is written is a free one
      rcases h_case with ⟨-, rfl, -⟩ | ⟨h_free, -, -, rfl⟩ | ⟨h_free, -, -, -, rfl⟩
      · rfl
      · exact Function.update_of_ne (fun h_eq => by subst h_eq; omega) _ _
      · exact Function.update_of_ne (fun h_eq => by subst h_eq; omega) _ _
    · obtain ⟨h_list, -⟩ := h_served.sameProcesses fun localPid h_eq => h_call ⟨localPid, h_eq⟩
      rw [h_list]

/-- A run leaves a taken entry alone. -/
theorem entry_kept {i : Slot} {es : List Event} (h_run : (osInstance P puId osPort).Run w es w')
    (h_taken : 0 ≤ (w.os.globalProcessList i).localPid.toInt) :
    w'.os.globalProcessList i = w.os.globalProcessList i := by
  induction h_run with
  | nil => rfl
  | snoc h_run hstep ih =>
    rw [← ih] at h_taken ⊢
    exact entry_kept_step hstep h_taken

theorem currentPuId_step {e : Event} (hstep : (osInstance P puId osPort).step w e w') :
    w'.os.currentPuId = w.os.currentPuId := by
  cases e with
  | dsm msg ret =>
    obtain ⟨k, h_dsm⟩ := hstep
    rw [dsmHandlers_os h_dsm]
  | syscall call ret =>
    have h_served : Served P w call w' ret := hstep
    by_cases h_call : ∃ localUuid ownerPid globalUuid,
        call = .fifoInit localUuid ownerPid globalUuid
    · obtain ⟨localUuid, ownerPid, globalUuid, rfl⟩ := h_call
      obtain ⟨os', h_init, rfl⟩ := h_served.fifoInit
      obtain ⟨now, list, table, rfl, -⟩ := syscallFifoInit_cases h_init
      rfl
    · exact (h_served.sameFifoTable fun l o u h_eq => h_call ⟨l, o, u, h_eq⟩).puId

/-! ### Granted pids -/

/-- No two registrations were granted the same pid. -/
def PidsDistinct (regs : List (Int32 × Int32)) : Prop :=
  ∀ (m n : ℕ) (x y : Int32 × Int32), regs[m]? = some x → regs[n]? = some y → x.2 ≠ -1 →
    x.2 = y.2 → m = n

/-- **The invariant of granted registrations**, over the history of the instance. -/
structure GrantedPids (puId : Int32) (es : List Event) (w : World) : Prop where
  puId_eq : w.os.currentPuId = puId
  /-- The entry of a granted pid is that of the process it was granted to. -/
  entry : ∀ l ret, (l, ret) ∈ registrations es → ret ≠ -1 → ∃ (i : Slot) (shm : ShmAddr),
    ret = i.toInt32 ∧ w.os.globalProcessList i = ⟨puId, l, ret, shm⟩
  distinct : PidsDistinct (registrations es)

theorem GrantedPids.init (h : globalOsInit puId osPort = .ok w.os) : GrantedPids puId [] w := by
  obtain ⟨port, now, -, -, h_os⟩ := globalOsInit_eq_ok.mp h
  refine ⟨?_, fun l ret h_mem => absurd h_mem (by simp [registrations]), ?_⟩
  · rw [h_os]
    rfl
  · intro m n x y h_x
    exact absurd h_x (by simp [registrations])

/-- The entries of earlier registrations after one more event. -/
theorem GrantedPids.entry_step {es : List Event} {e : Event} (h : GrantedPids puId es w)
    (h_pids : ∀ x ∈ registrations es, 0 ≤ x.1.toInt)
    (hstep : (osInstance P puId osPort).step w e w') {l : Int32}
    (h_mem : (l, ret) ∈ registrations es) (h_ret : ret ≠ -1) : ∃ (i : Slot) (shm : ShmAddr),
      ret = i.toInt32 ∧ w'.os.globalProcessList i = ⟨puId, l, ret, shm⟩ := by
  obtain ⟨i, shm, h_i, h_entry⟩ := h.entry l ret h_mem h_ret
  refine ⟨i, shm, h_i, ?_⟩
  rw [entry_kept_step hstep (by rw [h_entry]; exact h_pids _ h_mem), h_entry]

/-- A granted registration fills a free entry. -/
theorem granted_entry {localPid : Int32}
    (h_run : syscallRegisterGlobal P k w localPid = .ok (w', ret)) (h_ret : ret ≠ -1) :
    ∃ (a : Slot) (shm : ShmAddr), ret = a.toInt32 ∧ (w.os.globalProcessList a).localPid.toInt < 0 ∧
      w'.os.globalProcessList a = ⟨w.os.currentPuId, localPid, ret, shm⟩ := by
  obtain ⟨now, a, list, -, h_slot, rfl, h_case⟩ := syscallRegisterGlobal_cases h_run
  rcases h_case with ⟨-, -, h_refused⟩ | ⟨-, -, h_refused, -⟩ | ⟨h_free, -, -, rfl, rfl⟩
  · exact absurd h_refused h_ret
  · exact absurd h_refused h_ret
  · exact ⟨a, _, slot_eq_ok h_slot, h_free, Function.update_self a _ _⟩

theorem GrantedPids.step_register {es : List Event} {localPid : Int32} (h : GrantedPids puId es w)
    (h_pids : ∀ x ∈ registrations es, 0 ≤ x.1.toInt)
    (h_served : Served P w (.registerSelfGlobal localPid) w' ret)
    (hstep : (osInstance P puId osPort).step w (.syscall (.registerSelfGlobal localPid) ret) w') :
    GrantedPids puId (es ++ [.syscall (.registerSelfGlobal localPid) ret]) w' := by
  obtain ⟨k, h_run⟩ := h_served.of_reply fun _ => rfl
  have h_snoc : registrations (es ++ [.syscall (.registerSelfGlobal localPid) ret])
      = registrations es ++ [(localPid, ret)] := registrations_snoc es _
  -- the entry was free, so it is not that of an earlier registration
  have h_fresh : ∀ x ∈ registrations es, ret ≠ -1 → x.2 ≠ ret := by
    rintro ⟨l, ret'⟩ h_x h_ret rfl
    obtain ⟨i, shm, h_i, h_entry⟩ := h.entry l ret' h_x h_ret
    obtain ⟨a, -, h_a, h_free, -⟩ := granted_entry h_run h_ret
    obtain rfl := Slot.toInt32_injective (h_i.symm.trans h_a)
    rw [h_entry] at h_free
    exact absurd (h_pids _ h_x) (not_le.mpr h_free)
  refine ⟨(currentPuId_step hstep).trans h.puId_eq, ?_, ?_⟩
  · rw [h_snoc]
    intro l r h_mem h_ret
    rcases List.mem_append.mp h_mem with h_mem | h_mem
    · exact h.entry_step h_pids hstep h_mem h_ret
    · obtain ⟨rfl, rfl⟩ := Prod.mk.inj (List.mem_singleton.mp h_mem)
      obtain ⟨a, shm, h_a, -, h_entry⟩ := granted_entry h_run h_ret
      rw [h.puId_eq] at h_entry
      exact ⟨a, shm, h_a, h_entry⟩
  · rw [h_snoc]
    intro m n x y h_x h_y h_ne h_eq
    -- two old ones, an old one and the new one, the new one twice
    rcases getElem?_concat_eq_some.mp h_x with h_x | ⟨rfl, rfl⟩
    · rcases getElem?_concat_eq_some.mp h_y with h_y | ⟨rfl, rfl⟩
      · exact h.distinct m n x y h_x h_y h_ne h_eq
      · exact absurd h_eq
          (h_fresh x (List.mem_of_getElem? h_x) fun h_ret => h_ne (h_eq.trans h_ret))
    · rcases getElem?_concat_eq_some.mp h_y with h_y | ⟨rfl, -⟩
      · exact absurd h_eq.symm (h_fresh y (List.mem_of_getElem? h_y) h_ne)
      · rfl

theorem GrantedPids.step {es : List Event} {e : Event} (h : GrantedPids puId es w)
    (h_pids : ∀ x ∈ registrations es, 0 ≤ x.1.toInt)
    (hstep : (osInstance P puId osPort).step w e w') : GrantedPids puId (es ++ [e]) w' := by
  have h_other : e.register? = none → GrantedPids puId (es ++ [e]) w' := by
    intro h_none
    have h_same : registrations (es ++ [e]) = registrations es := by
      rw [registrations_snoc, h_none]
      exact List.append_nil _
    refine ⟨(currentPuId_step hstep).trans h.puId_eq, ?_, ?_⟩
    · rw [h_same]
      intro l r h_mem h_ret
      exact h.entry_step h_pids hstep h_mem h_ret
    · rw [h_same]
      exact h.distinct
  cases e with
  | dsm msg ret => exact h_other rfl
  | syscall call ret =>
    cases call with
    | registerSelfGlobal localPid => exact h.step_register h_pids hstep hstep
    | _ => exact h_other rfl

theorem grantedPids {es : List Event} (h : (osInstance P puId osPort).Reaches es w)
    (h_pids : ∀ x ∈ registrations es, 0 ≤ x.1.toInt) : GrantedPids puId es w := by
  refine Reaches.induction (P := fun es w => (∀ x ∈ registrations es, 0 ≤ x.1.toInt) →
    GrantedPids puId es w) ?_ ?_ h h_pids
  · intro w h_init _
    exact GrantedPids.init h_init
  · intro es w e w' _ ih hstep h_pids
    have h_old : ∀ x ∈ registrations es, 0 ≤ x.1.toInt := by
      intro x h_x
      refine h_pids x ?_
      rw [registrations_snoc]
      exact List.mem_append_left _ h_x
    exact (ih h_old).step h_old hstep

/-- **Registrations are kept.** In every run in which processes register with local pids that are
not negative, among any other requests and with any failures of the host: the pids granted are
pairwise different, and from then on the entry of each of them is that of its process, whatever the
run does. -/
theorem registration_kept (P : Platform) (puId osPort : Int32) {es₁ es₂ : List Event}
    (h_reach : (osInstance P puId osPort).Reaches es₁ w₁)
    (h_run : (osInstance P puId osPort).Run w₁ es₂ w)
    (h_pids : ∀ x ∈ registrations (es₁ ++ es₂), 0 ≤ x.1.toInt) :
    PidsDistinct (registrations (es₁ ++ es₂)) ∧
      ∀ l ret, (l, ret) ∈ registrations es₁ → ret ≠ -1 → ∃ (i : Slot) (shm : ShmAddr),
        ret = i.toInt32 ∧ w₁.os.globalProcessList i = ⟨puId, l, ret, shm⟩ ∧
          w.os.globalProcessList i = w₁.os.globalProcessList i := by
  refine ⟨(grantedPids (h_reach.append h_run) h_pids).distinct, fun l ret h_mem h_ret => ?_⟩
  have h_first : ∀ x ∈ registrations es₁, 0 ≤ x.1.toInt := by
    intro x h_x
    refine h_pids x ?_
    unfold registrations at h_x ⊢
    rw [List.filterMap_append]
    exact List.mem_append_left _ h_x
  obtain ⟨i, shm, h_i, h_entry⟩ := (grantedPids h_reach h_first).entry l ret h_mem h_ret
  refine ⟨i, shm, h_i, h_entry, entry_kept h_run ?_⟩
  rw [h_entry]
  exact h_first _ h_mem

/-- Two processes have registered; the first one's entry is still there. -/
theorem registration_kept_two :
    ∃ w₁ w, (osInstance ⟨false, fun _ => 0⟩ 0 6000).Run w₁ [.syscall (.registerSelfGlobal 0) 2] w ∧
      w.os.globalProcessList 1 = w₁.os.globalProcessList 1 := by
  obtain ⟨os, h_os⟩ := exists_globalOsInit 0 6000 (by decide)
  have h_start : (osInstance ⟨false, fun _ => 0⟩ 0 6000).Reaches [] (World.boot os) :=
    Reaches.start h_os
  have h_one := h_start.snoc (first_register_step (w := World.boot os) ⟨false, fun _ => 0⟩ 0 h_os)
  have hstep : (osInstance ⟨false, fun _ => 0⟩ 0 6000).step
      ((World.boot os).registered ⟨false, fun _ => 0⟩ 1 0) (.syscall (.registerSelfGlobal 0) 2) _ :=
    register_step ⟨false, fun _ => 0⟩ 0 6000 0 (n := 1) rfl (by
      obtain ⟨port, now, -, -, rfl⟩ := globalOsInit_eq_ok.mp h_os
      rw [World.registered_of_ne _ _ _ (by decide)]
      change (-1 : Int32).toInt < 0
      decide)
  have h_run := (Run.nil _).snoc hstep
  refine ⟨_, _, h_run, ?_⟩
  obtain ⟨i, shm, h_i, -, h_kept⟩ := (registration_kept _ 0 6000 h_one h_run (by
    intro x h_x
    obtain rfl | rfl : x = (0, 1) ∨ x = (0, 2) := by
      simpa [registrations, Event.register?] using h_x
    · decide
    · decide)).2 0 1 List.mem_cons_self (by decide)
  obtain rfl : (1 : Slot) = i := Slot.toInt32_injective h_i
  exact h_kept

/-! ### The table reported full -/

/-- RegisterSelfGlobal requests of one instance, each with the host that serves it and a local pid
that is not negative. -/
def registrar (P : Platform) (puId osPort : Int32) : System World (Kernel × Int32) where
  init w := globalOsInit puId osPort = .ok w.os
  step w x w' := 0 ≤ x.2.toInt ∧ ∃ ret, syscallRegisterGlobal P x.1 w x.2 = .ok (w', ret)

/-- Its runs are runs of the instance. -/
theorem osInstance_of_registrar {xs : List (Kernel × Int32)}
    (h : (registrar P puId osPort).Reaches xs w) :
    ∃ es, (osInstance P puId osPort).Reaches es w := by
  refine Reaches.induction (P := fun _ w => ∃ es, (osInstance P puId osPort).Reaches es w) ?_ ?_ h
  · intro w h_init
    exact ⟨[], Reaches.start h_init⟩
  · rintro xs w ⟨k, l⟩ w' _ ⟨es, h_reach⟩ ⟨-, ret, h_run⟩
    have hstep : (osInstance P puId osPort).step w (.syscall (.registerSelfGlobal l) ret) w' := by
      refine Served.reply (k := k) ?_
      change (syscallRegisterGlobal P k w l >>= _) = _
      rw [h_run]
      rfl
    exact ⟨_, h_reach.snoc hstep⟩

/-- The next registration finds the entry at the cursor taken, and says that the table is full. -/
def FoundFull (w : World) : Prop :=
  ∃ now i, nextSlot w.os.globalProcessNow globalProcessListSize = .ok now ∧ slot now = .ok i ∧
    ¬ (w.os.globalProcessList i).localPid.toInt < 0

/-- Every entry is that of a registered process. -/
def AllHeld (w : World) : Prop := ∀ i, 0 ≤ (w.os.globalProcessList i).localPid.toInt

/-- The table is reported full exactly when the request is refused on a host that obliges. -/
theorem foundFull_iff_refused {n : Slot} (h_now : w.os.globalProcessNow = n.toInt32)
    (P : Platform) (localPid : Int32) :
    FoundFull w ↔ ∃ w', syscallRegisterGlobal P .nominal w localPid = .ok (w', -1) := by
  have h_next := nextSlot_globalProcessNow h_now
  by_cases h_free : (w.os.globalProcessList (Rotary.position n 1)).localPid.toInt < 0
  · refine iff_of_false ?_ ?_
    · rintro ⟨now, i, h, h_i, h_taken⟩
      obtain rfl := Except.ok.inj (h_next.symm.trans h)
      rw [slot_toInt32] at h_i
      obtain rfl := Except.ok.inj h_i
      exact h_taken h_free
    · rintro ⟨w', h_run⟩
      rw [syscallRegisterGlobal_granted P localPid h_now h_free] at h_run
      exact Slot.toInt32_ne_neg_one _ (Prod.mk.inj (Except.ok.inj h_run)).2
  · refine iff_of_true ⟨_, _, h_next, slot_toInt32 _, h_free⟩ ?_
    unfold syscallRegisterGlobal
    simp only [h_next, Exec.ok_bind, slot_toInt32, if_neg h_free]
    exact ⟨_, rfl⟩

/-- The attempts of a run: whether the segment file could be created. -/
def attempts (xs : List (Kernel × Int32)) : List Bool := xs.map fun x => x.1.fopen

/-- The cursor counts the requests, and an entry is taken when an attempt has got it. -/
structure Attempted (xs : List (Kernel × Int32)) (w : World) : Prop where
  now : w.os.globalProcessNow = Slot.toInt32 (Rotary.position 0 xs.length)
  held : ∀ i, 0 ≤ (w.os.globalProcessList i).localPid.toInt ↔ Held 0 (attempts xs) i

theorem Attempted.init (h : globalOsInit puId osPort = .ok w.os) : Attempted [] w := by
  obtain ⟨port, now, -, -, h_os⟩ := globalOsInit_eq_ok.mp h
  rw [show w = { w with os := bootOs puId port now } by rw [← h_os]]
  refine ⟨rfl, fun i => iff_of_false ?_ (not_held_nil 0 i)⟩
  change ¬ 0 ≤ (-1 : Int32).toInt
  decide

theorem Attempted.step {xs : List (Kernel × Int32)} {x : Kernel × Int32} (h : Attempted xs w)
    (hstep : (registrar P puId osPort).step w x w') : Attempted (xs ++ [x]) w' := by
  obtain ⟨h_pid, ret, h_run⟩ := hstep
  obtain ⟨now, a, list, h_next, h_slot, rfl, h_case⟩ := syscallRegisterGlobal_cases h_run
  obtain rfl := slot_eq_ok h_slot
  -- the request looks at the entry of its number
  have h_a : a = Rotary.position 0 (xs.length + 1) := by
    rw [nextSlot_globalProcessNow h.now, Rotary.position_position] at h_next
    exact (Slot.toInt32_injective (Except.ok.inj h_next)).symm
  have h_attempts : attempts (xs ++ [x]) = attempts xs ++ [x.1.fopen] := List.map_append
  have h_length : (attempts xs).length = xs.length := List.length_map _
  refine ⟨?_, fun i => ?_⟩
  · rw [List.length_append, List.length_singleton, ← h_a]
  rw [h_attempts, held_snoc, h_length, ← h_a, ← h.held i]
  change 0 ≤ (list i).localPid.toInt ↔ _
  by_cases h_i : a = i
  · subst h_i
    rcases h_case with ⟨h_taken, rfl, -⟩ | ⟨h_free, h_fopen, -, rfl⟩ | ⟨h_free, h_fopen, -, -, rfl⟩
    · exact iff_of_true h_taken (Or.inl h_taken)
    · rw [Function.update_self, h_fopen]
      refine iff_of_false (show ¬ 0 ≤ (-1 : Int32).toInt by decide) ?_
      rintro (h_taken | ⟨h_false, -⟩)
      · omega
      · exact absurd h_false (by simp)
    · rw [Function.update_self]
      exact iff_of_true h_pid (Or.inr ⟨h_fopen, rfl⟩)
  · -- the other entries are as they were
    have h_list : list i = w.os.globalProcessList i := by
      rcases h_case with ⟨-, rfl, -⟩ | ⟨-, -, -, rfl⟩ | ⟨-, -, -, -, rfl⟩
      · rfl
      · exact Function.update_of_ne (Ne.symm h_i) _ _
      · exact Function.update_of_ne (Ne.symm h_i) _ _
    rw [h_list]
    exact ⟨Or.inl, fun h' => h'.resolve_right fun h_eq => h_i h_eq.2⟩

theorem attempted {xs : List (Kernel × Int32)} (h : (registrar P puId osPort).Reaches xs w) :
    Attempted xs w := by
  refine Reaches.induction (P := Attempted) ?_ ?_ h
  · intro w h_init
    exact Attempted.init h_init
  · intro xs w x w' _ ih hstep
    exact ih.step hstep

theorem Attempted.foundFull_iff {xs : List (Kernel × Int32)} (h : Attempted xs w) :
    FoundFull w ↔ Held (0 : Slot) (attempts xs) (Rotary.position 0 (xs.length + 1)) := by
  have h_next := nextSlot_globalProcessNow h.now
  rw [Rotary.position_position] at h_next
  rw [← h.held]
  constructor
  · rintro ⟨now, i, h_now, h_i, h_taken⟩
    obtain rfl := Except.ok.inj (h_next.symm.trans h_now)
    rw [slot_toInt32] at h_i
    obtain rfl := Except.ok.inj h_i
    exact not_lt.mp h_taken
  · intro h_taken
    exact ⟨_, _, h_next, slot_toInt32 _, not_lt.mpr h_taken⟩

theorem Attempted.allHeld_iff {xs : List (Kernel × Int32)} (h : Attempted xs w) :
    AllHeld w ↔ ∀ i, Held (0 : Slot) (attempts xs) i := forall_congr' h.held

/-- **Full only when full.** In a run of registrations, no request is told that the table is full
while an entry is free, exactly if from the first request whose segment file could be created there
are at most 4096, or the files of 4096 requests in a row could be created. -/
theorem full_only_full_iff (P : Platform) (puId osPort : Int32) {xs : List (Kernel × Int32)}
    (h_reach : (registrar P puId osPort).Reaches xs w) :
    (∀ ys x, ys ++ [x] <+: xs → ∀ w₁, (registrar P puId osPort).Reaches ys w₁ → FoundFull w₁ →
        AllHeld w₁) ↔
      ((attempts xs).dropWhile fun b => !b).length ≤ 4096 ∨
        ∀ b ∈ ((attempts xs).dropWhile fun b => !b).take 4096, b = true := by
  rw [← refused_only_full_iff (0 : Slot)]
  have h_take : ∀ n, (attempts xs).take n = attempts (xs.take n) := fun n => List.map_take.symm
  have h_length : (attempts xs).length = xs.length := List.length_map _
  constructor
  · intro h n h_n h_refused
    rw [h_length] at h_n
    rw [h_take] at h_refused ⊢
    have h_split : xs.take n ++ xs.drop n = xs := List.take_append_drop n xs
    rw [← h_split] at h_reach
    obtain ⟨w₁, h_reach₁⟩ := h_reach.of_append
    have h_len : (xs.take n).length = n := List.length_take_of_le h_n.le
    have h_inv := attempted h_reach₁
    have h_full := h (xs.take n) xs[n] (by
      rw [List.take_append_getElem]
      exact List.take_prefix _ _) w₁ h_reach₁
    rw [h_inv.foundFull_iff, h_inv.allHeld_iff, h_len] at h_full
    exact h_full h_refused
  · intro h ys x h_prefix w₁ h_reach₁ h_full
    have h_inv := attempted h_reach₁
    obtain ⟨zs, rfl⟩ := h_prefix
    have h_ys : (ys ++ [x] ++ zs).take ys.length = ys := by
      rw [List.append_assoc, List.take_left]
    have h_all := h ys.length (by
      rw [h_length]
      simp only [List.length_append, List.length_singleton]
      omega)
    rw [h_take, h_ys] at h_all
    exact h_inv.allHeld_iff.mpr (h_all (h_inv.foundFull_iff.mp h_full))

/-- A request is served unless the host has no segment for it. -/
theorem Attempted.exists_step {xs : List (Kernel × Int32)} {x : Kernel × Int32}
    (h : Attempted xs w) (P : Platform) (puId osPort : Int32) (h_pid : 0 ≤ x.2.toInt)
    (h_shmget : x.1.shmget = true) : ∃ w', (registrar P puId osPort).step w x w' := by
  have h_run : ∃ r, syscallRegisterGlobal P x.1 w x.2 = .ok r := by
    unfold syscallRegisterGlobal
    simp only [nextSlot_globalProcessNow h.now, Exec.ok_bind, slot_toInt32, h_shmget, if_true]
    split
    · split <;> exact ⟨_, rfl⟩
    · exact ⟨_, rfl⟩
  obtain ⟨⟨w', ret⟩, h_run⟩ := h_run
  exact ⟨w', h_pid, ret, h_run⟩

theorem exists_registrar_run (P : Platform) (xs : List (Kernel × Int32))
    (h : ∀ x ∈ xs, 0 ≤ x.2.toInt ∧ x.1.shmget = true) :
    ∃ w, (registrar P 0 6000).Reaches xs w := by
  induction xs using List.reverseRecOn with
  | nil =>
    obtain ⟨os, h_os⟩ := exists_globalOsInit 0 6000 (by decide)
    exact ⟨World.boot os, Reaches.start h_os⟩
  | append_singleton xs x ih =>
    obtain ⟨w, h_reach⟩ := ih fun y h_y => h y (List.mem_append_left _ h_y)
    obtain ⟨h_pid, h_shmget⟩ := h x (List.mem_append_right _ List.mem_cons_self)
    obtain ⟨w', hstep⟩ := (attempted h_reach).exists_step P 0 6000 h_pid h_shmget
    exact ⟨w', h_reach.snoc hstep⟩

/-- Of 4097 registrations that nothing fails for, the last is told that the table is full, and it
is. -/
theorem full_only_full_4097 : ∃ w w₁,
    (registrar ⟨false, fun _ => 0⟩ 0 6000).Reaches (List.replicate 4097 (.nominal, 0)) w ∧
      (registrar ⟨false, fun _ => 0⟩ 0 6000).Reaches (List.replicate 4096 (.nominal, 0)) w₁ ∧
      FoundFull w₁ ∧ AllHeld w₁ := by
  have h_ok : ∀ n, ∀ x ∈ List.replicate n (Kernel.nominal, (0 : Int32)),
      0 ≤ x.2.toInt ∧ x.1.shmget = true := by
    intro n x h_x
    rw [List.eq_of_mem_replicate h_x]
    exact ⟨by decide, rfl⟩
  obtain ⟨w, h_reach⟩ := exists_registrar_run ⟨false, fun _ => 0⟩ _ (h_ok 4097)
  obtain ⟨w₁, h_reach₁⟩ := exists_registrar_run ⟨false, fun _ => 0⟩ _ (h_ok 4096)
  have h_attempts : ∀ n, attempts (List.replicate n (.nominal, 0)) = List.replicate n true :=
    fun n => List.map_replicate
  have h_full : FoundFull w₁ := by
    rw [(attempted h_reach₁).foundFull_iff, h_attempts, List.length_replicate]
    -- the cursor is back at the entry of the first request
    exact ⟨0, rfl, position_succ_eq_iff.mpr rfl⟩
  refine ⟨w, w₁, h_reach, h_reach₁, h_full, ?_⟩
  refine (full_only_full_iff _ 0 6000 h_reach).mpr (Or.inr fun b h_b => ?_)
    (List.replicate 4096 (.nominal, 0)) (.nominal, 0) ?_ w₁ h_reach₁ h_full
  · rw [h_attempts] at h_b
    exact List.eq_of_mem_replicate ((List.dropWhile_suffix _).subset (List.mem_of_mem_take h_b))
  · exact ⟨[], by rw [List.append_nil, ← List.replicate_succ']⟩

/-- 4096 registrations, of which the second one fails. -/
def oneFailure : List (Kernel × Int32) :=
  (.nominal, 0) :: ({ Kernel.nominal with fopen := false }, 0) :: List.replicate 4094 (.nominal, 0)

/-- The next one is told that the table is full, while entry 2 is free. -/
theorem full_with_free_entry : ∃ w, (registrar ⟨false, fun _ => 0⟩ 0 6000).Reaches oneFailure w ∧
    FoundFull w ∧ ¬ AllHeld w := by
  have h_ok : ∀ x ∈ oneFailure, 0 ≤ x.2.toInt ∧ x.1.shmget = true := by
    intro x h_x
    rcases List.mem_cons.mp h_x with rfl | h_x
    · exact ⟨by decide, rfl⟩
    · rcases List.mem_cons.mp h_x with rfl | h_x
      · exact ⟨by decide, rfl⟩
      · rw [List.eq_of_mem_replicate h_x]
        exact ⟨by decide, rfl⟩
  obtain ⟨w, h_reach⟩ := exists_registrar_run ⟨false, fun _ => 0⟩ oneFailure h_ok
  have h_inv := attempted h_reach
  have h_attempts : attempts oneFailure = true :: false :: List.replicate 4094 true :=
    congrArg (true :: false :: ·) List.map_replicate
  have h_length : oneFailure.length = 4096 :=
    congrArg (· + 1 + 1) List.length_replicate
  refine ⟨w, h_reach, h_inv.foundFull_iff.mpr ?_, fun h_all => ?_⟩
  · -- the cursor is back at the entry of the first request
    rw [h_attempts, h_length]
    exact ⟨0, rfl, position_succ_eq_iff.mpr rfl⟩
  · obtain ⟨j, h_get, h_pos⟩ := h_inv.allHeld_iff.mp h_all (Rotary.position 0 (1 + 1))
    have h_mod := position_succ_eq_iff.mp h_pos
    rw [h_attempts] at h_get
    have h_lt : j < 4096 := by
      have h_lt := (List.getElem?_eq_some_iff.mp h_get).1
      rwa [List.length_cons, List.length_cons, List.length_replicate] at h_lt
    -- which only the second request has looked at
    obtain rfl : j = 1 := by omega
    have h_false : some false = some true := h_get
    exact absurd h_false (by decide)

end MoleculeOS
