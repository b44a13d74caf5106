import MoleculeOS.Partition

/-!
# The process table

RegisterSelfGlobal moves its cursor by one entry with every request, refused or not, and the cursor
of every OS instance starts at 0: the `n`-th request returns pid `n` modulo 4096, or -1
(`ProcessHistory`). It is -1 if the file of the segment could not be created, or if the pid was
handed out before (`FileHistory`). So pids are counted from the same start on every PU, and two PUs
hand out the same pid as soon as both could create the files of requests of the same number
(`global_pids_iff`). The library fills `container_id` with the owner's pid, so container ids are no
better.

The segment of an entry is never any but the one of its own pid.
-/

namespace MoleculeOS

open Stdio Transition System

variable {P : Platform} {k : Kernel} {w w' : World} {ret puId osPort : Int32}

/-! ### Registrations of one instance -/

/-- A registration of the history: the local pid and the reply. -/
def Event.register? : Event → Option (Int32 × Int32)
  | .syscall (.registerSelfGlobal localPid) ret => some (localPid, ret)
  | _ => none

/-- The registrations of a history, refused ones included. -/
def registrations (es : List Event) : List (Int32 × Int32) := es.filterMap Event.register?

theorem registrations_snoc (es : List Event) (e : Event) :
    registrations (es ++ [e]) = registrations es ++ e.register?.toList :=
  filterMap_snoc Event.register? es e

/-- The pid of the registration request number `n`, counted from 0, if it is granted. -/
def pidOf (n : ℕ) : Slot := ⟨(n + 1) % 4096, Nat.mod_lt _ (Nat.succ_pos 4095)⟩

/-- It is the entry that the cursor has reached then. -/
theorem pidOf_eq (n : ℕ) : pidOf n = Rotary.position 0 (n + 1) := by
  ext
  rw [Rotary.position_val]
  exact congrArg (· % 4096) (Nat.zero_add (n + 1)).symm

theorem pidOf_eq_iff {m n : ℕ} : pidOf m = pidOf n ↔ m % 4096 = n % 4096 := by
  rw [Fin.ext_iff]
  change (m + 1) % 4096 = (n + 1) % 4096 ↔ _
  omega

/-- **The invariant of the process table**, with the history of the instance. -/
structure ProcessHistory (P : Platform) (es : List Event) (w : World) : Prop where
  now : w.os.globalProcessNow = Slot.toInt32 (Rotary.position 0 (registrations es).length)
  reply : ∀ n localPid ret, (registrations es)[n]? = some (localPid, ret) →
    ret = -1 ∨ ret = (pidOf n).toInt32
  /-- An entry has its own segment or none. -/
  shm : ∀ a key, (w.os.globalProcessList a).shm = .attached key →
    key = P.ftok (shmPath a.toInt32)

theorem ProcessHistory.init (h : globalOsInit puId osPort = .ok w.os) : ProcessHistory P [] w := by
  obtain ⟨port, now, -, -, h_os⟩ := globalOsInit_eq_ok.mp h
  refine ⟨?_, fun n localPid ret h_get => absurd h_get (by simp [registrations]), ?_⟩
  · rw [h_os]
    rfl
  · intro a key h_shm
    rw [h_os] at h_shm
    exact absurd h_shm (by simp [bootOs, freeProcess])

/-- An event that is no registration. -/
theorem ProcessHistory.step_of_same {es : List Event} {e : Event} (h : ProcessHistory P es w)
    (h_event : e.register? = none)
    (h_list : w'.os.globalProcessList = w.os.globalProcessList)
    (h_now : w'.os.globalProcessNow = w.os.globalProcessNow) :
    ProcessHistory P (es ++ [e]) w' := by
  have h_same : registrations (es ++ [e]) = registrations es := by
    rw [registrations_snoc, h_event]
    exact List.append_nil _
  refine ⟨?_, ?_, ?_⟩
  · rw [h_same, h_now]
    exact h.now
  · rw [h_same]
    exact h.reply
  · rw [h_list]
    exact h.shm

/-- The entry that the next registration request looks at. -/
theorem ProcessHistory.slot_eq {es : List Event} {now : Int32} {a : Slot}
    (h : ProcessHistory P es w)
    (h_next : nextSlot w.os.globalProcessNow globalProcessListSize = .ok now)
    (h_slot : slot now = .ok a) : a = pidOf (registrations es).length := by
  obtain rfl := slot_eq_ok h_slot
  rw [h.now, show globalProcessListSize = 4096 from rfl, nextSlot_toInt32,
    Rotary.position_position, ← pidOf_eq] at h_next
  exact (Slot.toInt32_injective (Except.ok.inj h_next)).symm

theorem ProcessHistory.step_register {es : List Event} {localPid : Int32}
    (h : ProcessHistory P es w) (h_served : Served P w (.registerSelfGlobal localPid) w' ret) :
    ProcessHistory P (es ++ [.syscall (.registerSelfGlobal localPid) ret]) w' := by
  obtain ⟨k, h_run⟩ := h_served.of_reply fun _ => rfl
  obtain ⟨now, a, list, h_next, h_slot, rfl, h_case⟩ := syscallRegisterGlobal_cases h_run
  have h_snoc : registrations (es ++ [.syscall (.registerSelfGlobal localPid) ret])
      = registrations es ++ [(localPid, ret)] := registrations_snoc es _
  -- the cursor is one entry further
  have h_a := h.slot_eq h_next h_slot
  obtain rfl := slot_eq_ok h_slot
  have h_reply : ret = -1 ∨ ret = (pidOf (registrations es).length).toInt32 := by
    -- refused as taken, refused for want of a segment file, granted
    rcases h_case with ⟨-, -, rfl⟩ | ⟨-, -, rfl, -⟩ | ⟨-, -, -, rfl, -⟩
    · exact Or.inl rfl
    · exact Or.inl rfl
    · exact Or.inr (by rw [h_a])
  -- refused or not, the cursor has moved
  refine ⟨?_, ?_, ?_⟩
  · rw [h_snoc, List.length_append, List.length_singleton]
    exact congrArg Slot.toInt32 (h_a.trans (pidOf_eq _))
  · intro n l r h_get
    rw [h_snoc] at h_get
    rcases getElem?_concat_eq_some.mp h_get with h_old | ⟨rfl, h_new⟩
    · exact h.reply n l r h_old
    · rw [← (Prod.mk.inj h_new).2]
      exact h_reply
  · intro b key h_shm
    change (list b).shm = _ at h_shm
    have h_old : list b = w.os.globalProcessList b → key = P.ftok (shmPath b.toInt32) := by
      intro h_b
      rw [h_b] at h_shm
      exact h.shm b key h_shm
    -- the entry of the cursor is written, the others are as they were
    by_cases h_b : b = a
    · subst h_b
      rcases h_case with ⟨-, rfl, -⟩ | ⟨-, -, -, rfl⟩ | ⟨-, -, -, -, rfl⟩
      · exact h_old rfl
      · rw [Function.update_self] at h_shm
        exact h.shm b key h_shm
      · rw [Function.update_self] at h_shm
        split at h_shm
        · exact (ShmAddr.attached.inj h_shm).symm
        · exact absurd h_shm (by simp)
    · rcases h_case with ⟨-, rfl, -⟩ | ⟨-, -, -, rfl⟩ | ⟨-, -, -, -, rfl⟩
      · exact h_old rfl
      · exact h_old (Function.update_of_ne h_b _ _)
      · exact h_old (Function.update_of_ne h_b _ _)

theorem ProcessHistory.step {es : List Event} {e : Event} (h : ProcessHistory P es w)
    (hstep : (osInstance P puId osPort).step w e w') : ProcessHistory P (es ++ [e]) w' := by
  cases e with
  | dsm msg ret =>
    obtain ⟨k, h_dsm⟩ := hstep
    have h_os := dsmHandlers_os h_dsm
    exact h.step_of_same rfl (by rw [h_os]) (by rw [h_os])
  | syscall call ret =>
    have h_served : Served P w call w' ret := hstep
    by_cases h_call : ∃ localPid, call = .registerSelfGlobal localPid
    · obtain ⟨localPid, rfl⟩ := h_call
      exact h.step_register h_served
    · have h_none : (Event.syscall call ret).register? = none := by
        cases call with
        | registerSelfGlobal localPid => exact absurd ⟨localPid, rfl⟩ h_call
        | _ => rfl
      -- no other syscall touches the process table
      obtain ⟨h_list, h_now⟩ := h_served.sameProcesses fun localPid h_eq => h_call ⟨localPid, h_eq⟩
      exact h.step_of_same h_none h_list h_now

theorem processHistory {es : List Event} (h : (osInstance P puId osPort).Reaches es w) :
    ProcessHistory P es w := by
  refine System.Reaches.induction (P := fun es w => ProcessHistory P es w) ?_ ?_ h
  · intro w h_init
    exact ProcessHistory.init h_init
  · intro es w e w' _ h_hist hstep
    exact h_hist.step hstep

/-! ### What the host lets through -/

/-- An OS instance with its host: a label says, beside the event, whether the host lets the instance
create the file of a segment. -/
def hostedInstance (P : Platform) (puId osPort : Int32) : System World (Bool × Event) where
  init w := globalOsInit puId osPort = .ok w.os
  step w l w' := (osInstance P puId osPort).step w l.2 w' ∧
    ∀ localPid ret, l.2 = .syscall (.registerSelfGlobal localPid) ret →
      ∃ k : Kernel, k.fopen = l.1 ∧ syscallRegisterGlobal P k w localPid = .ok (w', ret)

theorem reaches_of_hosted {es : List (Bool × Event)}
    (h : (hostedInstance P puId osPort).Reaches es w) :
    (osInstance P puId osPort).Reaches (es.map Prod.snd) w := by
  refine Reaches.induction
    (P := fun es w => (osInstance P puId osPort).Reaches (es.map Prod.snd) w) ?_ ?_ h
  · intro w h_init
    exact Reaches.start h_init
  · intro es w l w' _ ih hstep
    rw [List.map_append]
    exact ih.snoc hstep.1

/-- What the host said to the registration requests of a history, in order. -/
def files (es : List (Bool × Event)) : List Bool :=
  es.filterMap fun l => l.2.register?.map fun _ => l.1

theorem files_snoc (es : List (Bool × Event)) (l : Bool × Event) :
    files (es ++ [l]) = files es ++ (l.2.register?.map fun _ => l.1).toList :=
  filterMap_snoc _ es l

/-- **Who is granted a pid**: the first request, among those of a number modulo 4096, whose file can
be created. -/
structure FileHistory (es : List (Bool × Event)) (w : World) : Prop where
  length : (files es).length = (registrations (es.map Prod.snd)).length
  /-- If its file can be created, a request is granted its pid, or it was granted before. -/
  granted : ∀ n : ℕ, (files es)[n]? = some true →
    ∃ l, (l, (pidOf n).toInt32) ∈ registrations (es.map Prod.snd)
  /-- Else it is refused. -/
  created : ∀ (n : ℕ) l ret, (registrations (es.map Prod.snd))[n]? = some (l, ret) → ret ≠ -1 →
    (files es)[n]? = some true
  /-- The pid of a taken entry was granted. -/
  taken : ∀ a, 0 ≤ (w.os.globalProcessList a).localPid.toInt →
    ∃ l, (l, a.toInt32) ∈ registrations (es.map Prod.snd)

theorem FileHistory.init (h : globalOsInit puId osPort = .ok w.os) : FileHistory [] w := by
  obtain ⟨port, now, -, -, h_os⟩ := globalOsInit_eq_ok.mp h
  refine ⟨rfl, fun n h_get => absurd h_get (by simp [files]),
    fun n l ret h_get => absurd h_get (by simp [registrations]), fun a h_taken => ?_⟩
  rw [h_os] at h_taken
  exact absurd h_taken (show ¬ 0 ≤ (-1 : Int32).toInt by decide)

theorem FileHistory.step_register {es : List (Bool × Event)} {file : Bool} {localPid : Int32}
    (h : FileHistory es w) (h_hist : ProcessHistory P (es.map Prod.snd) w)
    (h_fopen : k.fopen = file)
    (h_run : syscallRegisterGlobal P k w localPid = .ok (w', ret)) :
    FileHistory (es ++ [(file, .syscall (.registerSelfGlobal localPid) ret)]) w' := by
  obtain ⟨now, a, list, h_next, h_slot, rfl, h_case⟩ := syscallRegisterGlobal_cases h_run
  have h_a := h_hist.slot_eq h_next h_slot
  obtain rfl := slot_eq_ok h_slot
  have h_files : files (es ++ [(file, .syscall (.registerSelfGlobal localPid) ret)])
      = files es ++ [file] := files_snoc es _
  have h_regs : registrations
      ((es ++ [(file, Event.syscall (.registerSelfGlobal localPid) ret)]).map Prod.snd)
      = registrations (es.map Prod.snd) ++ [(localPid, ret)] := by
    rw [List.map_append]
    exact registrations_snoc _ _
  have h_old : ∀ {x}, x ∈ registrations (es.map Prod.snd) →
      x ∈ registrations (es.map Prod.snd) ++ [(localPid, ret)] := List.mem_append_left _
  -- the entry of the request: taken before, or free and the file decides
  have h_here : file = true → ∃ l, (l, a.toInt32) ∈
      registrations (es.map Prod.snd) ++ [(localPid, ret)] := by
    intro h_file
    rcases h_case with ⟨h_taken, -, -⟩ | ⟨-, h_none, -, -⟩ | ⟨-, -, -, rfl, -⟩
    · exact (h.taken a h_taken).imp fun l => h_old
    · exact absurd (h_none.symm.trans (h_fopen.trans h_file)) (by simp)
    · exact ⟨localPid, List.mem_append_right _ List.mem_cons_self⟩
  refine ⟨?_, ?_, ?_, fun b h_taken => ?_⟩
  · rw [h_files, h_regs, List.length_append, List.length_append, h.length]
    rfl
  · intro n h_get
    rw [h_files] at h_get
    rw [h_regs]
    rcases getElem?_concat_eq_some.mp h_get with h_get | ⟨rfl, rfl⟩
    · exact (h.granted n h_get).imp fun l => h_old
    · rw [h.length, ← h_a]
      exact h_here rfl
  · intro n l r h_get h_ne
    rw [h_regs] at h_get
    rw [h_files]
    rcases getElem?_concat_eq_some.mp h_get with h_get | ⟨rfl, h_eq⟩
    · exact getElem?_concat_eq_some.mpr (Or.inl (h.created n l r h_get h_ne))
    · refine getElem?_concat_eq_some.mpr (Or.inr ⟨h.length.symm, ?_⟩)
      obtain ⟨-, rfl⟩ := Prod.mk.inj h_eq
      -- only the last of the three replies is not -1
      rcases h_case with ⟨-, -, rfl⟩ | ⟨-, -, rfl, -⟩ | ⟨-, h_true, -⟩
      · exact absurd rfl h_ne
      · exact absurd rfl h_ne
      · exact h_fopen.symm.trans h_true
  · rw [h_regs]
    change 0 ≤ (list b).localPid.toInt at h_taken
    have h_kept : list b = w.os.globalProcessList b → ∃ l, (l, b.toInt32) ∈
        registrations (es.map Prod.snd) ++ [(localPid, ret)] := by
      intro h_same
      rw [h_same] at h_taken
      exact (h.taken b h_taken).imp fun l => h_old
    -- an entry is taken by a grant only
    by_cases h_b : b = a
    · subst h_b
      rcases h_case with ⟨-, rfl, -⟩ | ⟨-, -, -, rfl⟩ | ⟨-, -, -, rfl, -⟩
      · exact h_kept rfl
      · rw [Function.update_self] at h_taken
        exact absurd h_taken (show ¬ 0 ≤ (-1 : Int32).toInt by decide)
      · exact ⟨localPid, List.mem_append_right _ List.mem_cons_self⟩
    · rcases h_case with ⟨-, rfl, -⟩ | ⟨-, -, -, rfl⟩ | ⟨-, -, -, -, rfl⟩
      · exact h_kept rfl
      · exact h_kept (Function.update_of_ne h_b _ _)
      · exact h_kept (Function.update_of_ne h_b _ _)

/-- An event that is no registration. -/
theorem FileHistory.step_of_same {es : List (Bool × Event)} {l : Bool × Event}
    (h : FileHistory es w) (h_event : l.2.register? = none)
    (h_list : w'.os.globalProcessList = w.os.globalProcessList) : FileHistory (es ++ [l]) w' := by
  have h_files : files (es ++ [l]) = files es := by
    rw [files_snoc, h_event]
    exact List.append_nil _
  have h_regs : registrations ((es ++ [l]).map Prod.snd) = registrations (es.map Prod.snd) := by
    rw [List.map_append, List.map_singleton, registrations_snoc, h_event]
    exact List.append_nil _
  refine ⟨?_, ?_, ?_, ?_⟩
  · rw [h_files, h_regs]
    exact h.length
  · rw [h_files, h_regs]
    exact h.granted
  · rw [h_files, h_regs]
    exact h.created
  · rw [h_list, h_regs]
    exact h.taken

theorem FileHistory.step {es : List (Bool × Event)} {l : Bool × Event} (h : FileHistory es w)
    (h_hist : ProcessHistory P (es.map Prod.snd) w)
    (hstep : (hostedInstance P puId osPort).step w l w') : FileHistory (es ++ [l]) w' := by
  obtain ⟨file, e⟩ := l
  obtain ⟨hstep, h_host⟩ := hstep
  cases e with
  | dsm msg ret =>
    obtain ⟨k, h_dsm⟩ := hstep
    exact h.step_of_same rfl (by rw [dsmHandlers_os h_dsm])
  | syscall call ret =>
    have h_served : Served P w call w' ret := hstep
    by_cases h_call : ∃ localPid, call = .registerSelfGlobal localPid
    · obtain ⟨localPid, rfl⟩ := h_call
      obtain ⟨k, h_fopen, h_run⟩ := h_host localPid ret rfl
      exact h.step_register h_hist h_fopen h_run
    · have h_none : (Event.syscall call ret).register? = none := by
        cases call with
        | registerSelfGlobal localPid => exact absurd ⟨localPid, rfl⟩ h_call
        | _ => rfl
      obtain ⟨h_list, -⟩ := h_served.sameProcesses fun localPid h_eq => h_call ⟨localPid, h_eq⟩
      exact h.step_of_same h_none h_list

theorem fileHistory {es : List (Bool × Event)} (h : (hostedInstance P puId osPort).Reaches es w) :
    FileHistory es w := by
  refine Reaches.induction (P := FileHistory) ?_ ?_ h
  · intro w h_init
    exact FileHistory.init h_init
  · intro es w l w' h_reach ih hstep
    exact ih.step (processHistory (reaches_of_hosted h_reach)) hstep

/-! ### Pids of a deployment -/

section Deployment

variable {ι : Type} [DecidableEq ι] {pu : ι ↪ Fin 8} {es : List (ι × Event)} {s : ι → World}

/-- A registration at instance `i` was granted the pid. -/
def Granted (es : List (ι × Event)) (i : ι) (pid : Int32) : Prop :=
  pid ≠ -1 ∧ ∃ localPid, (localPid, pid) ∈ registrations (labelsAt i es)

/-- No pid was granted by two instances, and FIFOs whose owners are processes of different instances
have different containers. -/
structure GlobalPids (es : List (ι × Event)) (s : ι → World) : Prop where
  pid : ∀ i j pid, Granted es i pid → Granted es j pid → i = j
  container : ∀ i j (g g' : Slot) f f', (f, g.toInt32) ∈ fifoInits (labelsAt i es) →
    (f', g'.toInt32) ∈ fifoInits (labelsAt j es) →
    Granted es i f.ownerPid → Granted es j f'.ownerPid →
    ((s i).os.globalFifoList g).perms.containerId = ((s j).os.globalFifoList g').perms.containerId →
    i = j

/-- OS instances side by side, with different PU numbers, each with its host. -/
def hostedDeployment (P : Platform) (pu : ι ↪ Fin 8) (osPort : Int32) :
    System (ι → World) (ι × Bool × Event) :=
  System.family fun i => hostedInstance P (puNumber (pu i)) osPort

/-- The events of a run. -/
def events (ls : List (ι × Bool × Event)) : List (ι × Event) := ls.map fun l => (l.1, l.2.2)

theorem labelsAt_events (ls : List (ι × Bool × Event)) (i : ι) :
    labelsAt i (events ls) = (labelsAt i ls).map Prod.snd := by
  unfold labelsAt events
  rw [List.filterMap_map, List.map_filterMap]
  congr 1
  funext l
  change (if l.1 = i then some l.2.2 else none) = Option.map Prod.snd _
  split <;> rfl

/-- A run with its hosts is a run. -/
theorem reaches_events {ls : List (ι × Bool × Event)}
    (h : (hostedDeployment P pu osPort).Reaches ls s) :
    (deployment P pu osPort).Reaches (events ls) s := by
  refine Reaches.induction
    (P := fun ls s => (deployment P pu osPort).Reaches (events ls) s) ?_ ?_ h
  · intro s h_init
    exact Reaches.start h_init
  · rintro ls s ⟨i, l⟩ t _ ih ⟨u, hstep, rfl⟩
    change (deployment P pu osPort).Reaches (List.map _ (ls ++ [(i, l)])) _
    rw [List.map_append]
    exact ih.snoc ⟨u, hstep.1, rfl⟩

/-- Every run has its hosts. -/
theorem exists_hosted (h : (deployment P pu osPort).Reaches es s) :
    ∃ ls, events ls = es ∧ (hostedDeployment P pu osPort).Reaches ls s := by
  refine Reaches.induction
    (P := fun es s => ∃ ls, events ls = es ∧ (hostedDeployment P pu osPort).Reaches ls s) ?_ ?_ h
  · intro s h_init
    exact ⟨[], rfl, Reaches.start h_init⟩
  · rintro es s ⟨i, e⟩ t _ ⟨ls, rfl, h_reach⟩ ⟨u, hstep, rfl⟩
    -- the host is that of the registration, if the event is one
    obtain ⟨file, h_file⟩ : ∃ file, (hostedInstance P (puNumber (pu i)) osPort).step (s i)
        (file, e) u := by
      by_cases h_register : ∃ localPid ret, e = .syscall (.registerSelfGlobal localPid) ret
      · obtain ⟨localPid, ret, rfl⟩ := h_register
        have h_served : Served P (s i) (.registerSelfGlobal localPid) u ret := hstep
        obtain ⟨k, h_run⟩ := h_served.of_reply fun _ => rfl
        refine ⟨k.fopen, hstep, fun l r h_eq => ?_⟩
        obtain ⟨rfl, rfl⟩ : localPid = l ∧ ret = r := by
          simpa only [Event.syscall.injEq, Syscall.registerSelfGlobal.injEq] using h_eq
        exact ⟨k, rfl, h_run⟩
      · exact ⟨true, hstep, fun l r h_eq => absurd ⟨l, r, h_eq⟩ h_register⟩
    refine ⟨ls ++ [(i, file, e)], ?_, h_reach.snoc ⟨u, h_file, rfl⟩⟩
    unfold events
    rw [List.map_append]
    rfl

/-- A pid was granted if the file of a request with its number could be created. -/
theorem granted_iff {ls : List (ι × Bool × Event)}
    (h : (hostedDeployment P pu osPort).Reaches ls s) {i : ι} {pid : Int32} :
    Granted (events ls) i pid ↔
      ∃ n : ℕ, (files (labelsAt i ls))[n]? = some true ∧ pid = (pidOf n).toInt32 := by
  have h_instance := Reaches.component h i
  have h_reply := (processHistory (reaches_of_hosted h_instance)).reply
  have h_files := fileHistory h_instance
  unfold Granted
  rw [labelsAt_events]
  constructor
  · rintro ⟨h_ne, localPid, h_mem⟩
    obtain ⟨n, h_get⟩ := List.mem_iff_getElem?.mp h_mem
    exact ⟨n, h_files.created n localPid pid h_get h_ne,
      (h_reply n localPid pid h_get).resolve_left h_ne⟩
  · rintro ⟨n, h_get, rfl⟩
    exact ⟨(pidOf n).toInt32_ne_neg_one, h_files.granted n h_get⟩

/-- The container of a FIFO is the owner that the FIFO_INIT named. -/
theorem containerId_eq (h : (deployment P pu osPort).Reaches es s) {i : ι} {g : Slot} {f : FifoInit}
    (h_mem : (f, g.toInt32) ∈ fifoInits (labelsAt i es)) :
    ((s i).os.globalFifoList g).perms.containerId = f.ownerPid := by
  rw [(deployment_history h i).entry h_mem]
  rfl

/-- The PU after a registration that was granted the entry `i`. -/
def World.registered (P : Platform) (w : World) (i : Slot) (localPid : Int32) : World :=
  { w with os := { w.os with
      globalProcessNow := i.toInt32
      globalProcessList := Function.update w.os.globalProcessList i
        ⟨w.os.currentPuId, localPid, i.toInt32, .attached (P.ftok (shmPath i.toInt32))⟩ } }

theorem World.registered_self (P : Platform) (w : World) (i : Slot) (localPid : Int32) :
    ((w.registered P i localPid).os.globalProcessList i).shm
      = .attached (P.ftok (shmPath i.toInt32)) := by
  change (Function.update w.os.globalProcessList i _ i).shm = _
  rw [Function.update_self]

theorem World.registered_of_ne (P : Platform) (w : World) {i j : Slot} (localPid : Int32)
    (h : j ≠ i) : (w.registered P i localPid).os.globalProcessList j
      = w.os.globalProcessList j := Function.update_of_ne h _ _

/-- The cursor of the process table moves on by one entry. -/
theorem nextSlot_globalProcessNow {n : Slot} (h_now : w.os.globalProcessNow = n.toInt32) :
    nextSlot w.os.globalProcessNow globalProcessListSize
      = .ok (Slot.toInt32 (Rotary.position n 1)) := by
  rw [h_now]
  exact nextSlot_toInt32 n

/-- A registration is granted when the next entry is free and the host obliges. -/
theorem syscallRegisterGlobal_granted {w : World} {n : Slot} (P : Platform) (localPid : Int32)
    (h_now : w.os.globalProcessNow = n.toInt32)
    (h_free : (w.os.globalProcessList (Rotary.position n 1)).localPid.toInt < 0) :
    syscallRegisterGlobal P .nominal w localPid
      = .ok (w.registered P (Rotary.position n 1) localPid,
          Slot.toInt32 (Rotary.position n 1)) := by
  unfold syscallRegisterGlobal
  simp only [nextSlot_globalProcessNow h_now, Exec.ok_bind, slot_toInt32, if_pos h_free]
  rfl

theorem register_step {w : World} {n : Slot} (P : Platform) (puId osPort localPid : Int32)
    (h_now : w.os.globalProcessNow = n.toInt32)
    (h_free : (w.os.globalProcessList (Rotary.position n 1)).localPid.toInt < 0) :
    (osInstance P puId osPort).step w
      (.syscall (.registerSelfGlobal localPid) (Slot.toInt32 (Rotary.position n 1)))
      (w.registered P (Rotary.position n 1) localPid) := by
  refine Served.reply (k := .nominal) ?_
  change (syscallRegisterGlobal P .nominal w localPid >>= _) = _
  rw [syscallRegisterGlobal_granted P localPid h_now h_free]
  rfl

/-- A fresh instance grants pid 1 to its first registration. -/
theorem first_register_step {w : World} (P : Platform) (localPid : Int32)
    (h : globalOsInit puId osPort = .ok w.os) :
    (osInstance P puId osPort).step w (.syscall (.registerSelfGlobal localPid) 1)
      (w.registered P 1 localPid) := by
  obtain ⟨port, now, -, -, h_os⟩ := globalOsInit_eq_ok.mp h
  refine register_step P puId osPort localPid (n := 0) ?_ ?_
  · rw [h_os]
    rfl
  · rw [h_os]
    change (-1 : Int32).toInt < 0
    decide

end Deployment

/-- **Global process names.** In every reachable state of OS instances with different PU numbers,
pids and containers are global exactly when no two instances have had registration requests of the
same number, modulo 4096, for which the host could create the segment files. -/
theorem global_pids_iff {ι : Type} [DecidableEq ι] (P : Platform) (pu : ι ↪ Fin 8) (osPort : Int32)
    (ls : List (ι × Bool × Event)) (s : ι → World)
    (h_reach : (hostedDeployment P pu osPort).Reaches ls s) :
    GlobalPids (events ls) s ↔ ∀ i j (m n : ℕ), (files (labelsAt i ls))[m]? = some true →
      (files (labelsAt j ls))[n]? = some true → m % 4096 = n % 4096 → i = j := by
  constructor
  · intro h_global i j m n h_i h_j h_mod
    refine h_global.pid i j (pidOf m).toInt32 ?_ ?_
    · exact (granted_iff h_reach).mpr ⟨m, h_i, rfl⟩
    · exact (granted_iff h_reach).mpr ⟨n, h_j, by rw [pidOf_eq_iff.mpr h_mod]⟩
  · intro h_numbers
    have h_pid : ∀ i j pid, Granted (events ls) i pid → Granted (events ls) j pid → i = j := by
      intro i j pid h_i h_j
      obtain ⟨m, h_m, rfl⟩ := (granted_iff h_reach).mp h_i
      obtain ⟨n, h_n, h_eq⟩ := (granted_iff h_reach).mp h_j
      exact h_numbers i j m n h_m h_n (pidOf_eq_iff.mp (Slot.toInt32_injective h_eq))
    refine ⟨h_pid, ?_⟩
    intro i j g g' f f' h_f h_f' h_owner h_owner' h_eq
    -- a container is its owner's pid
    rw [containerId_eq (reaches_events h_reach) h_f,
      containerId_eq (reaches_events h_reach) h_f'] at h_eq
    exact h_pid i j f.ownerPid h_owner (h_eq ▸ h_owner')

/-- A registration request is served, whatever the host says. -/
theorem exists_register {ι : Type} [DecidableEq ι] {pu : ι ↪ Fin 8} {ls : List (ι × Bool × Event)}
    {s : ι → World} (h : (hostedDeployment P pu osPort).Reaches ls s) (i : ι) (file : Bool) :
    ∃ ret t, (hostedDeployment P pu osPort).Reaches
      (ls ++ [(i, file, .syscall (.registerSelfGlobal 0) ret)]) t := by
  have h_hist := processHistory (reaches_of_hosted (Reaches.component h i))
  have h_next := nextSlot_globalProcessNow h_hist.now
  obtain ⟨⟨w', ret⟩, h_run⟩ : ∃ r, syscallRegisterGlobal P { Kernel.nominal with fopen := file }
      (s i) 0 = .ok r := by
    unfold syscallRegisterGlobal
    simp only [h_next, Exec.ok_bind, slot_toInt32]
    split
    · cases file <;> exact ⟨_, rfl⟩
    · exact ⟨_, rfl⟩
  have hstep : (hostedInstance P (puNumber (pu i)) osPort).step (s i)
      (file, .syscall (.registerSelfGlobal 0) ret) w' := by
    refine ⟨Served.reply (k := { Kernel.nominal with fopen := file }) ?_, fun l r h_eq => ?_⟩
    · change (syscallRegisterGlobal P _ (s i) 0 >>= _) = _
      rw [h_run]
      rfl
    · obtain ⟨rfl, rfl⟩ : 0 = l ∧ ret = r := by
        simpa only [Event.syscall.injEq, Syscall.registerSelfGlobal.injEq] using h_eq
      exact ⟨_, rfl, h_run⟩
  exact ⟨ret, _, h.snoc ⟨w', hstep, rfl⟩⟩

/-- Two PUs, each of which has granted a pid; the second one has refused its first request. -/
theorem global_pids_iff_two :
    ∃ ls s, (hostedDeployment ⟨true, fun _ => 0⟩ (Fin.castLEEmb (by decide : 2 ≤ 8)) 6000).Reaches
        ls s ∧ Granted (events ls) 0 1 ∧ Granted (events ls) 1 2 ∧ GlobalPids (events ls) s := by
  choose os h_os using fun i : Fin 2 =>
    exists_globalOsInit (Fin.castLEEmb (by decide : 2 ≤ 8) i) 6000 (by decide)
  have h₀ : (hostedDeployment ⟨true, fun _ => 0⟩ (Fin.castLEEmb (by decide : 2 ≤ 8)) 6000).Reaches
      [] fun i => World.boot (os i) := Reaches.start h_os
  obtain ⟨ret₁, s₁, h₁⟩ := exists_register h₀ 0 true
  obtain ⟨ret₂, s₂, h₂⟩ := exists_register h₁ 1 false
  obtain ⟨ret₃, s₃, h₃⟩ := exists_register h₂ 1 true
  let ls : List (Fin 2 × Bool × Event) := [(0, true, .syscall (.registerSelfGlobal 0) ret₁),
    (1, false, .syscall (.registerSelfGlobal 0) ret₂),
    (1, true, .syscall (.registerSelfGlobal 0) ret₃)]
  refine ⟨ls, s₃, h₃, (granted_iff h₃).mpr ⟨0, rfl, rfl⟩, (granted_iff h₃).mpr ⟨1, rfl, rfl⟩, ?_⟩
  -- request 0 of the first PU and request 1 of the second one
  have h_files : ∀ i, files (labelsAt i ls) = if i = 0 then [true] else [false, true] :=
    Fin.forall_fin_two.mpr ⟨rfl, rfl⟩
  refine (global_pids_iff _ _ _ ls s₃ h₃).mpr fun i j m n h_i h_j h_mod => ?_
  have h_number : ∀ (i : Fin 2) (m : ℕ), (if i = 0 then [true] else [false, true])[m]? = some true →
      m = i.val := by
    intro i m h_get
    obtain ⟨h_lt, h_true⟩ := List.getElem?_eq_some_iff.mp h_get
    revert i
    refine Fin.forall_fin_two.mpr ⟨fun _ h_lt _ => Nat.lt_one_iff.mp h_lt, fun h_get h_lt _ => ?_⟩
    rcases m with _ | _ | m
    · exact absurd h_get (by decide)
    · rfl
    · exact absurd h_lt (by simp)
  rw [h_files] at h_i h_j
  rw [h_number i m h_i, h_number j n h_j] at h_mod
  omega

/-- Two PUs, each of which has granted its first registration: the same pid. -/
theorem global_pids_clash :
    ∃ es s, (deployment ⟨true, fun _ => 0⟩ (Fin.castLEEmb (by decide : 2 ≤ 8)) 6000).Reaches es s ∧
      Granted es 0 1 ∧ Granted es 1 1 ∧ ¬ GlobalPids es s := by
  choose os h_os using fun i : Fin 2 =>
    exists_globalOsInit (Fin.castLEEmb (by decide : 2 ≤ 8) i) 6000 (by decide)
  have hstep := first_register_step (w := World.boot (os 0)) ⟨true, fun _ => 0⟩ 0 (h_os 0)
  have hstep' := first_register_step (w := World.boot (os 1)) ⟨true, fun _ => 0⟩ 0 (h_os 1)
  have h₀ : (deployment ⟨true, fun _ => 0⟩ (Fin.castLEEmb (by decide : 2 ≤ 8)) 6000).Reaches []
      fun i => World.boot (os i) := Reaches.start h_os
  have h₁ := h₀.snoc (l := (0, _)) ⟨_, hstep, rfl⟩
  have h₂ := h₁.snoc (l := (1, Event.syscall (.registerSelfGlobal 0) 1)) ⟨_, hstep', rfl⟩
  refine ⟨_, _, h₂, ⟨by decide, 0, List.mem_cons_self⟩, ⟨by decide, 0, List.mem_cons_self⟩, ?_⟩
  intro h_global
  exact absurd (h_global.pid 0 1 1 ⟨by decide, 0, List.mem_cons_self⟩
    ⟨by decide, 0, List.mem_cons_self⟩) (by decide)

end MoleculeOS
