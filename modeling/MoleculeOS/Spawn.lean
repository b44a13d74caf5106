import MoleculeOS.Handlers
import MoleculeOS.Library.Packed
import MoleculeOS.Model.Interfaces

/-!
# Spawning a program

`global_spawn` packs the path and the two vectors into the client's segment and sends how many
strings there are; `syscall_gspawn` unpacks them. The packer counts the bytes it has written, the
unpacker goes by the offset of the last NUL it has seen; `packStrings_spec` and `unpackStrings_eq`
meet in the text that lies in the segment, `Buffer.packed`.

What was packed is unpacked (`spawn_round_trip`). But the arrays that the handler passes on have
eight slots and no terminator of their own, so the program gets the caller's vectors only if there
are fewer than eight strings and the memory behind the last one happens to hold a NULL
(`spawn_vectors_iff`).
-/

namespace MoleculeOS

open Stdio Buffer

variable {P : Platform} {k : Kernel} {w w' : World} {ret : Int32}

/-- The characters of the strings of a vector. -/
def strings (v : List CStr) : List (List Byte) := v.map CStr.chars

@[simp] theorem length_strings (v : List CStr) : (strings v).length = v.length := List.length_map _

/-! ### Packing -/

/-- One packing loop puts the strings behind what was there, and stays within 256 bytes. -/
theorem packStrings_spec {seg seg' : Buffer 4096} {v : List CStr} {len len' : ℕ}
    (h : packStrings seg v len = .ok (seg', len')) (h_len : len ≤ 256) :
    len' = len + (packed (strings v)).length ∧ len' ≤ 256 ∧
      seg'.data.take len' = seg.data.take len ++ packed (strings v) := by
  induction v generalizing seg len with
  | nil =>
    obtain ⟨rfl, rfl⟩ := Prod.mk.inj (Except.ok.inj h)
    exact ⟨rfl, h_len, (List.append_nil _).symm⟩
  | cons s v ih =>
    unfold packStrings at h
    simp only [Exec.bind_eq_ok, assert_eq_ok, access_eq_ok] at h
    obtain ⟨-, h_room, seg₁, h_chars, seg₂, h_nul, h_rest⟩ := h
    obtain ⟨h_len', h_le, h_data⟩ := ih h_rest h_room
    -- one round stores the string and its NUL behind what was there
    have h_front : seg₂.data.take (len + s.chars.length + 1)
        = seg.data.take len ++ s.chars ++ [0] := by
      rw [← take_add_of_poke h_chars]
      exact take_add_of_poke h_nul
    have h_strings : strings (s :: v) = s.chars :: strings v := rfl
    refine ⟨?_, h_le, ?_⟩
    · rw [h_strings, length_packed_cons, h_len']
      omega
    · rw [h_data, h_front, h_strings, packed_cons]
      simp only [List.append_assoc, List.singleton_append]

/-- **What `global_spawn` leaves in the segment**: the path and the strings of both vectors, in at
most 256 bytes. -/
theorem globalSpawnPut_spec {seg seg' : Buffer 4096} {path : CStr} {argv envp : List CStr}
    (h : globalSpawnPut seg path argv envp = .ok seg') :
    (packed (path.chars :: (strings argv ++ strings envp))).length ≤ 256 ∧
      ∃ stale, seg'.data = packed (path.chars :: (strings argv ++ strings envp)) ++ stale := by
  unfold globalSpawnPut at h
  simp only [Exec.bind_eq_ok, assert_eq_ok, access_eq_ok] at h
  obtain ⟨-, h_room, seg₁, h_chars, seg₂, h_nul, ⟨seg₃, len₁⟩, h_argv, ⟨seg₄, len₂⟩, h_envp,
    h_eq⟩ := h
  obtain rfl : seg₄ = seg' := Except.ok.inj h_eq
  obtain ⟨h_len₁, h_le₁, h_data₁⟩ := packStrings_spec h_argv h_room
  obtain ⟨h_len₂, h_le₂, h_data₂⟩ := packStrings_spec h_envp h_le₁
  have h_path : seg₂.data.take (path.chars.length + 1) = path.chars ++ [0] := by
    have h_front := take_add_of_poke h_nul
    have h_chars' := take_add_of_poke h_chars
    rw [Nat.zero_add, List.take_zero, List.nil_append] at h_chars'
    rw [h_chars'] at h_front
    exact h_front
  have h_packed : seg₄.data.take len₂
      = packed (path.chars :: (strings argv ++ strings envp)) := by
    rw [h_data₂, h_data₁, h_path, packed_cons, packed_append]
    simp only [List.append_assoc, List.cons_append, List.nil_append]
  constructor
  · rw [length_packed_cons, packed_append, List.length_append]
    omega
  · exact ⟨seg₄.data.drop len₂, by rw [← h_packed, List.take_append_drop]⟩

/-! ### Unpacking -/

/-- One unpacking loop, started at the NUL in front of packed strings, reads them and ends at the
last NUL. -/
theorem unpackStrings_eq {seg : Buffer 4096} {v : List CStr} {len : ℕ} {rest : List Byte}
    (h : seg.data.drop (len + 1) = packed (strings v) ++ rest) :
    unpackStrings seg v.length len = .ok (strings v, len + (packed (strings v)).length) := by
  induction v generalizing len with
  | nil => rfl
  | cons s v ih =>
    have h_strings : strings (s :: v) = s.chars :: strings v := rfl
    -- the string behind the NUL at `len`, and the NUL behind that string
    have h_cstr : seg.cstr (len + 1) = some s.chars := cstr_of_packed h s.nul_free
    have h_next : seg.data.drop (len + 1 + s.chars.length + 1) = packed (strings v) ++ rest := by
      rw [Nat.add_assoc, ← List.drop_drop, h, h_strings, packed_cons, List.append_assoc,
        List.cons_append, List.drop_length_add_append]
      rfl
    rw [List.length_cons]
    unfold unpackStrings
    simp only [h_cstr, access_some, Exec.ok_bind, ih h_next]
    rw [h_strings, length_packed_cons, Nat.add_assoc len, Nat.add_assoc len, Nat.add_comm 1]
    rfl

/-- **A packed segment is unpacked.** The path is at its start, the vectors follow, and the last NUL
lies below 256. -/
theorem unpackStrings_of_put {seg seg' : Buffer 4096} {path : CStr} {argv envp : List CStr}
    (h_put : globalSpawnPut seg path argv envp = .ok seg') :
    seg'.cstr 0 = some path.chars ∧
      ∃ n m, unpackStrings seg' argv.length path.chars.length = .ok (strings argv, n) ∧
        unpackStrings seg' envp.length n = .ok (strings envp, m) ∧ m < 256 := by
  obtain ⟨h_room, stale, h_data⟩ := globalSpawnPut_spec h_put
  have h_argv : seg'.data.drop (path.chars.length + 1)
      = packed (strings argv) ++ (packed (strings envp) ++ stale) := by
    rw [h_data, packed_cons, packed_append, List.append_assoc, List.cons_append,
      List.drop_length_add_append, List.append_assoc]
    rfl
  have h_envp : seg'.data.drop (path.chars.length + (packed (strings argv)).length + 1)
      = packed (strings envp) ++ stale := by
    rw [Nat.add_right_comm, ← List.drop_drop, h_argv, List.drop_left]
  refine ⟨cstr_of_packed (by rw [List.drop_zero, h_data]) path.nul_free, _, _,
    unpackStrings_eq h_argv, unpackStrings_eq h_envp, ?_⟩
  -- the unpacker ends one byte below where the packer did
  rw [length_packed_cons, packed_append, List.length_append] at h_room
  omega

/-- The counts that `global_spawn` sends are those of the vectors. -/
theorem toInt_count_of_put {seg seg' : Buffer 4096} {path : CStr} {argv envp : List CStr}
    (h_put : globalSpawnPut seg path argv envp = .ok seg') :
    (Int32.ofInt argv.length).toInt = argv.length ∧
      (Int32.ofInt envp.length).toInt = envp.length := by
  obtain ⟨h_room, -⟩ := globalSpawnPut_spec h_put
  rw [length_packed_cons, packed_append, List.length_append] at h_room
  -- every string takes a byte of the 256, so the counts fit an `int`
  have h_argc := length_le_length_packed (strings argv)
  have h_envc := length_le_length_packed (strings envp)
  rw [length_strings] at h_argc h_envc
  exact ⟨Int32.toInt_ofInt_of_le (by omega) (by omega),
    Int32.toInt_ofInt_of_le (by omega) (by omega)⟩

/-- **GSPAWN of a packed segment.** Beyond the checks of the counts nothing stops the handler, and
it calls `posix_spawn` with the path and both vectors, each over what its array held. -/
theorem syscallGspawn_of_put (puId : Int32) {key : Int32} {a : Slot} {seg : Buffer 4096}
    {path : CStr} {argv envp : List CStr} (h_shm : (w.os.globalProcessList a).shm = .attached key)
    (h_put : globalSpawnPut seg path argv envp = .ok (w.shm key)) :
    syscallGspawn P k w puId a.toInt32 (Int32.ofInt argv.length) (Int32.ofInt envp.length)
      = if argv.length < 8 ∧ envp.length < 8 then
          if P.smartc ∧ puId ≠ w.os.currentPuId then .ok (w, -1)
          else .ok ({ w with spawned := w.spawned ++ [⟨path.chars, fillSlots (strings argv) k.argv,
            fillSlots (strings envp) k.envp⟩] }, k.posixSpawn)
        else .error .assertion := by
  have h_segment : w.segment (w.os.globalProcessList a).shm = .ok (key, w.shm key) :=
    World.segment_eq_ok.mpr ⟨h_shm, rfl⟩
  obtain ⟨h_cstr, n, m, h_argv, h_envp, h_m⟩ := unpackStrings_of_put h_put
  obtain ⟨h_argc, h_envc⟩ := toInt_count_of_put h_put
  unfold syscallGspawn
  simp only [slot_toInt32, Exec.ok_bind, h_segment, h_cstr, access_some, h_argc, h_envc,
    Int.toNat_natCast, maxGspawnArgsLen]
  by_cases h_argc_lt : argv.length < 8
  · rw [assert_of (by omega), Exec.ok_bind]
    by_cases h_envc_lt : envp.length < 8
    · rw [if_pos ⟨h_argc_lt, h_envc_lt⟩, assert_of (by omega), Exec.ok_bind, h_argv, Exec.ok_bind,
        h_envp, Exec.ok_bind, assert_of h_m, Exec.ok_bind]
      rfl
    · have h_assert : assert ((envp.length : ℤ) < 8) = .error .assertion := if_neg (by omega)
      rw [if_neg fun h => h_envc_lt h.2, h_assert]
      rfl
  · have h_assert : assert ((argv.length : ℤ) < 8) = .error .assertion := if_neg (by omega)
    rw [if_neg fun h => h_argc_lt h.1, h_assert]
    rfl

/-- **Marshalling round trip.** Whatever the segment held before, the handler finds the path and the
strings of both vectors in it, in order, and the last NUL lies below 256; `posix_spawn` gets them in
the first entries of its arrays. -/
theorem spawn_round_trip (P : Platform) (k : Kernel) (w : World) (puId key : Int32) (a : Slot)
    (seg : Buffer 4096) (path : CStr) (argv envp : List CStr)
    (h_shm : (w.os.globalProcessList a).shm = .attached key) (h_argc : argv.length < 8)
    (h_envc : envp.length < 8) (h_put : globalSpawnPut seg path argv envp = .ok (w.shm key)) :
    (w.shm key).cstr 0 = some path.chars ∧
      (∃ n m, unpackStrings (w.shm key) argv.length path.chars.length = .ok (strings argv, n) ∧
        unpackStrings (w.shm key) envp.length n = .ok (strings envp, m) ∧ m < 256) ∧
      syscallGspawn P k w puId a.toInt32 (Int32.ofInt argv.length) (Int32.ofInt envp.length)
        = if P.smartc ∧ puId ≠ w.os.currentPuId then .ok (w, -1)
          else .ok ({ w with spawned := w.spawned ++ [⟨path.chars, fillSlots (strings argv) k.argv,
            fillSlots (strings envp) k.envp⟩] }, k.posixSpawn) := by
  obtain ⟨h_cstr, h_unpacked⟩ := unpackStrings_of_put h_put
  refine ⟨h_cstr, h_unpacked, ?_⟩
  rw [syscallGspawn_of_put _ h_shm h_put, if_pos ⟨h_argc, h_envc⟩]

/-- The string "a". -/
def letterA : CStr := ⟨bytes "a", by decide +kernel⟩

/-- Three arguments, of which one is empty. -/
def threeArguments : List CStr :=
  [letterA, ⟨bytes "", by decide +kernel⟩, ⟨bytes "-x", by decide +kernel⟩]

/-- Two strings for the environment. -/
def twoVariables : List CStr := [⟨bytes "A=1", by decide +kernel⟩, ⟨bytes "B=", by decide +kernel⟩]

/-- One PU with a process under pid 1, whose segment is `seg`. -/
def spawnWorld (seg : Buffer 4096) : World where
  os := { bootOs 0 8888 0 with globalProcessList := fun _ => ⟨0, 0, 1, .attached 5⟩ }
  shm := fun _ => seg
  fifos := fun _ => []
  spawned := []

/-- The path "a" with three arguments and two variables fits, and all of it is unpacked. -/
theorem spawn_round_trip_several : ∃ seg n m,
    globalSpawnPut (Buffer.zero 4096) letterA threeArguments twoVariables = .ok seg ∧
    seg.cstr 0 = some (bytes "a") ∧
    unpackStrings seg 3 1 = .ok ([bytes "a", [], bytes "-x"], n) ∧
    unpackStrings seg 2 n = .ok ([bytes "A=1", bytes "B="], m) ∧ m < 256 ∧
    syscallGspawn ⟨false, fun _ => 0⟩ .nominal (spawnWorld seg) 0 1 3 2 =
      .ok ({ spawnWorld seg with spawned := [⟨bytes "a",
        fillSlots [bytes "a", [], bytes "-x"] Kernel.nominal.argv,
        fillSlots [bytes "A=1", bytes "B="] Kernel.nominal.envp⟩] },
        Kernel.nominal.posixSpawn) := by
  have h_put : ∃ seg,
      globalSpawnPut (Buffer.zero 4096) letterA threeArguments twoVariables = .ok seg := ⟨_, rfl⟩
  obtain ⟨seg, h_put⟩ := h_put
  obtain ⟨h_path, ⟨n, m, h_argv, h_envp, h_end⟩, h_call⟩ := spawn_round_trip ⟨false, fun _ => 0⟩
    .nominal (spawnWorld seg) 0 5 1 (Buffer.zero 4096) letterA threeArguments twoVariables rfl
    (by decide) (by decide) h_put
  rw [if_neg (by simp)] at h_call
  exact ⟨seg, n, m, h_put, h_path, h_argv, h_envp, h_end, h_call⟩

/-! ### What the program gets -/

/-- A vector as `posix_spawn` reads it: up to the first NULL. There is no vector if that is not
found in the array, or a pointer before it points nowhere. -/
def readVector : List ArgSlot → Option (List (List Byte))
  | [] => none
  | .null :: _ => some []
  | .str s :: slots => (readVector slots).map (s :: ·)
  | .stray :: _ => none

theorem readVector_append (strs : List (List Byte)) (slots : List ArgSlot) :
    readVector (strs.map .str ++ slots) = (readVector slots).map (strs ++ ·) := by
  induction strs with
  | nil =>
    rw [List.map_nil, List.nil_append]
    exact Option.map_id'.symm
  | cons s strs ih =>
    rw [List.map_cons, List.cons_append]
    change (readVector (strs.map .str ++ slots)).map (s :: ·) = _
    rw [ih, Option.map_map]
    rfl

/-- An empty vector is a NULL at the start. -/
theorem readVector_eq_nil {slots : List ArgSlot} :
    readVector slots = some [] ↔ slots[0]? = some .null := by
  cases slots with
  | nil => exact ⟨fun h => absurd h (by simp [readVector]), fun h => absurd h (by simp)⟩
  | cons x slots =>
    rw [List.getElem?_cons_zero, Option.some_inj]
    cases x with
    | null => exact ⟨fun _ => rfl, fun _ => rfl⟩
    | str s => exact ⟨fun h => absurd h (by simp [readVector]), fun h => absurd h (by simp)⟩
    | stray => exact ⟨fun h => absurd h (by simp [readVector]), fun h => absurd h (by simp)⟩

/-- The strings that were filled in are the vector exactly when the next entry is NULL. -/
theorem readVector_fillSlots (strs : List (List Byte)) (slots : List ArgSlot) :
    readVector (fillSlots strs slots) = some strs ↔ slots[strs.length]? = some .null := by
  have h_head : slots[strs.length]? = (slots.drop strs.length)[0]? := by
    rw [List.getElem?_drop, Nat.add_zero]
  unfold fillSlots
  rw [readVector_append, h_head, ← readVector_eq_nil, Option.map_eq_some_iff]
  constructor
  · rintro ⟨rest, h_rest, h_eq⟩
    rwa [List.append_right_eq_self.mp h_eq] at h_rest
  · intro h_nil
    exact ⟨[], h_nil, List.append_nil _⟩

/-- `syscall_gspawn` reaches `posix_spawn`, and the program gets the caller's path and vectors. -/
def SpawnsAsCalled (P : Platform) (k : Kernel) (w : World) (puId : Int32) (a : Slot) (path : CStr)
    (argv envp : List CStr) : Prop :=
  ∃ w' ret call, syscallGspawn P k w puId a.toInt32 (Int32.ofInt argv.length)
      (Int32.ofInt envp.length) = .ok (w', ret) ∧
    w'.spawned = w.spawned ++ [call] ∧ call.path = path.chars ∧
    readVector call.argv = some (strings argv) ∧ readVector call.envp = some (strings envp)

/-- **The program gets the caller's vectors** exactly when both have fewer than eight strings and
the arrays happen to hold a NULL behind the last one. -/
theorem spawn_vectors_iff (P : Platform) (k : Kernel) (w : World) (key : Int32) (a : Slot)
    (seg : Buffer 4096) (path : CStr) (argv envp : List CStr)
    (h_shm : (w.os.globalProcessList a).shm = .attached key)
    (h_put : globalSpawnPut seg path argv envp = .ok (w.shm key)) :
    SpawnsAsCalled P k w w.os.currentPuId a path argv envp ↔
      argv.length < 8 ∧ envp.length < 8 ∧
        k.argv[argv.length]? = some .null ∧ k.envp[envp.length]? = some .null := by
  -- the program is for this PU
  have h_here : ¬ (P.smartc = true ∧ w.os.currentPuId ≠ w.os.currentPuId) := fun h => h.2 rfl
  have h_argv := readVector_fillSlots (strings argv) k.argv
  have h_envp := readVector_fillSlots (strings envp) k.envp
  rw [length_strings] at h_argv h_envp
  unfold SpawnsAsCalled
  rw [syscallGspawn_of_put _ h_shm h_put, ← h_argv, ← h_envp]
  by_cases h_counts : argv.length < 8 ∧ envp.length < 8
  · rw [if_pos h_counts, if_neg h_here]
    constructor
    · rintro ⟨w', ret, call, h_ok, h_spawned, -, h_call_argv, h_call_envp⟩
      obtain ⟨rfl, -⟩ := Prod.mk.inj (Except.ok.inj h_ok)
      obtain rfl := List.singleton_inj.mp (List.append_cancel_left h_spawned)
      exact ⟨h_counts.1, h_counts.2, h_call_argv, h_call_envp⟩
    · rintro ⟨-, -, h_call_argv, h_call_envp⟩
      exact ⟨_, _, _, rfl, rfl, rfl, h_call_argv, h_call_envp⟩
  · -- the assertion on the counts ends the process
    rw [if_neg h_counts]
    constructor
    · rintro ⟨w', ret, call, h_ok, -⟩
      exact absurd h_ok (by simp)
    · rintro ⟨h_argc, h_envc, -⟩
      exact absurd ⟨h_argc, h_envc⟩ h_counts

/-! ### Two spawns -/

/-- The program gets one argument when the arrays were zero. -/
theorem spawn_vectors_iff_one : ∃ seg, globalSpawnPut (Buffer.zero 4096) letterA [letterA] []
      = .ok seg ∧
    SpawnsAsCalled ⟨false, fun _ => 0⟩ .nominal (spawnWorld seg) 0 1 letterA [letterA] [] := by
  have h_put : ∃ seg, globalSpawnPut (Buffer.zero 4096) letterA [letterA] [] = .ok seg := ⟨_, rfl⟩
  obtain ⟨seg, h_put⟩ := h_put
  exact ⟨seg, h_put, (spawn_vectors_iff ⟨false, fun _ => 0⟩ .nominal (spawnWorld seg) 5 1
    (Buffer.zero 4096) letterA [letterA] [] rfl h_put).mpr
      ⟨by decide, by decide, by decide, by decide⟩⟩

/-- Eight arguments are packed and stop the OS; one argument is passed on without a terminator when
the array held something else. -/
theorem spawn_vectors_lost :
    (∃ seg, globalSpawnPut (Buffer.zero 4096) letterA (List.replicate 8 letterA) [] = .ok seg ∧
      ¬ SpawnsAsCalled ⟨false, fun _ => 0⟩ .nominal (spawnWorld seg) 0 1 letterA
        (List.replicate 8 letterA) []) ∧
    ∃ seg, globalSpawnPut (Buffer.zero 4096) letterA [letterA] [] = .ok seg ∧
      ¬ SpawnsAsCalled ⟨false, fun _ => 0⟩
        { Kernel.nominal with argv := List.replicate 8 .stray } (spawnWorld seg) 0 1 letterA
        [letterA] [] := by
  have h_eight : ∃ seg, globalSpawnPut (Buffer.zero 4096) letterA (List.replicate 8 letterA) []
      = .ok seg := ⟨_, rfl⟩
  have h_one : ∃ seg, globalSpawnPut (Buffer.zero 4096) letterA [letterA] [] = .ok seg := ⟨_, rfl⟩
  obtain ⟨seg, h_put⟩ := h_eight
  obtain ⟨seg', h_put'⟩ := h_one
  refine ⟨⟨seg, h_put, ?_⟩, ⟨seg', h_put', ?_⟩⟩
  · -- eight strings do not pass the assertion
    rintro ⟨w', ret, call, h_ok, -⟩
    have h_stop := syscallGspawn_of_put (P := ⟨false, fun _ => 0⟩) (k := .nominal)
      (w := spawnWorld seg) (a := 1) 0 rfl h_put
    rw [if_neg (by decide)] at h_stop
    exact absurd (h_ok.symm.trans h_stop) (by simp)
  · -- the slot behind the argument is not NULL
    rintro ⟨w', ret, call, h_ok, h_spawned, -, h_argv, -⟩
    have h_call := syscallGspawn_of_put (P := ⟨false, fun _ => 0⟩)
      (k := { Kernel.nominal with argv := List.replicate 8 .stray })
      (w := spawnWorld seg') (a := 1) 0 rfl h_put'
    rw [if_pos (by decide), if_neg (by simp)] at h_call
    obtain ⟨rfl, -⟩ := Prod.mk.inj (Except.ok.inj (h_ok.symm.trans h_call))
    obtain rfl := List.singleton_inj.mp (List.append_cancel_left h_spawned)
    exact absurd ((readVector_fillSlots _ _).mp h_argv) (by decide)

end MoleculeOS
