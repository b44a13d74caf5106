import MoleculeOS.FifoTable
import MoleculeOS.Model.Arguments

/-!
# The PU number of the command line

The number that is given with `-i` is not checked. It goes into `pu_id * 512`, where the cursor of
the FIFO table starts. Without `-i` it is -1, and then the first FIFO_INIT selects the entry -511:
C's remainder of a negative cursor is negative, and never 0, since the cursor is one past a multiple
of 512. From 2^22 on the product overflows. Between the two all is well
(`fifo_indices_safe_iff`).
-/

namespace MoleculeOS

open Stdio Getopt

/-! ### Values given -/

/-- The last number given for an option. -/
def lastNumber (c : Byte) (default : Int32) (xs : List Item) : Int32 :=
  ((values c xs).map atoi).getLastD default

theorem lastNumber_cons (c : Byte) (default : Int32) (x : Item) (xs : List Item) :
    lastNumber c default (x :: xs) = lastNumber c (lastNumber c default [x]) xs := by
  unfold lastNumber
  rw [values_cons, List.map_append]
  rcases (values c xs).eq_nil_or_concat with h | ⟨vs, v, h⟩
  · rw [h, List.map_nil, List.append_nil]
    rfl
  · rw [h, List.concat_eq_append, List.map_append, List.map_singleton, ← List.append_assoc,
      List.getLastD_concat, List.getLastD_concat]

/-- The PU number given on the command line. -/
def givenPuId (smartc : Bool) (argv : List CStr) : Int32 :=
  lastNumber 'i'.toUInt8 (-1) (givenOptions smartc argv)

/-- The port given on the command line, to which the PU number is added. -/
def givenOsPort (smartc : Bool) (argv : List CStr) : Int32 :=
  lastNumber 'p'.toUInt8 globalOsPort (givenOptions smartc argv)

/-- Copying a name into its field leaves the numbers. -/
theorem numbers_of_copy {args args' : LocalArguments} {copied : Option (Buffer 48)}
    {store : Buffer 48 → LocalArguments}
    (h : (access copied >>= fun b => pure (store b)) = .ok args')
    (h_store : ∀ b, (store b).puId = args.puId ∧ (store b).osPort = args.osPort) :
    args'.puId = args.puId ∧ args'.osPort = args.osPort := by
  obtain ⟨b, -, h_b⟩ := Exec.bind_eq_ok.mp h
  obtain rfl := Except.ok.inj h_b
  exact h_store b

/-- One option sets at most one of the numbers. -/
theorem set_numbers {smartc : Bool} {args args' : LocalArguments} {x : Item}
    (h : args.set smartc x = .ok args') :
    args'.puId = lastNumber 'i'.toUInt8 args.puId [x] ∧
      args'.osPort = lastNumber 'p'.toUInt8 args.osPort [x] := by
  cases x with
  | option c v =>
    simp only [LocalArguments.set] at h
    unfold lastNumber
    by_cases h_i : c = 'i'.toUInt8
    · subst h_i
      rw [if_pos rfl] at h
      obtain rfl := Except.ok.inj h
      rw [values_option_self, values_option_of_ne (by decide)]
      exact ⟨rfl, rfl⟩
    rw [if_neg h_i] at h
    rw [values_option_of_ne h_i]
    by_cases h_p : c = 'p'.toUInt8
    · subst h_p
      rw [if_pos rfl] at h
      obtain rfl := Except.ok.inj h
      rw [values_option_self]
      exact ⟨rfl, rfl⟩
    rw [if_neg h_p] at h
    rw [values_option_of_ne h_p]
    -- the others copy a name, or do nothing
    split at h
    · exact numbers_of_copy h fun _ => ⟨rfl, rfl⟩
    split at h
    · exact numbers_of_copy h fun _ => ⟨rfl, rfl⟩
    split at h
    · exact numbers_of_copy h fun _ => ⟨rfl, rfl⟩
    · obtain rfl := Except.ok.inj h
      exact ⟨rfl, rfl⟩
  | unknown | missing =>
    obtain rfl := Except.ok.inj h
    exact ⟨rfl, rfl⟩

theorem foldlM_set_numbers {smartc : Bool} {args args' : LocalArguments} {xs : List Item}
    (h : xs.foldlM (LocalArguments.set smartc) args = .ok args') :
    args'.puId = lastNumber 'i'.toUInt8 args.puId xs ∧
      args'.osPort = lastNumber 'p'.toUInt8 args.osPort xs := by
  induction xs generalizing args with
  | nil =>
    obtain rfl := Except.ok.inj h
    exact ⟨rfl, rfl⟩
  | cons x xs ih =>
    rw [List.foldlM_cons] at h
    obtain ⟨args₁, h_x, h_xs⟩ := Exec.bind_eq_ok.mp h
    obtain ⟨h_i, h_p⟩ := set_numbers h_x
    rw [lastNumber_cons _ args.puId, lastNumber_cons _ args.osPort, ← h_i, ← h_p]
    exact ih h_xs

/-- The numbers that `main` starts the OS with. -/
theorem localParseArguments_numbers {smartc : Bool} {argv : List CStr} {args : LocalArguments}
    (h : localParseArguments smartc argv = .ok args) :
    args.puId = givenPuId smartc argv ∧ args.osPort = givenOsPort smartc argv := by
  obtain ⟨args₀, h_default, h_fold⟩ := Exec.bind_eq_ok.mp h
  have h_numbers : args₀.puId = -1 ∧ args₀.osPort = globalOsPort := by
    unfold defaultArguments at h_default
    obtain ⟨_, -, h_default⟩ := Exec.bind_eq_ok.mp h_default
    obtain ⟨_, -, h_default⟩ := Exec.bind_eq_ok.mp h_default
    obtain ⟨_, -, h_default⟩ := Exec.bind_eq_ok.mp h_default
    obtain rfl := Except.ok.inj h_default
    exact ⟨rfl, rfl⟩
  have h_set := foldlM_set_numbers h_fold
  rwa [h_numbers.1, h_numbers.2] at h_set

theorem atoi_decInt (x : Int32) : atoi (decInt x.toInt) = x := by
  obtain ⟨b, bs, h_head, h_space⟩ := decInt_head x.toInt
  have h_strtol : strtol (decInt x.toInt) = some (x.toInt, []) := by
    have h_all : strtol (decInt x.toInt ++ []) = some (x.toInt, []) := strtol_decInt x.toInt rfl
    rwa [List.append_nil] at h_all
  have h_drop : (decInt x.toInt).dropWhile isSpace = decInt x.toInt := by
    rw [h_head]
    exact List.dropWhile_cons_of_neg (by rw [h_space]; exact Bool.false_ne_true)
  unfold atoi
  rw [h_drop, h_strtol]
  exact storeInt_toInt x

/-- Every number can be given. -/
theorem exists_given (smartc : Bool) (x : Int32) : ∃ argv args,
    localParseArguments smartc argv = .ok args ∧ args.puId = x := by
  have h_nul : ∀ b ∈ decInt x.toInt, b ≠ 0 := by
    rintro b h_b rfl
    exact absurd (mem_decInt h_b) (by decide)
  let argv : List CStr := [literal "moleculeos", literal "-i", ⟨decInt x.toInt, h_nul⟩]
  have h_items : givenOptions smartc argv = [.option 'i'.toUInt8 (decInt x.toInt)] := by
    unfold givenOptions
    rw [items_eq]
    rfl
  obtain ⟨args, h_args⟩ : ∃ args, defaultArguments = .ok args := ⟨_, rfl⟩
  refine ⟨argv, { args with puId := atoi (decInt x.toInt) }, ?_, atoi_decInt x⟩
  unfold localParseArguments
  rw [h_args, h_items]
  rfl

/-! ### The FIFO cursor -/

/-- A sequence of FIFO_INITs. Each of them stops at an index outside of the table, and at a product
or a sum that does not fit an `int`. -/
def serveFifoInits (os : GlobalOS) : List FifoInit → Exec GlobalOS
  | [] => .ok os
  | f :: fs => do
    let (os, _) ← syscallFifoInit os f.localUuid f.ownerPid f.globalUuid
    serveFifoInits os fs

/-- The ways to stop that the code decides on. -/
def Halt.isRejection : Halt → Bool
  | .exit | .assertion | .throw => true
  | .outOfBounds | .overflow => false

/-- The OS refuses to start, or starts, and whatever FIFOs are created the indices are in range and
the arithmetic in `int`. -/
def SafeStart (puId osPort : Int32) : Prop :=
  (∃ h : Halt, h.isRejection = true ∧ globalOsInit puId osPort = .error h) ∨
    ∃ os, globalOsInit puId osPort = .ok os ∧ ∀ fs, ∃ os', serveFifoInits os fs = .ok os'

/-- Nothing is refused. -/
theorem globalOsInit_not_rejected {puId osPort : Int32} {h : Halt}
    (h_reject : h.isRejection = true) : globalOsInit puId osPort ≠ .error h := by
  unfold globalOsInit cint
  intro h_eq
  split at h_eq
  · split at h_eq
    · cases h_eq
    · cases h_eq
      exact absurd h_reject (by decide)
  · cases h_eq
    exact absurd h_reject (by decide)

/-- A negative multiple of 512 moves to a negative index. -/
theorem nextSlot_of_neg {now : Int32} {p : ℤ} (h_now : now.toInt = p * 512) (h_neg : p < 0) :
    ∃ x : Int32, nextSlot now globalFifoListSize = .ok x ∧ x.toInt < 0 := by
  have h_lo := now.le_toInt
  have h_sum := cint_of (z := now.toInt + 1) (by omega) (by omega)
  have h_tmod : (now.toInt + 1).tmod globalFifoListSize = -((-(p * 512) - 1) % 4096) := by
    rw [← Int.tmod_eq_emod_of_nonneg (by omega), ← Int.neg_tmod, h_now]
    congr 1
    omega
  -- one less than a positive multiple of 512 is no multiple of 4096
  have h_fit := cint_of (z := -((-(p * 512) - 1) % 4096)) (by omega) (by omega)
  refine ⟨Int32.ofInt (-((-(p * 512) - 1) % 4096)), ?_, ?_⟩
  · unfold nextSlot
    rw [h_sum, Exec.ok_bind, cint_eq_ok h_sum, h_tmod, h_fit]
  · rw [cint_eq_ok h_fit]
    omega

/-- A cursor from which every FIFO_INIT is served. -/
structure CursorInRange (os : GlobalOS) : Prop where
  now_nonneg : 0 ≤ os.globalFifoNow.toInt
  now_lt : os.globalFifoNow.toInt < 2 ^ 31 - 1
  table : os.fifoGuuidTable.WellFormed

theorem CursorInRange.step {os : GlobalOS} (h : CursorInRange os) (f : FifoInit) :
    ∃ os' ret, syscallFifoInit os f.localUuid f.ownerPid f.globalUuid = .ok (os', ret) ∧
      CursorInRange os' := by
  have h_lo := h.now_nonneg
  obtain ⟨i, h_i⟩ : ∃ i : Slot, (i.val : ℤ) = (os.globalFifoNow.toInt + 1) % 4096 :=
    ⟨⟨((os.globalFifoNow.toInt + 1) % 4096).toNat, by omega⟩, Int.toNat_of_nonneg (by omega)⟩
  have h_next : nextSlot os.globalFifoNow globalFifoListSize = .ok i.toInt32 :=
    nextSlot_of_nonneg h_lo h.now_lt h_i
  -- wherever it stops, the cursor is at an entry
  have h_at : ∀ os' : GlobalOS, os'.globalFifoNow = i.toInt32 → os'.fifoGuuidTable.WellFormed →
      CursorInRange os' := by
    intro os' h_now h_table
    have h_i := i.isLt
    have h_val := Slot.toInt_toInt32 i
    rw [← h_now] at h_val
    exact ⟨by omega, by omega, h_table⟩
  unfold syscallFifoInit
  simp only [h_next, Exec.ok_bind, slot_toInt32]
  split
  · split
    · obtain ⟨table, code, h_insert, h_wf, -⟩ :=
        HashTable.htInsert_spec h.table f.globalUuid i.toInt32
      rw [h_insert, Exec.ok_bind]
      exact ⟨_, _, rfl, h_at _ rfl h_wf⟩
    · exact ⟨_, _, rfl, h_at _ rfl h.table⟩
  · exact ⟨_, _, rfl, h_at _ rfl h.table⟩

/-- Every sequence of FIFO_INITs is served. -/
theorem CursorInRange.exists_serve {os : GlobalOS} (h : CursorInRange os) (fs : List FifoInit) :
    ∃ os', serveFifoInits os fs = .ok os' := by
  induction fs generalizing os with
  | nil => exact ⟨os, rfl⟩
  | cons f fs ih =>
    obtain ⟨os₁, ret, h_f, h₁⟩ := h.step f
    unfold serveFifoInits
    rw [h_f, Exec.ok_bind]
    exact ih h₁

/-- **Which PU numbers are safe.** -/
theorem safeStart_iff (puId osPort : Int32) :
    SafeStart puId osPort ↔ 0 ≤ puId.toInt ∧ puId.toInt < 2 ^ 22 ∧
      osPort.toInt + puId.toInt < 2 ^ 31 := by
  have h_port_lo := osPort.le_toInt
  constructor
  · rintro (⟨h, h_reject, h_error⟩ | ⟨os, h_init, h_serve⟩)
    · exact absurd h_error (globalOsInit_not_rejected h_reject)
    obtain ⟨port, now, h_port, h_now, rfl⟩ := globalOsInit_eq_ok.mp h_init
    have h_port := cint_eq_ok h_port
    have h_now : now.toInt = puId.toInt * 512 := cint_eq_ok h_now
    have h_port_hi := port.toInt_lt
    have h_now_hi := now.toInt_lt
    refine ⟨?_, by omega, by omega⟩
    by_contra h_neg
    -- the first FIFO_INIT selects an entry in front of the table
    obtain ⟨x, h_next, h_x⟩ := nextSlot_of_neg h_now (not_le.mp h_neg)
    obtain ⟨os', h_os'⟩ := h_serve [⟨0, 0, -1⟩]
    obtain ⟨⟨os₁, ret⟩, h_f, -⟩ := Exec.bind_eq_ok.mp h_os'
    unfold syscallFifoInit at h_f
    simp only [Exec.bind_eq_ok] at h_f
    obtain ⟨now', h_next', i, h_i, -⟩ := h_f
    obtain rfl := Except.ok.inj (h_next.symm.trans h_next')
    rw [slot_eq_ok h_i, Slot.toInt_toInt32] at h_x
    omega
  · rintro ⟨h_nonneg, h_lt, h_sum⟩
    have h_port := cint_of (z := osPort.toInt + puId.toInt) (by omega) (by omega)
    have h_now := cint_of (z := puId.toInt * 512) (by omega) (by omega)
    have h_start := cint_eq_ok h_now
    exact Or.inr ⟨_, globalOsInit_eq_ok.mpr ⟨_, _, h_port, h_now, rfl⟩,
      CursorInRange.exists_serve ⟨show 0 ≤ (Int32.ofInt (puId.toInt * 512)).toInt by omega,
        show (Int32.ofInt (puId.toInt * 512)).toInt < 2 ^ 31 - 1 by omega,
        HashTable.wellFormed_htSetup 10240⟩⟩

/-- **FIFO indices are in range** exactly if the last PU number given is from 0 to 2^22 - 1, and its
port is an `int`. -/
theorem fifo_indices_safe_iff {smartc : Bool} {argv : List CStr} {args : LocalArguments}
    (h : localParseArguments smartc argv = .ok args) :
    SafeStart args.puId args.osPort ↔ 0 ≤ (givenPuId smartc argv).toInt ∧
      (givenPuId smartc argv).toInt < 2 ^ 22 ∧
      (givenOsPort smartc argv).toInt + (givenPuId smartc argv).toInt < 2 ^ 31 := by
  obtain ⟨h_i, h_p⟩ := localParseArguments_numbers h
  rw [safeStart_iff, h_i, h_p]

/-- `moleculeos -i 0`. -/
theorem fifo_indices_safe_zero : ∃ args,
    localParseArguments false [literal "moleculeos", literal "-i", literal "0"] = .ok args ∧
      SafeStart args.puId args.osPort := by
  obtain ⟨args, h⟩ : ∃ args, localParseArguments false
      [literal "moleculeos", literal "-i", literal "0"] = .ok args := ⟨_, rfl⟩
  exact ⟨args, h, (fifo_indices_safe_iff h).mpr (by decide +kernel)⟩

/-- Without `-i` the OS starts with a cursor from which no FIFO_INIT is safe. -/
theorem fifo_indices_unsafe_default : ∃ args,
    localParseArguments false [literal "moleculeos"] = .ok args ∧
      args.puId = -1 ∧ ¬SafeStart args.puId args.osPort := by
  refine ⟨_, rfl, rfl, ?_⟩
  rw [safeStart_iff]
  decide +kernel

end MoleculeOS
