import MoleculeOS.Library.Overlay
import MoleculeOS.Model.Arguments

/-!
# The names of the command line

The DSM layer is started with three names that the command line may give. A value is copied without
its NUL over the default, or over an earlier value, so what a longer one leaves behind it belongs to
the name: `-m 10.0.0.1` makes the address `10.0.0.11`. A value that fills its field has no NUL at
all, and `main` copies on into the next field; a longer one is copied past the field at once. So the
names are those given last exactly if all fit and none of these is shorter than what its field held
before (`start_names_iff`).
-/

namespace MoleculeOS

open Stdio Getopt

/-- The options that give a name. -/
inductive NameOption
  | dsmMasterAddr
  | devName
  | tlName
  deriving DecidableEq, Repr

namespace NameOption

def char : NameOption → Byte
  | .dsmMasterAddr => 'm'.toUInt8
  | .devName => 'd'.toUInt8
  | .tlName => 't'.toUInt8

/-- The name without the option. -/
def default : NameOption → List Byte
  | .dsmMasterAddr => bytes "127.0.0.1"
  | .devName => bytes "eth0"
  | .tlName => bytes "tcp"

theorem char_injective : Function.Injective char := by
  intro o o' h
  cases o <;> cases o' <;> first | rfl | exact absurd h (by decide)

theorem default_spec (o : NameOption) :
    o.default ≠ [] ∧ o.default.length < 48 ∧ ∀ b ∈ o.default, b ≠ 0 := by
  cases o <;> decide +kernel

end NameOption

/-- The field of a name. -/
def LocalArguments.field (args : LocalArguments) : NameOption → Buffer 48
  | .dsmMasterAddr => args.dsmMasterAddr
  | .devName => args.devName
  | .tlName => args.tlName

def LocalArguments.setField (args : LocalArguments) (b : Buffer 48) : NameOption → LocalArguments
  | .dsmMasterAddr => { args with dsmMasterAddr := b }
  | .devName => { args with devName := b }
  | .tlName => { args with tlName := b }

def DsmNames.field (names : DsmNames) : NameOption → Buffer 48
  | .dsmMasterAddr => names.dsmMasterAddr
  | .devName => names.devName
  | .tlName => names.tlName

theorem field_setField (args : LocalArguments) (b : Buffer 48) (o : NameOption) :
    (args.setField b o).field = Function.update args.field o b := by
  ext1 o'
  cases o <;> cases o' <;> rfl

/-! ### What the fields hold -/

/-- An option gives a name that is longer than its field. -/
def TooLong (x : Item) : Prop := ∃ o v, x = .option (NameOption.char o) v ∧ 48 < v.length

/-- The switch on an option that gives a name. -/
theorem set_name (args : LocalArguments) (o : NameOption) (v : List Byte) :
    args.set true (.option o.char v)
      = access ((args.field o).poke 0 v) >>= fun b => .ok (args.setField b o) := by
  cases o <;> rfl

/-- No other option changes a name. -/
theorem set_other (args : LocalArguments) {x : Item}
    (h : ∀ o v, x ≠ .option (NameOption.char o) v) :
    ∃ args', args.set true x = .ok args' ∧ args'.field = args.field := by
  cases x with
  | option c v =>
    have h_m : c ≠ 'm'.toUInt8 := fun h_eq => h .dsmMasterAddr v (congrArg (Item.option · v) h_eq)
    have h_d : c ≠ 'd'.toUInt8 := fun h_eq => h .devName v (congrArg (Item.option · v) h_eq)
    have h_t : c ≠ 't'.toUInt8 := fun h_eq => h .tlName v (congrArg (Item.option · v) h_eq)
    -- the options for the two numbers, then the three names, which are excluded
    simp only [LocalArguments.set]
    split
    · refine ⟨_, rfl, ?_⟩
      ext1 o
      cases o <;> rfl
    split
    · refine ⟨_, rfl, ?_⟩
      ext1 o
      cases o <;> rfl
    rw [if_neg fun h => h_m h.2, if_neg fun h => h_d h.2, if_neg fun h => h_t h.2]
    exact ⟨args, rfl, rfl⟩
  | unknown | missing => exact ⟨args, rfl, rfl⟩

theorem set_too_long (args : LocalArguments) {x : Item} (h : TooLong x) :
    args.set true x = .error .outOfBounds := by
  obtain ⟨o, v, rfl, h_len⟩ := h
  have h_none : (args.field o).poke 0 v = none := dif_neg (by omega)
  rw [set_name, h_none]
  rfl

/-- **One option** copies its value over the name. -/
theorem set_holds {args : LocalArguments} {x : Item} {t : NameOption → List Byte}
    (h : ∀ o, (args.field o).Holds (t o)) (h_x : ¬TooLong x) :
    ∃ args', args.set true x = .ok args' ∧
      ∀ o, (args'.field o).Holds ((values o.char [x]).foldl overlay (t o)) := by
  by_cases h_name : ∃ o v, x = .option (NameOption.char o) v
  · -- the value is laid over the one field, the other two stay
    obtain ⟨o, v, rfl⟩ := h_name
    have h_len : v.length ≤ 48 := by
      by_contra h_lt
      exact h_x ⟨o, v, rfl, not_le.mp h_lt⟩
    obtain ⟨b, h_poke, h_b⟩ := (h o).poke h_len
    refine ⟨args.setField b o, ?_, fun o' => ?_⟩
    · rw [set_name, h_poke, access_some, Exec.ok_bind]
    · rw [field_setField]
      by_cases h_o : o' = o
      · subst h_o
        rw [Function.update_self, values_option_self]
        exact h_b
      · rw [Function.update_of_ne h_o,
          values_option_of_ne (fun h_eq => h_o (NameOption.char_injective h_eq).symm)]
        exact h o'
  · obtain ⟨args', h_set, h_field⟩ :=
      set_other args fun o v h_eq => h_name ⟨o, v, h_eq⟩
    refine ⟨args', h_set, fun o => ?_⟩
    -- an option that gives no name adds no value to any
    have h_none : values o.char [x] = [] := by
      rw [List.eq_nil_iff_forall_not_mem]
      intro v h_v
      exact h_name ⟨o, v, (List.mem_singleton.mp (mem_values.mp h_v)).symm⟩
    rw [h_field, h_none]
    exact h o

/-- **All options**, one after the other. -/
theorem foldlM_set_holds {args : LocalArguments} {xs : List Item} {t : NameOption → List Byte}
    (h : ∀ o, (args.field o).Holds (t o)) (h_xs : ∀ x ∈ xs, ¬TooLong x) :
    ∃ args', xs.foldlM (LocalArguments.set true) args = .ok args' ∧
      ∀ o, (args'.field o).Holds ((values o.char xs).foldl overlay (t o)) := by
  -- along the options as `getopt` returns them, with the texts that the fields have got so far
  induction xs generalizing args t with
  | nil => exact ⟨args, rfl, h⟩
  | cons x xs ih =>
    rw [List.forall_mem_cons] at h_xs
    obtain ⟨args₁, h_set, h₁⟩ := set_holds h h_xs.1
    obtain ⟨args', h_fold, h'⟩ := ih h₁ h_xs.2
    refine ⟨args', ?_, fun o => ?_⟩
    · rw [List.foldlM_cons, h_set, Exec.ok_bind, h_fold]
    · rw [values_cons, List.foldl_append]
      exact h' o

/-- A name that is too long is copied past its field, wherever it stands. -/
theorem foldlM_set_too_long {args : LocalArguments} {xs : List Item} {t : NameOption → List Byte}
    (h : ∀ o, (args.field o).Holds (t o)) (h_xs : ∃ x ∈ xs, TooLong x) :
    xs.foldlM (LocalArguments.set true) args = .error .outOfBounds := by
  induction xs generalizing args t with
  | nil => exact absurd h_xs (by simp)
  | cons x xs ih =>
    rw [List.foldlM_cons]
    -- the first one that is too long ends it, and the ones before it fit
    by_cases h_x : TooLong x
    · rw [set_too_long args h_x, Exec.error_bind]
    · obtain ⟨args₁, h_set, h₁⟩ := set_holds h h_x
      rw [h_set, Exec.ok_bind]
      refine ih h₁ ?_
      obtain ⟨y, h_y, h_long⟩ := h_xs
      rcases List.mem_cons.mp h_y with rfl | h_y
      · exact absurd h_long h_x
      · exact ⟨y, h_y, h_long⟩

/-- The values given for a name, in order. -/
def given (argv : List CStr) (o : NameOption) : List (List Byte) :=
  values o.char (givenOptions true argv)

/-- The value given last, or the default. -/
def lastGiven (argv : List CStr) (o : NameOption) : List Byte := (given argv o).getLastD o.default

/-- What is in the field when all options are read. -/
def fieldText (argv : List CStr) (o : NameOption) : List Byte :=
  (given argv o).foldl overlay o.default

theorem defaultArguments_holds :
    ∃ args, defaultArguments = .ok args ∧ ∀ o, (args.field o).Holds (NameOption.default o) := by
  refine ⟨_, rfl, fun o => ?_⟩
  cases o with
  | dsmMasterAddr => exact ⟨by decide +kernel, by decide +kernel⟩
  | devName => exact ⟨by decide +kernel, by decide +kernel⟩
  | tlName => exact ⟨by decide +kernel, by decide +kernel⟩

theorem exists_tooLong_iff {argv : List CStr} :
    (∃ x ∈ givenOptions true argv, TooLong x) ↔ ∃ o, ∃ v ∈ given argv o, 48 < v.length := by
  constructor
  · rintro ⟨_, h_x, o, v, rfl, h_len⟩
    exact ⟨o, v, mem_values.mpr h_x, h_len⟩
  · rintro ⟨o, v, h_v, h_len⟩
    exact ⟨_, mem_values.mp h_v, o, v, rfl, h_len⟩

/-- **The options are read** if every name fits its field. -/
theorem localParseArguments_holds {argv : List CStr}
    (h : ∀ o, ∀ v ∈ given argv o, v.length ≤ 48) :
    ∃ args, localParseArguments true argv = .ok args ∧
      ∀ o, (args.field o).Holds (fieldText argv o) := by
  obtain ⟨args₀, h_default, h_holds⟩ := defaultArguments_holds
  have h_fit : ∀ x ∈ givenOptions true argv, ¬TooLong x := by
    intro x h_x h_long
    obtain ⟨o, v, h_v, h_len⟩ := exists_tooLong_iff.mp ⟨x, h_x, h_long⟩
    exact absurd (h o v h_v) (not_le.mpr h_len)
  obtain ⟨args, h_fold, h_args⟩ := foldlM_set_holds h_holds h_fit
  refine ⟨args, ?_, h_args⟩
  unfold localParseArguments
  rw [h_default, Exec.ok_bind, h_fold]

theorem localParseArguments_too_long {argv : List CStr}
    (h : ∃ o, ∃ v ∈ given argv o, 48 < v.length) :
    localParseArguments true argv = .error .outOfBounds := by
  obtain ⟨args₀, h_default, h_holds⟩ := defaultArguments_holds
  unfold localParseArguments
  rw [h_default, Exec.ok_bind, foldlM_set_too_long h_holds (exists_tooLong_iff.mpr h)]

/-! ### What the texts are made of -/

/-- A command line has no NUL in it. -/
theorem given_nul_free {argv : List CStr} {o : NameOption} {v : List Byte} (h : v ∈ given argv o) :
    ∀ b ∈ v, b ≠ 0 := by
  -- `getopt` cuts the arguments into pieces and makes up nothing
  have h_argv : (State.mk [] (argv.tail.map CStr.chars)).Made (· ≠ 0) := by
    refine made_argv fun a h_a => ?_
    obtain ⟨c, -, rfl⟩ := List.mem_map.mp h_a
    exact c.nul_free
  exact made_items _ h_argv _ (mem_values.mp h) _ _ rfl

theorem fieldText_nul_free {argv : List CStr} {o : NameOption} : ∀ b ∈ fieldText argv o, b ≠ 0 := by
  intro b h_b
  rcases mem_foldl_overlay h_b with h_b | ⟨v, h_v, h_b⟩
  · exact o.default_spec.2.2 b h_b
  · exact given_nul_free h_v b h_b

theorem fieldText_ne_nil (argv : List CStr) (o : NameOption) : fieldText argv o ≠ [] := by
  intro h
  have h_le : (fieldText argv o).length ≤ 0 := by rw [h]; exact Nat.le_refl _
  -- the default is not empty, and no copy makes the text shorter
  have h_default := (length_foldl_overlay_le_iff.mp h_le).1
  exact o.default_spec.1 (List.eq_nil_of_length_eq_zero (Nat.le_zero.mp h_default))

theorem length_fieldText_lt_iff {argv : List CStr} {o : NameOption} :
    (fieldText argv o).length < 48 ↔ ∀ v ∈ given argv o, v.length < 48 := by
  have h_default := o.default_spec.2.1
  simp only [Nat.lt_iff_le_pred (show 0 < 48 by decide)] at h_default ⊢
  unfold fieldText
  rw [length_foldl_overlay_le_iff]
  exact and_iff_right h_default

/-! ### What `main` stores -/

variable {t : List Byte} {b : Buffer 48}

/-- A name is copied if its field or what follows starts with a NUL behind it. -/
theorem copyName_holds (rest : List Byte) (h : b.Holds t) (h_nul : ∀ x ∈ t, x ≠ 0)
    (h_end : t.length < 48 ∨ rest.takeWhile (· ≠ 0) = []) :
    ∃ c, copyName (b.data ++ rest) = .ok c ∧ c.Holds t := by
  -- `strlen` stops in the field, or at the very end of it
  have h_text : (b.data ++ rest).takeWhile (· ≠ 0) = t := by
    rcases h.length_le.lt_or_eq with h_lt | h_eq
    · exact h.takeWhile_of_lt h_lt h_nul rest
    · rw [h.takeWhile_of_eq h_eq h_nul, h_end.resolve_left (by omega), List.append_nil]
  obtain ⟨c, h_poke, h_c⟩ := Buffer.exists_holds h.length_le
  refine ⟨c, ?_, h_c⟩
  unfold copyName
  rw [h_text, h_poke, access_some]

/-- A name that fills its field goes on with what follows. -/
theorem copyName_full {rest : List Byte} (h : b.Holds t) (h_nul : ∀ x ∈ t, x ≠ 0)
    (h_full : ¬t.length < 48) (h_rest : rest.takeWhile (· ≠ 0) ≠ []) :
    copyName (b.data ++ rest) = .error .outOfBounds := by
  have h_eq : t.length = 48 := h.length_le.antisymm (not_lt.mp h_full)
  have h_pos := List.length_pos_iff.mpr h_rest
  -- what is copied is longer than the field it is copied to
  have h_none : (Buffer.zero 48).poke 0 (t ++ rest.takeWhile (· ≠ 0)) = none :=
    dif_neg (by rw [List.length_append]; omega)
  unfold copyName
  rw [h.takeWhile_of_eq h_eq h_nul, h_none]
  rfl

/-- What follows a field starts with the next name. -/
theorem takeWhile_ne_nil (rest : List Byte) (h : b.Holds t) (h_nul : ∀ x ∈ t, x ≠ 0)
    (h_ne : t ≠ []) : (b.data ++ rest).takeWhile (· ≠ 0) ≠ [] := by
  rcases h.length_le.lt_or_eq with h_lt | h_eq
  · rwa [h.takeWhile_of_lt h_lt h_nul]
  · rw [h.takeWhile_of_eq h_eq h_nul]
    exact List.append_ne_nil_of_left_ne_nil h_ne _

theorem takeWhile_behind (behind : CStr) :
    (behind.chars ++ [0]).takeWhile (· ≠ 0) = behind.chars := by
  rw [List.takeWhile_append_of_pos (by simpa using behind.nul_free),
    List.takeWhile_cons_of_neg (by simp), List.append_nil]

/-- Every name given fits its field with a NUL, or is the last one in the structure and a NUL
follows. -/
structure NamesFit (argv : List CStr) (behind : CStr) : Prop where
  dsmMasterAddr : ∀ v ∈ given argv .dsmMasterAddr, v.length < 48
  devName : ∀ v ∈ given argv .devName, v.length < 48
  tlName_le : ∀ v ∈ given argv .tlName, v.length ≤ 48
  tlName : (∀ v ∈ given argv .tlName, v.length < 48) ∨ behind.chars = []

variable {argv : List CStr} {behind : CStr}

theorem NamesFit.le (h : NamesFit argv behind) : ∀ o, ∀ v ∈ given argv o, v.length ≤ 48 := by
  intro o v h_v
  cases o with
  | dsmMasterAddr => exact (h.dsmMasterAddr v h_v).le
  | devName => exact (h.devName v h_v).le
  | tlName => exact h.tlName_le v h_v

theorem storeNames_eq (args : LocalArguments) (behind : CStr) :
    storeNames args behind = (do
      let c₁ ← copyName ((args.field .dsmMasterAddr).data ++ ((args.field .devName).data
        ++ ((args.field .tlName).data ++ (behind.chars ++ [0]))))
      let c₂ ← copyName ((args.field .devName).data ++ ((args.field .tlName).data
        ++ (behind.chars ++ [0])))
      let c₃ ← copyName ((args.field .tlName).data ++ (behind.chars ++ [0]))
      return ⟨c₁, c₂, c₃⟩) := rfl

/-- **Names that fit are stored** as they are in the fields. -/
theorem NamesFit.mainNames (h : NamesFit argv behind) :
    ∃ names, mainNames argv behind = .ok names ∧
      ∀ o, (names.field o).Holds (fieldText argv o) := by
  obtain ⟨args, h_args, h_holds⟩ := localParseArguments_holds h.le
  have h_behind : (fieldText argv .tlName).length < 48 ∨
      (behind.chars ++ [0]).takeWhile (· ≠ 0) = [] := by
    rw [takeWhile_behind, length_fieldText_lt_iff]
    exact h.tlName
  -- the first two names end in their own fields, the last one there or just behind it
  obtain ⟨c₁, h_c₁, h₁⟩ := copyName_holds _ (h_holds .dsmMasterAddr) fieldText_nul_free
    (Or.inl (length_fieldText_lt_iff.mpr h.dsmMasterAddr))
  obtain ⟨c₂, h_c₂, h₂⟩ := copyName_holds _ (h_holds .devName) fieldText_nul_free
    (Or.inl (length_fieldText_lt_iff.mpr h.devName))
  obtain ⟨c₃, h_c₃, h₃⟩ := copyName_holds _ (h_holds .tlName) fieldText_nul_free h_behind
  refine ⟨⟨c₁, c₂, c₃⟩, ?_, fun o => ?_⟩
  · unfold MoleculeOS.mainNames
    rw [h_args, Exec.ok_bind, storeNames_eq, h_c₁, Exec.ok_bind, h_c₂, Exec.ok_bind, h_c₃]
    rfl
  · cases o with
    | dsmMasterAddr => exact h₁
    | devName => exact h₂
    | tlName => exact h₃

/-- **Names that do not fit** are copied past a field, by the options or by `main`. -/
theorem mainNames_of_not_fit (h : ¬NamesFit argv behind) :
    mainNames argv behind = .error .outOfBounds := by
  unfold mainNames
  by_cases h_le : ∀ o, ∀ v ∈ given argv o, v.length ≤ 48
  swap
  · -- an option was too long for its field already
    push Not at h_le
    rw [localParseArguments_too_long h_le, Exec.error_bind]
  obtain ⟨args, h_args, h_holds⟩ := localParseArguments_holds h_le
  rw [h_args, Exec.ok_bind, storeNames_eq]
  have h_next : ∀ o rest, ((args.field o).data ++ rest).takeWhile (· ≠ 0) ≠ [] := fun o rest =>
    takeWhile_ne_nil rest (h_holds o) fieldText_nul_free (fieldText_ne_nil argv o)
  -- else the first name that fills its field runs into the next one
  by_cases h_m : (fieldText argv .dsmMasterAddr).length < 48
  swap
  · rw [copyName_full (h_holds .dsmMasterAddr) fieldText_nul_free h_m (h_next .devName _),
      Exec.error_bind]
  obtain ⟨c₁, h_c₁, -⟩ := copyName_holds _ (h_holds .dsmMasterAddr) fieldText_nul_free (Or.inl h_m)
  rw [h_c₁, Exec.ok_bind]
  by_cases h_d : (fieldText argv .devName).length < 48
  swap
  · rw [copyName_full (h_holds .devName) fieldText_nul_free h_d (h_next .tlName _),
      Exec.error_bind]
  obtain ⟨c₂, h_c₂, -⟩ := copyName_holds _ (h_holds .devName) fieldText_nul_free (Or.inl h_d)
  rw [h_c₂, Exec.ok_bind]
  -- only the last name and what is behind it are left
  rw [length_fieldText_lt_iff] at h_m h_d
  have h_t : ¬((∀ v ∈ given argv .tlName, v.length < 48) ∨ behind.chars = []) := fun h_t =>
    h ⟨h_m, h_d, h_le .tlName, h_t⟩
  rw [not_or, ← length_fieldText_lt_iff] at h_t
  rw [copyName_full (h_holds .tlName) fieldText_nul_free h_t.1
    (by rw [takeWhile_behind]; exact h_t.2), Exec.error_bind]

/-! ### Options taken literally -/

/-- Names shorter than their fields are stored as they were given last, or as the defaults, and no
name is written past its field. -/
structure OptionsLiteral (argv : List CStr) (behind : CStr) : Prop where
  literal : (∀ o, ∀ v ∈ given argv o, v.length < 48) → ∃ names, mainNames argv behind = .ok names ∧
    ∀ o, (names.field o).cstr 0 = some (lastGiven argv o)
  inFields : mainNames argv behind ≠ .error .outOfBounds

/-- **Options are taken literally** exactly if all names fit and, when they are all short, the last
one of each option is as long as the default and as all given before it. -/
theorem start_names_iff (argv : List CStr) (behind : CStr) :
    OptionsLiteral argv behind ↔ NamesFit argv behind ∧
      ((∀ o, ∀ v ∈ given argv o, v.length < 48) →
        ∀ o, ∀ u ∈ o.default :: given argv o, u.length ≤ (lastGiven argv o).length) := by
  have h_last : ∀ o, fieldText argv o = lastGiven argv o ↔
      ∀ u ∈ o.default :: given argv o, u.length ≤ (lastGiven argv o).length := fun o =>
    foldl_overlay_eq_last_iff
  by_cases h_fit : NamesFit argv behind
  swap
  · -- no field may be left, which fails without `NamesFit`
    exact iff_of_false (fun h => h.inFields (mainNames_of_not_fit h_fit)) fun h => h_fit h.1
  obtain ⟨names, h_names, h_holds⟩ := h_fit.mainNames
  have h_cstr : (∀ o, ∀ v ∈ given argv o, v.length < 48) →
      ∀ o, (names.field o).cstr 0 = some (fieldText argv o) := fun h_short o =>
    (h_holds o).cstr (length_fieldText_lt_iff.mpr (h_short o)) fieldText_nul_free
  refine ⟨fun h => ⟨h_fit, fun h_short o => (h_last o).mp ?_⟩, ?_⟩
  · -- what is stored is the text of the field
    obtain ⟨names', h_names', h_literal⟩ := h.literal h_short
    obtain rfl := Except.ok.inj (h_names.symm.trans h_names')
    exact Option.some.inj ((h_cstr h_short o).symm.trans (h_literal o))
  · rintro ⟨-, h_longest⟩
    refine ⟨fun h_short => ⟨names, h_names, fun o => ?_⟩, fun h_error => ?_⟩
    · rw [h_cstr h_short o, (h_last o).mpr (h_longest h_short o)]
    · rw [h_names] at h_error
      exact absurd h_error (by simp)

/-- `-m 10.0.0.1` keeps the end of the default. -/
theorem start_name_mixed : ∃ names,
    mainNames [literal "moleculeos", literal "-m", literal "10.0.0.1"] (literal "") = .ok names ∧
      names.dsmMasterAddr.cstr 0 = some (bytes "10.0.0.11") ∧
      ¬OptionsLiteral [literal "moleculeos", literal "-m", literal "10.0.0.1"] (literal "") := by
  -- all three names are short, so they should be stored as given, and the last character is not
  -- given
  refine ⟨_, rfl, by decide +kernel, fun h => ?_⟩
  obtain ⟨names, h_names, h_literal⟩ := h.literal fun o => by cases o <;> decide +kernel
  obtain rfl := Except.ok.inj h_names
  exact absurd (h_literal .dsmMasterAddr) (by decide +kernel)

end MoleculeOS
