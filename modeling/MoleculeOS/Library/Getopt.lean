import Mathlib.Data.List.Basic
import Mathlib.Data.List.Infix

/-!
# Command lines: `getopt_long`

The library function on option strings that start with `+:` and options that all take an argument:
reading stops at the first element that is no option, nothing is printed, and a missing argument is
reported as such. The state is the rest of the element that is being read and the elements behind
it; `next` is one call, `items` what successive calls return until there are no more options.

An option may be given as a short one, with its argument in the same element or in the next; or as a
long one, with its argument behind `=` or in the next element, and with its name cut short as long
as no other name starts so. What an option gets for an argument is always the end of an element
(`Within`).
-/

namespace Getopt

abbrev Text := List UInt8

structure LongOption where
  name : Text
  /-- What the call returns for the option. -/
  val : UInt8

/-- The options of a program. All of them take an argument. -/
structure Options where
  short : List UInt8
  long : List LongOption

/-- What one call returns: an option with its argument, `?`, or `:`. -/
inductive Item
  | option (c : UInt8) (optarg : Text)
  | unknown
  | missing
  deriving DecidableEq, Repr

structure State where
  /-- The rest of the element that is being read. -/
  nextchar : Text
  /-- The elements behind it. -/
  argv : List Text

/-- The long option that is meant by a name. A name in full is preferred; the beginning of several
names is ambiguous, unless they stand for the same option. -/
def findLong (long : List LongOption) (name : Text) : Option LongOption :=
  match long.find? fun o => o.name = name with
  | some o => some o
  | none =>
    match long.filter fun o => name.isPrefixOf o.name with
    | [] => none
    | o :: os => if os.all fun o' => o'.val = o.val then some o else none

/-- An option takes the next element for its argument. -/
def takeNext (c : UInt8) : List Text → Item × State
  | v :: argv => (.option c v, ⟨[], argv⟩)
  | [] => (.missing, ⟨[], []⟩)

/-- An element that starts with two dashes. -/
def processLongOption (opts : Options) (text : Text) (argv : List Text) : Item × State :=
  -- the name ends at the first `=`
  match findLong opts.long (text.takeWhile (· ≠ 61)) with
  | none => (.unknown, ⟨[], argv⟩)
  | some o =>
    match text.dropWhile (· ≠ 61) with
    | _ :: v => (.option o.val v, ⟨[], argv⟩)
    | [] => takeNext o.val argv

/-- The next short option of an element. -/
def processShortOption (opts : Options) (c : UInt8) (nextchar : Text) (argv : List Text) :
    Item × State :=
  if c ∈ opts.short then
    match nextchar with
    | [] => takeNext c argv
    | v => (.option c v, ⟨[], argv⟩)
  else (.unknown, ⟨nextchar, argv⟩)

/-- The first option of an element; nothing if it is no option, or ends the options. -/
def nextElement (opts : Options) (a : Text) (argv : List Text) : Option (Item × State) :=
  match a with
  -- two dashes alone
  | [45, 45] => none
  | 45 :: 45 :: text => some (processLongOption opts text argv)
  | 45 :: c :: cs => some (processShortOption opts c cs argv)
  | _ => none

/-- One call of `getopt_long`; nothing where it returns -1. -/
def next (opts : Options) : State → Option (Item × State)
  | ⟨c :: cs, argv⟩ => some (processShortOption opts c cs argv)
  | ⟨[], a :: argv⟩ => nextElement opts a argv
  | ⟨[], []⟩ => none

/-- How much is left to read. -/
def State.size (s : State) : ℕ := s.nextchar.length + (s.argv.flatten.length + s.argv.length)

/-- What successive calls return. Every call reads something, so the size bounds their number. -/
def itemsWithin (opts : Options) : ℕ → State → List Item
  | 0, _ => []
  | n + 1, s =>
    match next opts s with
    | none => []
    | some (x, s') => x :: itemsWithin opts n s'

/-- What successive calls return until one returns -1. -/
def items (opts : Options) (s : State) : List Item := itemsWithin opts s.size s

/-- The argument, if it is one of the option. -/
def Item.arg (c : UInt8) : Item → Option Text
  | .option c' v => if c' = c then some v else none
  | _ => none

/-- The arguments of one option, in order. -/
def values (c : UInt8) (xs : List Item) : List Text := xs.filterMap (Item.arg c)

theorem values_cons (c : UInt8) (x : Item) (xs : List Item) :
    values c (x :: xs) = values c [x] ++ values c xs := List.filterMap_append (l := [x])

@[simp] theorem values_option_self (c : UInt8) (v : Text) : values c [.option c v] = [v] :=
  List.filterMap_cons_some (if_pos rfl)

theorem values_option_of_ne {c c' : UInt8} (h : c' ≠ c) (v : Text) :
    values c [.option c' v] = [] := List.filterMap_cons_none (if_neg h)

/-! ### Calls read something -/

variable {opts : Options} {s s' : State} {x : Item} {argv : List Text}

theorem size_cons (cs a : Text) (argv : List Text) :
    (State.mk cs (a :: argv)).size = cs.length + (a.length + 1) + (State.mk [] argv).size := by
  simp only [State.size, List.flatten_cons, List.length_append, List.length_cons, List.length_nil]
  omega

theorem size_argv (cs : Text) (argv : List Text) :
    (State.mk cs argv).size = cs.length + (State.mk [] argv).size := by
  simp only [State.size, List.length_nil]
  omega

theorem size_takeNext (c : UInt8) (argv : List Text) :
    (takeNext c argv).2.size ≤ (State.mk [] argv).size := by
  cases argv with
  | nil => exact le_rfl
  | cons v argv =>
    rw [size_cons]
    change (State.mk [] argv).size ≤ _
    omega

theorem size_processLongOption (opts : Options) (text : Text) (argv : List Text) :
    (processLongOption opts text argv).2.size ≤ (State.mk [] argv).size := by
  unfold processLongOption
  split
  · exact le_rfl
  · split
    · exact le_rfl
    · exact size_takeNext _ argv

theorem size_processShortOption (opts : Options) (c : UInt8) (cs : Text) (argv : List Text) :
    (processShortOption opts c cs argv).2.size ≤ (State.mk cs argv).size := by
  have h_size := size_argv cs argv
  unfold processShortOption
  split
  · split
    · exact size_takeNext c argv
    · change (State.mk [] argv).size ≤ _
      omega
  · exact le_rfl

theorem size_nextElement {a : Text} (h : nextElement opts a argv = some (x, s')) :
    s'.size < (State.mk [] (a :: argv)).size := by
  have h_cons := size_cons [] a argv
  unfold nextElement at h
  split at h
  · exact absurd h (by simp)
  · next text _ =>
    have h_size := size_processLongOption opts text argv
    rw [Option.some.inj h] at h_size
    dsimp only at h_size
    omega
  · next c cs _ _ =>
    have h_size := size_processShortOption opts c cs argv
    have h_rest := size_argv cs argv
    rw [Option.some.inj h] at h_size
    simp only [List.length_cons] at h_cons
    dsimp only at h_size
    omega
  · exact absurd h (by simp)

theorem size_next (h : next opts s = some (x, s')) : s'.size < s.size := by
  match s, h with
  | ⟨c :: cs, argv⟩, h =>
    have h_size := size_processShortOption opts c cs argv
    rw [show processShortOption opts c cs argv = (x, s') from Option.some.inj h] at h_size
    have h_cons := size_argv (c :: cs) argv
    have h_rest := size_argv cs argv
    rw [List.length_cons] at h_cons
    dsimp only at h_size
    omega
  | ⟨[], a :: argv⟩, h => exact size_nextElement h

/-- Any bound from the size on gives the same items. -/
theorem itemsWithin_eq {n : ℕ} (h : s.size ≤ n) : itemsWithin opts n s = items opts s := by
  have h_any : ∀ m n : ℕ, ∀ s : State, s.size ≤ m → s.size ≤ n →
      itemsWithin opts m s = itemsWithin opts n s := by
    intro m
    induction m with
    | zero =>
      intro n s h_m _
      -- with nothing left to read there is no option
      have h_none : next opts s = none := by
        cases h_next : next opts s with
        | none => rfl
        | some r =>
          have h_size : r.2.size < s.size := size_next h_next
          omega
      cases n with
      | zero => rfl
      | succ n => simp only [itemsWithin, h_none]
    | succ m ih =>
      intro n s h_m h_n
      cases h_next : next opts s with
      | none =>
        cases n with
        | zero => simp only [itemsWithin, h_next]
        | succ n => simp only [itemsWithin, h_next]
      | some r =>
        have h_size : r.2.size < s.size := size_next h_next
        cases n with
        | zero => omega
        | succ n =>
          simp only [itemsWithin, h_next]
          rw [ih n r.2 (by omega) (by omega)]
  exact h_any n s.size s h le_rfl

/-- **One call after the other.** -/
theorem items_eq (opts : Options) (s : State) : items opts s
    = match next opts s with
      | none => []
      | some (x, s') => x :: items opts s' := by
  cases h_next : next opts s with
  | none =>
    unfold items
    cases s.size with
    | zero => rfl
    | succ n => simp only [itemsWithin, h_next]
  | some r =>
    have h_size : r.2.size < s.size := size_next h_next
    obtain ⟨n, h_n⟩ : ∃ n, s.size = n + 1 := ⟨s.size - 1, by omega⟩
    unfold items
    rw [h_n]
    simp only [itemsWithin, h_next]
    rw [itemsWithin_eq (by omega)]
    rfl

/-! ### What arguments are made of -/

section Made

variable {p : UInt8 → Prop}

/-- All that is still to be read is made of such bytes. -/
structure State.Made (p : UInt8 → Prop) (s : State) : Prop where
  nextchar : ∀ b ∈ s.nextchar, p b
  argv : ∀ a ∈ s.argv, ∀ b ∈ a, p b

/-- So is the argument of an option. -/
def Item.Made (p : UInt8 → Prop) (x : Item) : Prop :=
  ∀ c v, x = .option c v → ∀ b ∈ v, p b

theorem made_argv (h : ∀ a ∈ argv, ∀ b ∈ a, p b) : (State.mk [] argv).Made p :=
  ⟨fun _ h_b => absurd h_b List.not_mem_nil, h⟩

theorem made_option {c : UInt8} {v : Text} (h : ∀ b ∈ v, p b) : (Item.option c v).Made p := by
  intro c' v' h_eq
  obtain ⟨-, rfl⟩ := Item.option.inj h_eq
  exact h

theorem made_takeNext (c : UInt8) (h : ∀ a ∈ argv, ∀ b ∈ a, p b) :
    (takeNext c argv).1.Made p ∧ (takeNext c argv).2.Made p := by
  cases argv with
  | nil => exact ⟨fun c' v h_eq => absurd h_eq (by simp [takeNext]), made_argv h⟩
  | cons v argv =>
    exact ⟨made_option (h v List.mem_cons_self),
      made_argv fun a h_a => h a (List.mem_cons_of_mem _ h_a)⟩

theorem made_processLongOption (opts : Options) {text : Text} (h_text : ∀ b ∈ text, p b)
    (h : ∀ a ∈ argv, ∀ b ∈ a, p b) : (processLongOption opts text argv).1.Made p ∧
      (processLongOption opts text argv).2.Made p := by
  unfold processLongOption
  split
  · exact ⟨fun c v h_eq => absurd h_eq (by simp), made_argv h⟩
  · split
    · next v h_v =>
      -- what stands behind `=` is part of the element
      refine ⟨made_option fun b h_b => h_text b ?_, made_argv h⟩
      refine (List.dropWhile_suffix (p := (· ≠ 61)) (l := text)).subset ?_
      rw [h_v]
      exact List.mem_cons_of_mem _ h_b
    · exact made_takeNext _ h

theorem made_processShortOption (opts : Options) (c : UInt8) {cs : Text} (h_cs : ∀ b ∈ cs, p b)
    (h : ∀ a ∈ argv, ∀ b ∈ a, p b) : (processShortOption opts c cs argv).1.Made p ∧
      (processShortOption opts c cs argv).2.Made p := by
  unfold processShortOption
  split
  · split
    · exact made_takeNext c h
    · exact ⟨made_option h_cs, made_argv h⟩
  · exact ⟨fun c' v h_eq => absurd h_eq (by simp), h_cs, h⟩

theorem made_next (h_next : next opts s = some (x, s')) (h : s.Made p) : x.Made p ∧ s'.Made p := by
  match s, h_next, h with
  | ⟨c :: cs, argv⟩, h_next, h =>
    have h_made := made_processShortOption opts c
      (fun b h_b => h.nextchar b (List.mem_cons_of_mem _ h_b)) h.argv
    rwa [show processShortOption opts c cs argv = (x, s') from Option.some.inj h_next] at h_made
  | ⟨[], a :: argv⟩, h_next, h =>
    have h_argv : ∀ a' ∈ argv, ∀ b ∈ a', p b := fun a' h_a' =>
      h.argv a' (List.mem_cons_of_mem _ h_a')
    have h_a := h.argv a List.mem_cons_self
    change nextElement opts a argv = _ at h_next
    unfold nextElement at h_next
    split at h_next
    · exact absurd h_next (by simp)
    · next text _ =>
      have h_made := made_processLongOption opts
        (fun b h_b => h_a b (List.mem_cons_of_mem _ (List.mem_cons_of_mem _ h_b))) h_argv
      rwa [Option.some.inj h_next] at h_made
    · next c cs _ _ =>
      have h_made := made_processShortOption opts c
        (fun b h_b => h_a b (List.mem_cons_of_mem _ (List.mem_cons_of_mem _ h_b))) h_argv
      rwa [Option.some.inj h_next] at h_made
    · exact absurd h_next (by simp)

/-- **Arguments are made of what the command line is made of.** -/
theorem made_items (opts : Options) (h : s.Made p) : ∀ x ∈ items opts s, x.Made p := by
  have h_within : ∀ n : ℕ, ∀ s : State, s.Made p → ∀ x ∈ itemsWithin opts n s, x.Made p := by
    intro n
    induction n with
    | zero => exact fun s _ x h_x => absurd h_x List.not_mem_nil
    | succ n ih =>
      intro s h x h_x
      cases h_next : next opts s with
      | none =>
        simp only [itemsWithin, h_next] at h_x
        exact absurd h_x List.not_mem_nil
      | some r =>
        obtain ⟨h_item, h_state⟩ : r.1.Made p ∧ r.2.Made p := made_next h_next h
        simp only [itemsWithin, h_next] at h_x
        rcases List.mem_cons.mp h_x with rfl | h_x
        · exact h_item
        · exact ih r.2 h_state x h_x
  exact h_within s.size s h

theorem mem_values {c : UInt8} {v : Text} {xs : List Item} :
    v ∈ values c xs ↔ .option c v ∈ xs := by
  unfold values
  rw [List.mem_filterMap]
  constructor
  · rintro ⟨x, h_x, h_v⟩
    cases x with
    | option c' v' =>
      change (if c' = c then some v' else none) = some v at h_v
      split at h_v
      · next h_c =>
        obtain rfl := Option.some.inj h_v
        rwa [← h_c]
      · exact absurd h_v (by simp)
    | unknown => exact absurd h_v (by simp [Item.arg])
    | missing => exact absurd h_v (by simp [Item.arg])
  · intro h
    exact ⟨_, h, if_pos rfl⟩

end Made

end Getopt
