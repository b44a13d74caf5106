import MoleculeOS.Model.Exec

/-!
# The chained hash table (`util/hashtable.c`)

Set-up, `ht_reserve`, insertion with growth, `ht_contains` and `ht_lookup`, which the FIFO directory
uses, and the other operations of the table. Keys are compared and hashed as raw memory, so the
table is generic in a key type with a byte image (`RawKey`); the directory's keys are `int`s, stored
little-endian. The nodes of a chain are kept in the order the pointers link them.

Sizes and capacities are natural numbers, and allocation does not fail. In the source they are
`size_t`, an allocation is of `capacity * sizeof(HTNode*)` bytes, and the table is left without
nodes when `malloc` returns none. So the model is the source as long as the capacities that are
allocated, in bytes, stay below `2 ^ 64` (`HashTable.InRange`), and memory lasts.
-/

namespace MoleculeOS

open Stdio

/-- A type of keys with the memory they occupy. -/
class RawKey (K : Type) where
  raw : K → List Byte

/-- The four bytes of an `int`, least significant first. -/
instance : RawKey Int32 where
  raw x := [x.toUInt32.toUInt8, (x.toUInt32 >>> 8).toUInt8, (x.toUInt32 >>> 16).toUInt8,
    (x.toUInt32 >>> 24).toUInt8]

def htMinimumCapacity : ℕ := 8
def htLoadFactor : ℕ := 5
def htGrowthFactor : ℕ := 2

/-- What `ht_insert` reports. -/
inductive HtInsert
  | inserted
  | updated
  deriving DecidableEq, Repr

structure HashTable (K V : Type) where
  size : ℕ
  threshold : ℕ
  capacity : ℕ
  /-- The chains; those from `capacity` on do not exist. -/
  nodes : ℕ → List (K × V)

namespace HashTable

variable {K V : Type} [RawKey K]

/-- djb2. The bytes of the key are `char`s, so they are sign-extended before the xor. -/
def htDefaultHash (key : List Byte) : UInt64 :=
  key.foldl (fun hash byte => ((hash <<< 5) + hash) ^^^ byte.toInt8.toInt64.toUInt64) 5381

def htHash (table : HashTable K V) (key : K) : ℕ :=
  (htDefaultHash (RawKey.raw key)).toNat % table.capacity

/-- `memcmp` of the two keys. -/
def htEqual (first second : K) : Bool := RawKey.raw first == RawKey.raw second

def htAllocate (table : HashTable K V) (capacity : ℕ) : HashTable K V :=
  { table with
    nodes := fun _ => []
    capacity := capacity
    threshold := capacity * htLoadFactor }

def htSetup (capacity : ℕ) : HashTable K V :=
  htAllocate { size := 0, threshold := 0, capacity := 0, nodes := fun _ => [] }
    (if capacity < htMinimumCapacity then htMinimumCapacity else capacity)

def htPushFront (table : HashTable K V) (index : ℕ) (key : K) (value : V) : HashTable K V :=
  { table with
    nodes := Function.update table.nodes index ((key, value) :: table.nodes index) }

/-- Relink every node of the old chains at the head of its new chain. -/
def htRehash (table : HashTable K V) (old : ℕ → List (K × V)) (oldCapacity : ℕ) :
    HashTable K V :=
  (List.range oldCapacity).foldl (fun table chain =>
    (old chain).foldl (fun table node =>
      table.htPushFront (table.htHash node.1) node.1 node.2) table) table

def htResize (table : HashTable K V) (newCapacity : ℕ) : HashTable K V :=
  if newCapacity < htMinimumCapacity then
    if htMinimumCapacity < table.capacity then
      (table.htAllocate htMinimumCapacity).htRehash table.nodes table.capacity
    else table
  else (table.htAllocate newCapacity).htRehash table.nodes table.capacity

def htAdjustCapacity (table : HashTable K V) : HashTable K V :=
  table.htResize (table.size * htGrowthFactor)

def htReserve (table : HashTable K V) (minimumCapacity : ℕ) : HashTable K V :=
  if table.threshold < minimumCapacity then table.htResize (minimumCapacity / htLoadFactor)
  else table

def htShouldGrow (table : HashTable K V) : Exec Bool := do
  assert (table.size ≤ table.capacity)
  return table.size = table.capacity

/-- The value of the first node of a chain with the key. -/
def findNode (key : K) : List (K × V) → Option V
  | [] => none
  | (key', value) :: chain => if htEqual key key' then some value else findNode key chain

/-- Overwrite the value of the first node of a chain with the key, if there is one. -/
def updateNode (key : K) (value : V) : List (K × V) → Option (List (K × V))
  | [] => none
  | (key', value') :: chain =>
    if htEqual key key' then some ((key', value) :: chain)
    else (updateNode key value chain).map ((key', value') :: ·)

def htInsert (table : HashTable K V) (key : K) (value : V) : Exec (HashTable K V × HtInsert) := do
  let grow ← table.htShouldGrow
  let table := if grow then table.htAdjustCapacity else table
  let index := table.htHash key
  match updateNode key value (table.nodes index) with
  | some chain => return ({ table with nodes := Function.update table.nodes index chain }, .updated)
  | none =>
    let table := table.htPushFront index key value
    return ({ table with size := table.size + 1 }, .inserted)

def htContains (table : HashTable K V) (key : K) : Bool :=
  (findNode key (table.nodes (table.htHash key))).isSome

def htLookup (table : HashTable K V) (key : K) : Option V :=
  findNode key (table.nodes (table.htHash key))

/-! ### Erasing, clearing and copying -/

/-- `(1 / 4)`, which is 0 between integers. -/
def htShrinkThreshold : ℕ := 1 / 4

/-- What `ht_erase` reports. -/
inductive HtErase
  | success
  | notFound
  deriving DecidableEq, Repr

def htShouldShrink (table : HashTable K V) : Exec Bool := do
  assert (table.size ≤ table.capacity)
  return table.size = table.capacity * htShrinkThreshold

/-- Unlink the first node of a chain with the key, if there is one. -/
def unlinkNode (key : K) : List (K × V) → Option (List (K × V))
  | [] => none
  | (key', value') :: chain =>
    if htEqual key key' then some chain
    else (unlinkNode key chain).map ((key', value') :: ·)

/-- `--table->size` is of a size that counts the node just unlinked. -/
def htErase (table : HashTable K V) (key : K) : Exec (HashTable K V × HtErase) := do
  let index := table.htHash key
  match unlinkNode key (table.nodes index) with
  | none => return (table, .notFound)
  | some chain =>
    let table :=
      { table with nodes := Function.update table.nodes index chain, size := table.size - 1 }
    let shrink ← table.htShouldShrink
    return (if shrink then table.htAdjustCapacity else table, .success)

/-- `ht_destroy` frees the nodes; what is left of the table is set up anew. -/
def htClear (table : HashTable K V) : HashTable K V :=
  { table.htAllocate htMinimumCapacity with size := 0 }

def htIsEmpty (table : HashTable K V) : Bool := table.size == 0

/-- `ht_copy`, to a table that is not set up. Each chain is pushed node by node. -/
def htCopy (second : HashTable K V) : HashTable K V :=
  (List.range second.capacity).foldl (fun table chain =>
    (second.nodes chain).foldl (fun table node => table.htPushFront chain node.1 node.2) table)
    { htAllocate second second.capacity with size := second.size }

/-- `ht_swap` exchanges sizes and nodes, and no capacities. -/
def htSwap (first second : HashTable K V) : HashTable K V × HashTable K V :=
  ({ first with size := second.size, nodes := second.nodes },
    { second with size := first.size, nodes := first.nodes })

/-! ### Insertion never stops and stores no value but its own -/

/-- The table is large enough for its nodes, and large enough to double. -/
structure WellFormed (table : HashTable K V) : Prop where
  size_le : table.size ≤ table.capacity
  minimum_le : htMinimumCapacity ≤ table.capacity

/-- Some node of the table holds the value. -/
def Stores (table : HashTable K V) (value : V) : Prop :=
  ∃ index key, (key, value) ∈ table.nodes index

omit [RawKey K] in
theorem wellFormed_htSetup (capacity : ℕ) : (htSetup capacity : HashTable K V).WellFormed where
  size_le := Nat.zero_le _
  minimum_le := by
    change htMinimumCapacity ≤ if capacity < htMinimumCapacity then _ else capacity
    split <;> omega

omit [RawKey K] in
theorem not_stores_htSetup (capacity : ℕ) (value : V) :
    ¬ (htSetup capacity : HashTable K V).Stores value := by
  rintro ⟨index, key, h⟩
  exact absurd h List.not_mem_nil

omit [RawKey K] in
theorem stores_htPushFront {table : HashTable K V} {index : ℕ} {key : K} {value u : V}
    (h : (table.htPushFront index key value).Stores u) : u = value ∨ table.Stores u := by
  obtain ⟨i, k, h_mem⟩ := h
  change (k, u) ∈ Function.update table.nodes index _ i at h_mem
  by_cases hi : i = index
  · subst hi
    rw [Function.update_self] at h_mem
    rcases List.mem_cons.mp h_mem with h_eq | h_old
    · exact Or.inl (Prod.mk.inj h_eq).2
    · exact Or.inr ⟨i, k, h_old⟩
  · rw [Function.update_of_ne hi] at h_mem
    exact Or.inr ⟨i, k, h_mem⟩

/-- Relinking a chain keeps sizes and adds no value that the chain does not hold. -/
theorem foldl_htPushFront (chain : List (K × V)) (table : HashTable K V) :
    (chain.foldl (fun table node =>
        table.htPushFront (table.htHash node.1) node.1 node.2) table).size = table.size ∧
      (chain.foldl (fun table node =>
        table.htPushFront (table.htHash node.1) node.1 node.2) table).capacity = table.capacity ∧
      ∀ u, (chain.foldl (fun table node =>
        table.htPushFront (table.htHash node.1) node.1 node.2) table).Stores u →
          table.Stores u ∨ ∃ key, (key, u) ∈ chain := by
  induction chain generalizing table with
  | nil => exact ⟨rfl, rfl, fun u h => Or.inl h⟩
  | cons node chain ih =>
    obtain ⟨h_size, h_capacity, h_stores⟩ :=
      ih (table.htPushFront (table.htHash node.1) node.1 node.2)
    rw [List.foldl_cons]
    refine ⟨h_size, h_capacity, fun u hu => ?_⟩
    rcases h_stores u hu with h_push | ⟨key, h_mem⟩
    · rcases stores_htPushFront h_push with rfl | h_old
      · exact Or.inr ⟨node.1, List.mem_cons_self⟩
      · exact Or.inl h_old
    · exact Or.inr ⟨key, List.mem_cons_of_mem _ h_mem⟩

theorem htRehash_spec (table : HashTable K V) (old : ℕ → List (K × V)) (oldCapacity : ℕ) :
    (table.htRehash old oldCapacity).size = table.size ∧
      (table.htRehash old oldCapacity).capacity = table.capacity ∧
      ∀ u, (table.htRehash old oldCapacity).Stores u →
        table.Stores u ∨ ∃ index key, (key, u) ∈ old index := by
  unfold htRehash
  induction oldCapacity with
  | zero => exact ⟨rfl, rfl, fun u h => Or.inl h⟩
  | succ n ih =>
    -- the chains before the last one first
    obtain ⟨h_size, h_capacity, h_stores⟩ := ih
    rw [List.range_succ, List.foldl_append, List.foldl_cons, List.foldl_nil]
    obtain ⟨h_size', h_capacity', h_stores'⟩ := foldl_htPushFront (old n) _
    refine ⟨h_size'.trans h_size, h_capacity'.trans h_capacity, fun u hu => ?_⟩
    rcases h_stores' u hu with h_before | ⟨key, h_mem⟩
    · exact h_stores u h_before
    · exact Or.inr ⟨n, key, h_mem⟩

/-- A full table doubles: it keeps its values and gets room for one more node. -/
theorem htAdjustCapacity_spec {table : HashTable K V} (h : table.WellFormed)
    (h_full : table.size = table.capacity) :
    table.htAdjustCapacity.size = table.size ∧
      table.htAdjustCapacity.capacity = 2 * table.capacity ∧
      ∀ u, table.htAdjustCapacity.Stores u → table.Stores u := by
  have h_min := h.minimum_le
  -- a full table has at least the minimum, so doubling it is no shrinking below
  have h_large : ¬ table.size * htGrowthFactor < htMinimumCapacity := by
    unfold htGrowthFactor; omega
  unfold htAdjustCapacity htResize
  rw [if_neg h_large]
  obtain ⟨h_size, h_capacity, h_stores⟩ :=
    htRehash_spec (table.htAllocate (table.size * htGrowthFactor)) table.nodes table.capacity
  refine ⟨h_size, h_capacity.trans ?_, fun u hu => ?_⟩
  · change table.size * 2 = 2 * table.capacity
    omega
  · rcases h_stores u hu with ⟨index, key, h_mem⟩ | ⟨index, key, h_mem⟩
    · exact absurd h_mem List.not_mem_nil
    · exact ⟨index, key, h_mem⟩

theorem updateNode_mem {key : K} {value : V} {chain chain' : List (K × V)}
    (h : updateNode key value chain = some chain') {k : K} {u : V} (h_mem : (k, u) ∈ chain') :
    u = value ∨ (k, u) ∈ chain := by
  induction chain generalizing chain' with
  | nil => exact absurd h (by simp [updateNode])
  | cons node chain ih =>
    obtain ⟨key', value'⟩ := node
    rw [updateNode] at h
    split at h
    · obtain rfl := Option.some.inj h
      rcases List.mem_cons.mp h_mem with h_eq | h_old
      · exact Or.inl (Prod.mk.inj h_eq).2
      · exact Or.inr (List.mem_cons_of_mem _ h_old)
    · obtain ⟨c, hc, rfl⟩ := Option.map_eq_some_iff.mp h
      rcases List.mem_cons.mp h_mem with h_eq | h_old
      · exact Or.inr (h_eq ▸ List.mem_cons_self)
      · exact (ih hc h_old).imp id (List.mem_cons_of_mem _)

/-- The table that an insertion searches: a full table is doubled first. -/
def htGrown (table : HashTable K V) : HashTable K V :=
  if table.size = table.capacity then table.htAdjustCapacity else table

theorem htGrown_spec {table : HashTable K V} (h : table.WellFormed) :
    table.htGrown.size + 1 ≤ table.htGrown.capacity ∧
      htMinimumCapacity ≤ table.htGrown.capacity ∧
      ∀ u, table.htGrown.Stores u → table.Stores u := by
  have h_min := h.minimum_le
  have h_size := h.size_le
  unfold htGrown
  by_cases h_full : table.size = table.capacity
  · obtain ⟨h₁, h₂, h₃⟩ := htAdjustCapacity_spec h h_full
    rw [if_pos h_full]
    refine ⟨?_, ?_, h₃⟩
    · rw [h₁, h₂]
      unfold htMinimumCapacity at h_min
      omega
    · rw [h₂]
      omega
  · rw [if_neg h_full]
    exact ⟨by omega, h_min, fun u hu => hu⟩

/-- An insertion overwrites the node with the key, or puts a new one in front of its chain. -/
theorem htInsert_eq {table : HashTable K V} (h : table.WellFormed) (key : K) (value : V) :
    table.htInsert key value =
      match updateNode key value (table.htGrown.nodes (table.htGrown.htHash key)) with
      | some chain => .ok ({ table.htGrown with
          nodes := Function.update table.htGrown.nodes (table.htGrown.htHash key) chain }, .updated)
      | none => .ok ({ table.htGrown.htPushFront (table.htGrown.htHash key) key value with
          size := table.htGrown.size + 1 }, .inserted) := by
  -- the assertion holds, and growing is what `htGrown` is
  have h_grown : (if decide (table.size = table.capacity) = true then table.htAdjustCapacity
      else table) = table.htGrown := by
    unfold htGrown
    simp only [decide_eq_true_eq]
  unfold htInsert htShouldGrow
  rw [assert_of h.size_le]
  change (match updateNode key value (HashTable.nodes (if decide (table.size = table.capacity)
    = true then table.htAdjustCapacity else table) _) with | some _ => _ | none => _) = _
  rw [h_grown]
  rfl

/-- **Insertion** into a well-formed table returns a well-formed table, and holds no value
but the inserted one and those that were there. -/
theorem htInsert_spec {table : HashTable K V} (h : table.WellFormed) (key : K) (value : V) :
    ∃ table' code, table.htInsert key value = .ok (table', code) ∧ table'.WellFormed ∧
      ∀ u, table'.Stores u → u = value ∨ table.Stores u := by
  obtain ⟨h_room, h_min, h_stores⟩ := htGrown_spec h
  rw [htInsert_eq h]
  cases hc : updateNode key value (table.htGrown.nodes (table.htGrown.htHash key)) with
  | some chain =>
    refine ⟨_, _, rfl, ⟨Nat.le_of_succ_le h_room, h_min⟩, ?_⟩
    -- only the chain of the key changes
    rintro u ⟨i, k, h_mem⟩
    change (k, u) ∈ Function.update table.htGrown.nodes (table.htGrown.htHash key) chain i at h_mem
    by_cases hi : i = table.htGrown.htHash key
    · subst hi
      rw [Function.update_self] at h_mem
      exact (updateNode_mem hc h_mem).imp id fun h_old => h_stores u ⟨_, k, h_old⟩
    · rw [Function.update_of_ne hi] at h_mem
      exact Or.inr (h_stores u ⟨i, k, h_mem⟩)
  | none =>
    refine ⟨_, _, rfl, ⟨h_room, h_min⟩, ?_⟩
    intro u hu
    have h_push : (table.htGrown.htPushFront (table.htGrown.htHash key) key value).Stores u := hu
    exact (stores_htPushFront h_push).imp id (h_stores u)

/-- A value that is looked up is stored. -/
theorem stores_of_htLookup {table : HashTable K V} {key : K} {value : V}
    (h : table.htLookup key = some value) : table.Stores value := by
  have h_find : ∀ chain : List (K × V), findNode key chain = some value →
      ∃ k, (k, value) ∈ chain := by
    intro chain
    induction chain with
    | nil => intro h; exact absurd h (by simp [findNode])
    | cons node chain ih =>
      obtain ⟨key', value'⟩ := node
      intro h
      rw [findNode] at h
      split at h
      · exact ⟨key', by rw [Option.some.inj h]; exact List.mem_cons_self⟩
      · obtain ⟨k, hk⟩ := ih h
        exact ⟨k, List.mem_cons_of_mem _ hk⟩
  obtain ⟨k, hk⟩ := h_find _ h
  exact ⟨_, k, hk⟩

end HashTable

end MoleculeOS
