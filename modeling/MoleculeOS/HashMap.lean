import Mathlib.Data.List.Nodup
import MoleculeOS.Model.HashTable

/-!
# The hash table is a map

A table whose keys are told apart by their memory, whose nodes hang in the chain of their key, and
whose chains hold no key twice (`Placed`), looks every key up as a map does. Growing relinks all
nodes and turns the order of the chains round, but a lookup does not depend on the order
(`htLookup_htGrown`). So an insertion is an update of the map, whether it overwrites a node, links a
new one or grows the table first (`htInsert_map`).
-/

namespace MoleculeOS.HashTable

variable {K V : Type} [RawKey K]

/-! ### Chains -/

section Chain

variable (h_raw : Function.Injective (RawKey.raw : K → List UInt8)) {key k : K} {value v : V}
  {chain chain' : List (K × V)}

include h_raw

theorem htEqual_iff : htEqual key k = true ↔ key = k := by
  unfold htEqual
  rw [beq_iff_eq]
  exact h_raw.eq_iff

/-- A chain without duplicate keys finds exactly what it holds. -/
theorem findNode_eq_some (h_nodup : (chain.map Prod.fst).Nodup) :
    findNode key chain = some value ↔ (key, value) ∈ chain := by
  induction chain with
  | nil => exact ⟨fun h => absurd h (by simp [findNode]), fun h => absurd h List.not_mem_nil⟩
  | cons node chain ih =>
    obtain ⟨key', value'⟩ := node
    rw [List.map_cons, List.nodup_cons] at h_nodup
    obtain ⟨h_new, h_nodup⟩ := h_nodup
    rw [findNode, List.mem_cons, Prod.mk.injEq]
    by_cases h_key : key = key'
    · subst h_key
      rw [if_pos ((htEqual_iff h_raw).mpr rfl), Option.some_inj]
      constructor
      · rintro rfl
        exact Or.inl ⟨rfl, rfl⟩
      · rintro (⟨-, rfl⟩ | h_mem)
        · rfl
        · -- the key would hang there a second time
          exact absurd (List.mem_map_of_mem (f := Prod.fst) h_mem) h_new
    · rw [if_neg fun h => h_key ((htEqual_iff h_raw).mp h), ih h_nodup]
      exact ⟨Or.inr, fun h => h.resolve_left fun h_eq => h_key h_eq.1⟩

theorem findNode_cons [DecidableEq K] : findNode k ((key, value) :: chain)
    = if k = key then some value else findNode k chain := by
  rw [findNode]
  by_cases h_key : k = key
  · rw [if_pos h_key, if_pos ((htEqual_iff h_raw).mpr h_key)]
  · rw [if_neg h_key, if_neg fun h => h_key ((htEqual_iff h_raw).mp h)]

/-- Overwriting a node keeps the keys and changes what is found under its own. -/
theorem updateNode_eq_some [DecidableEq K] (h : updateNode key value chain = some chain') :
    chain'.map Prod.fst = chain.map Prod.fst ∧
      ∀ k, findNode k chain' = if k = key then some value else findNode k chain := by
  induction chain generalizing chain' with
  | nil => exact absurd h (by simp [updateNode])
  | cons node chain ih =>
    obtain ⟨key', value'⟩ := node
    rw [updateNode] at h
    by_cases h_key : key = key'
    · subst h_key
      rw [if_pos ((htEqual_iff h_raw).mpr rfl)] at h
      obtain rfl := Option.some.inj h
      refine ⟨rfl, fun k => ?_⟩
      rw [findNode_cons h_raw, findNode_cons h_raw]
      by_cases h_k : k = key
      · rw [if_pos h_k, if_pos h_k]
      · rw [if_neg h_k, if_neg h_k, if_neg h_k]
    · -- the node that is overwritten is further down
      rw [if_neg fun h => h_key ((htEqual_iff h_raw).mp h)] at h
      obtain ⟨rest, h_rest, rfl⟩ := Option.map_eq_some_iff.mp h
      obtain ⟨h_keys, h_find⟩ := ih h_rest
      refine ⟨by rw [List.map_cons, List.map_cons, h_keys], fun k => ?_⟩
      rw [findNode_cons h_raw, findNode_cons h_raw, h_find]
      by_cases h_k : k = key'
      · rw [if_pos h_k, if_pos h_k, if_neg fun h => h_key (h.symm.trans h_k)]
      · rw [if_neg h_k, if_neg h_k]

/-- A key that is not overwritten is not in the chain. -/
theorem updateNode_eq_none (h : updateNode key value chain = none) :
    key ∉ chain.map Prod.fst := by
  induction chain with
  | nil => exact List.not_mem_nil
  | cons node chain ih =>
    obtain ⟨key', value'⟩ := node
    rw [updateNode] at h
    by_cases h_key : key = key'
    · rw [if_pos ((htEqual_iff h_raw).mpr h_key)] at h
      exact absurd h (by simp)
    · rw [if_neg fun h => h_key ((htEqual_iff h_raw).mp h)] at h
      rw [List.map_cons, List.mem_cons]
      rintro (h_eq | h_mem)
      · exact h_key h_eq
      · exact ih (Option.map_eq_none_iff.mp h) h_mem

end Chain

/-! ### Placement -/

/-- Every node hangs in the chain of its key, and no key hangs there twice. -/
structure Placed (table : HashTable K V) : Prop where
  index : ∀ i, ∀ node ∈ table.nodes i, table.htHash node.1 = i
  nodup : ∀ i, ((table.nodes i).map Prod.fst).Nodup

theorem placed_htSetup (capacity : ℕ) : (htSetup capacity : HashTable K V).Placed where
  index _ _ h := absurd h List.not_mem_nil
  nodup _ := List.nodup_nil

variable {table table' : HashTable K V}

theorem htLookup_eq_some (h_raw : Function.Injective (RawKey.raw : K → List UInt8))
    (h : table.Placed) {key : K} {value : V} :
    table.htLookup key = some value ↔ (key, value) ∈ table.nodes (table.htHash key) :=
  findNode_eq_some h_raw (h.nodup _)

/-- All nodes of a table, chain by chain. -/
def allNodes (table : HashTable K V) : List (K × V) :=
  (List.range table.capacity).flatMap table.nodes

theorem htHash_lt (h : table.WellFormed) (key : K) : table.htHash key < table.capacity := by
  have h_min := h.minimum_le
  unfold htMinimumCapacity at h_min
  exact Nat.mod_lt _ (by omega)

theorem mem_allNodes (h_wf : table.WellFormed) (h : table.Placed) {node : K × V} :
    node ∈ table.allNodes ↔ node ∈ table.nodes (table.htHash node.1) := by
  unfold allNodes
  rw [List.mem_flatMap]
  constructor
  · rintro ⟨i, -, h_mem⟩
    rwa [h.index i node h_mem]
  · intro h_mem
    exact ⟨_, List.mem_range.mpr (htHash_lt h_wf node.1), h_mem⟩

/-- No key occurs twice in the whole table: keys of different chains have different hashes. -/
theorem nodup_allNodes (h : table.Placed) : (table.allNodes.map Prod.fst).Nodup := by
  unfold allNodes
  rw [List.map_flatMap, List.nodup_flatMap]
  refine ⟨fun i _ => h.nodup i, ?_⟩
  -- a key in two chains would have two hashes
  refine List.Pairwise.imp_of_mem ?_ List.nodup_range
  intro i j _ _ h_ij key h_i h_j
  obtain ⟨node, h_node, rfl⟩ := List.mem_map.mp h_i
  obtain ⟨node', h_node', h_key⟩ := List.mem_map.mp h_j
  exact h_ij ((h.index i node h_node).symm.trans (h_key ▸ h.index j node' h_node'))

/-! ### Growing -/

/-- Relinking nodes puts each in front of the chain of its key, so a chain ends up turned round. -/
theorem nodes_foldl_htPushFront (nodes : List (K × V)) (table : HashTable K V) (i : ℕ) :
    (nodes.foldl (fun table node => table.htPushFront (table.htHash node.1) node.1 node.2)
        table).nodes i
      = (nodes.filter fun node => table.htHash node.1 = i).reverse ++ table.nodes i := by
  induction nodes generalizing table with
  | nil => rfl
  | cons node nodes ih =>
    rw [List.foldl_cons, ih]
    -- the hash depends on the capacity alone
    change (nodes.filter fun node => table.htHash node.1 = i).reverse
      ++ Function.update table.nodes (table.htHash node.1) _ i = _
    by_cases h_i : table.htHash node.1 = i
    · rw [List.filter_cons_of_pos (by simpa using h_i), List.reverse_cons, List.append_assoc, ← h_i,
        Function.update_self]
      rfl
    · rw [List.filter_cons_of_neg (by simpa using h_i), Function.update_of_ne (Ne.symm h_i)]

/-- The chains of a relinked table. -/
theorem nodes_htRehash (capacity i : ℕ) :
    ((table.htAllocate capacity).htRehash table.nodes table.capacity).nodes i
      = (table.allNodes.filter fun node =>
          (table.htAllocate capacity).htHash node.1 = i).reverse := by
  unfold htRehash allNodes
  rw [← List.foldl_flatMap, nodes_foldl_htPushFront]
  exact List.append_nil _

theorem htHash_htRehash (old : ℕ → List (K × V)) (oldCapacity : ℕ) (key : K) :
    (table.htRehash old oldCapacity).htHash key = table.htHash key := by
  unfold htHash
  rw [(htRehash_spec table old oldCapacity).2.1]

/-- A relinked table holds the same nodes, each in its chain. -/
theorem placed_htRehash (h : table.Placed) (capacity : ℕ) :
    ((table.htAllocate capacity).htRehash table.nodes table.capacity).Placed where
  index i node h_mem := by
    rw [nodes_htRehash, List.mem_reverse, List.mem_filter] at h_mem
    rw [htHash_htRehash]
    simpa using h_mem.2
  nodup i := by
    rw [nodes_htRehash, List.map_reverse, List.nodup_reverse]
    exact (nodup_allNodes h).sublist (List.filter_sublist.map _)

theorem htLookup_htRehash (h_raw : Function.Injective (RawKey.raw : K → List UInt8))
    (h_wf : table.WellFormed) (h : table.Placed) (capacity : ℕ) (key : K) :
    ((table.htAllocate capacity).htRehash table.nodes table.capacity).htLookup key
      = table.htLookup key := by
  -- both lookups say whether the node is there, and relinking keeps the nodes
  refine Option.ext fun value => ?_
  rw [htLookup_eq_some h_raw (placed_htRehash h capacity), htLookup_eq_some h_raw h,
    nodes_htRehash, List.mem_reverse, List.mem_filter, mem_allNodes h_wf h, htHash_htRehash]
  simp only [decide_true, and_true]

theorem htGrown_eq (h_wf : table.WellFormed) : table.htGrown = table ∨
    ∃ capacity, table.htGrown
      = (table.htAllocate capacity).htRehash table.nodes table.capacity := by
  have h_min := h_wf.minimum_le
  unfold htGrown
  by_cases h_full : table.size = table.capacity
  · -- twice the size is above the least capacity
    have h_large : ¬ table.size * htGrowthFactor < htMinimumCapacity := by
      unfold htGrowthFactor
      omega
    rw [if_pos h_full]
    unfold htAdjustCapacity htResize
    rw [if_neg h_large]
    exact Or.inr ⟨_, rfl⟩
  · rw [if_neg h_full]
    exact Or.inl rfl

theorem placed_htGrown (h_wf : table.WellFormed) (h : table.Placed) : table.htGrown.Placed := by
  rcases htGrown_eq h_wf with h_same | ⟨capacity, h_relinked⟩
  · rw [h_same]
    exact h
  · rw [h_relinked]
    exact placed_htRehash h capacity

theorem htLookup_htGrown (h_raw : Function.Injective (RawKey.raw : K → List UInt8))
    (h_wf : table.WellFormed) (h : table.Placed) (key : K) :
    table.htGrown.htLookup key = table.htLookup key := by
  rcases htGrown_eq h_wf with h_same | ⟨capacity, h_relinked⟩
  · rw [h_same]
  · rw [h_relinked]
    exact htLookup_htRehash h_raw h_wf h capacity key

/-! ### Insertion -/

/-- Changing the chain of one key to one that holds keys of that chain and the key. -/
theorem placed_update (h : table.Placed) {key : K} {chain : List (K × V)} {size : ℕ}
    (h_index : ∀ node ∈ chain, table.htHash node.1 = table.htHash key)
    (h_nodup : (chain.map Prod.fst).Nodup) :
    ({ table with
        nodes := Function.update table.nodes (table.htHash key) chain, size := size } :
      HashTable K V).Placed where
  index i node h_mem := by
    change node ∈ Function.update table.nodes (table.htHash key) chain i at h_mem
    change table.htHash node.1 = i
    by_cases h_i : i = table.htHash key
    · subst h_i
      rw [Function.update_self] at h_mem
      exact h_index node h_mem
    · rw [Function.update_of_ne h_i] at h_mem
      exact h.index i node h_mem
  nodup i := by
    change ((Function.update table.nodes (table.htHash key) chain i).map Prod.fst).Nodup
    by_cases h_i : i = table.htHash key
    · rw [h_i, Function.update_self]
      exact h_nodup
    · rw [Function.update_of_ne h_i]
      exact h.nodup i

/-- The lookups after the chain of one key was changed, and what is found in it under that key
alone. -/
theorem htLookup_update [DecidableEq K] (table : HashTable K V) {key : K} {value : V}
    {chain : List (K × V)} {size : ℕ} (h_find : ∀ k, findNode k chain
      = if k = key then some value else findNode k (table.nodes (table.htHash key))) :
    ({ table with
        nodes := Function.update table.nodes (table.htHash key) chain, size := size } :
      HashTable K V).htLookup = Function.update table.htLookup key (some value) := by
  funext k
  change findNode k (Function.update table.nodes (table.htHash key) chain (table.htHash k)) = _
  by_cases h_key : k = key
  · rw [h_key, Function.update_self, Function.update_self, h_find, if_pos rfl]
  · rw [Function.update_of_ne h_key]
    unfold htLookup
    by_cases h_hash : table.htHash k = table.htHash key
    · -- another key of the same chain
      rw [h_hash, Function.update_self, h_find, if_neg h_key]
    · rw [Function.update_of_ne h_hash]

/-- **Insertion is an update of the map.** It returns, and keeps the table in order. -/
theorem htInsert_map [DecidableEq K]
    (h_raw : Function.Injective (RawKey.raw : K → List UInt8)) (h_wf : table.WellFormed)
    (h : table.Placed) {key : K} {value : V} {code : HtInsert}
    (h_insert : table.htInsert key value = .ok (table', code)) :
    table'.WellFormed ∧ table'.Placed ∧
      table'.htLookup = Function.update table.htLookup key (some value) := by
  have h_grown := placed_htGrown h_wf h
  have h_lookup : table.htGrown.htLookup = table.htLookup :=
    funext fun k => htLookup_htGrown h_raw h_wf h k
  obtain ⟨t, c, h_spec, h_wf', -⟩ := htInsert_spec h_wf key value
  obtain ⟨rfl, -⟩ := Prod.mk.inj (Except.ok.inj (h_spec.symm.trans h_insert))
  refine ⟨h_wf', ?_⟩
  rw [← h_lookup]
  -- the table has grown if it was full, and its nodes are still the old ones
  rw [htInsert_eq h_wf] at h_insert
  cases h_update : updateNode key value (table.htGrown.nodes (table.htGrown.htHash key)) with
  | some chain =>
    rw [h_update] at h_insert
    obtain ⟨rfl, -⟩ := Prod.mk.inj (Except.ok.inj h_insert)
    -- a node with the key is overwritten
    obtain ⟨h_keys, h_find⟩ := updateNode_eq_some h_raw h_update
    refine ⟨placed_update h_grown ?_ ?_, htLookup_update _ h_find⟩
    · intro node h_node
      obtain ⟨node', h_node', h_eq⟩ :=
        List.mem_map.mp (h_keys ▸ List.mem_map_of_mem (f := Prod.fst) h_node)
      rw [← h_eq]
      exact h_grown.index _ node' h_node'
    · rw [h_keys]
      exact h_grown.nodup _
  | none =>
    rw [h_update] at h_insert
    obtain ⟨rfl, -⟩ := Prod.mk.inj (Except.ok.inj h_insert)
    -- a new node is linked in front
    have h_new := updateNode_eq_none h_raw h_update
    refine ⟨placed_update h_grown ?_ ?_,
      htLookup_update table.htGrown fun k => findNode_cons h_raw⟩
    · intro node h_node
      rcases List.mem_cons.mp h_node with rfl | h_old
      · rfl
      · exact h_grown.index _ node h_old
    · rw [List.map_cons, List.nodup_cons]
      exact ⟨h_new, h_grown.nodup _⟩

/-! ### The keys of the directory -/

/-- An `int` is determined by its four bytes. -/
theorem raw_injective : Function.Injective (RawKey.raw : Int32 → List UInt8) := by
  intro x y h
  obtain ⟨h₀, h⟩ := List.cons.inj h
  obtain ⟨h₁, h⟩ := List.cons.inj h
  obtain ⟨h₂, h⟩ := List.cons.inj h
  obtain ⟨h₃, -⟩ := List.cons.inj h
  have h_x := x.toUInt32.toNat_lt
  have h_y := y.toUInt32.toNat_lt
  -- each byte is a digit of the number to the base 256
  replace h₀ := congrArg UInt8.toNat h₀
  replace h₁ := congrArg UInt8.toNat h₁
  replace h₂ := congrArg UInt8.toNat h₂
  replace h₃ := congrArg UInt8.toNat h₃
  simp only [UInt32.toNat_toUInt8, UInt32.toNat_shiftRight, Nat.shiftRight_eq_div_pow]
    at h₀ h₁ h₂ h₃
  have h_eq : x.toUInt32 = y.toUInt32 := by
    apply UInt32.toNat_inj.mp
    simp only [UInt32.reduceToNat, Nat.reduceMod, Nat.reducePow] at h₀ h₁ h₂ h₃
    omega
  exact congrArg UInt32.toInt32 h_eq

end MoleculeOS.HashTable
