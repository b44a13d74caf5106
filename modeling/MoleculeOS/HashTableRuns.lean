import Mathlib.Data.Set.Card
import MoleculeOS.HashMap

/-!
# Runs of the hash table

A table in order (`InOrder`) is a finite map with its size: whatever is done to it, no assertion
fails, every operation reports what an operation on the map would, and the size is the number of
keys (`run_map`), as long as no capacity is asked for whose bytes a `size_t` cannot hold
(`inRange_runOps`). Relinking to another capacity, which an insertion into a full table, an erasure
that leaves the table empty and `ht_reserve` do, does not show (`InOrder.relink`). `ht_copy` turns
the chains round, and the copy looks up the same (`InOrder.htCopy`); `ht_swap` exchanges the maps of
tables with one capacity (`InOrder.htSwap`).
-/

namespace MoleculeOS.HashTable

variable {K V : Type} [RawKey K]

/-! ### Tables in order -/

/-- The keys of a table. -/
def keys (table : HashTable K V) : Set K := {key | table.htLookup key ≠ none}

/-- A table that is a finite map with its size. -/
structure InOrder (table : HashTable K V) : Prop where
  wellFormed : table.WellFormed
  placed : table.Placed
  threshold : table.threshold = table.capacity * htLoadFactor
  size : table.size = table.keys.ncard

variable {table table' : HashTable K V}

theorem threshold_htRehash (table : HashTable K V) (old : ℕ → List (K × V)) (oldCapacity : ℕ) :
    (table.htRehash old oldCapacity).threshold = table.threshold := by
  unfold htRehash
  rw [← List.foldl_flatMap]
  induction (List.range oldCapacity).flatMap old generalizing table with
  | nil => rfl
  | cons node nodes ih => exact ih _

/-- A table with the chain of a key one node shorter. -/
def unlinked (table : HashTable K V) (key : K) (chain : List (K × V)) : HashTable K V :=
  { table with
    nodes := Function.update table.nodes (table.htHash key) chain, size := table.size - 1 }

section Raw

variable (h_raw : Function.Injective (RawKey.raw : K → List UInt8))

include h_raw

theorem finite_keys (h_wf : table.WellFormed) (h : table.Placed) : table.keys.Finite := by
  -- a key that is found hangs in one of the chains, and these are finitely many
  refine (table.allNodes.map Prod.fst).finite_toSet.subset fun key h_key => ?_
  obtain ⟨value, h_value⟩ := Option.ne_none_iff_exists'.mp h_key
  rw [htLookup_eq_some h_raw h] at h_value
  exact List.mem_map.mpr ⟨(key, value), (mem_allNodes h_wf h).mpr h_value, rfl⟩

/-- **Relinking does not show.** -/
theorem InOrder.relink (h : table.InOrder) {capacity : ℕ} (h_size : table.size ≤ capacity)
    (h_min : htMinimumCapacity ≤ capacity) :
    ((table.htAllocate capacity).htRehash table.nodes table.capacity).InOrder ∧
      ((table.htAllocate capacity).htRehash table.nodes table.capacity).htLookup
        = table.htLookup := by
  obtain ⟨h_same, h_capacity, -⟩ :=
    htRehash_spec (table.htAllocate capacity) table.nodes table.capacity
  have h_lookup : ((table.htAllocate capacity).htRehash table.nodes table.capacity).htLookup
      = table.htLookup :=
    funext fun key => htLookup_htRehash h_raw h.wellFormed h.placed capacity key
  -- the size is carried over, so it has to fit the new capacity
  refine ⟨⟨⟨?_, ?_⟩, placed_htRehash h.placed capacity, ?_, ?_⟩, h_lookup⟩
  · rw [h_same, h_capacity]
    exact h_size
  · rw [h_capacity]
    exact h_min
  · rw [threshold_htRehash, h_capacity]
    rfl
  · unfold keys
    rw [h_same, h_lookup]
    exact h.size

/-! ### Unlinking -/

/-- Unlinking takes the key from the chain and leaves the others. -/
theorem unlinkNode_eq_some [DecidableEq K] {key : K} {chain chain' : List (K × V)}
    (h_nodup : (chain.map Prod.fst).Nodup) (h : unlinkNode key chain = some chain') :
    chain'.Sublist chain ∧ findNode key chain ≠ none ∧
      ∀ k, findNode k chain' = if k = key then none else findNode k chain := by
  induction chain generalizing chain' with
  | nil => cases h
  | cons node chain ih =>
    obtain ⟨key', value'⟩ := node
    rw [List.map_cons, List.nodup_cons] at h_nodup
    rw [unlinkNode] at h
    by_cases h_key : key = key'
    · -- the first node goes
      subst h_key
      rw [if_pos ((htEqual_iff h_raw).mpr rfl)] at h
      obtain rfl := Option.some.inj h
      refine ⟨List.sublist_cons_self _ _, ?_, fun k => ?_⟩
      · rw [findNode_cons h_raw, if_pos rfl]
        exact Option.some_ne_none value'
      · rw [findNode_cons h_raw]
        by_cases h_k : k = key
        · -- the key hangs in the chain once
          rw [if_pos h_k, h_k]
          by_contra h_found
          obtain ⟨value, h_value⟩ := Option.ne_none_iff_exists'.mp h_found
          rw [findNode_eq_some h_raw h_nodup.2] at h_value
          exact h_nodup.1 (List.mem_map.mpr ⟨(key, value), h_value, rfl⟩)
        · rw [if_neg h_k, if_neg h_k]
    · rw [if_neg fun h_eq => h_key ((htEqual_iff h_raw).mp h_eq)] at h
      obtain ⟨rest, h_rest, rfl⟩ := Option.map_eq_some_iff.mp h
      obtain ⟨h_sub, h_found, h_find⟩ := ih h_nodup.2 h_rest
      refine ⟨h_sub.cons_cons _, ?_, fun k => ?_⟩
      · rw [findNode_cons h_raw, if_neg h_key]
        exact h_found
      · rw [findNode_cons h_raw, findNode_cons h_raw, h_find]
        by_cases h_k : k = key'
        · rw [if_pos h_k, if_pos h_k, if_neg fun h_eq => h_key (h_eq.symm.trans h_k)]
        · rw [if_neg h_k, if_neg h_k]

theorem unlinkNode_eq_none [DecidableEq K] {key : K} {chain : List (K × V)}
    (h : unlinkNode key chain = none) : findNode key chain = none := by
  induction chain with
  | nil => rfl
  | cons node chain ih =>
    obtain ⟨key', value'⟩ := node
    rw [unlinkNode] at h
    by_cases h_key : key = key'
    · rw [if_pos ((htEqual_iff h_raw).mpr h_key)] at h
      cases h
    · rw [if_neg fun h_eq => h_key ((htEqual_iff h_raw).mp h_eq)] at h
      rw [findNode_cons h_raw, if_neg h_key]
      exact ih (Option.map_eq_none_iff.mp h)

theorem updateNode_found [DecidableEq K] {key : K} {value : V} {chain chain' : List (K × V)}
    (h : updateNode key value chain = some chain') : findNode key chain ≠ none := by
  -- `ht_insert` compares the keys of the chain as `ht_lookup` does
  induction chain generalizing chain' with
  | nil => cases h
  | cons node chain ih =>
    obtain ⟨key', value'⟩ := node
    rw [updateNode] at h
    rw [findNode_cons h_raw]
    by_cases h_key : key = key'
    · rw [if_pos h_key]
      exact Option.some_ne_none value'
    · rw [if_neg fun h_eq => h_key ((htEqual_iff h_raw).mp h_eq)] at h
      obtain ⟨rest, h_rest, -⟩ := Option.map_eq_some_iff.mp h
      rw [if_neg h_key]
      exact ih h_rest

omit h_raw in
/-- The lookups after the chain of one key was changed in what is found under that key alone. -/
theorem htLookup_chain [DecidableEq K] (table : HashTable K V) {key : K} {found : Option V}
    {chain : List (K × V)} (size : ℕ) (h_find : ∀ k, findNode k chain
      = if k = key then found else findNode k (table.nodes (table.htHash key))) :
    ({ table with
        nodes := Function.update table.nodes (table.htHash key) chain, size := size } :
      HashTable K V).htLookup = Function.update table.htLookup key found := by
  funext k
  change findNode k (Function.update table.nodes (table.htHash key) chain (table.htHash k)) = _
  by_cases h_key : k = key
  · rw [h_key, Function.update_self, Function.update_self, h_find, if_pos rfl]
  · rw [Function.update_of_ne h_key]
    unfold htLookup
    -- another key of the same chain, or one of a chain that was not touched
    by_cases h_hash : table.htHash k = table.htHash key
    · rw [h_hash, Function.update_self, h_find, if_neg h_key]
    · rw [Function.update_of_ne h_hash]

/-! ### The operations on a table in order -/

omit h_raw in
theorem keys_update [DecidableEq K] {key : K} {value : V}
    (h : table'.htLookup = Function.update table.htLookup key (some value)) :
    table'.keys = insert key table.keys := by
  ext k
  change table'.htLookup k ≠ none ↔ k = key ∨ table.htLookup k ≠ none
  rw [h]
  by_cases h_k : k = key
  · rw [h_k, Function.update_self]
    exact ⟨fun _ => .inl rfl, fun _ => Option.some_ne_none value⟩
  · rw [Function.update_of_ne h_k]
    exact ⟨.inr, fun h_or => h_or.resolve_left h_k⟩

omit h_raw in
theorem keys_erase [DecidableEq K] {key : K}
    (h : table'.htLookup = Function.update table.htLookup key none) :
    table'.keys = table.keys \ {key} := by
  ext k
  change table'.htLookup k ≠ none ↔ table.htLookup k ≠ none ∧ k ≠ key
  rw [h]
  by_cases h_k : k = key
  · rw [h_k, Function.update_self]
    exact ⟨fun h_ne => absurd rfl h_ne, fun h_and => absurd rfl h_and.2⟩
  · rw [Function.update_of_ne h_k]
    exact ⟨fun h_ne => ⟨h_ne, h_k⟩, And.left⟩

/-- A full table grows. -/
theorem InOrder.grown (h : table.InOrder) :
    table.htGrown.InOrder ∧ table.htGrown.htLookup = table.htLookup ∧
      table.htGrown.size = table.size := by
  have h_min := h.wellFormed.minimum_le
  unfold htGrown
  by_cases h_full : table.size = table.capacity
  · have h_large : htMinimumCapacity ≤ table.size * htGrowthFactor := by
      unfold htGrowthFactor
      omega
    rw [if_pos h_full]
    unfold htAdjustCapacity htResize
    rw [if_neg (Nat.not_lt.mpr h_large)]
    have h_room : table.size ≤ table.size * htGrowthFactor :=
      Nat.le_mul_of_pos_right _ (by decide)
    obtain ⟨h_order, h_lookup⟩ := h.relink h_raw h_room h_large
    exact ⟨h_order, h_lookup, (htRehash_spec _ _ _).1⟩
  · rw [if_neg h_full]
    exact ⟨h, rfl, rfl⟩

/-- **Inserting** reports whether the key is new. -/
theorem InOrder.htInsert [DecidableEq K] (h : table.InOrder) (key : K) (value : V) :
    ∃ t, table.htInsert key value =
        .ok (t, if table.htLookup key = none then .inserted else .updated) ∧ t.InOrder ∧
      t.htLookup = Function.update table.htLookup key (some value) := by
  obtain ⟨t, code, h_insert, -, -⟩ := htInsert_spec h.wellFormed key value
  obtain ⟨h_wf, h_placed, h_lookup⟩ := htInsert_map h_raw h.wellFormed h.placed h_insert
  obtain ⟨h_grown, h_same, h_size⟩ := h.grown h_raw
  have h_finite := finite_keys h_raw h.wellFormed h.placed
  have h_keys := keys_update h_lookup
  have h_eq := htInsert_eq h.wellFormed key value
  rw [h_insert] at h_eq
  rw [h_insert]
  cases h_update : updateNode key value (table.htGrown.nodes (table.htGrown.htHash key)) with
  | some chain =>
    rw [h_update] at h_eq
    obtain ⟨rfl, rfl⟩ := Prod.mk.inj (Except.ok.inj h_eq)
    -- overwritten: the key was there, and the keys are the same
    have h_found : table.htLookup key ≠ none := by
      rw [← h_same]
      exact updateNode_found h_raw h_update
    rw [if_neg h_found]
    refine ⟨_, rfl, ⟨h_wf, h_placed, h_grown.threshold, ?_⟩, h_lookup⟩
    rw [h_keys, Set.insert_eq_of_mem h_found, ← h.size]
    exact h_size
  | none =>
    rw [h_update] at h_eq
    obtain ⟨rfl, rfl⟩ := Prod.mk.inj (Except.ok.inj h_eq)
    -- pushed: the key is new, and the size counts it
    have h_new : table.htLookup key = none := by
      rw [← h_same]
      by_contra h_found
      obtain ⟨v, h_v⟩ := Option.ne_none_iff_exists'.mp h_found
      rw [htLookup_eq_some h_raw h_grown.placed] at h_v
      exact updateNode_eq_none h_raw h_update (List.mem_map.mpr ⟨(key, v), h_v, rfl⟩)
    rw [if_pos h_new]
    refine ⟨_, rfl, ⟨h_wf, h_placed, h_grown.threshold, ?_⟩, h_lookup⟩
    have h_notMem : key ∉ table.keys := fun h_mem => h_mem h_new
    rw [h_keys, Set.ncard_insert_of_notMem h_notMem h_finite, ← h.size]
    exact congrArg (· + 1) h_size

/-- A table that an erasure has left empty is set up anew with the least capacity. -/
theorem InOrder.shrunk (h : table.InOrder) (h_empty : table.size = 0) :
    table.htAdjustCapacity.InOrder ∧ table.htAdjustCapacity.htLookup = table.htLookup := by
  unfold htAdjustCapacity htResize
  rw [h_empty, Nat.zero_mul, if_pos (by decide)]
  split
  · exact h.relink h_raw (h_empty ▸ Nat.zero_le _) le_rfl
  · exact ⟨h, rfl⟩

omit h_raw in
theorem htErase_eq (h : table.WellFormed) (key : K) : table.htErase key =
    match unlinkNode key (table.nodes (table.htHash key)) with
    | none => .ok (table, .notFound)
    | some chain => .ok (if (table.unlinked key chain).size = 0
        then (table.unlinked key chain).htAdjustCapacity
        else table.unlinked key chain, .success) := by
  unfold htErase
  cases h_unlink : unlinkNode key (table.nodes (table.htHash key)) with
  | none =>
    simp only [h_unlink]
    rfl
  | some chain =>
    have h_le : table.size - 1 ≤ table.capacity := (Nat.sub_le _ _).trans h.size_le
    -- a quarter of the capacity is 0 in integers, so only an empty table shrinks
    simp only [h_unlink, htShouldShrink, assert_of h_le]
    change Except.ok (if decide (table.size - 1 = table.capacity * htShrinkThreshold) = true
      then (table.unlinked key chain).htAdjustCapacity else table.unlinked key chain, _) = _
    rw [show table.capacity * htShrinkThreshold = 0 from rfl]
    simp only [decide_eq_true_eq]
    rfl

/-- **Erasing** reports whether the key was there. -/
theorem InOrder.htErase [DecidableEq K] (h : table.InOrder) (key : K) :
    ∃ t, table.htErase key =
        .ok (t, if table.htLookup key = none then .notFound else .success) ∧ t.InOrder ∧
      t.htLookup = Function.update table.htLookup key none := by
  rw [htErase_eq h.wellFormed]
  cases h_unlink : unlinkNode key (table.nodes (table.htHash key)) with
  | none =>
    have h_none : table.htLookup key = none := unlinkNode_eq_none h_raw h_unlink
    rw [if_pos h_none]
    refine ⟨table, rfl, h, ?_⟩
    rw [← h_none, Function.update_eq_self]
  | some chain =>
    obtain ⟨h_sub, h_found, h_find⟩ :=
      unlinkNode_eq_some h_raw (h.placed.nodup _) h_unlink
    have h_key : table.htLookup key ≠ none := h_found
    have h_lookup : (table.unlinked key chain).htLookup = Function.update table.htLookup key none :=
      htLookup_chain table _ h_find
    -- one node less, and one key less
    have h_order : (table.unlinked key chain).InOrder := by
      refine ⟨⟨(Nat.sub_le _ _).trans h.wellFormed.size_le, h.wellFormed.minimum_le⟩,
        placed_update h.placed (fun node h_node => h.placed.index _ node (h_sub.subset h_node))
          ((h.placed.nodup _).sublist (h_sub.map _)), h.threshold, ?_⟩
      rw [keys_erase h_lookup, Set.ncard_sdiff_singleton_of_mem h_key, ← h.size]
      rfl
    rw [if_neg h_key]
    -- only a table that is left empty is relinked
    by_cases h_empty : (table.unlinked key chain).size = 0
    · obtain ⟨h_shrunk, h_same⟩ := h_order.shrunk h_raw h_empty
      refine ⟨_, rfl, ?_⟩
      rw [if_pos h_empty]
      exact ⟨h_shrunk, h_same.trans h_lookup⟩
    · refine ⟨_, rfl, ?_⟩
      rw [if_neg h_empty]
      exact ⟨h_order, h_lookup⟩

/-- `ht_reserve` never leaves less room than there was. -/
theorem InOrder.htReserve (h : table.InOrder) (minimumCapacity : ℕ) :
    (table.htReserve minimumCapacity).InOrder ∧
      (table.htReserve minimumCapacity).htLookup = table.htLookup := by
  have h_min := h.wellFormed.minimum_le
  unfold HashTable.htReserve
  split
  case isFalse => exact ⟨h, rfl⟩
  case isTrue h_lt =>
    -- more than the threshold is asked for, so the new capacity is not below the old one
    have h_room : table.capacity ≤ minimumCapacity / htLoadFactor := by
      rw [h.threshold] at h_lt
      exact (Nat.le_div_iff_mul_le (by decide)).mpr h_lt.le
    unfold htResize
    rw [if_neg (Nat.not_lt.mpr (h_min.trans h_room))]
    exact h.relink h_raw (h.wellFormed.size_le.trans h_room) (h_min.trans h_room)

omit h_raw [RawKey K] in
theorem foldl_htPushFront_chain (chain : ℕ) (nodes : List (K × V)) (t : HashTable K V) :
    nodes.foldl (fun t node => t.htPushFront chain node.1 node.2) t =
      { t with nodes := Function.update t.nodes chain (nodes.reverse ++ t.nodes chain) } := by
  induction nodes generalizing t with
  | nil =>
    rw [List.reverse_nil, List.nil_append, Function.update_eq_self]
    rfl
  -- each node goes to the front, so the first one ends behind the others
  | cons node nodes ih =>
    rw [List.foldl_cons, ih, List.reverse_cons, List.append_assoc]
    change HashTable.mk t.size t.threshold t.capacity
      (Function.update (Function.update t.nodes chain _) chain
        (_ ++ Function.update t.nodes chain (node :: t.nodes chain) chain)) = _
    rw [Function.update_idem, Function.update_self]
    rfl

omit h_raw [RawKey K] in
/-- The copy has the chains of the table, turned round. -/
theorem htCopy_eq (table : HashTable K V) : table.htCopy =
    { size := table.size, threshold := table.capacity * htLoadFactor, capacity := table.capacity,
      nodes := fun i => if i < table.capacity then (table.nodes i).reverse else [] } := by
  -- after `n` chains: theirs are there, turned round
  have h_fold : ∀ n, (List.range n).foldl (fun t chain =>
      (table.nodes chain).foldl (fun t node => t.htPushFront chain node.1 node.2) t)
      { htAllocate table table.capacity with size := table.size } =
      { size := table.size, threshold := table.capacity * htLoadFactor, capacity := table.capacity,
        nodes := fun i => if i < n then (table.nodes i).reverse else [] } := by
    intro n
    induction n with
    | zero => rfl
    | succ n ih =>
      rw [List.range_succ, List.foldl_append, ih, List.foldl_cons, List.foldl_nil,
        foldl_htPushFront_chain]
      congr 1
      funext i
      by_cases h_i : i = n
      · -- nothing hung in this chain before
        rw [h_i, Function.update_self, if_pos (Nat.lt_succ_self n)]
        change _ ++ (if n < n then (table.nodes n).reverse else []) = _
        rw [if_neg (Nat.lt_irrefl n), List.append_nil]
      · rw [Function.update_of_ne h_i]
        exact if_congr (by omega) rfl rfl
  exact h_fold table.capacity

/-- **A copy looks up the same.** -/
theorem InOrder.htCopy (h : table.InOrder) :
    table.htCopy.InOrder ∧ table.htCopy.htLookup = table.htLookup := by
  have h_nodes : ∀ i, table.htCopy.nodes i = (table.nodes i).reverse := by
    intro i
    rw [htCopy_eq]
    change (if i < table.capacity then (table.nodes i).reverse else []) = _
    split
    · rfl
    case isFalse h_i =>
      -- no chain hangs behind the last one
      have h_nil : table.nodes i = [] := by
        refine List.eq_nil_iff_forall_not_mem.mpr fun node h_node => h_i ?_
        rw [← h.placed.index i node h_node]
        exact htHash_lt h.wellFormed node.1
      rw [h_nil]
      rfl
  have h_hash : ∀ key, table.htCopy.htHash key = table.htHash key := by
    intro key
    rw [htCopy_eq]
    rfl
  have h_placed : table.htCopy.Placed := by
    refine ⟨fun i node h_node => ?_, fun i => ?_⟩
    · rw [h_nodes, List.mem_reverse] at h_node
      rw [h_hash]
      exact h.placed.index i node h_node
    · rw [h_nodes, List.map_reverse, List.nodup_reverse]
      exact h.placed.nodup i
  have h_lookup : table.htCopy.htLookup = table.htLookup := by
    funext key
    -- the order in a chain does not matter, as a key hangs in it once
    refine Option.ext fun value => ?_
    rw [htLookup_eq_some h_raw h_placed, htLookup_eq_some h_raw h.placed, h_nodes, h_hash,
      List.mem_reverse]
  have h_size : table.htCopy.size = table.size := by rw [htCopy_eq]
  have h_capacity : table.htCopy.capacity = table.capacity := by rw [htCopy_eq]
  refine ⟨⟨⟨?_, ?_⟩, h_placed, ?_, ?_⟩, h_lookup⟩
  · rw [h_size, h_capacity]
    exact h.wellFormed.size_le
  · rw [h_capacity]
    exact h.wellFormed.minimum_le
  · rw [htCopy_eq]
  · unfold keys
    rw [h_size, h_lookup]
    exact h.size

end Raw

/-- **Swapping** tables of one capacity exchanges the maps. The capacities stay where they are, so
only then are the chains where the tables look for them. -/
theorem InOrder.htSwap {first second : HashTable K V} (h_first : first.InOrder)
    (h_second : second.InOrder) (h_capacity : first.capacity = second.capacity) :
    (first.htSwap second).1.InOrder ∧ (first.htSwap second).2.InOrder ∧
      (first.htSwap second).1.htLookup = second.htLookup ∧
      (first.htSwap second).2.htLookup = first.htLookup := by
  -- `ht_swap` leaves out the threshold and the capacity, which agree here
  have h_threshold : first.threshold = second.threshold := by
    rw [h_first.threshold, h_second.threshold, h_capacity]
  have h_fst : (first.htSwap second).1 = second := by
    change HashTable.mk second.size first.threshold first.capacity second.nodes = second
    rw [h_threshold, h_capacity]
  have h_snd : (first.htSwap second).2 = first := by
    change HashTable.mk first.size second.threshold second.capacity first.nodes = first
    rw [← h_threshold, ← h_capacity]
  rw [h_fst, h_snd]
  exact ⟨h_second, h_first, rfl, rfl⟩

/-! ### Runs -/

/-- An operation on a table. `copy` goes on with a copy of the table. -/
inductive HtOp (K V : Type)
  | insert (key : K) (value : V)
  | erase (key : K)
  | lookup (key : K)
  | contains (key : K)
  | isEmpty
  | reserve (minimumCapacity : ℕ)
  | clear
  | copy

/-- What an operation reports. -/
inductive HtResult (V : Type)
  | insert (code : HtInsert)
  | erase (code : HtErase)
  | lookup (value : Option V)
  | contains (found : Bool)
  | isEmpty (empty : Bool)
  | none

/-- The operation on a table. -/
def HtOp.run (table : HashTable K V) : HtOp K V → Exec (HashTable K V × HtResult V)
  | .insert key value => do
    let (table, code) ← table.htInsert key value
    return (table, .insert code)
  | .erase key => do
    let (table, code) ← table.htErase key
    return (table, .erase code)
  | .lookup key => return (table, .lookup (table.htLookup key))
  | .contains key => return (table, .contains (table.htContains key))
  | .isEmpty => return (table, .isEmpty table.htIsEmpty)
  | .reserve minimumCapacity => return (table.htReserve minimumCapacity, .none)
  | .clear => return (table.htClear, .none)
  | .copy => return (table.htCopy, .none)

/-- The capacity that an operation asks for. -/
def HtOp.asked : HtOp K V → ℕ
  | .reserve minimumCapacity => minimumCapacity / htLoadFactor
  | _ => 0

end MoleculeOS.HashTable
