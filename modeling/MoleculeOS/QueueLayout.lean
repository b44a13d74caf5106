import MoleculeOS.Library.LockWord
import MoleculeOS.Library.Pool
import MoleculeOS.Model.ShmMpscQueue

/-!
# Where the entries of the shared queue are

Once the queue is constructed, every entry but the dummy one is in one place: on the stack of empty
entries, on the pending list, in the list that the receiver goes through (what it has seen of it and
the rest), or with the process that has allocated it. `Repr` says how a layout of the entries over
these places shows in memory and in the processes, whatever they are in the middle of. `Repr.access`
is the step lemma: each access moves entries between places, or none.
-/

namespace MoleculeOS.ShmQueue

open Pool LockWord

/-! ### What a process has -/

/-- The value of `empty_top` that a process has taken away. -/
def Pc.heldTop : Pc → Option ℕ
  | .allocFull top => some top
  | .allocNext top => some top
  | .allocTop top _ => some top
  | .recycleNext _ _ top => some top
  | .recycleTop _ _ top => some top
  | _ => none

/-- The value of `pending_tail` that a process has taken away. -/
def Pc.heldTail : Pc → Option ℕ
  | .pushNext _ tail => some tail
  | .pushTail _ tail => some tail
  | .popHead tail => some tail
  | .popTail tail _ => some tail
  | _ => none

/-- The entry that a process has allocated and not pushed yet. -/
def Pc.entry : Pc → Option ℕ
  | .own entry => some entry
  | .pushLock entry _ => some entry
  | .pushNext entry _ => some entry
  | .pushTail entry _ => some entry
  | _ => none

/-- The process has a list that it popped. -/
def Pc.hasList : Pc → Bool
  | .popEnd _ _ | .visit _ _ | .work _ _ | .nextTest _ _ | .nextRead _ _ | .recycleLock _ _ _
  | .recycleNext _ _ _ | .recycleTop _ _ _ => true
  | _ => false

/-- The process is in `PopAll`, or has a list. -/
def Pc.receiving : Pc → Bool
  | .popLock _ | .popHead _ | .popTail _ _ => true
  | pc => pc.hasList

/-- The process is in the constructor. -/
def Pc.initializing : Pc → Bool
  | .initTail | .initTop | .initNext _ | .publish => true
  | _ => false

/-! ### Layouts -/

/-- Where an entry can be. -/
inductive Place (P : Type)
  | free
  | pending
  | rest
  | seen
  | owned (p : P)
  deriving DecidableEq

/-- The entries in each place, in order. -/
abbrev Layout (P : Type) : Type := Place P → List ℕ

variable {P : Type}

/-- The top of the stack of empty entries. -/
def Layout.top (SIZE : ℕ) (L : Layout P) : ℕ := (L .free).headD SIZE

/-- The end of the pending list. -/
def Layout.tail (L : Layout P) : ℕ := (L .pending).getLastD 0

/-- The marks are no entries. -/
theorem ne_emptyLock {SIZE i : ℕ} (h : i ≤ SIZE) : i ≠ emptyLock SIZE := by
  unfold emptyLock
  omega

theorem ne_pendingLock {SIZE i : ℕ} (h : i ≤ SIZE) : i ≠ pendingLock SIZE := by
  unfold pendingLock
  omega

/-- What is so where a process is; `word` is what `pending_tail` holds. -/
def Locals (SIZE : ℕ) (next : ℕ → ℕ) (word : ℕ) (L : Layout P) : Pc → Prop
  | .allocLock fetch => fetch ≠ .cas (emptyLock SIZE)
  | .allocFull top => top = SIZE
  | .allocNext top => top ≠ SIZE
  | .allocTop top nx => top ≠ SIZE ∧ next top = nx
  | .pushLock _ fetch => fetch ≠ .cas (pendingLock SIZE)
  | .pushTail entry tail => next tail = entry
  | .popLock fetch => (L .pending ≠ [] ∨ word = pendingLock SIZE) ∧
      fetch ≠ .cas (pendingLock SIZE)
  | .popHead _ => L .pending ≠ []
  | .popTail _ ret => (L .pending).head? = some ret
  | .popEnd tail ret => L .seen = [] ∧ (L .rest).head? = some ret ∧ (L .rest).getLast? = some tail ∧
      Linked next (L .rest)
  | .visit first cur => (L .seen ++ L .rest).head? = some first ∧ (L .rest).head? = some cur ∧
      Linked next (L .seen ++ L .rest ++ [SIZE])
  | .work first cur | .nextTest first cur => (L .seen).head? = some first ∧
      (L .seen).getLast? = some cur ∧ Linked next (L .seen ++ L .rest ++ [SIZE])
  | .nextRead first cur => (L .seen).head? = some first ∧ (L .seen).getLast? = some cur ∧
      L .rest ≠ [] ∧ Linked next (L .seen ++ L .rest ++ [SIZE])
  | .recycleLock first last fetch => fetch ≠ .cas (emptyLock SIZE) ∧ L .rest = [] ∧
      (L .seen).head? = some first ∧ (L .seen).getLast? = some last ∧ Linked next (L .seen)
  | .recycleNext first last _ => L .rest = [] ∧ (L .seen).head? = some first ∧
      (L .seen).getLast? = some last ∧ Linked next (L .seen)
  | .recycleTop first last top => L .rest = [] ∧ (L .seen).head? = some first ∧
      (L .seen).getLast? = some last ∧ Linked next (L .seen) ∧ next last = top
  | _ => True

/-- A process and the layout agree. -/
structure Proc (SIZE : ℕ) (receiver : P) (next : ℕ → ℕ) (word : ℕ) (L : Layout P) (p : P)
    (pc : Pc) : Prop where
  owned : L (.owned p) = pc.entry.toList
  role : pc.receiving = true → p = receiver
  idle : p = receiver → pc.hasList = false → L .rest = [] ∧ L .seen = []
  started : pc.initializing = false
  locals : Locals SIZE next word L pc

/-- **The layout shows in memory and in the processes.** -/
structure Repr {EntryData : Type} (SIZE : ℕ) (receiver : P) (m : Memory EntryData) (pc : P → Pc)
    (L : Layout P) : Prop where
  pos : 0 < SIZE
  exact_ : Exact {i | 1 ≤ i ∧ i < SIZE} L
  free : Linked m.next (L .free ++ [SIZE])
  pending : Linked m.next (0 :: L .pending)
  top : Guarded (emptyLock SIZE) m.emptyTop (L.top SIZE) fun p => (pc p).heldTop
  tail : Guarded (pendingLock SIZE) m.pendingTail L.tail fun p => (pc p).heldTail
  proc : ∀ p, Proc SIZE receiver m.next m.pendingTail L p (pc p)

/-! ### Frames -/

/-- A process does not see what happens outside its own entries and words. -/
theorem Proc.frame {SIZE : ℕ} {receiver : P} {next next' : ℕ → ℕ} {word word' : ℕ}
    {L L' : Layout P} {p : P} {pc : Pc} (h : Proc SIZE receiver next word L p pc)
    (h_owned : L' (.owned p) = L (.owned p))
    (h_list : p = receiver → L' .rest = L .rest ∧ L' .seen = L .seen ∧
      (L .pending ≠ [] ∨ word = pendingLock SIZE → L' .pending ≠ [] ∨ word' = pendingLock SIZE))
    (h_tail : pc.heldTail ≠ none → L' .pending = L .pending)
    (h_next : ∀ i, pc.heldTop = some i ∧ i ≠ SIZE ∨ pc.heldTail = some i ∨
      p = receiver ∧ i ∈ L .seen ++ L .rest → next' i = next i) :
    Proc SIZE receiver next' word' L' p pc := by
  have h_locals := h.locals
  refine ⟨h_owned.trans h.owned, h.role, fun h_p h_pc => ?_, h.started, ?_⟩
  · obtain ⟨h_rest, h_seen, -⟩ := h_list h_p
    rw [h_rest, h_seen]
    exact h.idle h_p h_pc
  -- what the receiver needs: its list, its hint that the pending list is not empty, and its links
  have h_mine : pc.receiving = true → L' .rest = L .rest ∧ L' .seen = L .seen ∧
      (L .pending ≠ [] ∨ word = pendingLock SIZE → L' .pending ≠ [] ∨ word' = pendingLock SIZE) ∧
      ∀ l, l.dropLast ⊆ L .seen ++ L .rest → Linked next l → Linked next' l := by
    intro h_pc
    obtain ⟨h_rest, h_seen, h_pending⟩ := h_list (h.role h_pc)
    refine ⟨h_rest, h_seen, h_pending, fun l h_sub h_l => h_l.congr fun a h_a => ?_⟩
    exact h_next a (.inr (.inr ⟨h.role h_pc, h_sub h_a⟩))
  have h_all : ((L .seen ++ L .rest) ++ [SIZE]).dropLast ⊆ L .seen ++ L .rest := by
    rw [List.dropLast_concat]
    exact List.Subset.refl _
  have h_rest_sub : (L .rest).dropLast ⊆ L .seen ++ L .rest :=
    fun a h_a => List.mem_append_right _ (List.dropLast_subset _ h_a)
  have h_seen_sub : (L .seen).dropLast ⊆ L .seen ++ L .rest :=
    fun a h_a => List.mem_append_left _ (List.dropLast_subset _ h_a)
  cases pc with
  | allocTop top nx => exact ⟨h_locals.1, (h_next top (.inl ⟨rfl, h_locals.1⟩)).trans h_locals.2⟩
  | pushTail entry tail => exact (h_next tail (.inr (.inl rfl))).trans h_locals
  | popLock fetch => exact ⟨(h_mine rfl).2.2.1 h_locals.1, h_locals.2⟩
  -- with the word in hand, nobody else appends to the pending list
  | popHead tail =>
    have h_pending := h_tail (Option.some_ne_none tail)
    change L' .pending ≠ []
    rw [h_pending]
    exact h_locals
  | popTail tail ret =>
    have h_pending := h_tail (Option.some_ne_none tail)
    change (L' .pending).head? = some ret
    rw [h_pending]
    exact h_locals
  | popEnd tail ret =>
    obtain ⟨h_rest, h_seen, -, h_linked⟩ := h_mine rfl
    unfold Locals
    rw [h_rest, h_seen]
    exact ⟨h_locals.1, h_locals.2.1, h_locals.2.2.1, h_linked _ h_rest_sub h_locals.2.2.2⟩
  | visit first cur | work first cur | nextTest first cur =>
    obtain ⟨h_rest, h_seen, -, h_linked⟩ := h_mine rfl
    unfold Locals
    rw [h_rest, h_seen]
    exact ⟨h_locals.1, h_locals.2.1, h_linked _ h_all h_locals.2.2⟩
  | nextRead first cur =>
    obtain ⟨h_rest, h_seen, -, h_linked⟩ := h_mine rfl
    unfold Locals
    rw [h_rest, h_seen]
    exact ⟨h_locals.1, h_locals.2.1, h_locals.2.2.1, h_linked _ h_all h_locals.2.2.2⟩
  | recycleLock first last fetch =>
    obtain ⟨h_rest, h_seen, -, h_linked⟩ := h_mine rfl
    unfold Locals
    rw [h_rest, h_seen]
    exact ⟨h_locals.1, h_locals.2.1, h_locals.2.2.1, h_locals.2.2.2.1,
      h_linked _ h_seen_sub h_locals.2.2.2.2⟩
  | recycleNext first last top =>
    obtain ⟨h_rest, h_seen, -, h_linked⟩ := h_mine rfl
    unfold Locals
    rw [h_rest, h_seen]
    exact ⟨h_locals.1, h_locals.2.1, h_locals.2.2.1, h_linked _ h_seen_sub h_locals.2.2.2⟩
  | recycleTop first last top =>
    obtain ⟨h_rest, h_seen, -, h_linked⟩ := h_mine rfl
    have h_last : last ∈ L .seen ++ L .rest :=
      List.mem_append_left _ (List.mem_of_mem_getLast? h_locals.2.2.1)
    have h_top := h_next last (.inr (.inr ⟨h.role rfl, h_last⟩))
    unfold Locals
    rw [h_rest, h_seen]
    exact ⟨h_locals.1, h_locals.2.1, h_locals.2.2.1, h_linked _ h_seen_sub h_locals.2.2.2.1,
      h_top.trans h_locals.2.2.2.2⟩
  | _ => exact h_locals

/-! ### What is where -/

section Repr

variable {EntryData : Type} {SIZE : ℕ} {receiver : P} {m : Memory EntryData} {pc : P → Pc}
  {L : Layout P} {i : ℕ}

namespace Repr

theorem bounds (h : Repr SIZE receiver m pc L) {k : Place P} {i : ℕ} (h_i : i ∈ L k) :
    1 ≤ i ∧ i < SIZE := h.exact_.mem h_i

/-- The top of the stack is an empty entry, or the stack is empty. -/
theorem top_mem (L : Layout P) (h_top : L.top SIZE ≠ SIZE) :
    ∃ l, L .free = L.top SIZE :: l := by
  unfold Layout.top at *
  cases h_free : L .free with
  | nil =>
    rw [h_free] at h_top
    exact absurd rfl h_top
  | cons a l => exact ⟨l, rfl⟩

/-- The end of the pending list is pending, or the dummy entry. -/
theorem tail_mem (L : Layout P) : L.tail = 0 ∧ L .pending = [] ∨ L.tail ∈ L .pending := by
  unfold Layout.tail
  rcases List.eq_nil_or_concat (L .pending) with h_nil | ⟨l, a, h_concat⟩
  · exact .inl ⟨by rw [h_nil]; rfl, h_nil⟩
  · rw [h_concat, List.concat_eq_append, List.getLastD_concat]
    exact .inr List.mem_concat_self

theorem heldTop_eq (h : Repr SIZE receiver m pc L) {p : P} {v : ℕ}
    (h_v : (pc p).heldTop = some v) : v = L.top SIZE := (h.top.taken h_v).2

theorem heldTail_eq (h : Repr SIZE receiver m pc L) {p : P} {v : ℕ}
    (h_v : (pc p).heldTail = some v) : v = L.tail := (h.tail.taken h_v).2

theorem mem_owned (h : Repr SIZE receiver m pc L) {p : P} {i : ℕ}
    (h_i : (pc p).entry = some i) : i ∈ L (.owned p) := by
  rw [(h.proc p).owned, h_i]
  exact List.mem_singleton_self i

/-- The end of the pending list is not on the list of the receiver. -/
theorem tail_notMem_list (h : Repr SIZE receiver m pc L) : L.tail ∉ L .seen ++ L .rest := by
  intro h_mem
  have h_in : ∃ k, L.tail ∈ L k ∧ k ≠ .pending := by
    rcases List.mem_append.mp h_mem with h_seen | h_rest
    · exact ⟨.seen, h_seen, by simp⟩
    · exact ⟨.rest, h_rest, by simp⟩
  obtain ⟨k, h_k, h_ne⟩ := h_in
  rcases tail_mem L with ⟨h_zero, -⟩ | h_pending
  · have h_pos := (h.bounds h_k).1
    omega
  · exact h_ne (h.exact_.unique h_k h_pending)

/-- The last entry that the receiver has seen links to the rest of its list, or marks the end. -/
theorem next_cur (L : Layout P) {next : ℕ → ℕ} {cur : ℕ} (h_cur : (L .seen).getLast? = some cur)
    (h_linked : Linked next (L .seen ++ L .rest ++ [SIZE])) :
    next cur = (L .rest).headD SIZE := by
  obtain ⟨l, h_seen⟩ := List.getLast?_eq_some_iff.mp h_cur
  rw [h_seen, List.append_assoc, List.append_assoc] at h_linked
  cases h_rest : L .rest with
  | nil =>
    rw [h_rest] at h_linked
    exact h_linked.next_of_append
  | cons a l' =>
    rw [h_rest] at h_linked
    exact h_linked.next_of_append

/-- No pending entry links from the end of the list. -/
theorem tail_notMem_dropLast (h : Repr SIZE receiver m pc L) :
    L.tail ∉ (0 :: L .pending).dropLast := by
  unfold Layout.tail
  rcases List.eq_nil_or_concat (L .pending) with h_nil | ⟨l, a, h_concat⟩
  · rw [h_nil]
    exact List.not_mem_nil
  · -- the last entry occurs once, and the dummy entry is none
    have h_nodup := h.exact_.nodup .pending
    have h_a : 1 ≤ a := (h.bounds (k := .pending) (by rw [h_concat]; simp)).1
    rw [h_concat, List.concat_eq_append] at *
    rw [List.getLastD_concat, ← List.cons_append, List.dropLast_concat]
    rintro h_in
    rcases List.mem_cons.mp h_in with rfl | h_l
    · omega
    · exact (List.nodup_append'.mp h_nodup).2.2 h_l List.mem_cons_self

/-- What a step of `p` does to the layout and to the links leaves the others alone. -/
theorem others (h : Repr SIZE receiver m pc L) {p : P} {next' : ℕ → ℕ} {word' : ℕ}
    {L' : Layout P} (h_owned : ∀ q, q ≠ p → L' (.owned q) = L (.owned q))
    (h_list : receiver ≠ p → L' .rest = L .rest ∧ L' .seen = L .seen ∧
      (L .pending ≠ [] ∨ m.pendingTail = pendingLock SIZE →
        L' .pending ≠ [] ∨ word' = pendingLock SIZE))
    (h_tail : L' .pending = L .pending ∨ ∃ v, (pc p).heldTail = some v)
    (h_next : ∀ i, next' i = m.next i ∨ i = L.tail ∧ (pc p).heldTail = some i ∨
      p = receiver ∧ i ∈ L .seen ++ L .rest) (q : P) (h_q : q ≠ p) :
    Proc SIZE receiver next' word' L' q (pc q) := by
  refine (h.proc q).frame (h_owned q h_q) (fun h_r => h_list (h_r ▸ h_q)) ?_ ?_
  · intro h_held
    rcases h_tail with h_eq | ⟨v, h_v⟩
    · exact h_eq
    · exact absurd (h.tail.others h_v h_q) h_held
  · intro i h_i
    rcases h_next i with h_eq | ⟨h_tail, h_p⟩ | ⟨h_p, h_mem⟩
    · exact h_eq
    · -- `p` writes behind the pending list: no entry of another process is there
      exfalso
      rcases h_i with ⟨h_top, h_ne⟩ | h_held | ⟨-, h_mem⟩
      · obtain rfl := h.heldTop_eq h_top
        obtain ⟨l, h_free⟩ := top_mem L h_ne
        have h_in : L.top SIZE ∈ L .free := h_free ▸ List.mem_cons_self
        rcases tail_mem L with ⟨h_zero, -⟩ | h_pending
        · have h_pos := (h.bounds h_in).1
          omega
        · exact absurd (h.exact_.unique h_in (h_tail ▸ h_pending)) (by simp)
      · exact absurd (h.tail.unique h_held h_p) h_q
      · exact h.tail_notMem_list (h_tail ▸ h_mem)
    · -- `p` is the receiver, and its list is its own
      exfalso
      have h_in : ∃ k, i ∈ L k ∧ (k = .seen ∨ k = .rest) := by
        rcases List.mem_append.mp h_mem with h_seen | h_rest
        · exact ⟨.seen, h_seen, .inl rfl⟩
        · exact ⟨.rest, h_rest, .inr rfl⟩
      obtain ⟨k, h_k, h_or⟩ := h_in
      rcases h_i with ⟨h_top, h_ne⟩ | h_held | ⟨h_q', -⟩
      · obtain rfl := h.heldTop_eq h_top
        obtain ⟨l, h_free⟩ := top_mem L h_ne
        have h_same := h.exact_.unique h_k (h_free ▸ List.mem_cons_self)
        rcases h_or with rfl | rfl <;> cases h_same
      · obtain rfl := h.heldTail_eq h_held
        exact h.tail_notMem_list h_mem
      · exact h_q (h_q'.trans h_p.symm)

/-! ### Steps -/

/-- A write to the data of an entry. -/
theorem modifyData (h : Repr SIZE receiver m pc L) (i : ℕ) (f : EntryData → EntryData) :
    Repr SIZE receiver (m.modifyData i f) pc L :=
  ⟨h.pos, h.exact_, h.free, h.pending, h.top, h.tail, h.proc⟩

variable [DecidableEq P]

/-- The values held after a step of `p`. -/
theorem held_update (held : Pc → Option ℕ) (pc : P → Pc) (p : P) (c : Pc) :
    (fun q => held (Function.update pc p c q)) =
      Function.update (fun q => held (pc q)) p (held c) :=
  Function.comp_update held pc p c

theorem held_keep {held : Pc → Option ℕ} {p : P} {c : Pc} (h : held c = held (pc p)) :
    (fun q => held (Function.update pc p c q)) = fun q => held (pc q) := by
  rw [held_update, h]
  exact Function.update_eq_self p _

theorem proc_update {next : ℕ → ℕ} {word : ℕ} {p : P} {c : Pc}
    (h_others : ∀ q, q ≠ p → Proc SIZE receiver next word L q (pc q))
    (h_self : Proc SIZE receiver next word L p c) (q : P) :
    Proc SIZE receiver next word L q (Function.update pc p c q) := by
  by_cases h_q : q = p
  · rw [h_q, Function.update_self]
    exact h_self
  · rw [Function.update_of_ne h_q]
    exact h_others q h_q

/-- A step that takes no value, gives none back and moves no entry. -/
theorem keep (h : Repr SIZE receiver m pc L) {p : P} {c : Pc}
    (h_top : c.heldTop = (pc p).heldTop) (h_tail : c.heldTail = (pc p).heldTail)
    (h_self : Proc SIZE receiver m.next m.pendingTail L p c) :
    Repr SIZE receiver m (Function.update pc p c) L where
  pos := h.pos
  exact_ := h.exact_
  free := h.free
  pending := h.pending
  top := by
    rw [held_keep h_top]
    exact h.top
  tail := by
    rw [held_keep h_tail]
    exact h.tail
  proc := proc_update (fun q _ => h.proc q) h_self

/-- The top of the stack is taken away. -/
theorem acquireTop (h : Repr SIZE receiver m pc L) {p : P} {c : Pc}
    (h_word : m.emptyTop ≠ emptyLock SIZE) (h_top : c.heldTop = some m.emptyTop)
    (h_tail : c.heldTail = (pc p).heldTail)
    (h_self : Proc SIZE receiver m.next m.pendingTail L p c) :
    Repr SIZE receiver { m with emptyTop := emptyLock SIZE } (Function.update pc p c) L where
  pos := h.pos
  exact_ := h.exact_
  free := h.free
  pending := h.pending
  top := by
    rw [held_update, h_top]
    exact h.top.acquire h_word p
  tail := by
    rw [held_keep h_tail]
    exact h.tail
  proc := proc_update (fun q _ => h.proc q) h_self

/-- The end of the pending list is taken away. -/
theorem acquireTail (h : Repr SIZE receiver m pc L) {p : P} {c : Pc}
    (h_word : m.pendingTail ≠ pendingLock SIZE) (h_top : c.heldTop = (pc p).heldTop)
    (h_tail : c.heldTail = some m.pendingTail)
    (h_self : Proc SIZE receiver m.next (pendingLock SIZE) L p c) :
    Repr SIZE receiver { m with pendingTail := pendingLock SIZE } (Function.update pc p c) L where
  pos := h.pos
  exact_ := h.exact_
  free := h.free
  pending := h.pending
  top := by
    rw [held_keep h_top]
    exact h.top
  tail := by
    rw [held_update, h_tail]
    exact h.tail.acquire h_word p
  -- the word is gone, which still tells the receiver that there is something to pop
  proc := proc_update (h.others (fun _ _ => rfl) (fun _ => ⟨rfl, rfl, fun _ => .inr rfl⟩) (.inl rfl)
    fun _ => .inl rfl) h_self

/-- A link that is written belongs to the end of the pending list, whose word is taken, or to an
entry of the receiver. -/
theorem setNext (h : Repr SIZE receiver m pc L) {p : P} {c : Pc} {i : ℕ} (j : ℕ)
    (h_i : (pc p).heldTail = some i ∨ p = receiver ∧ i ∈ L .seen ++ L .rest)
    (h_top : c.heldTop = (pc p).heldTop) (h_tail : c.heldTail = (pc p).heldTail)
    (h_self : Proc SIZE receiver (m.setNext i j).next m.pendingTail L p c) :
    Repr SIZE receiver (m.setNext i j) (Function.update pc p c) L := by
  -- the stack does not hold the entry, so its links stay
  have h_free : i ∉ L .free := by
    intro h_in
    rcases h_i with h_held | ⟨-, h_mem⟩
    · obtain rfl := h.heldTail_eq h_held
      rcases tail_mem L with ⟨h_zero, -⟩ | h_pending
      · have h_pos := (h.bounds h_in).1
        omega
      · exact absurd (h.exact_.unique h_in h_pending) (by simp)
    · rcases List.mem_append.mp h_mem with h_seen | h_rest
      · exact absurd (h.exact_.unique h_in h_seen) (by simp)
      · exact absurd (h.exact_.unique h_in h_rest) (by simp)
  -- and of the pending list it can only be the last entry, whose link does not count
  have h_pending : i ∉ (0 :: L .pending).dropLast := by
    rcases h_i with h_held | ⟨-, h_mem⟩
    · obtain rfl := h.heldTail_eq h_held
      exact tail_notMem_dropLast h
    · intro h_in
      rcases List.mem_cons.mp (List.dropLast_subset _ h_in) with rfl | h_pending
      · rcases List.mem_append.mp h_mem with h_mem | h_mem
        · exact absurd (h.bounds h_mem).1 (by omega)
        · exact absurd (h.bounds h_mem).1 (by omega)
      · rcases List.mem_append.mp h_mem with h_mem | h_mem
        · exact absurd (h.exact_.unique h_pending h_mem) (by simp)
        · exact absurd (h.exact_.unique h_pending h_mem) (by simp)
  refine ⟨h.pos, h.exact_, h.free.update ?_ j, h.pending.update h_pending j, ?_, ?_, ?_⟩
  · rw [List.dropLast_concat]
    exact h_free
  · rw [held_keep h_top]
    exact h.top
  · rw [held_keep h_tail]
    exact h.tail
  · refine proc_update (h.others (fun _ _ => rfl) (fun _ => ⟨rfl, rfl, id⟩) (.inl rfl) ?_) h_self
    intro k
    by_cases h_k : k = i
    · subst h_k
      rcases h_i with h_held | h_mem
      · exact .inr (.inl ⟨h.heldTail_eq h_held, h_held⟩)
      · exact .inr (.inr h_mem)
    · exact .inl (Function.update_of_ne h_k _ _)

/-- `Alloc` finds no empty entry. -/
theorem allocFull (h : Repr SIZE receiver m pc L) {p : P} {top : ℕ} (h_pc : pc p = .allocFull top) :
    Repr SIZE receiver { m with emptyTop := SIZE } (Function.update pc p .ready) L := by
  have h_proc := h.proc p
  rw [h_pc] at h_proc
  have h_held : (pc p).heldTop = some top := by rw [h_pc]; rfl
  have h_top : L.top SIZE = SIZE := (h.heldTop_eq h_held).symm.trans h_proc.locals
  refine ⟨h.pos, h.exact_, h.free, h.pending, ?_, ?_, ?_⟩
  · rw [held_update, h_top]
    exact h.top.release h_held (ne_emptyLock le_rfl)
  · rw [held_keep (by rw [h_pc]; rfl)]
    exact h.tail
  · exact proc_update (fun q _ => h.proc q)
      ⟨h_proc.owned, nofun, fun h_p _ => h_proc.idle h_p rfl, rfl, trivial⟩

/-- `Alloc` takes the top of the stack. -/
theorem allocTop (h : Repr SIZE receiver m pc L) {p : P} {top nx : ℕ}
    (h_pc : pc p = .allocTop top nx) :
    ∃ l, L .free = top :: l ∧ Repr SIZE receiver { m with emptyTop := nx }
      (Function.update pc p (.own top))
      (Function.update (Function.update L .free l) (.owned p) [top]) := by
  have h_proc := h.proc p
  rw [h_pc] at h_proc
  obtain ⟨h_ne, h_nx⟩ := h_proc.locals
  have h_held : (pc p).heldTop = some top := by rw [h_pc]; rfl
  obtain rfl := h.heldTop_eq h_held
  obtain ⟨l, h_free⟩ := top_mem L h_ne
  refine ⟨l, h_free, ?_⟩
  have h_linked := h.free
  rw [h_free] at h_linked
  have h_owned : L (.owned p) = [] := h_proc.owned
  -- the link of the top leads to the next empty entry, or marks the end
  have h_next : nx = l.headD SIZE ∧ nx ≠ emptyLock SIZE := by
    rw [← h_nx]
    cases h_l : l with
    | nil =>
      rw [h_l] at h_linked
      rw [h_linked.next_eq]
      exact ⟨rfl, ne_emptyLock le_rfl⟩
    | cons a l' =>
      rw [h_l] at h_linked h_free
      have h_a := (h.bounds (k := .free) (i := a) (by rw [h_free]; simp)).2
      rw [h_linked.next_eq]
      exact ⟨rfl, ne_emptyLock h_a.le⟩
  obtain ⟨h_head, h_lock⟩ := h_next
  refine ⟨h.pos, ?_, ?_, h.pending, ?_, ?_, ?_⟩
  · refine h.exact_.move (by simp) ?_
    rw [h_free, h_owned, List.append_nil]
    exact List.perm_append_singleton _ l
  · exact h_linked.tail
  · rw [held_update]
    change Guarded _ nx (l.headD SIZE) _
    rw [← h_head]
    exact h.top.release h_held h_lock
  · rw [held_keep (by rw [h_pc]; rfl)]
    exact h.tail
  · refine proc_update (h.others ?_ (fun _ => ⟨rfl, rfl, id⟩) (.inl rfl) fun _ => .inl rfl) ?_
    · intro q h_q
      rw [Function.update_of_ne (by simpa using h_q), Function.update_of_ne (by simp)]
    · exact ⟨Function.update_self _ _ _, nofun, fun h_p _ => h_proc.idle h_p rfl, rfl, trivial⟩

/-- `Push` makes the entry the end of the pending list. -/
theorem pushTail (h : Repr SIZE receiver m pc L) {p : P} {entry tail : ℕ}
    (h_pc : pc p = .pushTail entry tail) :
    Repr SIZE receiver { m with pendingTail := entry } (Function.update pc p .ready)
      (Function.update (Function.update L (.owned p) []) .pending (L .pending ++ [entry])) := by
  have h_proc := h.proc p
  rw [h_pc] at h_proc
  have h_link : m.next tail = entry := h_proc.locals
  have h_owned : L (.owned p) = [entry] := h_proc.owned
  have h_held : (pc p).heldTail = some tail := by rw [h_pc]; rfl
  have h_tail := h.heldTail_eq h_held
  have h_entry : 1 ≤ entry ∧ entry < SIZE :=
    h.bounds (k := .owned p) (by rw [h_owned]; exact List.mem_singleton_self _)
  refine ⟨h.pos, ?_, h.free, ?_, ?_, ?_, ?_⟩
  · refine h.exact_.move (by simp) ?_
    rw [h_owned, List.nil_append]
    exact List.perm_append_comm
  · rw [Function.update_self, ← List.cons_append]
    refine h.pending.append (List.IsChain.singleton entry) ?_
    intro x h_x y h_y
    rw [List.getLast?_cons] at h_x
    obtain rfl := Option.some.inj h_x
    obtain rfl := Option.some.inj h_y
    -- the old end was linked to the entry before, by `pushNext`
    rw [← h_link, h_tail, Layout.tail, List.getLastD_eq_getLast?]
  · rw [held_keep (by rw [h_pc]; rfl)]
    exact h.top
  · rw [held_update]
    unfold Layout.tail
    rw [Function.update_self, List.getLastD_concat]
    exact h.tail.release h_held (ne_pendingLock h_entry.2.le)
  · refine proc_update (h.others ?_ ?_ (.inr ⟨tail, h_held⟩) fun _ => .inl rfl) ?_
    · intro q h_q
      rw [Function.update_of_ne (by simp), Function.update_of_ne (by simpa using h_q)]
    · refine fun _ => ⟨rfl, rfl, fun _ => ?_⟩
      rw [Function.update_self]
      exact .inl (List.append_ne_nil_of_right_ne_nil _ (List.cons_ne_nil entry []))
    · refine ⟨?_, nofun, fun h_p _ => h_proc.idle h_p rfl, rfl, trivial⟩
      rw [Function.update_of_ne (by simp), Function.update_self]
      rfl

/-- `PopAll` takes the pending list. -/
theorem popTail (h : Repr SIZE receiver m pc L) {p : P} {tail ret : ℕ}
    (h_pc : pc p = .popTail tail ret) :
    Repr SIZE receiver { m with pendingTail := 0 } (Function.update pc p (.popEnd tail ret))
      (Function.update (Function.update L .pending []) .rest (L .pending)) := by
  have h_proc := h.proc p
  rw [h_pc] at h_proc
  have h_ret : (L .pending).head? = some ret := h_proc.locals
  have h_held : (pc p).heldTail = some tail := by rw [h_pc]; rfl
  have h_tail := h.heldTail_eq h_held
  have h_p := h_proc.role rfl
  obtain ⟨h_rest, h_seen⟩ := h_proc.idle h_p rfl
  refine ⟨h.pos, ?_, h.free, List.IsChain.singleton 0, ?_, ?_, ?_⟩
  · -- the list of the receiver was empty, and becomes the pending list as it is
    refine h.exact_.move (by simp) ?_
    rw [h_rest, List.nil_append, List.append_nil]
  · rw [held_keep (by rw [h_pc]; rfl)]
    exact h.top
  · rw [held_update]
    exact h.tail.release h_held (ne_pendingLock (Nat.zero_le SIZE))
  · refine proc_update (h.others (fun _ _ => rfl) (fun h_ne => absurd h_p.symm h_ne)
      (.inr ⟨tail, h_held⟩) fun _ => .inl rfl) ?_
    -- its first entry was read from the dummy one, its last one is the word
    refine ⟨h_proc.owned, fun _ => h_p, nofun, rfl, h_seen, h_ret, ?_, h.pending.tail⟩
    rw [Function.update_self, h_tail]
    unfold Layout.tail
    rcases List.eq_nil_or_concat (L .pending) with h_nil | ⟨l, a, h_concat⟩
    · rw [h_nil] at h_ret
      cases h_ret
    · rw [h_concat, List.concat_eq_append, List.getLast?_concat, List.getLastD_concat]

/-- The receiver looks at the next entry of its list. -/
theorem visit (h : Repr SIZE receiver m pc L) {p : P} {first cur : ℕ}
    (h_pc : pc p = .visit first cur) :
    ∃ l, L .rest = cur :: l ∧ Repr SIZE receiver m (Function.update pc p (.work first cur))
      (Function.update (Function.update L .rest l) .seen (L .seen ++ [cur])) := by
  have h_proc := h.proc p
  rw [h_pc] at h_proc
  obtain ⟨h_first, h_cur, h_linked⟩ := h_proc.locals
  have h_p := h_proc.role rfl
  obtain ⟨l, h_rest⟩ := List.head?_eq_some_iff.mp h_cur
  refine ⟨l, h_rest, h.pos, ?_, h.free, h.pending, ?_, ?_, ?_⟩
  · refine h.exact_.move (by simp) ?_
    rw [h_rest, ← List.append_assoc]
    exact List.perm_append_singleton cur _
  · rw [held_keep (by rw [h_pc]; rfl)]
    exact h.top
  · rw [held_keep (by rw [h_pc]; rfl)]
    exact h.tail
  · refine proc_update (h.others (fun _ _ => rfl) (fun h_ne => absurd h_p.symm h_ne) (.inl rfl)
      fun _ => .inl rfl) ⟨h_proc.owned, fun _ => h_p, nofun, rfl, ?_, ?_, ?_⟩
    · rw [Function.update_self, ← h_first, h_rest]
      cases L .seen <;> rfl
    · rw [Function.update_self]
      exact List.getLast?_concat
    · rw [Function.update_self, Function.update_of_ne (by simp), Function.update_self,
        List.append_assoc (L .seen), List.singleton_append, ← h_rest]
      exact h_linked

/-- `Recycle` puts the list of the receiver on the stack. -/
theorem recycleTop (h : Repr SIZE receiver m pc L) {p : P} {first last top : ℕ}
    (h_pc : pc p = .recycleTop first last top) :
    L .rest = [] ∧ Repr SIZE receiver { m with emptyTop := first } (Function.update pc p .ready)
      (Function.update (Function.update L .seen []) .free (L .seen ++ L .free)) := by
  have h_proc := h.proc p
  rw [h_pc] at h_proc
  obtain ⟨h_rest, h_first, h_last, h_linked, h_next⟩ := h_proc.locals
  have h_held : (pc p).heldTop = some top := by rw [h_pc]; rfl
  have h_top := h.heldTop_eq h_held
  have h_p := h_proc.role rfl
  refine ⟨h_rest, h.pos, ?_, ?_, h.pending, ?_, ?_, ?_⟩
  · refine h.exact_.move (by simp) ?_
    rw [List.nil_append]
  · rw [Function.update_self, List.append_assoc]
    refine h_linked.append h.free fun x h_x y h_y => ?_
    -- the last entry of the list links to the old top
    obtain rfl := Option.some.inj (h_last.symm.trans h_x)
    rw [h_next, h_top]
    unfold Layout.top
    cases h_free : L .free with
    | nil =>
      rw [h_free] at h_y
      exact Option.some.inj h_y
    | cons a l =>
      rw [h_free] at h_y
      exact Option.some.inj h_y
  · rw [held_update]
    have h_in : first ∈ L .seen := List.mem_of_mem_head? h_first
    have h_new : Layout.top SIZE (Function.update (Function.update L .seen []) .free
        (L .seen ++ L .free)) = first := by
      obtain ⟨l, h_seen⟩ := List.head?_eq_some_iff.mp h_first
      unfold Layout.top
      rw [Function.update_self, h_seen]
      rfl
    rw [h_new]
    exact h.top.release h_held (ne_emptyLock (h.bounds h_in).2.le)
  · rw [held_keep (by rw [h_pc]; rfl)]
    exact h.tail
  · refine proc_update (h.others (fun _ _ => rfl) (fun h_ne => absurd h_p.symm h_ne) (.inl rfl)
      fun _ => .inl rfl) ⟨h_proc.owned, nofun, fun _ _ => ?_, rfl, trivial⟩
    exact ⟨h_rest, by rw [Function.update_of_ne (by simp), Function.update_self]⟩

end Repr

/-! ### The contents -/

/-- The data on its way to the receiver, in order. -/
def Layout.contents (m : Memory EntryData) (L : Layout P) : List EntryData :=
  (L .rest ++ L .pending).map m.data

/-- Writing to an entry that is not on its way changes no contents. -/
theorem contents_modifyData (h : i ∉ L .rest ++ L .pending) (f : EntryData → EntryData) :
    L.contents (m.modifyData i f) = L.contents m := by
  refine List.map_congr_left fun j h_j => Function.update_of_ne ?_ _ _
  rintro rfl
  exact h h_j

/-! ### The step -/

theorem found_ne (lockVal val : ℕ) : Fetch.found lockVal val ≠ .cas lockVal := by
  unfold Fetch.found
  split
  · exact nofun
  · intro h_eq
    exact absurd (Fetch.cas.inj h_eq) ‹_›

/-- `FetchAndLock` goes on, and will not put the mark in place of the mark. -/
theorem fetchAndLock_inl {lockVal var var' : ℕ} {fetch fetch' : Fetch}
    (h : fetchAndLock lockVal var fetch = (var', .inl fetch')) :
    var' = var ∧ fetch' ≠ .cas lockVal := by
  cases fetch with
  | load =>
    obtain ⟨h_var, h_fetch⟩ := Prod.mk.inj h
    exact ⟨h_var.symm, Sum.inl.inj h_fetch ▸ found_ne lockVal var⟩
  | cas val =>
    by_cases h_val : var = val
    · rw [fetchAndLock, if_pos h_val] at h
      cases (Prod.mk.inj h).2
    · rw [fetchAndLock, if_neg h_val] at h
      obtain ⟨h_var, h_fetch⟩ := Prod.mk.inj h
      exact ⟨h_var.symm, Sum.inl.inj h_fetch ▸ found_ne lockVal var⟩

/-- `FetchAndLock` finds a value and leaves the mark. -/
theorem fetchAndLock_inr {lockVal var var' val : ℕ} {fetch : Fetch} (h_ne : fetch ≠ .cas lockVal)
    (h : fetchAndLock lockVal var fetch = (var', .inr val)) :
    var' = lockVal ∧ val = var ∧ var ≠ lockVal := by
  cases fetch with
  | load => cases (Prod.mk.inj h).2
  | cas val' =>
    by_cases h_var : var = val'
    · rw [fetchAndLock, if_pos h_var] at h
      obtain ⟨rfl, h_val⟩ := Prod.mk.inj h
      obtain rfl := Sum.inr.inj h_val
      refine ⟨rfl, h_var.symm, fun h_lock => h_ne ?_⟩
      rw [← h_lock, h_var]
    · rw [fetchAndLock, if_neg h_var] at h
      cases (Prod.mk.inj h).2

variable [DecidableEq P]

/-- **Step lemma.** Once the queue is constructed, every access keeps it laid out, and what is
looked at, then what is on its way, is what was on its way, then what is pushed. -/
theorem Repr.step (h : Repr SIZE receiver m pc L) {p : P} {op : Op EntryData}
    {m' : Memory EntryData} {c : Pc} {ev : Option (Event EntryData)} (h_ready : m.initState = 2)
    (h_role : op = .popAll → p = receiver)
    (h_access : access SIZE m (pc p) op = some (m', c, ev)) :
    ∃ L', Repr SIZE receiver m' (Function.update pc p c) L' ∧
      (Event.taken? ev).toList ++ L'.contents m' =
        L.contents m ++ (Event.pushed? ev).toList := by
  have h_proc := h.proc p
  revert h_access
  -- one case for each access, in the order of the source
  generalize h_pc : pc p = from_ at *
  -- most of them only go on
  have h_keep : ∀ {c}, c.heldTop = from_.heldTop → c.heldTail = from_.heldTail →
      Proc SIZE receiver m.next m.pendingTail L p c →
      Repr SIZE receiver m (Function.update pc p c) L := by
    intro c h_top h_tail h_self
    rw [← h_pc] at h_top h_tail
    exact h.keep h_top h_tail h_self
  fun_cases access SIZE m from_ op
  all_goals rintro ⟨⟩
  -- the constructor has nothing to do any more
  case case1 h_zero => omega
  case case2 => exact ⟨L, h_keep rfl rfl ⟨h_proc.owned, nofun, h_proc.idle, rfl, trivial⟩,
    (List.append_nil _).symm⟩
  case case3 =>
    rw [if_pos h_ready]
    exact ⟨L, h_keep rfl rfl ⟨h_proc.owned, nofun, h_proc.idle, rfl, trivial⟩,
      (List.append_nil _).symm⟩
  case case4 | case5 | case6 | case7 => cases h_proc.started
  -- `Alloc`
  case case8 => exact ⟨L, h_keep rfl rfl ⟨h_proc.owned, nofun, h_proc.idle, rfl, nofun⟩,
    (List.append_nil _).symm⟩
  case case9 fetch _ _ h_fetch =>
    obtain ⟨rfl, h_ne⟩ := fetchAndLock_inl h_fetch
    exact ⟨L, h_keep rfl rfl ⟨h_proc.owned, nofun, h_proc.idle, rfl, h_ne⟩,
      (List.append_nil _).symm⟩
  case case10 fetch _ top h_fetch =>
    obtain ⟨rfl, rfl, h_word⟩ := fetchAndLock_inr h_proc.locals h_fetch
    refine ⟨L, h.acquireTop h_word ?_ ?_ ?_, (List.append_nil _).symm⟩
    · split <;> rfl
    · rw [h_pc]
      split <;> rfl
    · split
      case isTrue h_full => exact ⟨h_proc.owned, nofun, h_proc.idle, rfl, h_full⟩
      case isFalse h_some => exact ⟨h_proc.owned, nofun, h_proc.idle, rfl, h_some⟩
  case case11 => exact ⟨L, h.allocFull h_pc, (List.append_nil _).symm⟩
  case case12 => exact ⟨L, h_keep rfl rfl
    ⟨h_proc.owned, nofun, h_proc.idle, rfl, h_proc.locals, rfl⟩, (List.append_nil _).symm⟩
  case case13 =>
    obtain ⟨l, -, h_repr⟩ := h.allocTop h_pc
    exact ⟨_, h_repr, (List.append_nil _).symm⟩
  case case14 entry f =>
    refine ⟨L, (h_keep rfl rfl h_proc).modifyData entry f, ?_⟩
    -- what is allocated is not on its way yet
    have h_entry : entry ∉ L .rest ++ L .pending := by
      have h_mine := h.mem_owned (p := p) (i := entry) (by rw [h_pc]; rfl)
      rw [List.mem_append, not_or]
      exact ⟨h.exact_.notMem_of_ne h_mine (by simp), h.exact_.notMem_of_ne h_mine (by simp)⟩
    exact (contents_modifyData h_entry f).trans (List.append_nil _).symm
  -- `Push`
  case case15 => exact ⟨L, h_keep rfl rfl ⟨h_proc.owned, nofun, h_proc.idle, rfl, nofun⟩,
    (List.append_nil _).symm⟩
  case case16 entry fetch _ _ h_fetch =>
    obtain ⟨rfl, h_ne⟩ := fetchAndLock_inl h_fetch
    exact ⟨L, h_keep rfl rfl ⟨h_proc.owned, nofun, h_proc.idle, rfl, h_ne⟩,
      (List.append_nil _).symm⟩
  case case17 entry fetch _ tail h_fetch =>
    obtain ⟨rfl, rfl, h_word⟩ := fetchAndLock_inr h_proc.locals h_fetch
    refine ⟨L, h.acquireTail h_word ?_ rfl ?_, (List.append_nil _).symm⟩
    · rw [h_pc]
      rfl
    · exact ⟨h_proc.owned, nofun, h_proc.idle, rfl, trivial⟩
  case case18 entry tail =>
    refine ⟨L, h.setNext entry (.inl (by rw [h_pc]; rfl)) ?_ ?_ ?_, (List.append_nil _).symm⟩
    · rw [h_pc]
      rfl
    · rw [h_pc]
      rfl
    · exact ⟨h_proc.owned, nofun, h_proc.idle, rfl, Function.update_self _ _ _⟩
  case case19 entry tail =>
    refine ⟨_, h.pushTail h_pc, ?_⟩
    change ((Function.update _ _ _ : Layout P) .rest ++ _).map m.data = _
    rw [Function.update_of_ne (by simp), Function.update_of_ne (by simp), Function.update_self,
      ← List.append_assoc, List.map_append]
    rfl
  -- `PopAll`
  case case20 =>
    by_cases h_zero : m.pendingTail = 0
    · rw [if_pos h_zero]
      exact ⟨L, h_keep rfl rfl ⟨h_proc.owned, nofun, h_proc.idle, rfl, trivial⟩,
        (List.append_nil _).symm⟩
    · rw [if_neg h_zero]
      refine ⟨L, h_keep rfl rfl ⟨h_proc.owned, fun _ => h_role rfl, h_proc.idle, rfl, ?_, nofun⟩,
        (List.append_nil _).symm⟩
      by_cases h_word : m.pendingTail = pendingLock SIZE
      · exact .inr h_word
      · -- a word that is there and not 0 is the end of a list that is not empty
        refine .inl fun h_nil => h_zero ?_
        rw [h.tail.found h_word, Layout.tail, h_nil]
        rfl
  case case21 fetch _ _ h_fetch =>
    obtain ⟨rfl, h_ne⟩ := fetchAndLock_inl h_fetch
    exact ⟨L, h_keep rfl rfl ⟨h_proc.owned, h_proc.role, h_proc.idle, rfl, h_proc.locals.1, h_ne⟩,
      (List.append_nil _).symm⟩
  case case22 fetch _ tail h_fetch =>
    obtain ⟨rfl, rfl, h_word⟩ := fetchAndLock_inr h_proc.locals.2 h_fetch
    refine ⟨L, h.acquireTail h_word ?_ rfl ?_, (List.append_nil _).symm⟩
    · rw [h_pc]
      rfl
    · exact ⟨h_proc.owned, h_proc.role, h_proc.idle, rfl, h_proc.locals.1.resolve_right h_word⟩
  case case23 tail =>
    refine ⟨L, h_keep rfl rfl ⟨h_proc.owned, h_proc.role, h_proc.idle, rfl, ?_⟩,
      (List.append_nil _).symm⟩
    -- the dummy entry links to the first pending one
    obtain ⟨a, l, h_pending⟩ := List.exists_cons_of_ne_nil h_proc.locals
    have h_linked := h.pending
    rw [h_pending] at h_linked
    change (L .pending).head? = some (m.next 0)
    rw [h_pending, h_linked.next_eq]
    rfl
  case case24 tail ret =>
    obtain ⟨h_rest, -⟩ := h_proc.idle (h_proc.role rfl) rfl
    refine ⟨_, h.popTail h_pc, ?_⟩
    change ((Function.update _ _ _ : Layout P) .rest ++ _).map m.data = _
    rw [Function.update_self, Function.update_of_ne (by simp), Function.update_self]
    unfold Layout.contents
    rw [h_rest, List.append_nil]
    exact (List.append_nil _).symm
  case case25 tail ret =>
    obtain ⟨h_seen, h_ret, h_tail, h_linked⟩ := h_proc.locals
    have h_p := h_proc.role rfl
    have h_mem : tail ∈ L .seen ++ L .rest :=
      List.mem_append_right _ (List.mem_of_mem_getLast? h_tail)
    refine ⟨L, h.setNext SIZE (.inr ⟨h_p, h_mem⟩) ?_ ?_ ?_, (List.append_nil _).symm⟩
    · rw [h_pc]
      rfl
    · rw [h_pc]
      rfl
    refine ⟨h_proc.owned, h_proc.role, nofun, rfl, ?_, h_ret, ?_⟩
    · rw [h_seen]
      exact h_ret
    · rw [h_seen, List.nil_append]
      refine (h_linked.update_last (h.exact_.nodup .rest) h_tail SIZE).append
        (List.IsChain.singleton SIZE) fun x h_x y h_y => ?_
      obtain rfl := Option.some.inj (h_tail.symm.trans h_x)
      exact (Function.update_self _ _ _).trans (Option.some.inj h_y)
  -- the entries of the list
  case case26 first cur =>
    obtain ⟨l, h_rest, h_repr⟩ := h.visit h_pc
    refine ⟨_, h_repr, ?_⟩
    change _ :: ((Function.update _ _ _ : Layout P) .rest ++ _).map m.data = _
    rw [Function.update_of_ne (by simp), Function.update_self, Function.update_of_ne (by simp),
      Function.update_of_ne (by simp)]
    unfold Layout.contents
    rw [h_rest]
    exact (List.append_nil _).symm
  case case27 first cur f =>
    refine ⟨L, (h_keep rfl rfl h_proc).modifyData cur f, ?_⟩
    -- what the receiver changes it has looked at before
    have h_cur : cur ∉ L .rest ++ L .pending := by
      have h_seen : cur ∈ L .seen := List.mem_of_mem_getLast? h_proc.locals.2.1
      rw [List.mem_append, not_or]
      exact ⟨h.exact_.notMem_of_ne h_seen (by simp), h.exact_.notMem_of_ne h_seen (by simp)⟩
    exact (contents_modifyData h_cur f).trans (List.append_nil _).symm
  case case28 => exact ⟨L, h_keep rfl rfl ⟨h_proc.owned, h_proc.role, nofun, rfl, h_proc.locals⟩,
    (List.append_nil _).symm⟩
  -- `NextEntry`
  case case29 first cur =>
    obtain ⟨h_first, h_cur, h_linked⟩ := h_proc.locals
    have h_next := next_cur L h_cur h_linked
    split
    case isTrue h_end =>
      -- a link to `SIZE` is the end: the entries themselves are below it
      have h_rest : L .rest = [] := by
        by_contra h_ne
        obtain ⟨a, l, h_rest⟩ := List.exists_cons_of_ne_nil h_ne
        have h_a := (h.bounds (k := .rest) (i := a) (by rw [h_rest]; exact List.mem_cons_self)).2
        rw [h_rest] at h_next
        exact h_a.ne (h_next.symm.trans h_end)
      have h_chain := List.IsChain.left_of_append (List.IsChain.left_of_append h_linked)
      exact ⟨L, h_keep rfl rfl ⟨h_proc.owned, h_proc.role, nofun, rfl, nofun, h_rest, h_first,
        h_cur, h_chain⟩, (List.append_nil _).symm⟩
    case isFalse h_more =>
      have h_rest : L .rest ≠ [] := by
        intro h_nil
        rw [h_nil] at h_next
        exact h_more h_next
      exact ⟨L, h_keep rfl rfl ⟨h_proc.owned, h_proc.role, nofun, rfl, h_first, h_cur, h_rest,
        h_linked⟩, (List.append_nil _).symm⟩
  case case30 first cur =>
    obtain ⟨h_first, h_cur, h_rest, h_linked⟩ := h_proc.locals
    have h_next := next_cur L h_cur h_linked
    obtain ⟨a, l, h_cons⟩ := List.exists_cons_of_ne_nil h_rest
    rw [h_cons] at h_next
    refine ⟨L, h_keep rfl rfl ⟨h_proc.owned, h_proc.role, nofun, rfl, ?_, ?_, h_linked⟩,
      (List.append_nil _).symm⟩
    · obtain ⟨l', h_seen⟩ := List.head?_eq_some_iff.mp h_first
      rw [h_seen]
      rfl
    · rw [h_cons, h_next]
      rfl
  -- `Recycle`
  case case31 first last fetch _ _ h_fetch =>
    obtain ⟨rfl, h_ne⟩ := fetchAndLock_inl h_fetch
    exact ⟨L, h_keep rfl rfl ⟨h_proc.owned, h_proc.role, nofun, rfl, h_ne, h_proc.locals.2⟩,
      (List.append_nil _).symm⟩
  case case32 first last fetch _ top h_fetch =>
    obtain ⟨rfl, rfl, h_word⟩ := fetchAndLock_inr h_proc.locals.1 h_fetch
    refine ⟨L, h.acquireTop h_word rfl ?_ ?_, (List.append_nil _).symm⟩
    · rw [h_pc]
      rfl
    · exact ⟨h_proc.owned, h_proc.role, nofun, rfl, h_proc.locals.2⟩
  case case33 first last top =>
    obtain ⟨h_rest, h_first, h_last, h_linked⟩ := h_proc.locals
    have h_p := h_proc.role rfl
    have h_mem : last ∈ L .seen ++ L .rest :=
      List.mem_append_left _ (List.mem_of_mem_getLast? h_last)
    refine ⟨L, h.setNext top (.inr ⟨h_p, h_mem⟩) ?_ ?_ ?_, (List.append_nil _).symm⟩
    · rw [h_pc]
      rfl
    · rw [h_pc]
      rfl
    · exact ⟨h_proc.owned, h_proc.role, nofun, rfl, h_rest, h_first, h_last,
        h_linked.update_last (h.exact_.nodup .seen) h_last top, Function.update_self _ _ _⟩
  case case34 first last top =>
    obtain ⟨h_rest, h_repr⟩ := h.recycleTop h_pc
    refine ⟨_, h_repr, ?_⟩
    change ((Function.update _ _ _ : Layout P) .rest ++ _).map m.data = _
    rw [Function.update_of_ne (by simp), Function.update_of_ne (by simp),
      Function.update_of_ne (by simp), Function.update_of_ne (by simp)]
    exact (List.append_nil _).symm

end Repr

end MoleculeOS.ShmQueue
