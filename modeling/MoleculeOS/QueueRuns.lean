import Mathlib.Data.List.Perm.Subperm
import MoleculeOS.QueueLayout

/-!
# Runs of the shared queue

The processes of a run construct the queue once, whoever comes first; then the entries are laid out
as `QueueLayout` says in every state (`entries_accounted`). What the receiver looks at is what was
pushed, in the order in which the processes appended to the pending list (`taken_pushed`); no two
processes ever work on the same field of an entry at the same time (`race_free`); and whatever the
processes are in the middle of, each of them can be brought to the end of its call (`can_return`).
Their numbers stay within the words of the source (`words_fit`).
-/

namespace MoleculeOS.ShmQueue

open Pool LockWord Transition

variable {P EntryData : Type} {SIZE : ℕ} {receiver : P}

/-! ### Construction -/

/-- How far a process has got in the constructor. -/
def Built (SIZE : ℕ) (m : Memory EntryData) : Pc → Prop
  | .initTail => True
  | .initTop => m.pendingTail = 0
  | .initNext i => m.pendingTail = 0 ∧ m.emptyTop = 1 ∧ 1 ≤ i ∧ i < SIZE ∧
      ∀ j, 1 ≤ j → j < i → m.next j = j + 1
  | .publish => m.pendingTail = 0 ∧ m.emptyTop = 1 ∧ ∀ j, 1 ≤ j → j < SIZE → m.next j = j + 1
  | _ => False

/-- The queue is not constructed yet: no process has begun to, or one is at it. -/
inductive Starting (SIZE : ℕ) (m : Memory EntryData) (pc : P → Pc) : Prop
  | before (h_init : m.initState = 0) (h_pc : ∀ p, pc p = .construct)
  | building (h_init : m.initState = 1) (p : P) (h_p : Built SIZE m (pc p))
      (h_others : ∀ q, q ≠ p → pc q = .construct ∨ pc q = .await)

/-- All entries are empty. -/
def Layout.initial (SIZE : ℕ) : Layout P
  | .free => List.range' 1 (SIZE - 1)
  | _ => []

theorem range'_concat {SIZE : ℕ} (h_pos : 0 < SIZE) :
    List.range' 1 (SIZE - 1) ++ [SIZE] = List.range' 1 SIZE := by
  obtain ⟨n, rfl⟩ : ∃ n, SIZE = n + 1 := ⟨SIZE - 1, by omega⟩
  rw [List.range'_concat, Nat.add_sub_cancel, Nat.one_mul, Nat.add_comm 1 n]

/-- **What the constructor publishes.** -/
theorem Repr.initial {m : Memory EntryData} {pc : P → Pc} (h_pos : 0 < SIZE)
    (h_tail : m.pendingTail = 0) (h_top : m.emptyTop = 1)
    (h_next : ∀ j, 1 ≤ j → j < SIZE → m.next j = j + 1)
    (h_pc : ∀ p, pc p = .construct ∨ pc p = .await ∨ pc p = .ready) :
    Repr SIZE receiver m pc (Layout.initial SIZE) := by
  have h_none : ∀ (f : Pc → Option ℕ), f .construct = none → f .await = none → f .ready = none →
      ∀ p, f (pc p) = none := by
    intro f h_c h_a h_r p
    rcases h_pc p with h | h | h
    · rw [h, h_c]
    · rw [h, h_a]
    · rw [h, h_r]
  have h_first : (List.range' 1 (SIZE - 1)).headD SIZE = 1 := by
    obtain ⟨n, rfl⟩ : ∃ n, SIZE = n + 1 := ⟨SIZE - 1, by omega⟩
    cases n <;> rfl
  -- exactness, the stack, the pending list, the two words, and what the processes remember
  refine ⟨h_pos, ⟨fun k => ?_, fun i => ?_, fun {i k k'} h_k h_k' => ?_⟩, ?_,
    List.IsChain.singleton 0, ?_, ?_, fun p => ?_⟩
  · cases k with
    | free => exact List.nodup_range'
    | _ => exact List.nodup_nil
  · have h_range : i ∈ List.range' 1 (SIZE - 1) ↔ 1 ≤ i ∧ i < SIZE := by
      rw [List.mem_range'_1]
      omega
    refine ⟨fun h_i => ⟨.free, h_range.mpr h_i⟩, fun ⟨k, h_k⟩ => ?_⟩
    cases k with
    | free => exact h_range.mp h_k
    | _ => cases h_k
  · cases k <;> cases k' <;> first | rfl | cases h_k | cases h_k'
  · -- each entry leads to the next one and the last one to `SIZE`, the mark of an empty stack
    change Linked m.next (List.range' 1 (SIZE - 1) ++ [SIZE])
    have h_chain : Linked (· + 1) (List.range' 1 (SIZE - 1) ++ [SIZE]) := by
      rw [range'_concat h_pos]
      exact (List.isChain_range' 1 SIZE 1).imp fun _ _ h => h.symm
    refine h_chain.congr fun i h_i => ?_
    rw [List.dropLast_concat, List.mem_range'_1] at h_i
    exact h_next i h_i.1 (by omega)
  · -- nobody is in a call, so both words are there
    refine ⟨?_, fun _ => h_top.trans h_first.symm, fun {p v} h_v => ?_, fun {p q v w} h_v => ?_⟩
    · change (List.range' 1 (SIZE - 1)).headD SIZE ≠ _
      rw [h_first]
      exact ne_emptyLock h_pos
    · rw [h_none Pc.heldTop rfl rfl rfl p] at h_v
      cases h_v
    · rw [h_none Pc.heldTop rfl rfl rfl p] at h_v
      cases h_v
  · refine ⟨ne_pendingLock (Nat.zero_le SIZE), fun _ => h_tail, fun {p v} h_v => ?_,
      fun {p q v w} h_v => ?_⟩
    · rw [h_none Pc.heldTail rfl rfl rfl p] at h_v
      cases h_v
    · rw [h_none Pc.heldTail rfl rfl rfl p] at h_v
      cases h_v
  · rcases h_pc p with h | h | h <;> rw [h] <;>
      exact ⟨rfl, nofun, fun _ _ => ⟨rfl, rfl⟩, rfl, trivial⟩

/-! ### Steps -/

theorem pushed_snoc (ls : List (Label P EntryData)) (l : Label P EntryData) :
    pushed (ls ++ [l]) = pushed ls ++ (Event.pushed? l.event).toList :=
  System.filterMap_snoc _ ls l

theorem taken_snoc (ls : List (Label P EntryData)) (l : Label P EntryData) :
    taken (ls ++ [l]) = taken ls ++ (Event.taken? l.event).toList :=
  System.filterMap_snoc _ ls l

/-- What is on its way fits into the queue. -/
theorem length_contents_le {m : Memory EntryData} {pc : P → Pc} {L : Layout P}
    (h : Repr SIZE receiver m pc L) : (L.contents m).length ≤ SIZE - 1 := by
  have h_nodup : (L .rest ++ L .pending).Nodup := h.exact_.nodup_append (by simp)
  have h_sub : L .rest ++ L .pending ⊆ List.range' 1 (SIZE - 1) := by
    intro i h_i
    have h_bounds : 1 ≤ i ∧ i < SIZE :=
      (List.mem_append.mp h_i).elim (fun h_in => h.bounds h_in) fun h_in => h.bounds h_in
    rw [List.mem_range'_1]
    omega
  have h_le := (h_nodup.subperm h_sub).length_le
  rw [List.length_range'] at h_le
  unfold Layout.contents
  rw [List.length_map]
  exact h_le

variable [DecidableEq P]

/-- The loop of the constructor goes on, or all is ready to be published. -/
theorem built_initFrom {m : Memory EntryData} {i : ℕ} (h_tail : m.pendingTail = 0)
    (h_top : m.emptyTop = 1) (h_i : 1 ≤ i) (h_next : ∀ j, 1 ≤ j → j < i → m.next j = j + 1) :
    Built SIZE m (.initFrom SIZE i) := by
  -- the test of the loop; with `SIZE = 1` it fails at once
  unfold Pc.initFrom
  split
  case isTrue h_lt => exact ⟨h_tail, h_top, h_i, h_lt, h_next⟩
  case isFalse h_ge => exact ⟨h_tail, h_top, fun j h_j h_lt => h_next j h_j (by omega)⟩

/-- A step of the process that constructs the queue. -/
theorem Built.step {m m' : Memory EntryData} {from_ c : Pc} {op : Op EntryData}
    {ev : Option (Event EntryData)} (h : Built SIZE m from_)
    (h_access : access SIZE m from_ op = some (m', c, ev)) :
    ev = none ∧ (m'.initState = m.initState ∧ Built SIZE m' c ∨
      from_ = .publish ∧ m' = { m with initState := 2 } ∧ c = .ready) := by
  revert h_access
  cases from_ with
  | initTail =>
    cases op with
    | go =>
      rintro ⟨⟩
      exact ⟨rfl, .inl ⟨rfl, rfl⟩⟩
    | _ => nofun
  | initTop =>
    cases op with
    | go =>
      rintro ⟨⟩
      exact ⟨rfl, .inl ⟨rfl, built_initFrom h rfl le_rfl fun j h_j h_lt => by omega⟩⟩
    | _ => nofun
  | initNext i =>
    obtain ⟨h_tail, h_top, h_i, h_lt, h_next⟩ := h
    cases op with
    | go =>
      rintro ⟨⟩
      refine ⟨rfl, .inl ⟨rfl, built_initFrom h_tail h_top (by omega) fun j h_j h_lt' => ?_⟩⟩
      by_cases h_eq : j = i
      · rw [h_eq]
        exact Function.update_self _ _ _
      · exact (Function.update_of_ne h_eq _ _).trans (h_next j h_j (by omega))
    | _ => nofun
  | publish =>
    cases op with
    | go =>
      rintro ⟨⟩
      exact ⟨rfl, .inr ⟨rfl, rfl, rfl⟩⟩
    | _ => nofun
  | _ => cases h

/-- **Step lemma of the constructor.** -/
theorem Starting.step {m m' : Memory EntryData} {pc : P → Pc} (h : Starting SIZE m pc)
    (receiver : P) (h_pos : 0 < SIZE) {p : P} {op : Op EntryData} {c : Pc}
    {ev : Option (Event EntryData)} (h_access : access SIZE m (pc p) op = some (m', c, ev)) :
    ev = none ∧ (Starting SIZE m' (Function.update pc p c) ∨ m'.initState = 2 ∧
      Repr SIZE receiver m' (Function.update pc p c) (Layout.initial SIZE)) := by
  cases h with
  | before h_init h_pc =>
    -- the first compare-and-swap on `init_state` wins
    rw [h_pc] at h_access
    revert h_access
    cases op with
    | go =>
      intro h_access
      obtain ⟨rfl, h_c⟩ := Prod.mk.inj (Option.some.inj ((if_pos h_init).symm.trans h_access))
      obtain ⟨rfl, rfl⟩ := Prod.mk.inj h_c
      refine ⟨rfl, .inl (.building rfl p ?_ fun q h_q => ?_)⟩
      · rw [Function.update_self]
        trivial
      · rw [Function.update_of_ne h_q]
        exact .inl (h_pc q)
    | _ => nofun
  | building h_init b h_b h_others =>
    by_cases h_p : p = b
    · subst h_p
      -- either it is still at it, or it has published the queue and all entries are free
      obtain ⟨rfl, ⟨h_same, h_built⟩ | ⟨h_from, rfl, rfl⟩⟩ := h_b.step h_access
      · refine ⟨rfl, .inl (.building (h_same.trans h_init) p ?_ fun q h_q => ?_)⟩
        · rw [Function.update_self]
          exact h_built
        · rw [Function.update_of_ne h_q]
          exact h_others q h_q
      · rw [h_from] at h_b
        obtain ⟨h_tail, h_top, h_next⟩ := h_b
        refine ⟨rfl, .inr ⟨rfl, Repr.initial h_pos h_tail h_top h_next fun q => ?_⟩⟩
        by_cases h_q : q = p
        · rw [h_q, Function.update_self]
          exact .inr (.inr rfl)
        · rw [Function.update_of_ne h_q]
          exact (h_others q h_q).imp id .inl
    · -- another process waits
      have h_wait : m' = m ∧ c = .await ∧ ev = none := by
        revert h_access
        rcases h_others p h_p with h_c | h_a
        · rw [h_c]
          cases op with
          | go =>
            have h_zero : m.initState ≠ 0 := by omega
            rintro h_access
            obtain ⟨rfl, h_c⟩ := Prod.mk.inj (Option.some.inj ((if_neg h_zero).symm.trans h_access))
            obtain ⟨rfl, rfl⟩ := Prod.mk.inj h_c
            exact ⟨rfl, rfl, rfl⟩
          | _ => nofun
        · rw [h_a]
          cases op with
          | go =>
            have h_two : m.initState ≠ 2 := by omega
            rintro ⟨⟩
            exact ⟨rfl, if_neg h_two, rfl⟩
          | _ => nofun
      obtain ⟨rfl, rfl, rfl⟩ := h_wait
      refine ⟨rfl, .inl (.building h_init b ?_ fun q h_q => ?_)⟩
      · rw [Function.update_of_ne (Ne.symm h_p)]
        exact h_b
      · by_cases h_qp : q = p
        · rw [h_qp, Function.update_self]
          exact .inr rfl
        · rw [Function.update_of_ne h_qp]
          exact h_others q h_q

/-- A constructed queue stays constructed. -/
theorem access_initState {m m' : Memory EntryData} {from_ c : Pc} {op : Op EntryData}
    {ev : Option (Event EntryData)} (h_ready : m.initState = 2)
    (h_access : access SIZE m from_ op = some (m', c, ev)) : m'.initState = 2 := by
  revert h_access
  fun_cases access SIZE m from_ op
  all_goals rintro ⟨⟩
  -- only the compare-and-swap on 0 could undo it
  case case1 h_zero => omega
  all_goals first | exact h_ready | rfl

/-! ### Runs -/

/-- **The invariant.** The queue is being constructed, or it is laid out and what was pushed is what
was taken, then what is on its way. -/
def Holds (SIZE : ℕ) (receiver : P) (ls : List (Label P EntryData)) (s : State P EntryData) :
    Prop :=
  Starting SIZE s.mem s.pc ∧ pushed ls = [] ∧ taken ls = [] ∨
    s.mem.initState = 2 ∧ ∃ L, Repr SIZE receiver s.mem s.pc L ∧
      pushed ls = taken ls ++ L.contents s.mem

theorem Holds.step (h_pos : 0 < SIZE) {ls : List (Label P EntryData)} {s t : State P EntryData}
    {l : Label P EntryData} (h : Holds SIZE receiver ls s)
    (h_step : (queue SIZE receiver).step s l t) : Holds SIZE receiver (ls ++ [l]) t := by
  obtain ⟨h_role, m, c, h_access, rfl⟩ := h_step
  unfold Holds
  rw [pushed_snoc, taken_snoc]
  rcases h with ⟨h_start, h_pushed, h_taken⟩ | ⟨h_ready, L, h_repr, h_eq⟩
  · -- nothing is pushed or taken before the queue is there
    obtain ⟨h_none, h_next⟩ := h_start.step receiver h_pos h_access
    rw [h_none, h_pushed, h_taken]
    exact h_next.imp (fun h => ⟨h, rfl, rfl⟩) fun ⟨h_two, h_repr⟩ => ⟨h_two, _, h_repr, rfl⟩
  · obtain ⟨L', h_repr', h_flow⟩ := h_repr.step h_ready h_role h_access
    refine .inr ⟨access_initState h_ready h_access, L', h_repr', ?_⟩
    -- what is pushed joins the contents at the end, and what is taken leaves them at the front
    rw [h_eq, List.append_assoc, List.append_assoc, h_flow]

theorem reaches_holds (h_pos : 0 < SIZE) {ls : List (Label P EntryData)} {s : State P EntryData}
    (h : (queue SIZE receiver).Reaches ls s) : Holds SIZE receiver ls s := by
  refine System.Reaches.induction (P := Holds SIZE receiver) ?_ ?_ h
  · intro s h_init
    exact .inl ⟨.before h_init.1 h_init.2, rfl, rfl⟩
  · intro ls s l t _ ih h_step
    exact ih.step h_pos h_step

/-- The run in which the processes make the given choices, one after the other. -/
def follow (SIZE : ℕ) (s : State P EntryData) :
    List (P × Op EntryData) → Option (List (Label P EntryData) × State P EntryData)
  | [] => some ([], s)
  | (p, op) :: choices => do
    let (m, c, ev) ← access SIZE s.mem (s.pc p) op
    let (ls, t) ← follow SIZE ⟨m, Function.update s.pc p c⟩ choices
    some (⟨p, op, ev⟩ :: ls, t)

theorem follow_run {choices : List (P × Op EntryData)} {ls : List (Label P EntryData)}
    {s t : State P EntryData} (h_role : ∀ o ∈ choices, o.2 = .popAll → o.1 = receiver)
    (h : follow SIZE s choices = some (ls, t)) : (queue SIZE receiver).Run s ls t := by
  induction choices generalizing s ls with
  | nil =>
    obtain ⟨rfl, rfl⟩ := Prod.mk.inj (Option.some.inj h)
    exact .nil s
  | cons o choices ih =>
    obtain ⟨⟨m, c, ev⟩, h_access, h⟩ := Option.bind_eq_some_iff.mp h
    obtain ⟨⟨ls', t'⟩, h_rest, h⟩ := Option.bind_eq_some_iff.mp h
    obtain ⟨rfl, rfl⟩ := Prod.mk.inj (Option.some.inj h)
    have h_first : (queue SIZE receiver).step s ⟨o.1, o.2, ev⟩ ⟨m, Function.update s.pc o.1 c⟩ :=
      ⟨h_role o List.mem_cons_self, m, c, h_access, rfl⟩
    exact ((System.Run.nil s).snoc h_first).append
      (ih (fun o' h_o => h_role o' (List.mem_cons_of_mem o h_o)) h_rest)

/-- Zeroed memory, and nobody in the constructor yet. -/
def atStart (EntryData : Type) [Zero EntryData] : State P EntryData :=
  ⟨⟨0, 0, 0, fun _ => 0, fun _ => 0⟩, fun _ => .construct⟩

theorem follow_reaches [Zero EntryData] {choices : List (P × Op EntryData)}
    {ls : List (Label P EntryData)} {t : State P EntryData}
    (h_role : ∀ o ∈ choices, o.2 = .popAll → o.1 = receiver)
    (h : follow SIZE (atStart EntryData) choices = some (ls, t)) :
    (queue SIZE receiver).Reaches ls t := ⟨_, ⟨rfl, fun _ => rfl⟩, follow_run h_role h⟩

/-- A sender constructs the queue and allocates its only entry. -/
def allocates : List (Bool × Op ℕ) :=
  List.replicate 5 (false, .go) ++ [(false, .alloc)] ++ List.replicate 4 (false, .go)

/-- It fills the entry and pushes it, and the receiver takes it out and gives it back. -/
def exchanges : List (Bool × Op ℕ) :=
  allocates ++ [(false, .fill fun _ => 7), (false, .push)] ++ List.replicate 4 (false, .go) ++
    List.replicate 2 (true, .go) ++ [(true, .popAll)] ++ List.replicate 6 (true, .go) ++
    [(true, .nextEntry)] ++ List.replicate 5 (true, .go)

theorem exchanges_reaches : ∃ ls s, (queue 2 true).Reaches ls s ∧ pushed ls = [7] ∧
    s.mem.initState = 2 ∧ s.mem.pendingTail = 0 ∧ (s.pc true).hasList = false := by
  have h_role : ∀ o ∈ exchanges, o.2 = .popAll → o.1 = true := by simp [exchanges, allocates]
  have h_end : (follow 2 (atStart ℕ) exchanges).map (fun r => (pushed r.1, r.2.mem.initState,
      r.2.mem.pendingTail, (r.2.pc true).hasList)) = some ([7], 2, 0, false) := by decide
  obtain ⟨⟨ls, s⟩, h_follow, h_eq⟩ := Option.map_eq_some_iff.mp h_end
  simp only [Prod.mk.injEq] at h_eq
  exact ⟨ls, s, follow_reaches h_role h_follow, h_eq⟩

/-- **Entries are never lost and never in two places.** Once the queue is constructed, whatever the
processes are in the middle of, the entries are spread over the stack of empty entries, the pending
list, the list of the receiver and the processes that have allocated one; the stack and the pending
list are what the links make of `empty_top` and of the dummy entry. -/
theorem entries_accounted (h_pos : 0 < SIZE) {ls : List (Label P EntryData)}
    {s : State P EntryData} (h : (queue SIZE receiver).Reaches ls s)
    (h_ready : s.mem.initState = 2) :
    ∃ L : Layout P, Exact {i | 1 ≤ i ∧ i < SIZE} L ∧
      (Linked s.mem.next (L .free ++ [SIZE]) ∧
        (s.mem.emptyTop ≠ emptyLock SIZE → s.mem.emptyTop = (L .free).headD SIZE)) ∧
      (Linked s.mem.next (0 :: L .pending) ∧
        (s.mem.pendingTail ≠ pendingLock SIZE → s.mem.pendingTail = (L .pending).getLastD 0)) ∧
      (∀ p, L (.owned p) = (s.pc p).entry.toList) ∧
      ((s.pc receiver).hasList = false → L .rest = [] ∧ L .seen = []) := by
  rcases reaches_holds h_pos h with ⟨h_start, -⟩ | ⟨-, L, h_repr, -⟩
  · -- the queue is not constructed, against `h_ready`
    cases h_start with
    | before h_init => omega
    | building h_init => omega
  · exact ⟨L, h_repr.exact_, ⟨h_repr.free, h_repr.top.found⟩, ⟨h_repr.pending, h_repr.tail.found⟩,
      fun p => (h_repr.proc p).owned, (h_repr.proc receiver).idle rfl⟩

theorem entries_accounted_exchange : ∃ s : State Bool ℕ, s.mem.pendingTail = 0 ∧ ∃ L : Layout Bool,
    Exact {i | 1 ≤ i ∧ i < 2} L ∧ Linked s.mem.next (0 :: L .pending) := by
  obtain ⟨ls, s, h, -, h_ready, h_tail, -⟩ := exchanges_reaches
  obtain ⟨L, h_exact, -, ⟨h_linked, -⟩, -⟩ := entries_accounted (by decide) h h_ready
  exact ⟨s, h_tail, L, h_exact, h_linked⟩

/-- **First in, first out.** In every run the receiver looks at what was pushed, in the order of the
pushes, nothing lost, made up or changed on the way; at most `SIZE - 1` entries are on their way,
and none once the pending list is empty and the receiver has given its list back. -/
theorem taken_pushed (h_pos : 0 < SIZE) {ls : List (Label P EntryData)} {s : State P EntryData}
    (h : (queue SIZE receiver).Reaches ls s) :
    taken ls <+: pushed ls ∧ (pushed ls).length ≤ (taken ls).length + (SIZE - 1) ∧
      (s.mem.pendingTail = 0 → (s.pc receiver).hasList = false → taken ls = pushed ls) := by
  rcases reaches_holds h_pos h with ⟨-, h_pushed, h_taken⟩ | ⟨-, L, h_repr, h_eq⟩
  · rw [h_pushed, h_taken]
    exact ⟨List.prefix_refl [], Nat.zero_le _, fun _ _ => rfl⟩
  · refine ⟨⟨_, h_eq.symm⟩, ?_, fun h_zero h_list => ?_⟩
    · rw [h_eq, List.length_append]
      exact Nat.add_le_add_left (length_contents_le h_repr) _
    · -- the tail word is 0 and no lock value, so it is the tail of the layout: the list is empty
      have h_word : s.mem.pendingTail ≠ pendingLock SIZE :=
        h_zero ▸ ne_pendingLock (Nat.zero_le SIZE)
      have h_tail : L.tail = 0 := (h_repr.tail.found h_word).symm.trans h_zero
      have h_pending : L .pending = [] := by
        rcases Repr.tail_mem L with ⟨-, h_nil⟩ | h_mem
        · exact h_nil
        · have h_one := (h_repr.bounds h_mem).1
          omega
      obtain ⟨h_rest, -⟩ := (h_repr.proc receiver).idle rfl h_list
      rw [h_eq, Layout.contents, h_rest, h_pending]
      exact (List.append_nil _).symm

theorem taken_pushed_exchange : ∃ (ls : List (Label Bool ℕ)) (s : State Bool ℕ),
    (queue 2 true).Reaches ls s ∧ pushed ls = [7] ∧ taken ls = [7] := by
  obtain ⟨ls, s, h, h_pushed, -, h_tail, h_list⟩ := exchanges_reaches
  exact ⟨ls, s, h, h_pushed, ((taken_pushed (by decide) h).2.2 h_tail h_list).trans h_pushed⟩

/-- **The queue is constructed once.** At most one process constructs it, no process is past the
constructor before it has been, and nobody constructs it again. -/
theorem constructed_once (h_pos : 0 < SIZE) {ls : List (Label P EntryData)} {s : State P EntryData}
    (h : (queue SIZE receiver).Reaches ls s) :
    (∀ p q, (s.pc p).initializing = true → (s.pc q).initializing = true → p = q) ∧
      (s.mem.initState ≠ 2 → ∀ p, s.pc p = .construct ∨ s.pc p = .await ∨
        (s.pc p).initializing = true) ∧
      (s.mem.initState = 2 → ∀ p, (s.pc p).initializing = false) := by
  rcases reaches_holds h_pos h with ⟨h_start, -⟩ | ⟨h_ready, L, h_repr, -⟩
  · cases h_start with
    | before h_init h_pc =>
      refine ⟨fun p q h_p => ?_, fun _ p => .inl (h_pc p), fun h_two => by omega⟩
      rw [h_pc] at h_p
      cases h_p
    | building h_init b h_b h_others =>
      -- a process in the constructor is the one that won: the others still compare or wait
      have h_only : ∀ p, (s.pc p).initializing = true → p = b := by
        intro p h_p
        by_contra h_ne
        rcases h_others p h_ne with h_c | h_a
        · rw [h_c] at h_p
          cases h_p
        · rw [h_a] at h_p
          cases h_p
      refine ⟨fun p q h_p h_q => (h_only p h_p).trans (h_only q h_q).symm, fun _ p => ?_,
        fun h_two => by omega⟩
      by_cases h_p : p = b
      · subst h_p
        refine .inr (.inr ?_)
        -- `Built` holds at the four accesses of the constructor and nowhere else
        generalize s.pc p = c at h_b
        cases c with
        | initTail | initTop | initNext _ | publish => rfl
        | _ => cases h_b
      · exact (h_others p h_p).imp id .inl
  · have h_none : ∀ p, (s.pc p).initializing = false := fun p => (h_repr.proc p).started
    refine ⟨fun p q h_p => ?_, fun h_ne => absurd h_ready h_ne, fun _ => h_none⟩
    rw [h_none] at h_p
    cases h_p

theorem constructed_once_exchange : ∃ s : State Bool ℕ, s.mem.initState = 2 ∧
    (s.pc false).initializing = false ∧ (s.pc true).initializing = false := by
  obtain ⟨ls, s, h, -, h_ready, -⟩ := exchanges_reaches
  obtain ⟨-, -, h_none⟩ := constructed_once (by decide) h
  exact ⟨s, h_ready, h_none h_ready false, h_none h_ready true⟩

/-! ### The words -/

/-- The words of the memory are below the bound. -/
structure Memory.Fits (bound : ℕ) (m : Memory EntryData) : Prop where
  tail : m.pendingTail < bound
  top : m.emptyTop < bound
  next : ∀ i, m.next i < bound

def Fetch.Fits (bound : ℕ) : Fetch → Prop
  | .load => True
  | .cas val => val < bound

/-- The local variables of a process are below the bound. -/
def Pc.Fits (bound : ℕ) : Pc → Prop
  | .initNext i => i + 1 < bound
  | .own entry => entry < bound
  | .visit first cur | .work first cur | .nextTest first cur | .nextRead first cur =>
    first < bound ∧ cur < bound
  | .allocLock fetch | .popLock fetch => fetch.Fits bound
  | .allocFull top | .allocNext top => top < bound
  | .allocTop top next => top < bound ∧ next < bound
  | .pushLock entry fetch => entry < bound ∧ fetch.Fits bound
  | .pushNext entry tail | .pushTail entry tail => entry < bound ∧ tail < bound
  | .popHead tail => tail < bound
  | .popTail tail ret | .popEnd tail ret => tail < bound ∧ ret < bound
  | .recycleLock first last fetch => first < bound ∧ last < bound ∧ fetch.Fits bound
  | .recycleNext first last top | .recycleTop first last top =>
    first < bound ∧ last < bound ∧ top < bound
  | _ => True

namespace Memory.Fits

variable {bound : ℕ} {m : Memory EntryData}

theorem setNext (h : m.Fits bound) {i j : ℕ} (h_j : j < bound) : (m.setNext i j).Fits bound := by
  refine ⟨h.tail, h.top, fun k => ?_⟩
  change Function.update m.next i j k < bound
  by_cases h_k : k = i
  · rw [h_k, Function.update_self]
    exact h_j
  · rw [Function.update_of_ne h_k]
    exact h.next k

/-- `FetchAndLock` stores the lock value or nothing, and returns what the word held. -/
theorem fetchAndLock {lockVal var v : ℕ} {fetch : Fetch} {r : Fetch ⊕ ℕ} (h_lock : lockVal < bound)
    (h_var : var < bound) (h_fetch : fetch.Fits bound)
    (h : ShmQueue.fetchAndLock lockVal var fetch = (v, r)) :
    v < bound ∧ r.elim (Fetch.Fits bound) (· < bound) := by
  have h_found : (Fetch.found lockVal var).Fits bound := by
    unfold Fetch.found
    split
    · trivial
    · exact h_var
  cases fetch with
  | load =>
    obtain ⟨rfl, rfl⟩ := Prod.mk.inj h
    exact ⟨h_var, h_found⟩
  | cas val =>
    rw [ShmQueue.fetchAndLock] at h
    split at h
    · obtain ⟨rfl, rfl⟩ := Prod.mk.inj h
      exact ⟨h_lock, h_fetch⟩
    · obtain ⟨rfl, rfl⟩ := Prod.mk.inj h
      exact ⟨h_var, h_found⟩

theorem step {m' : Memory EntryData} {from_ c : Pc} {op : Op EntryData}
    {ev : Option (Event EntryData)} (h : m.Fits bound) (h_from : from_.Fits bound)
    (h_size : SIZE + 2 < bound) (h_access : access SIZE m from_ op = some (m', c, ev)) :
    m'.Fits bound ∧ c.Fits bound := by
  have h_empty : emptyLock SIZE < bound := h_size
  have h_pending : pendingLock SIZE < bound := (Nat.lt_succ_self _).trans h_size
  revert h_access
  fun_cases access SIZE m from_ op
  all_goals rintro ⟨⟩
  -- the words that are locks
  case case9 h_lock | case10 h_lock | case31 h_lock | case32 h_lock =>
    have h_fetch := fetchAndLock h_empty h.top (by first | exact h_from | exact h_from.2.2) h_lock
    refine ⟨⟨h.tail, h_fetch.1, h.next⟩, ?_⟩
    grind [Pc.Fits]
  case case16 h_lock | case17 h_lock | case21 h_lock | case22 h_lock =>
    have h_fetch := fetchAndLock h_pending h.tail (by first | exact h_from | exact h_from.2) h_lock
    refine ⟨⟨h_fetch.1, h.top, h.next⟩, ?_⟩
    grind [Pc.Fits]
  -- the data is not looked at
  case case14 | case27 => exact ⟨⟨h.tail, h.top, h.next⟩, h_from⟩
  -- elsewhere a word or a link goes from one place to another, or the loop counts up to `SIZE`
  all_goals grind [Pc.Fits, Fetch.Fits, Memory.Fits, Memory.Fits.setNext, Pc.initFrom]
end Memory.Fits

/-- **The words are 32 bits wide.** If the marks are, then in every run all words in memory and all
local variables are, so no number of the model wraps around. -/
theorem words_fit (h_size : SIZE + 2 < UInt32.size) {ls : List (Label P EntryData)}
    {s t : State P EntryData} (h_init : (queue SIZE receiver).init s)
    (h_mem : s.mem.Fits UInt32.size) (h_run : (queue SIZE receiver).Run s ls t) :
    t.mem.Fits UInt32.size ∧ ∀ p, (t.pc p).Fits UInt32.size := by
  induction h_run with
  | nil => exact ⟨h_mem, fun p => (h_init.2 p).symm ▸ trivial⟩
  | @snoc u v ls l _ h_step ih =>
    obtain ⟨h_u, h_pc⟩ := ih
    obtain ⟨-, m, c, h_access, rfl⟩ := h_step
    obtain ⟨h_m, h_c⟩ := h_u.step (h_pc l.who) h_size h_access
    refine ⟨h_m, fun p => ?_⟩
    change (Function.update u.pc l.who c p).Fits UInt32.size
    by_cases h_p : p = l.who
    · rw [h_p, Function.update_self]
      exact h_c
    · rw [Function.update_of_ne h_p]
      exact h_pc p

/-! ### Races -/

/-- A field of an entry. -/
inductive Field
  | next (entry : ℕ)
  | data (entry : ℕ)
  deriving DecidableEq

/-- The index of the entry. -/
def Field.entry : Field → ℕ
  | .next i => i
  | .data i => i

/-- The field of `entries` that the next access of a process goes to, and whether it may write. -/
def Pc.touches : Pc → Option (Field × Bool)
  | .initNext i => some (.next i, true)
  | .own entry => some (.data entry, true)
  | .visit _ cur => some (.data cur, false)
  | .work _ cur => some (.data cur, true)
  | .allocNext top => some (.next top, false)
  | .pushNext _ tail => some (.next tail, true)
  | .popHead _ => some (.next 0, false)
  | .popEnd tail _ => some (.next tail, true)
  | .nextTest _ cur => some (.next cur, false)
  | .nextRead _ cur => some (.next cur, false)
  | .recycleNext _ last _ => some (.next last, true)
  | _ => none

omit [DecidableEq P] in
/-- An access writes to no field but the one it goes to. -/
theorem access_frame {m m' : Memory EntryData} {from_ c : Pc} {op : Op EntryData}
    {ev : Option (Event EntryData)} (h_access : access SIZE m from_ op = some (m', c, ev)) (i : ℕ) :
    (from_.touches ≠ some (.next i, true) → m'.next i = m.next i) ∧
      (from_.touches ≠ some (.data i, true) → m'.data i = m.data i) := by
  revert h_access
  fun_cases access SIZE m from_ op
  all_goals rintro ⟨⟩
  -- the accesses that store a link
  case case6 j | case18 _ j | case25 j _ | case33 _ j _ =>
    refine ⟨fun h_ne => Function.update_of_ne (fun h_eq => h_ne ?_) _ _, fun _ => rfl⟩
    rw [h_eq]
    rfl
  -- the accesses that store the data
  case case14 j f | case27 _ j f =>
    refine ⟨fun _ => rfl, fun h_ne => Function.update_of_ne (fun h_eq => h_ne ?_) _ _⟩
    rw [h_eq]
    rfl
  all_goals exact ⟨fun _ => rfl, fun _ => rfl⟩

/-- What lets a process go to a field: it owns the entry, it has the list that the entry is on, or
it has taken the word of the list. -/
inductive Claims (receiver : P) (pc : P → Pc) (L : Layout P) (p : P) : Field → Prop
  | owned {i : ℕ} (h_i : i ∈ L (.owned p)) : Claims receiver pc L p (.data i)
  | list {f : Field} (h_p : p = receiver) (h_f : f.entry ∈ L .seen ∨ f.entry ∈ L .rest) :
      Claims receiver pc L p f
  | top {i v : ℕ} (h_held : (pc p).heldTop = some v) (h_i : i ∈ L .free) :
      Claims receiver pc L p (.next i)
  | tail {i v : ℕ} (h_held : (pc p).heldTail = some v) (h_i : i = 0 ∨ i ∈ L .pending) :
      Claims receiver pc L p (.next i)

section Claims

variable {m : Memory EntryData} {pc : P → Pc} {L : Layout P} {p q : P} {f : Field} {w : Bool}

omit [DecidableEq P] in
theorem Claims.lt (h : Repr SIZE receiver m pc L) (h_claims : Claims receiver pc L p f) :
    f.entry < SIZE := by
  cases h_claims with
  | owned h_i => exact (h.bounds h_i).2
  | list _ h_f => exact h_f.elim (fun h_in => (h.bounds h_in).2) fun h_in => (h.bounds h_in).2
  | top _ h_i => exact (h.bounds h_i).2
  | tail _ h_i =>
    rcases h_i with rfl | h_in
    · exact h.pos
    · exact (h.bounds h_in).2

omit [DecidableEq P] in
/-- Nobody else has a claim to the entries of the receiver. -/
theorem Claims.eq_receiver (h : Repr SIZE receiver m pc L) (h_claims : Claims receiver pc L p f)
    (h_f : f.entry ∈ L .seen ∨ f.entry ∈ L .rest) : p = receiver := by
  obtain ⟨k, h_k, h_or⟩ : ∃ k, f.entry ∈ L k ∧ (k = .seen ∨ k = .rest) := by
    rcases h_f with h_in | h_in
    · exact ⟨.seen, h_in, .inl rfl⟩
    · exact ⟨.rest, h_in, .inr rfl⟩
  -- an entry is in one place only, and the receiver has the other places of its list
  have h_else : ∀ {k'}, f.entry ∈ L k' → k' = .seen ∨ k' = .rest :=
    fun h_k' => h.exact_.unique h_k h_k' ▸ h_or
  cases h_claims with
  | owned h_i => rcases h_else h_i with h_eq | h_eq <;> cases h_eq
  | list h_p _ => exact h_p
  | top _ h_i => rcases h_else h_i with h_eq | h_eq <;> cases h_eq
  | tail _ h_i =>
    rcases h_i with rfl | h_in
    · -- the dummy entry 0 is on no list of the receiver
      cases (h.bounds h_k).1
    · rcases h_else h_in with h_eq | h_eq <;> cases h_eq

omit [DecidableEq P] in
/-- No two processes have a claim to the same field. -/
theorem Claims.unique (h : Repr SIZE receiver m pc L) (h_p : Claims receiver pc L p f)
    (h_q : Claims receiver pc L q f) : p = q := by
  have h_zero : ∀ {k}, 0 ∉ L k := fun h_in => absurd (h.bounds h_in).1 (by omega)
  -- an entry has one owner, and each word is with one process at most; the two words guard
  -- different entries, as the dummy entry belongs to the pending list alone
  cases h_p with
  | owned h_i =>
    cases h_q with
    | owned h_j => exact Place.owned.inj (h.exact_.unique h_i h_j)
    | list h_r h_f => exact (Claims.eq_receiver h (.owned h_i) h_f).trans h_r.symm
  | list h_r h_f => exact h_r.trans (Claims.eq_receiver h h_q h_f).symm
  | top h_held h_i =>
    cases h_q with
    | list h_r h_f => exact (Claims.eq_receiver h (.top h_held h_i) h_f).trans h_r.symm
    | top h_held' _ => exact h.top.unique h_held h_held'
    | tail _ h_j =>
      rcases h_j with rfl | h_j
      · exact absurd h_i h_zero
      · cases h.exact_.unique h_i h_j
  | tail h_held h_i =>
    cases h_q with
    | list h_r h_f => exact (Claims.eq_receiver h (.tail h_held h_i) h_f).trans h_r.symm
    | top _ h_j =>
      rcases h_i with rfl | h_i
      · exact absurd h_j h_zero
      · cases h.exact_.unique h_i h_j
    | tail h_held' _ => exact h.tail.unique h_held h_held'

omit [DecidableEq P] in
/-- A process has a claim to the field that it goes to. -/
theorem claims_of_touches (h : Repr SIZE receiver m pc L)
    (h_touches : (pc p).touches = some (f, w)) : Claims receiver pc L p f := by
  have h_proc := h.proc p
  revert h_touches
  generalize h_pc : pc p = c at *
  have h_seen : ∀ {i}, (L .seen).getLast? = some i → i ∈ L .seen := List.mem_of_mem_getLast?
  cases c with
  | initNext i => cases h_proc.started
  | own entry =>
    rintro ⟨⟩
    exact .owned (h.mem_owned (by rw [h_pc]; rfl))
  | visit first cur =>
    rintro ⟨⟩
    exact .list (h_proc.role rfl) (.inr (List.mem_of_mem_head? h_proc.locals.2.1))
  | work first cur | nextTest first cur | nextRead first cur =>
    rintro ⟨⟩
    exact .list (h_proc.role rfl) (.inl (h_seen h_proc.locals.2.1))
  | allocNext top =>
    rintro ⟨⟩
    have h_held : (pc p).heldTop = some top := by rw [h_pc]; rfl
    -- `Alloc` found the stack not empty, so what it reads from is its top
    have h_top := h.heldTop_eq h_held
    obtain ⟨l, h_free⟩ := Repr.top_mem L (h_top ▸ h_proc.locals)
    exact .top h_held (by rw [h_free, h_top]; exact List.mem_cons_self)
  | pushNext entry tail =>
    rintro ⟨⟩
    have h_held : (pc p).heldTail = some tail := by rw [h_pc]; rfl
    -- `Push` links behind the last pending entry, or behind the dummy one
    refine .tail h_held ?_
    rw [h.heldTail_eq h_held]
    exact (Repr.tail_mem L).imp And.left id
  | popHead tail =>
    rintro ⟨⟩
    exact .tail (v := tail) (by rw [h_pc]; rfl) (.inl rfl)
  | popEnd tail ret =>
    rintro ⟨⟩
    exact .list (h_proc.role rfl) (.inr (List.mem_of_mem_getLast? h_proc.locals.2.2.1))
  | recycleNext first last top =>
    rintro ⟨⟩
    exact .list (h_proc.role rfl) (.inl (h_seen h_proc.locals.2.2.1))
  | _ => nofun

end Claims

theorem allocates_reaches : ∃ (ls : List (Label Bool ℕ)) (s : State Bool ℕ),
    (queue 2 true).Reaches ls s ∧ (s.pc false).touches = some (.data 1, true) ∧
      s.pc true = .construct := by
  have h_role : ∀ o ∈ allocates, o.2 = .popAll → o.1 = true := by simp [allocates]
  have h_end : (follow 2 (atStart ℕ) allocates).map (fun r => ((r.2.pc false).touches,
      r.2.pc true)) = some (some (.data 1, true), .construct) := by decide
  obtain ⟨⟨ls, s⟩, h_follow, h_eq⟩ := Option.map_eq_some_iff.mp h_end
  exact ⟨ls, s, follow_reaches h_role h_follow, Prod.mk.inj h_eq⟩

/-- **No races.** In every state of every run the entries that the processes are about to access are
in the array, and no two processes are about to access the same field of the same entry. -/
theorem race_free (h_pos : 0 < SIZE) {ls : List (Label P EntryData)} {s : State P EntryData}
    (h : (queue SIZE receiver).Reaches ls s) {p : P} {f : Field} {w : Bool}
    (h_p : (s.pc p).touches = some (f, w)) :
    f.entry < SIZE ∧ ∀ q w', q ≠ p → (s.pc q).touches ≠ some (f, w') := by
  rcases reaches_holds h_pos h with ⟨h_start, -⟩ | ⟨-, L, h_repr, -⟩
  · cases h_start with
    | before h_init h_pc =>
      rw [h_pc] at h_p
      cases h_p
    | building h_init b h_b h_others =>
      -- until the queue is there, the process that builds it is alone with the entries
      have h_only : ∀ {q w'}, (s.pc q).touches = some (f, w') → q = b := by
        intro q w' h_q
        by_contra h_ne
        rcases h_others q h_ne with h_c | h_a
        · rw [h_c] at h_q
          cases h_q
        · rw [h_a] at h_q
          cases h_q
      obtain rfl := h_only h_p
      refine ⟨?_, fun q w' h_ne h_q => h_ne (h_only h_q)⟩
      generalize s.pc p = c at h_b h_p
      cases c with
      | initNext i =>
        obtain ⟨rfl, -⟩ := Prod.mk.inj (Option.some.inj h_p)
        exact h_b.2.2.2.1
      | initTail | initTop | publish => cases h_p
      | _ => cases h_b
  · have h_claims := claims_of_touches h_repr h_p
    exact ⟨h_claims.lt h_repr, fun q w' h_ne h_q =>
      h_ne ((claims_of_touches h_repr h_q).unique h_repr h_claims)⟩

theorem race_free_allocate : ∃ s : State Bool ℕ, (s.pc false).touches = some (.data 1, true) ∧
    1 < 2 ∧ ∀ w, (s.pc true).touches ≠ some (.data 1, w) := by
  obtain ⟨ls, s, h, h_touches, -⟩ := allocates_reaches
  obtain ⟨h_lt, h_others⟩ := race_free (by decide) h h_touches
  exact ⟨s, h_touches, h_lt, fun w => h_others true w (by decide)⟩

/-! ### Progress -/

/-- The process is not in a call. -/
def Pc.outside : Pc → Bool
  | .ready | .own _ | .visit _ _ | .work _ _ => true
  | _ => false

/-- A run in which the processes only go on with what they are at. -/
def GoesTo (SIZE : ℕ) (receiver : P) (s t : State P EntryData) : Prop :=
  ∃ ls, (queue SIZE receiver).Run s ls t ∧ ∀ l ∈ ls, l.op = .go

namespace GoesTo

theorem refl (s : State P EntryData) : GoesTo SIZE receiver s s := ⟨[], .nil s, nofun⟩

theorem trans {s t u : State P EntryData} (h : GoesTo SIZE receiver s t)
    (h' : GoesTo SIZE receiver t u) : GoesTo SIZE receiver s u := by
  obtain ⟨ls, h_run, h_go⟩ := h
  obtain ⟨ls', h_run', h_go'⟩ := h'
  refine ⟨ls ++ ls', h_run.append h_run', fun l h_l => ?_⟩
  exact (List.mem_append.mp h_l).elim (h_go l) (h_go' l)

theorem step {s : State P EntryData} {p : P} {m : Memory EntryData} {c : Pc}
    {ev : Option (Event EntryData)} (h : access SIZE s.mem (s.pc p) .go = some (m, c, ev)) :
    GoesTo SIZE receiver s ⟨m, Function.update s.pc p c⟩ := by
  refine ⟨[⟨p, .go, ev⟩], (System.Run.nil s).snoc ⟨nofun, m, c, h, rfl⟩, fun l h_l => ?_⟩
  rw [List.mem_singleton.mp h_l]

end GoesTo

/-- The process can be brought out of its call. -/
def Returns (SIZE : ℕ) (receiver : P) (s : State P EntryData) (p : P) : Prop :=
  ∃ t, GoesTo SIZE receiver s t ∧ (t.pc p).outside = true

namespace Returns

variable {s : State P EntryData} {p : P}

theorem outside (h : (s.pc p).outside = true) : Returns SIZE receiver s p := ⟨s, .refl s, h⟩

theorem after {t : State P EntryData} (h : GoesTo SIZE receiver s t)
    (h_t : Returns SIZE receiver t p) : Returns SIZE receiver s p := by
  obtain ⟨u, h_goes, h_u⟩ := h_t
  exact ⟨u, h.trans h_goes, h_u⟩

/-- The process makes its next access, and returns from where this leads. -/
theorem go {m : Memory EntryData} {c : Pc} {ev : Option (Event EntryData)}
    (h : access SIZE s.mem (s.pc p) .go = some (m, c, ev))
    (h_next : Returns SIZE receiver ⟨m, Function.update s.pc p c⟩ p) :
    Returns SIZE receiver s p := after (.step h) h_next

/-- One access is left. -/
theorem last {m : Memory EntryData} {c : Pc} {ev : Option (Event EntryData)}
    (h : access SIZE s.mem (s.pc p) .go = some (m, c, ev)) (h_c : c.outside = true) :
    Returns SIZE receiver s p := by
  refine go h (outside ?_)
  change (Function.update s.pc p c p).outside = true
  rw [Function.update_self]
  exact h_c

end Returns

/-- The accesses that a process has left once it has a word, or needs none. -/
def Pc.left : Pc → ℕ
  | .allocFull _ | .allocTop _ _ | .pushTail _ _ | .popEnd _ _ | .recycleTop _ _ _
  | .nextRead _ _ => 1
  | .allocNext _ | .pushNext _ _ | .popTail _ _ | .recycleNext _ _ _ => 2
  | .popHead _ => 3
  | _ => 0

omit [DecidableEq P] in
theorem left_step (m : Memory EntryData) {from_ : Pc} {n : ℕ} (h : from_.left = n + 1) :
    ∃ m' c ev, access SIZE m from_ .go = some (m', c, ev) ∧ c.left = n ∧
      (n = 0 → c.outside = true) := by
  -- none of these accesses waits for anybody
  cases from_ with
  | allocFull | allocTop | pushTail | popEnd | recycleTop | nextRead =>
    exact ⟨_, _, _, rfl, Nat.succ.inj h, fun _ => rfl⟩
  | allocNext | pushNext | popTail | recycleNext | popHead =>
    refine ⟨_, _, _, rfl, Nat.succ.inj h, fun h_n => ?_⟩
    cases h.trans (congrArg (· + 1) h_n)
  | _ => cases h

/-- **A process that has a word, or needs none, returns by itself.** -/
theorem finishes {s : State P EntryData} {q : P} (h : (s.pc q).left ≠ 0) :
    ∃ t, GoesTo SIZE receiver s t ∧ (t.pc q).outside = true ∧ ∀ r, r ≠ q → t.pc r = s.pc r := by
  obtain ⟨n, h_n⟩ : ∃ n, (s.pc q).left = n + 1 := Nat.exists_eq_succ_of_ne_zero h
  clear h
  -- the number of accesses left carries the induction; the others stay where they are
  induction n generalizing s with
  | zero =>
    obtain ⟨m, c, ev, h_access, -, h_out⟩ := left_step s.mem h_n
    refine ⟨_, .step h_access, ?_, fun r h_r => Function.update_of_ne h_r _ _⟩
    change (Function.update s.pc q c q).outside = true
    rw [Function.update_self]
    exact h_out rfl
  | succ n ih =>
    obtain ⟨m, c, ev, h_access, h_left, -⟩ := left_step s.mem h_n
    obtain ⟨t, h_goes, h_out, h_rest⟩ := ih (s := ⟨m, Function.update s.pc q c⟩) (by
      change (Function.update s.pc q c q).left = n + 1
      rw [Function.update_self]
      exact h_left)
    exact ⟨t, .trans (.step h_access) h_goes, h_out, fun r h_r =>
      (h_rest r h_r).trans (Function.update_of_ne h_r _ _)⟩

/-! ### Words that are given back -/

theorem left_of_heldTop {c : Pc} {v : ℕ} (h : c.heldTop = some v) : c.left ≠ 0 := by
  cases c with
  | allocFull | allocNext | allocTop | recycleNext | recycleTop => exact Nat.succ_ne_zero _
  | _ => cases h

theorem left_of_heldTail {c : Pc} {v : ℕ} (h : c.heldTail = some v) : c.left ≠ 0 := by
  cases c with
  | pushNext | pushTail | popHead | popTail => exact Nat.succ_ne_zero _
  | _ => cases h

theorem held_of_outside {c : Pc} (h : c.outside = true) : c.heldTop = none ∧ c.heldTail = none := by
  cases c with
  | ready | own | visit | work => exact ⟨rfl, rfl⟩
  | _ => cases h

/-- A state of a run in which the queue is laid out. -/
def LaidOut (SIZE : ℕ) (receiver : P) (s : State P EntryData) : Prop :=
  s.mem.initState = 2 ∧ ∃ L, Repr SIZE receiver s.mem s.pc L

theorem LaidOut.goesTo {s t : State P EntryData} (h : LaidOut SIZE receiver s)
    (h_goes : GoesTo SIZE receiver s t) : LaidOut SIZE receiver t := by
  obtain ⟨ls, h_run, -⟩ := h_goes
  induction h_run with
  | nil => exact h
  | snoc _ h_step ih =>
    obtain ⟨h_ready, L, h_repr⟩ := ih
    obtain ⟨h_role, m, c, h_access, rfl⟩ := h_step
    obtain ⟨L', h_repr', -⟩ := h_repr.step h_ready h_role h_access
    exact ⟨access_initState h_ready h_access, L', h_repr'⟩

/-- **A word that is away comes back.** Whoever has it puts it back, and nobody else need move. -/
theorem frees (held : Pc → Option ℕ) (word : Memory EntryData → ℕ) {lock : ℕ}
    (h_left : ∀ {c v}, held c = some v → c.left ≠ 0)
    (h_out : ∀ {c : Pc}, c.outside = true → held c = none)
    (h_guarded : ∀ {s : State P EntryData}, LaidOut SIZE receiver s →
      ∃ value, LockWord.Guarded lock (word s.mem) value fun p => held (s.pc p))
    {s : State P EntryData} (h : LaidOut SIZE receiver s) :
    ∃ t, GoesTo SIZE receiver s t ∧ word t.mem ≠ lock ∧
      ∀ r, held (s.pc r) = none → t.pc r = s.pc r := by
  obtain ⟨value, h_s⟩ := h_guarded h
  by_cases h_free : ∀ q, held (s.pc q) = none
  · exact ⟨s, .refl s, h_s.word_eq h_free ▸ h_s.ne, fun _ _ => rfl⟩
  · -- the one process that has it finishes its call, and then nobody has it
    obtain ⟨q, h_q⟩ := not_forall.mp h_free
    obtain ⟨v, h_v⟩ := Option.ne_none_iff_exists'.mp h_q
    obtain ⟨t, h_goes, h_outside, h_rest⟩ : ∃ t, GoesTo SIZE receiver s t ∧
        (t.pc q).outside = true ∧ ∀ r, r ≠ q → t.pc r = s.pc r := finishes (h_left h_v)
    obtain ⟨value', h_t⟩ := h_guarded (h.goesTo h_goes)
    have h_none : ∀ r, held (t.pc r) = none := by
      intro r
      by_cases h_r : r = q
      · rw [h_r]
        exact h_out h_outside
      · rw [h_rest r h_r]
        exact h_s.others h_v h_r
    refine ⟨t, h_goes, h_t.word_eq h_none ▸ h_t.ne, fun r h_r => h_rest r ?_⟩
    rintro rfl
    rw [h_v] at h_r
    cases h_r

theorem frees_top {s : State P EntryData} (h : LaidOut SIZE receiver s) :
    ∃ t, GoesTo SIZE receiver s t ∧ t.mem.emptyTop ≠ emptyLock SIZE ∧
      ∀ r, (s.pc r).heldTop = none → t.pc r = s.pc r :=
  frees Pc.heldTop Memory.emptyTop left_of_heldTop (fun h_c => (held_of_outside h_c).1)
    (fun ⟨_, _, h_repr⟩ => ⟨_, h_repr.top⟩) h

theorem frees_tail {s : State P EntryData} (h : LaidOut SIZE receiver s) :
    ∃ t, GoesTo SIZE receiver s t ∧ t.mem.pendingTail ≠ pendingLock SIZE ∧
      ∀ r, (s.pc r).heldTail = none → t.pc r = s.pc r :=
  frees Pc.heldTail Memory.pendingTail left_of_heldTail (fun h_c => (held_of_outside h_c).2)
    (fun ⟨_, _, h_repr⟩ => ⟨_, h_repr.tail⟩) h

/-- With the word there, `FetchAndLock` takes it at its next access or at the one after. -/
theorem fetchAndLock_there {lockVal var : ℕ} (h_var : var ≠ lockVal) (fetch : Fetch) :
    fetchAndLock lockVal var fetch = (lockVal, .inr var) ∨
      fetchAndLock lockVal var fetch = (var, .inl (.cas var)) := by
  have h_found : Fetch.found lockVal var = .cas var := if_neg h_var
  -- a compare that was prepared with an older value fails once and learns the new one
  cases fetch with
  | load => exact .inr (congrArg (fun f => (var, Sum.inl f)) h_found)
  | cas val =>
    by_cases h_val : var = val
    · subst h_val
      exact .inl (if_pos rfl)
    · exact .inr ((if_neg h_val).trans (congrArg (fun f => (var, Sum.inl f)) h_found))

/-- A process in `FetchAndLock` returns when the word is there. -/
theorem returns_of_there (wait : Fetch → Pc) (got : ℕ → Pc) (word : Memory EntryData → ℕ)
    (set : Memory EntryData → ℕ → Memory EntryData) {lock : ℕ}
    (h_inl : ∀ {m fetch v fetch'}, fetchAndLock lock (word m) fetch = (v, .inl fetch') →
      access SIZE m (wait fetch) .go = some (set m v, wait fetch', none))
    (h_inr : ∀ {m fetch v x}, fetchAndLock lock (word m) fetch = (v, .inr x) →
      access SIZE m (wait fetch) .go = some (set m v, got x, none))
    (h_set : ∀ m v, word (set m v) = v) (h_got : ∀ x, (got x).left ≠ 0)
    {s : State P EntryData} {p : P} {fetch : Fetch} (h_pc : s.pc p = wait fetch)
    (h_word : word s.mem ≠ lock) : Returns SIZE receiver s p := by
  -- the compare-and-swap that takes the word, and the rest of the call
  have h_take : ∀ {t : State P EntryData} {fetch},
      t.pc p = wait fetch → fetchAndLock lock (word t.mem) fetch = (lock, .inr (word t.mem)) →
        Returns SIZE receiver t p := by
    intro t fetch h_t h_fetch
    have h_access := h_inr h_fetch
    rw [← h_t] at h_access
    obtain ⟨u, h_goes, h_out, -⟩ : ∃ u, GoesTo SIZE receiver
        ⟨set t.mem lock, Function.update t.pc p (got (word t.mem))⟩ u ∧
        (u.pc p).outside = true ∧ _ := finishes (q := p) (by
      change (Function.update t.pc p _ p).left ≠ 0
      rw [Function.update_self]
      exact h_got _)
    exact .go h_access ⟨u, h_goes, h_out⟩
  rcases fetchAndLock_there h_word fetch with h_fetch | h_fetch
  · exact h_take h_pc h_fetch
  · have h_access := h_inl h_fetch
    rw [← h_pc] at h_access
    refine .go h_access (h_take (Function.update_self p _ s.pc) ?_)
    change fetchAndLock lock (word (set s.mem _)) _ = (lock, .inr (word (set s.mem _)))
    rw [h_set]
    exact if_pos rfl

/-- `FetchAndLock` of `empty_top`. -/
theorem returns_of_topLock {wait : Fetch → Pc} (got : ℕ → Pc)
    (h_held : ∀ f, (wait f).heldTop = none)
    (h_access : ∀ {m : Memory EntryData} {fetch}, access SIZE m (wait fetch) .go =
      match fetchAndLock (emptyLock SIZE) m.emptyTop fetch with
      | (var, .inl fetch') => some ({ m with emptyTop := var }, wait fetch', none)
      | (var, .inr top) => some ({ m with emptyTop := var }, got top, none))
    (h_got : ∀ x, (got x).left ≠ 0) {s : State P EntryData} {p : P} {fetch : Fetch}
    (h : LaidOut SIZE receiver s) (h_pc : s.pc p = wait fetch) : Returns SIZE receiver s p := by
  -- first whoever has the word brings it back, and the process still waits where it was
  obtain ⟨t, h_goes, h_word, h_rest⟩ := frees_top h
  have h_t : t.pc p = wait fetch := (h_rest p (h_pc ▸ h_held fetch)).trans h_pc
  refine .after h_goes (returns_of_there wait got Memory.emptyTop
    (fun m v => { m with emptyTop := v }) ?_ ?_ (fun _ _ => rfl) h_got h_t h_word)
  · intro m fetch v fetch' h_fetch
    rw [h_access, h_fetch]
  · intro m fetch v x h_fetch
    rw [h_access, h_fetch]

/-- `FetchAndLock` of `pending_tail`. -/
theorem returns_of_tailLock {wait : Fetch → Pc} (got : ℕ → Pc)
    (h_held : ∀ f, (wait f).heldTail = none)
    (h_access : ∀ {m : Memory EntryData} {fetch}, access SIZE m (wait fetch) .go =
      match fetchAndLock (pendingLock SIZE) m.pendingTail fetch with
      | (var, .inl fetch') => some ({ m with pendingTail := var }, wait fetch', none)
      | (var, .inr tail) => some ({ m with pendingTail := var }, got tail, none))
    (h_got : ∀ x, (got x).left ≠ 0) {s : State P EntryData} {p : P} {fetch : Fetch}
    (h : LaidOut SIZE receiver s) (h_pc : s.pc p = wait fetch) : Returns SIZE receiver s p := by
  obtain ⟨t, h_goes, h_word, h_rest⟩ := frees_tail h
  have h_t : t.pc p = wait fetch := (h_rest p (h_pc ▸ h_held fetch)).trans h_pc
  refine .after h_goes (returns_of_there wait got Memory.pendingTail
    (fun m v => { m with pendingTail := v }) ?_ ?_ (fun _ _ => rfl) h_got h_t h_word)
  · intro m fetch v fetch' h_fetch
    rw [h_access, h_fetch]
  · intro m fetch v x h_fetch
    rw [h_access, h_fetch]

theorem returns_of_recycleLock {s : State P EntryData} {p : P} {first last : ℕ} {fetch : Fetch}
    (h : LaidOut SIZE receiver s) (h_pc : s.pc p = .recycleLock first last fetch) :
    Returns SIZE receiver s p :=
  returns_of_topLock (.recycleNext first last) (fun _ => rfl) rfl (fun _ => Nat.succ_ne_zero _) h
    h_pc

/-- Once the queue is constructed, every process can be brought out of its call. -/
theorem returns_of_laidOut {s : State P EntryData} (h : LaidOut SIZE receiver s) (p : P) :
    Returns SIZE receiver s p := by
  obtain ⟨h_ready, L, h_repr⟩ := id h
  have h_await : ∀ {t : State P EntryData}, t.mem.initState = 2 → t.pc p = .await →
      Returns SIZE receiver t p := by
    intro t h_two h_pc
    have h_access : access SIZE t.mem (t.pc p) .go = some (t.mem, .ready, none) := by
      rw [h_pc]
      exact congrArg (fun c => some (t.mem, c, none)) (if_pos h_two)
    exact .last h_access rfl
  -- a process that has its word goes on alone; what is left is who waits for one
  by_cases h_left : (s.pc p).left = 0
  case neg =>
    obtain ⟨t, h_goes, h_out, -⟩ := finishes h_left
    exact ⟨t, h_goes, h_out⟩
  generalize h_pc : s.pc p = c at h_left
  cases c with
  | construct =>
    have h_zero : s.mem.initState ≠ 0 := by omega
    have h_access : access SIZE s.mem (s.pc p) .go = some (s.mem, .await, none) := by
      rw [h_pc]
      exact if_neg h_zero
    exact .go h_access (h_await h_ready (Function.update_self _ _ _))
  | await => exact h_await h_ready h_pc
  | initTail | initTop | initNext | publish =>
    have h_started := (h_repr.proc p).started
    rw [h_pc] at h_started
    cases h_started
  | ready | own | visit | work =>
    refine .outside ?_
    rw [h_pc]
    rfl
  | allocLock fetch =>
    -- with the word in hand, the stack may turn out to be empty
    refine returns_of_topLock (fun top => if top = SIZE then .allocFull top else .allocNext top)
      (fun _ => rfl) rfl (fun top => ?_) h h_pc
    split <;> exact Nat.succ_ne_zero _
  | pushLock entry fetch =>
    exact returns_of_tailLock (.pushNext entry) (fun _ => rfl) rfl (fun _ => Nat.succ_ne_zero _) h
      h_pc
  | popLock fetch =>
    exact returns_of_tailLock .popHead (fun _ => rfl) rfl (fun _ => Nat.succ_ne_zero _) h h_pc
  | recycleLock first last fetch => exact returns_of_recycleLock h h_pc
  | nextTest first cur =>
    have h_access : access SIZE s.mem (s.pc p) .go = some (s.mem, if s.mem.next cur = SIZE then
        .recycleLock first cur .load else .nextRead first cur, none) := by
      rw [h_pc]
      rfl
    -- the end of the list of the receiver: `PopAll` has marked it, and the list goes back as a
    -- whole
    by_cases h_end : s.mem.next cur = SIZE
    · rw [if_pos h_end] at h_access
      exact .go h_access
        (returns_of_recycleLock (h.goesTo (.step h_access)) (Function.update_self _ _ _))
    · rw [if_neg h_end] at h_access
      obtain ⟨t, h_goes, h_out, -⟩ : ∃ t, GoesTo SIZE receiver _ t ∧ (t.pc p).outside = true ∧ _ :=
        finishes (s := ⟨s.mem, Function.update s.pc p (.nextRead first cur)⟩) (by
          change (Function.update s.pc p _ p).left ≠ 0
          rw [Function.update_self]
          exact Nat.succ_ne_zero 0)
      exact .go h_access ⟨t, h_goes, h_out⟩
  | _ => cases h_left

/-- How far it is to the end of the constructor. -/
def Pc.toPublish (SIZE : ℕ) : Pc → ℕ
  | .initTail => SIZE + 2
  | .initTop => SIZE + 1
  | .initNext i => SIZE - i
  | _ => 0

omit [DecidableEq P] in
/-- The process that constructs the queue gets on. -/
theorem Built.next {m : Memory EntryData} {from_ : Pc} (h : Built SIZE m from_) :
    ∃ m' c, access SIZE m from_ .go = some (m', c, none) ∧
      (from_ ≠ .publish → c.toPublish SIZE < from_.toPublish SIZE) := by
  have h_from : ∀ i, (Pc.initFrom SIZE i).toPublish SIZE ≤ SIZE - i := by
    intro i
    unfold Pc.initFrom
    split
    · exact le_rfl
    · exact Nat.zero_le _
  cases from_ with
  | initTail => exact ⟨_, _, rfl, fun _ => Nat.lt_succ_self _⟩
  | initTop => exact ⟨_, _, rfl, fun _ => (h_from 1).trans_lt (Nat.sub_lt_succ SIZE 1)⟩
  | initNext i =>
    have h_lt : i < SIZE := h.2.2.2.1
    refine ⟨_, _, rfl, fun _ => (h_from (i + 1)).trans_lt ?_⟩
    change SIZE - (i + 1) < SIZE - i
    omega
  | publish => exact ⟨_, _, rfl, fun h_ne => absurd rfl h_ne⟩
  | _ => cases h

/-- The process that constructs the queue gets to the end of it by itself. -/
theorem builds (h_pos : 0 < SIZE) {s : State P EntryData} {b : P} (h_init : s.mem.initState = 1)
    (h_b : Built SIZE s.mem (s.pc b))
    (h_others : ∀ q, q ≠ b → s.pc q = .construct ∨ s.pc q = .await) :
    ∃ t, GoesTo SIZE receiver s t ∧ LaidOut SIZE receiver t := by
  generalize h_n : (s.pc b).toPublish SIZE = n
  -- each access brings the process nearer to the last one, and nobody else writes
  induction n using Nat.strong_induction_on generalizing s with
  | _ n ih =>
    obtain ⟨m, c, h_access, h_lt⟩ := h_b.next
    obtain ⟨-, ⟨h_same, h_built⟩ | ⟨h_from, h_m, h_c⟩⟩ := h_b.step h_access
    · have h_ne : s.pc b ≠ .publish := by
        intro h_pc
        rw [h_pc] at h_access
        cases h_access
        rw [h_init] at h_same
        cases h_same
      have h_self : Function.update s.pc b c b = c := Function.update_self _ _ _
      have h_next : Built SIZE m (Function.update s.pc b c b) := by
        rw [h_self]
        exact h_built
      have h_rest : ∀ q, q ≠ b → Function.update s.pc b c q = .construct ∨
          Function.update s.pc b c q = .await := fun q h_q => by
        rw [Function.update_of_ne h_q]
        exact h_others q h_q
      obtain ⟨t, h_goes, h_t⟩ := ih _ (h_n ▸ h_lt h_ne) (s := ⟨m, Function.update s.pc b c⟩)
        (h_same.trans h_init) h_next h_rest (congrArg (Pc.toPublish SIZE) h_self)
      exact ⟨t, .trans (.step h_access) h_goes, h_t⟩
    · -- the access that publishes
      obtain ⟨-, h_start | ⟨h_two, h_repr⟩⟩ :=
        (Starting.building h_init b h_b h_others).step receiver h_pos h_access
      · subst h_m
        cases h_start with
        | before h_zero => cases h_zero
        | building h_one => cases h_one
      · exact ⟨_, .step h_access, h_two, _, h_repr⟩

/-- **No deadlock.** In every state of every run each process can be brought out of the call that it
is in, although nobody begins a new one. -/
theorem can_return (h_pos : 0 < SIZE) {ls : List (Label P EntryData)} {s : State P EntryData}
    (h : (queue SIZE receiver).Reaches ls s) (p : P) :
    ∃ ls' t, (queue SIZE receiver).Run s ls' t ∧ (∀ l ∈ ls', l.op = .go) ∧
      (t.pc p).outside = true := by
  have h_returns : Returns SIZE receiver s p := by
    rcases reaches_holds h_pos h with ⟨h_start, -⟩ | ⟨h_ready, L, h_repr, -⟩
    · cases h_start with
      | before h_init h_pc =>
        -- nobody has begun: the process constructs the queue itself
        have h_access : access SIZE s.mem (s.pc p) .go =
            some ({ s.mem with initState := 1 }, .initTail, none) := by
          rw [h_pc]
          exact if_pos h_init
        let s' : State P EntryData :=
          ⟨{ s.mem with initState := 1 }, Function.update s.pc p .initTail⟩
        have h_self : s'.pc p = .initTail := Function.update_self _ _ _
        have h_built : Built SIZE s'.mem (s'.pc p) := by
          rw [h_self]
          trivial
        obtain ⟨t, h_goes, h_t⟩ : ∃ t, GoesTo SIZE receiver s' t ∧ LaidOut SIZE receiver t :=
          builds h_pos rfl h_built fun q h_q =>
            .inl ((Function.update_of_ne h_q _ _).trans (h_pc q))
        exact .go h_access (.after h_goes (returns_of_laidOut h_t p))
      | building h_init b h_b h_others =>
        -- another process is at it: let it finish first
        obtain ⟨t, h_goes, h_t⟩ : ∃ t, GoesTo SIZE receiver s t ∧ LaidOut SIZE receiver t :=
          builds h_pos h_init h_b h_others
        exact .after h_goes (returns_of_laidOut h_t p)
    · exact returns_of_laidOut ⟨h_ready, L, h_repr⟩ p
  obtain ⟨t, ⟨ls', h_run, h_go⟩, h_out⟩ := h_returns
  exact ⟨ls', t, h_run, h_go, h_out⟩

theorem can_return_construct : ∃ (s t : State Bool ℕ) (ls' : List (Label Bool ℕ)),
    s.pc true = .construct ∧ (queue 2 true).Run s ls' t ∧ (t.pc true).outside = true := by
  obtain ⟨ls, s, h, -, h_pc⟩ := allocates_reaches
  obtain ⟨ls', t, h_run, -, h_out⟩ := can_return (by decide) h true
  exact ⟨s, t, ls', h_pc, h_run, h_out⟩

end MoleculeOS.ShmQueue
