import MoleculeOS.Library.Transition

/-!
# The shared-memory queue

`SHMMPSCQueue` in `src/src/include/shm_mpsc_queue.h`: an array of entries in shared memory, from
which any number of processes take empty entries and push them to one process. The empty entries
are a stack (`empty_top`), the pushed ones a list that starts at the dummy entry 0 and ends at
`pending_tail`; each word is its own lock (`FetchAndLock`).

The processes run interleaved: one step is one access to shared memory by one process, together
with the local computation up to the next access. `Pc` says which access comes next and holds the
local variables in scope. Between the calls, `alloc`, `push` and `popAll` start one. The sender
fills an entry it owns before it pushes it (`bench` in `shm_gsyscall_client.cc`), the receiver
looks at each entry of a list and writes to its data before it moves on, and gives the list back
at its end (`gSyscallServer` in `shm_gsyscall_server.cc`).

The words are `uint32_t` in the source, where `SIZE` is 4000, and numbers here. As long as
`SIZE + 2 < 2 ^ 32` none of them gets as large as `2 ^ 32` (`words_fit`); with a larger `SIZE` the
lock values would be numbers of entries, and that is not meant here.
-/

namespace MoleculeOS.ShmQueue

/-! ### Memory -/

/-- The shared memory of a queue. Entry `i` is `next i` and `data i`. -/
structure Memory (EntryData : Type) where
  initState : ℕ
  pendingTail : ℕ
  emptyTop : ℕ
  next : ℕ → ℕ
  data : ℕ → EntryData

variable {EntryData : Type}

/-- `entries[i].next = j`. -/
def Memory.setNext (m : Memory EntryData) (i j : ℕ) : Memory EntryData :=
  { m with next := Function.update m.next i j }

/-- A write to part of `entries[i].data`. -/
def Memory.modifyData (m : Memory EntryData) (i : ℕ) (f : EntryData → EntryData) :
    Memory EntryData :=
  { m with data := Function.update m.data i (f (m.data i)) }

/-! ### `FetchAndLock` -/

/-- `PendingLock`. -/
def pendingLock (SIZE : ℕ) : ℕ := SIZE + 1

/-- `EmptyLock`. -/
def emptyLock (SIZE : ℕ) : ℕ := SIZE + 2

/-- The next access of `FetchAndLock`: to read the word, or to compare it with `val` and swap. -/
inductive Fetch
  | load
  | cas (val : ℕ)
  deriving DecidableEq, Repr

/-- `while(val == lock_val) val = var;`, up to its next access. -/
def Fetch.found (lockVal val : ℕ) : Fetch := if val = lockVal then .load else .cas val

/-- One access of `FetchAndLock` to a word that holds `var`: what the word holds afterwards, and
the value returned or the access that comes next. -/
def fetchAndLock (lockVal var : ℕ) : Fetch → ℕ × (Fetch ⊕ ℕ)
  | .load => (var, .inl (Fetch.found lockVal var))
  | .cas val => if var = val then (lockVal, .inr val) else (var, .inl (Fetch.found lockVal var))

/-! ### Processes -/

/-- The next access of a process. -/
inductive Pc
  -- `SHMMPSCQueue()`
  | construct
  | await
  | initTail
  | initTop
  | initNext (i : ℕ)
  | publish
  -- between the calls
  | ready
  | own (entry : ℕ)
  | visit (first cur : ℕ)
  | work (first cur : ℕ)
  -- `Alloc`
  | allocLock (fetch : Fetch)
  | allocFull (top : ℕ)
  | allocNext (top : ℕ)
  | allocTop (top next : ℕ)
  -- `Push`
  | pushLock (entry : ℕ) (fetch : Fetch)
  | pushNext (entry tail : ℕ)
  | pushTail (entry tail : ℕ)
  -- `PopAll`
  | popLock (fetch : Fetch)
  | popHead (tail : ℕ)
  | popTail (tail ret : ℕ)
  | popEnd (tail ret : ℕ)
  -- `NextEntry`
  | nextTest (first cur : ℕ)
  | nextRead (first cur : ℕ)
  -- `Recycle`
  | recycleLock (first last : ℕ) (fetch : Fetch)
  | recycleNext (first last top : ℕ)
  | recycleTop (first last top : ℕ)
  deriving DecidableEq, Repr

/-- What a process does next: the access that is due, or one it chooses between the calls. -/
inductive Op (EntryData : Type)
  | go
  | alloc
  | fill (f : EntryData → EntryData)
  | push
  | popAll
  | nextEntry

/-- What the users of the queue see: an entry is pushed with its data, an entry is looked at. -/
inductive Event (EntryData : Type)
  | pushed (d : EntryData)
  | taken (d : EntryData)

/-- The loop of the constructor, at `i`. -/
def Pc.initFrom (SIZE i : ℕ) : Pc := if i < SIZE then .initNext i else .publish

/-- One access of a process. -/
def access (SIZE : ℕ) (m : Memory EntryData) :
    Pc → Op EntryData → Option (Memory EntryData × Pc × Option (Event EntryData))
  -- `if(!__sync_bool_compare_and_swap(&init_state, 0, 1)) while(init_state != 2);`
  | .construct, .go =>
    if m.initState = 0 then some ({ m with initState := 1 }, .initTail, none)
    else some (m, .await, none)
  | .await, .go => some (m, if m.initState = 2 then .ready else .await, none)
  | .initTail, .go => some ({ m with pendingTail := 0 }, .initTop, none)
  | .initTop, .go => some ({ m with emptyTop := 1 }, .initFrom SIZE 1, none)
  | .initNext i, .go => some (m.setNext i (i + 1), .initFrom SIZE (i + 1), none)
  | .publish, .go => some ({ m with initState := 2 }, .ready, none)
  -- `Alloc`
  | .ready, .alloc => some (m, .allocLock .load, none)
  | .allocLock fetch, .go =>
    match fetchAndLock (emptyLock SIZE) m.emptyTop fetch with
    | (var, .inl fetch') => some ({ m with emptyTop := var }, .allocLock fetch', none)
    | (var, .inr top) =>
      some ({ m with emptyTop := var }, if top = SIZE then .allocFull top else .allocNext top, none)
  | .allocFull _, .go => some ({ m with emptyTop := SIZE }, .ready, none)
  | .allocNext top, .go => some (m, .allocTop top (m.next top), none)
  | .allocTop top next, .go => some ({ m with emptyTop := next }, .own top, none)
  -- the entry is filled, and pushed
  | .own entry, .fill f => some (m.modifyData entry f, .own entry, none)
  | .own entry, .push => some (m, .pushLock entry .load, none)
  -- `Push`
  | .pushLock entry fetch, .go =>
    match fetchAndLock (pendingLock SIZE) m.pendingTail fetch with
    | (var, .inl fetch') => some ({ m with pendingTail := var }, .pushLock entry fetch', none)
    | (var, .inr tail) => some ({ m with pendingTail := var }, .pushNext entry tail, none)
  | .pushNext entry tail, .go => some (m.setNext tail entry, .pushTail entry tail, none)
  | .pushTail entry _, .go =>
    some ({ m with pendingTail := entry }, .ready, some (.pushed (m.data entry)))
  -- `PopAll`
  | .ready, .popAll => some (m, if m.pendingTail = 0 then .ready else .popLock .load, none)
  | .popLock fetch, .go =>
    match fetchAndLock (pendingLock SIZE) m.pendingTail fetch with
    | (var, .inl fetch') => some ({ m with pendingTail := var }, .popLock fetch', none)
    | (var, .inr tail) => some ({ m with pendingTail := var }, .popHead tail, none)
  | .popHead tail, .go => some (m, .popTail tail (m.next 0), none)
  | .popTail tail ret, .go => some ({ m with pendingTail := 0 }, .popEnd tail ret, none)
  | .popEnd tail ret, .go => some (m.setNext tail SIZE, .visit ret ret, none)
  -- the entry is looked at, and written to
  | .visit first cur, .go => some (m, .work first cur, some (.taken (m.data cur)))
  | .work first cur, .fill f => some (m.modifyData cur f, .work first cur, none)
  | .work first cur, .nextEntry => some (m, .nextTest first cur, none)
  -- `NextEntry`: `entry->next` is read twice
  | .nextTest first cur, .go =>
    some (m, if m.next cur = SIZE then .recycleLock first cur .load else .nextRead first cur, none)
  | .nextRead first cur, .go => some (m, .visit first (m.next cur), none)
  -- `Recycle`
  | .recycleLock first last fetch, .go =>
    match fetchAndLock (emptyLock SIZE) m.emptyTop fetch with
    | (var, .inl fetch') => some ({ m with emptyTop := var }, .recycleLock first last fetch', none)
    | (var, .inr top) => some ({ m with emptyTop := var }, .recycleNext first last top, none)
  | .recycleNext first last top, .go => some (m.setNext last top, .recycleTop first last top, none)
  | .recycleTop first _ _, .go => some ({ m with emptyTop := first }, .ready, none)
  | _, _ => none

/-! ### The system -/

/-- The memory, and where each process is. -/
structure State (P EntryData : Type) where
  mem : Memory EntryData
  pc : P → Pc

/-- Who makes a step, what it does and what is seen of it. -/
structure Label (P EntryData : Type) where
  who : P
  op : Op EntryData
  event : Option (Event EntryData)

variable {P : Type} [DecidableEq P]

/-- Processes that share a queue; one of them is the receiver. The memory is zero at first as far as
`init_state` goes, and each process constructs the queue where it has mapped it. -/
def queue (SIZE : ℕ) (receiver : P) :
    Transition.System (State P EntryData) (Label P EntryData) where
  init s := s.mem.initState = 0 ∧ ∀ p, s.pc p = .construct
  step s l t := (l.op = .popAll → l.who = receiver) ∧
    ∃ m pc, access SIZE s.mem (s.pc l.who) l.op = some (m, pc, l.event) ∧
      t = ⟨m, Function.update s.pc l.who pc⟩

/-- The data that is seen to be pushed. -/
def Event.pushed? : Option (Event EntryData) → Option EntryData
  | some (.pushed d) => some d
  | _ => none

/-- The data that is seen to be looked at. -/
def Event.taken? : Option (Event EntryData) → Option EntryData
  | some (.taken d) => some d
  | _ => none

/-- The data pushed in a run, in order. -/
def pushed (ls : List (Label P EntryData)) : List EntryData :=
  ls.filterMap fun l => Event.pushed? l.event

/-- The data looked at in a run, in order. -/
def taken (ls : List (Label P EntryData)) : List EntryData :=
  ls.filterMap fun l => Event.taken? l.event

end MoleculeOS.ShmQueue
