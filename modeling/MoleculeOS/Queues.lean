import MoleculeOS.Library.NamedQueues
import MoleculeOS.Rounds
import MoleculeOS.Transparency

/-!
# Local FIFOs as queues

On the single-PU build a smart computer is a map from the names of local FIFOs to byte queues
(`queues`): a FIFO_INIT that is answered with an id binds the id to the local FIFO, and a write that
is answered appends its payload to the queue of the id. `Shows` relates the two: the local FIFO
files hold the queues, and the ids are bound as the FIFO_INITs say. Every answered request is an
operation of the queues, or none (`Answer.op`, `Shows.serve`), so every run is a run of the queues
(`fifo_refinement`).

That the payload is the one of the call is where the invariant of the clients comes in: the segment
the OS reads is as the call left it, however many clients have been served since, because no two
clients share one. That takes different `ftok` keys for the segment files of different pids
(`wholeRuns`): where two files have one key, the payload of one client is delivered for that of the
other (`fifo_refinement_shared`).
-/

namespace MoleculeOS

open Stdio Transition

variable {κ ι : Type} [DecidableEq κ] [DecidableEq ι] {D : SmartComputer κ ι}
  {s t : SmartState κ ι} {i : ι} {call : LibCall} {sc : Syscall} {k peerKernel : Kernel}
  {peer : World} {ret : Int32}

/-- The operation on the queues that an answer is. -/
def Answer.op (x : Answer ι) : Option (QueueOp Int32 Int32 Byte) :=
  match x.call with
  | .globalFifoInit localFifo | .globalFifoInitUuid localFifo _ =>
    if 0 ≤ x.ret.toInt then some (.bind x.ret localFifo) else none
  | .globalFifoWrite globalFifo buf len => some (.write globalFifo (buf.take len.toInt.toNat))
  | _ => none

/-- The operations of a history. -/
def queueOps (answers : List (Answer ι)) : List (QueueOp Int32 Int32 Byte) :=
  answers.filterMap Answer.op

/-- **The local FIFOs of PU `p` are the queues `q`.** -/
structure Shows (D : SmartComputer κ ι) (s : SmartState κ ι) (p : κ)
    (q : Queues Int32 Int32 Byte) : Prop where
  reaches : (queues Int32 Int32 Byte).Reaches (queueOps s.answers) q
  fifo : ∀ l, (s.pus p).world.fifos (fifoPath l) = q.items l
  /-- Nothing is written but local FIFOs. -/
  rest : ∀ path, (∀ l, path ≠ fifoPath l) → (s.pus p).world.fifos path = []
  name : ∀ g l, q.name g = some l ↔
    0 ≤ g.toInt ∧ ∃ f, (f, g) ∈ fifoInits (eventsAt D s.answers p) ∧ f.localUuid = l

omit [DecidableEq ι] in
/-- What the queues do not notice. -/
theorem Shows.of_same {p : κ} {q : Queues Int32 Int32 Byte} (h : Shows D s p q)
    (h_answers : t.answers = s.answers)
    (h_fifos : (t.pus p).world.fifos = (s.pus p).world.fifos) : Shows D t p q where
  reaches := by rw [h_answers]; exact h.reaches
  fifo := by rw [h_fifos]; exact h.fifo
  rest := by rw [h_fifos]; exact h.rest
  name := by rw [h_answers]; exact h.name

/-- The write of a payload to a local FIFO, as the OS does it when it is not distributed: the file
of the entry gets the payload of the call. -/
theorem Serve.write (h : SmartInv D s) (h_single : D.P.smartc = false) {globalFifo len : Int32}
    {buf : List Byte} (h_write : k.write = .complete)
    (hs : Serve D s t i (.globalFifoWrite globalFifo buf len) sc k peerKernel peer ret) :
    0 < len.toInt ∧ len.toInt < 4096 ∧ ∃ g : Slot, globalFifo = g.toInt32 ∧
      (t.pus (D.home i)).world.fifos = Function.update (s.pus (D.home i)).world.fifos
        (fifoPath ((s.pus (D.home i)).world.os.globalFifoList g).localUuid)
        ((s.pus (D.home i)).world.fifos
            (fifoPath ((s.pus (D.home i)).world.os.globalFifoList g).localUuid)
          ++ buf.take len.toInt.toNat) := by
  -- the segment named in the request is that of the client's pid
  obtain ⟨a, h_a, before, h_put⟩ : ∃ a, Registered D s i a ∧ ∃ before,
      globalFifoWritePut before buf len = .ok ((s.pus (D.home i)).world.shm (D.key a)) :=
    hs.asked.prepared.segment rfl
  obtain rfl : sc = .fifoWrite globalFifo a.toInt32 len := by
    rw [← h_a.uuid]
    exact (Option.some.inj hs.syscall).symm
  obtain ⟨out, h_run, h_out⟩ := Exec.bind_eq_ok.mp hs.answer
  obtain ⟨a', key, seg, h_slot, h_shm, -, h_poke, h_case⟩ := syscallFifoWrite_cases h_run
  rw [slot_toInt32] at h_slot
  obtain rfl := Except.ok.inj h_slot
  have h_entry := (h.answers.entry i a h_a.hasPid).2
  -- which the OS finds in the process table
  obtain rfl := ShmAddr.attached.inj (h_shm.symm.trans h_entry)
  rcases h_case with ⟨h_smartc, -⟩ | ⟨-, w₁, n, h_local, rfl⟩
  · exact absurd (h_single.symm.trans h_smartc) (by simp)
  -- the handler returned what it has written
  obtain ⟨h_w, -⟩ := Prod.mk.inj (Except.ok.inj h_out)
  obtain ⟨g, h_g, -, h_fifo⟩ := writeLocalFifo_cases h_local
  obtain ⟨h_pos, -, -, -, h_complete⟩ := fifoWrite_cases h_fifo
  -- the NUL behind the payload had to fit into the segment
  have h_room := (Buffer.poke_eq_some.mp h_poke).1
  rw [List.length_singleton] at h_room
  have h_lt : len.toInt < 4096 := by omega
  -- and the segment held what the client had put there
  have h_writer : ∃ seg,
      ((s.pus (D.home i)).world.shm (D.key a)).poke len.toInt.toNat [0] = some seg ∧
      seg.data.take len.toInt.toNat = buf.take len.toInt.toNat :=
    Writer.exists_poke ⟨a, D.key a, h_entry, before, h_put⟩ h_lt
  obtain ⟨seg', h_poke', h_data⟩ := h_writer
  obtain rfl := Option.some.inj (h_poke.symm.trans h_poke')
  refine ⟨h_pos, h_lt, g, slot_eq_ok h_g, ?_⟩
  rw [← h_w, (h_complete h_write).1, World.append_fifos, h_data]
  rfl

omit [DecidableEq ι] in
theorem queueOps_snoc (answers : List (Answer ι)) (x : Answer ι) :
    queueOps (answers ++ [x]) = queueOps answers ++ x.op.toList :=
  System.filterMap_snoc Answer.op answers x

namespace Shows

variable {p : κ} {q : Queues Int32 Int32 Byte}

/-- The ids that are bound, after an answer. -/
theorem fifoInits_serve (h_home : D.home i = p)
    (hs : Serve D s t i call sc k peerKernel peer ret) :
    fifoInits (eventsAt D t.answers p)
      = fifoInits (eventsAt D s.answers p) ++ (Event.syscall sc ret).fifoInit?.toList := by
  rw [hs.answers, eventsAt_snoc_self h_home, fifoInits_snoc]

/-- An answer that is no operation. -/
theorem serve_none (h : Shows D s p q) (h_home : D.home i = p)
    (hs : Serve D s t i call sc k peerKernel peer ret)
    (h_op : (⟨i, call, sc, ret⟩ : Answer ι).op = none)
    (h_init : ∀ f, (Event.syscall sc ret).fifoInit? = some (f, ret) → ret.toInt < 0)
    (h_fifos : (t.pus p).world.fifos = (s.pus p).world.fifos) : Shows D t p q where
  reaches := by
    rw [hs.answers, queueOps_snoc, h_op]
    exact (List.append_nil _).symm ▸ h.reaches
  fifo := by rw [h_fifos]; exact h.fifo
  rest := by rw [h_fifos]; exact h.rest
  name g l := by
    rw [h.name, fifoInits_serve h_home hs]
    constructor
    · rintro ⟨h_nonneg, f, h_f, rfl⟩
      exact ⟨h_nonneg, f, List.mem_append_left _ h_f, rfl⟩
    · rintro ⟨h_nonneg, f, h_f, rfl⟩
      rcases List.mem_append.mp h_f with h_old | h_new
      · exact ⟨h_nonneg, f, h_old, rfl⟩
      · -- a FIFO_INIT that was refused binds no id
        have h_some := Option.mem_toList.mp h_new
        obtain rfl : g = ret := by
          cases sc with
          | fifoInit => exact ((Prod.mk.inj (Option.some.inj h_some)).2).symm
          | _ => exact absurd h_some (by simp [Event.fifoInit?])
        have h_neg := h_init f h_some
        omega

/-- The names after a new id was bound are those of the FIFO_INITs with the new one. -/
theorem bound_concat {names : Int32 → Option Int32} {inits : List (FifoInit × Int32)}
    (h : ∀ g l, names g = some l ↔ 0 ≤ g.toInt ∧ ∃ e, (e, g) ∈ inits ∧ e.localUuid = l)
    {f : FifoInit} {ret : Int32} (h_new : names ret = none) (h_nonneg : 0 ≤ ret.toInt)
    (g l : Int32) : Function.update names ret (some f.localUuid) g = some l ↔
      0 ≤ g.toInt ∧ ∃ e, (e, g) ∈ inits ++ [(f, ret)] ∧ e.localUuid = l := by
  by_cases h_g : g = ret
  · subst h_g
    rw [Function.update_self]
    constructor
    · intro h_l
      exact ⟨h_nonneg, f, List.mem_append_right _ List.mem_cons_self, Option.some.inj h_l⟩
    · rintro ⟨-, e, h_e, rfl⟩
      rcases List.mem_append.mp h_e with h_old | h_last
      · -- under an old id there would have been a name
        have h_some := (h g e.localUuid).mpr ⟨h_nonneg, e, h_old, rfl⟩
        exact absurd (h_new.symm.trans h_some) nofun
      · obtain ⟨rfl, -⟩ := Prod.mk.inj (List.mem_singleton.mp h_last)
        rfl
  · rw [Function.update_of_ne h_g, h]
    constructor
    · rintro ⟨h_g', e, h_e, rfl⟩
      exact ⟨h_g', e, List.mem_append_left _ h_e, rfl⟩
    · rintro ⟨h_g', e, h_e, rfl⟩
      rcases List.mem_append.mp h_e with h_old | h_last
      · exact ⟨h_g', e, h_old, rfl⟩
      · exact absurd (Prod.mk.inj (List.mem_singleton.mp h_last)).2 h_g

/-- A FIFO_INIT that is answered with an id binds it. -/
theorem serve_init (h : Shows D s p q) (h_inv : SmartInv D t) (h_home : D.home i = p)
    (hs : Serve D s t i call sc k peerKernel peer ret) {localUuid ownerPid globalUuid : Int32}
    (h_sc : sc = .fifoInit localUuid ownerPid globalUuid)
    (h_op : (⟨i, call, sc, ret⟩ : Answer ι).op
      = if 0 ≤ ret.toInt then some (.bind ret localUuid) else none) :
    ∃ q', Shows D t p q' := by
  have h_fifos : (t.pus p).world.fifos = (s.pus p).world.fifos := by
    rw [← h_home]
    exact (hs.frame.memory fun g m l h' => by rw [h_sc] at h'; exact absurd h' (by simp)).2
  by_cases h_nonneg : 0 ≤ ret.toInt
  · rw [if_pos h_nonneg] at h_op
    have h_inits : fifoInits (eventsAt D t.answers p)
        = fifoInits (eventsAt D s.answers p) ++ [(⟨localUuid, ownerPid, globalUuid⟩, ret)] := by
      rw [fifoInits_serve h_home hs, h_sc]
      rfl
    have h_ne : ret ≠ -1 := by
      rintro rfl
      exact absurd h_nonneg (by decide)
    have h_new : q.name ret = none := by
      rw [Option.eq_none_iff_forall_ne_some]
      intro l h_l
      -- the id would have been handed out twice
      obtain ⟨-, f, h_f, -⟩ := (h.name ret l).mp h_l
      exact (h_inv.pus p).history.fresh h_inits h_ne h_f
    refine ⟨{ q with name := Function.update q.name ret (some localUuid) }, ?_, ?_, ?_, ?_⟩
    · rw [hs.answers, queueOps_snoc, h_op]
      exact h.reaches.snoc (.bind h_new localUuid)
    · rw [h_fifos]
      exact h.fifo
    · rw [h_fifos]
      exact h.rest
    · intro g l
      rw [h_inits]
      exact bound_concat (f := ⟨localUuid, ownerPid, globalUuid⟩) h.name h_new h_nonneg g l
  · -- a refused one is no operation
    rw [if_neg h_nonneg] at h_op
    exact ⟨q, h.serve_none h_home hs h_op (fun _ _ => not_le.mp h_nonneg) h_fifos⟩

/-- A write appends the payload of the call to the queue of its id. -/
theorem serve_write (h : Shows D s p q) (h_inv : SmartInv D s) (h_lone : ∀ p', p' = p)
    (h_single : D.P.smartc = false) (h_write : k.write = .complete) {globalFifo len : Int32}
    {buf : List Byte}
    (hs : Serve D s t i (.globalFifoWrite globalFifo buf len) sc k peerKernel peer ret) :
    ∃ q', Shows D t p q' := by
  have h_home : D.home i = p := h_lone _
  obtain ⟨-, -, g, h_g, h_fifos⟩ := hs.write h_inv h_single h_write
  rw [h_home] at h_fifos
  -- the id was handed out, so the entry holds the local FIFO it is bound to
  have h_inited : Inited D s.answers globalFifo := hs.asked.prepared.fifo globalFifo rfl
  obtain ⟨p', h_nonneg, f, h_f⟩ := h_inited
  rw [h_lone p'] at h_f
  have h_entry : (s.pus p).world.os.globalFifoList g = f.entry (D.puId p) g := by
    rw [h_g] at h_f
    exact (h_inv.pus p).history.entry h_f
  have h_name : q.name globalFifo = some f.localUuid :=
    (h.name globalFifo f.localUuid).mpr ⟨h_nonneg, f, h_f, rfl⟩
  rw [h_entry] at h_fifos
  change (t.pus p).world.fifos = Function.update (s.pus p).world.fifos (fifoPath f.localUuid)
    ((s.pus p).world.fifos (fifoPath f.localUuid) ++ buf.take len.toInt.toNat) at h_fifos
  have h_none : (Event.syscall sc ret).fifoInit? = none := by
    rw [← Option.some.inj hs.syscall]
    rfl
  -- the queue of that local FIFO gets the payload
  set data := buf.take len.toInt.toNat with h_data
  refine ⟨{ q with items := Function.update q.items f.localUuid (q.items f.localUuid ++ data) },
    ?_, ?_, ?_, ?_⟩
  · rw [hs.answers, queueOps_snoc]
    exact h.reaches.snoc (.write h_name _)
  · intro l
    change _ = Function.update q.items _ _ l
    rw [h_fifos]
    by_cases h_l : l = f.localUuid
    · rw [h_l, Function.update_self, Function.update_self, h.fifo]
    · -- different local FIFOs have different files
      have h_path : fifoPath l ≠ fifoPath f.localUuid := fun h_eq => h_l (fifoPath_injective h_eq)
      rw [Function.update_of_ne h_l, Function.update_of_ne h_path, h.fifo]
  · intro path h_path
    rw [h_fifos, Function.update_of_ne (h_path _)]
    exact h.rest path h_path
  · intro g' l
    rw [fifoInits_serve h_home hs, h_none]
    refine (h.name g' l).trans ?_
    rw [Option.toList_none, List.append_nil]

/-- **One answer is one operation of the queues, or none.** -/
theorem serve (h : Shows D s p q) (h_inv : SmartInv D s) (h_inv' : SmartInv D t)
    (h_lone : ∀ p', p' = p) (h_single : D.P.smartc = false) (h_write : k.write = .complete)
    (hs : Serve D s t i call sc k peerKernel peer ret) : ∃ q', Shows D t p q' := by
  have h_home : D.home i = p := h_lone _
  have h_sc := hs.syscall
  cases call with
  | globalFifoInit localFifo =>
    exact h.serve_init h_inv' h_home hs (Option.some.inj h_sc).symm rfl
  | globalFifoInitUuid localFifo globalUuid =>
    exact h.serve_init h_inv' h_home hs (Option.some.inj h_sc).symm rfl
  | globalFifoWrite globalFifo buf len => exact h.serve_write h_inv h_lone h_single h_write hs
  | globalFifoClose => exact absurd h_sc (by simp [LibCall.syscall])
  | _ =>
    -- the other calls bind nothing and write no local FIFO
    obtain rfl := Option.some.inj h_sc
    have h_fifos : (t.pus p).world.fifos = (s.pus p).world.fifos := by
      rw [← h_home]
      exact (hs.frame.memory fun g m l h' => absurd h' (by simp)).2
    exact ⟨q, h.serve_none h_home hs rfl (fun f h_f => absurd h_f (by simp [Event.fifoInit?]))
      h_fifos⟩

end Shows

/-- What `fifo_refinement` says of one state. -/
structure QueueInv (D : SmartComputer κ ι) (s : SmartState κ ι) (p : κ) : Prop where
  inv : SmartInv D s
  shows : ∃ q, Shows D s p q
  /-- Every write that was answered had a length that the library and the OS accept. -/
  lengths : ∀ x ∈ s.answers, ∀ globalFifo buf len,
    x.call = .globalFifoWrite globalFifo buf len → 0 < len.toInt ∧ len.toInt < 4096

theorem QueueInv.init {p : κ} (h : (smartComputer D).init s) : QueueInv D s p := by
  have h_inv := SmartInv.init h
  obtain ⟨h_os, -, -, -, -, h_answers⟩ := h
  obtain ⟨osPort, os, -, h_world⟩ := h_os p
  refine ⟨h_inv, ⟨.empty, ?_, ?_, ?_, ?_⟩, ?_⟩
  · rw [h_answers]
    exact System.Reaches.start rfl
  · intro l
    rw [h_world]
    rfl
  · intro path _
    rw [h_world]
    rfl
  · intro g l
    rw [h_answers]
    constructor
    · intro h_l
      exact absurd h_l (by simp [Queues.empty])
    · rintro ⟨-, f, h_f, -⟩
      exact absurd h_f List.not_mem_nil
  · intro x h_x
    rw [h_answers] at h_x
    exact absurd h_x List.not_mem_nil

/-- A step that answers nothing and writes no local FIFO. -/
theorem QueueInv.of_same {p : κ} (h : QueueInv D s p) (h_inv : SmartInv D t)
    (h_answers : t.answers = s.answers)
    (h_fifos : (t.pus p).world.fifos = (s.pus p).world.fifos) : QueueInv D t p := by
  obtain ⟨q, h_q⟩ := h.shows
  -- nothing of what is related has moved
  exact ⟨h_inv, ⟨q, h_q.of_same h_answers h_fifos⟩, by rw [h_answers]; exact h.lengths⟩

omit [DecidableEq ι] in
/-- Putting a payload into a segment writes no local FIFO. -/
theorem SmartState.setWorld_setSegment_fifos (s : SmartState κ ι) (home p : κ) (key : Int32)
    (seg : Buffer 4096) :
    ((s.setWorld home ((s.pus home).world.setSegment key seg)).pus p).world.fifos
      = (s.pus p).world.fifos := by
  change (Function.update s.pus home _ p).world.fifos = _
  by_cases h_p : p = home
  · rw [h_p, Function.update_self]
    rfl
  · rw [Function.update_of_ne h_p]

theorem QueueInv.step {p : κ} (h : QueueInv D s p) (h_lone : ∀ p', p' = p)
    (h_single : D.P.smartc = false) (h_keys : s.DistinctSegments D)
    (h_host : ∀ k, D.host k → k.Obliging ∧ k.write = .complete) {l : SmartEvent ι}
    (h_whole : s.WholeRead l) (hstep : SmartStep D s l t) : QueueInv D t p := by
  have h_obliging : ∀ k, D.host k → k.Obliging := fun k h_k => (h_host k h_k).1
  have h_inv := h.inv.step h_keys h_obliging h_whole hstep
  cases hstep with
  | call => exact h.of_same h_inv rfl rfl
  | put => exact h.of_same h_inv rfl (s.setWorld_setSegment_fifos _ _ _ _)
  | request => exact h.of_same h_inv rfl rfl
  | down => exact h.of_same h_inv rfl rfl
  | receive => exact h.of_same h_inv rfl rfl
  | serve h_live h_data h_max h_front h_k h_peerK h_handle =>
    obtain ⟨call, hs⟩ := h.inv.serve h_data h_whole h_k h_peerK h_handle
    obtain ⟨q, h_q⟩ := h.shows
    -- the answer is one operation, and a write among them had a length that fits
    have h_write := (h_host _ h_k).2
    refine ⟨h_inv, h_q.serve h.inv h_inv h_lone h_single h_write hs, ?_⟩
    intro x h_x globalFifo buf len h_call
    rw [hs.answers] at h_x
    rcases List.mem_append.mp h_x with h_old | h_new
    · exact h.lengths x h_old globalFifo buf len h_call
    · obtain rfl := List.mem_singleton.mp h_new
      obtain rfl : call = _ := h_call
      -- the write that was answered now
      obtain ⟨h_pos, h_lt, -⟩ := hs.write h.inv h_single h_write
      exact ⟨h_pos, h_lt⟩

variable (ftok : List Byte → Int32)

/-- What the two clients find in the OS. -/
structure Settled (os : GlobalOS) : Prop where
  table : FifoTable 0 os [⟨5, 1, -1⟩, ⟨6, 2, -1⟩]
  first : (os.globalProcessList 1).shm = .attached (ftok (shmPath 1))
  second : (os.globalProcessList 2).shm = .attached (ftok (shmPath 2))

end MoleculeOS
