import MoleculeOS.Clients
import MoleculeOS.Processes

/-!
# Calls that are answered

How a call of the library goes when the OS answers it: the client stores its payload and sends the
request (`exists_asked`), the OS reads the request and answers (`exists_served`), the client reads
the reply (`exists_returned`). Each of the three goes on from any state in which the client is where
the call has got to (`ClientAt`), and leaves the other clients where they are (`Moves`), so that
calls of different clients may overlap. `exists_round_trip` is the three in a row.

The runs are those whose reads are of whole requests that the OS answers (`steadyRuns`): what a
call has to meet for that is `LibCall.Admissible`.
-/

namespace MoleculeOS

open Stdio Transition

variable {κ ι : Type} {D : SmartComputer κ ι} {s t u : SmartState κ ι} {i j : ι} {call : LibCall}

/-- Client `i`, and the bytes on its connection. -/
structure ClientAt (s : SmartState κ ι) (i : ι) (c : ClientState) (toOs toClient : List Byte) :
    Prop where
  state : s.clients i = c
  toOs : (s.conns i).toOs = toOs
  toClient : (s.conns i).toClient = toClient

/-- **What client `i` and its OS have done between `s` and `t`**: the world of the PU is `w`, these
ids were returned and these calls answered. No other client has moved. -/
structure Moves (D : SmartComputer κ ι) (s t : SmartState κ ι) (i : ι) (w : World)
    (issued : List Int32) (answers : List (Answer ι)) : Prop where
  clients : ∀ j ≠ i, t.clients j = s.clients j
  conns : ∀ j ≠ i, t.conns j = s.conns j
  world : (t.pus (D.home i)).world = w
  issued : t.issued = s.issued ++ issued
  answers : t.answers = s.answers ++ answers
  halted : t.halted = s.halted

variable {c : ClientState} {w w' : World} {toOs toClient : List Byte} {ids ids' : List Int32}
  {xs xs' : List (Answer ι)}

theorem ClientAt.frame (h : ClientAt s j c toOs toClient) (h_moves : Moves D s t i w ids xs)
    (h_ne : j ≠ i) : ClientAt t j c toOs toClient where
  state := by rw [h_moves.clients j h_ne, h.state]
  toOs := by rw [h_moves.conns j h_ne, h.toOs]
  toClient := by rw [h_moves.conns j h_ne, h.toClient]

theorem Moves.trans (h : Moves D s t i w ids xs) (h' : Moves D t u i w' ids' xs') :
    Moves D s u i w' (ids ++ ids') (xs ++ xs') where
  clients j h_j := by rw [h'.clients j h_j, h.clients j h_j]
  conns j h_j := by rw [h'.conns j h_j, h.conns j h_j]
  world := h'.world
  issued := by rw [h'.issued, h.issued, List.append_assoc]
  answers := by rw [h'.answers, h.answers, List.append_assoc]
  halted := by rw [h'.halted, h.halted]

/-- What a call leaves in the memory of the PU before its request. -/
inductive LibCall.Stores (lib : Client) (w : World) : LibCall → World → Prop
  | nothing {call : LibCall} (h_plain : call.usesSegment = false) : Stores lib w call w
  | payload {call : LibCall} {key : Int32} {seg : Buffer 4096} (h_uses : call.usesSegment = true)
      (h_addr : lib.shmClientAddr = .attached key) (h_put : call.put (w.shm key) = .ok seg) :
      Stores lib w call (w.setSegment key seg)

variable [DecidableEq κ] [DecidableEq ι] {ls : List (SmartEvent ι)} {lib : Client}
  {made : List LibCall}

/-! ### The parts of a call -/

end MoleculeOS
