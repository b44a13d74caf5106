import MoleculeOS.Library.Stdio

/-!
# The text protocols (`global_syscall_protocol.h`, path templates)

The request and response formats between the library, the OS and the OS of another PU, and the
templates of the paths that name shared segments and local FIFOs.
-/

namespace MoleculeOS

open Stdio

/-- `SYSCALL_REQ_FORMAT` -/
def syscallReqFormat : Format :=
  format "id: %d func:%s args1:%d args2:%d args3:%d args4:%d "

/-- `SYSCALL_RSP_FORMAT` -/
def syscallRspFormat : Format := format "ret: %d "

/-- `DSM_REQ_FORMAT` -/
def dsmReqFormat : Format :=
  format "gpid: %d func:%s args1:%d args2:%d args3:%d args4:%d buf_len:%d "

/-- `DSM_REQ_FORMAT_CALLEE` -/
def dsmReqFormatCallee : Format :=
  format "gpid: %d func:%s args1:%d args2:%d args3:%d args4:%d buf_len:%d %n"

/-- `DSM_RSP_FORMAT` -/
def dsmRspFormat : Format := format "ret: %d "

/-- The file a shared segment is keyed by. -/
def shmPath (shmUuid : Int32) : List Byte :=
  sprintf (format "/tmp/fifo_dir/shm-%d") [.int shmUuid]

/-- `FIFO_PATH_TEMPLATE` -/
def fifoPath (uuid : Int32) : List Byte :=
  sprintf (format "/tmp/fifo_dir/ipc_fifo_id-%d") [.int uuid]

theorem syscallReqFormat_delimited : Delimited syscallReqFormat = true := by decide

theorem syscallRspFormat_delimited : Delimited syscallRspFormat = true := by decide

theorem dsmReqFormat_delimited : Delimited dsmReqFormat = true := by decide

theorem dsmRspFormat_delimited : Delimited dsmRspFormat = true := by decide

/-- The callee's format is the caller's, followed by the `%n` that locates the payload. -/
theorem dsmReqFormatCallee_eq : dsmReqFormatCallee = dsmReqFormat ++ [.n] := by decide +kernel

/-- What a template that ends in a number prints. -/
theorem sprintf_number (pre : List Byte) (x : Int32) :
    sprintf (pre.map Dir.lit ++ [.d]) [.int x] = pre ++ decInt x.toInt := by
  induction pre with
  | nil => rw [List.map_nil, List.nil_append, sprintf_d, sprintf_nil, List.append_nil]; rfl
  | cons b pre ih => rw [List.map_cons, List.cons_append, sprintf_lit, ih, List.cons_append]

/-- It gives different numbers different paths. -/
theorem sprintf_number_injective (pre : List Byte) :
    Function.Injective fun x : Int32 => sprintf (pre.map Dir.lit ++ [.d]) [.int x] := by
  intro x y h
  simp only [sprintf_number] at h
  exact Int32.toInt_inj.mp (decInt_injective (List.append_cancel_left h))

theorem fifoPath_injective : Function.Injective fifoPath :=
  sprintf_number_injective (bytes "/tmp/fifo_dir/ipc_fifo_id-")

end MoleculeOS
