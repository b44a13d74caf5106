import MoleculeOS.Model.Interfaces

/-!
# The syscall codec

A request text read to the start of the loop's buffer parses back into the six fields it was
printed from, and a reply text into the result (`syscall_codec`). Neither the bytes that an earlier
request left behind the text nor the earlier values of the variables have a part in it: every
conversion of the format is delimited (`syscallReqFormat_delimited`), the last one by the trailing
blank, so the scan has assigned all six variables before it looks at the first stale byte.

The lengths come from the conversions of the two formats: a request takes at most 349 bytes, so one
`read` puts it into the buffer whole, and a reply at most 17, so it fits the client's 31.
-/

namespace MoleculeOS

open Stdio

/-- A function name a request can carry: 1 to 255 characters, none white space, none NUL. -/
structure FuncName where
  chars : List Byte
  isWord : IsWord chars
  length_le : chars.length ≤ 255

/-- The fields of a request have the kinds the request format asks for. -/
theorem fields_match {v : SyscallVars} (h_word : IsWord v.funcName) :
    Matches syscallReqFormat v.fields := by
  have h_conv : conversions syscallReqFormat = [.d, .s, .d, .d, .d, .d] := by decide +kernel
  apply matches_conversions
  rw [h_conv]
  exact ⟨h_word, trivial⟩

/-! ### Lengths -/

/-- A request takes 39 literals and what its fields print. -/
theorem length_requestText {v : SyscallVars} (h_word : IsWord v.funcName) :
    (requestText v).length = 39 + (decInt v.clientId.toInt).length + v.funcName.length
      + (decInt v.funcArgs1.toInt).length + (decInt v.funcArgs2.toInt).length
      + (decInt v.funcArgs3.toInt).length + (decInt v.funcArgs4.toInt).length := by
  have h_conv : conversions syscallReqFormat = [.d, .s, .d, .d, .d, .d] := by decide +kernel
  have h_lits : syscallReqFormat.countP Dir.isLit = 39 := by decide
  unfold requestText
  rw [length_sprintf (fields_match h_word), h_conv, h_lits]
  simp only [SyscallVars.fields, sprintf_d, sprintf_s, sprintf_nil, List.length_append,
    List.length_nil]
  omega

/-- The five numbers take at most eleven characters each. -/
theorem length_requestText_le {v : SyscallVars} (h_word : IsWord v.funcName) :
    (requestText v).length ≤ 94 + v.funcName.length := by
  have h_text := length_requestText h_word
  have h_id := decInt_length_le v.clientId
  have h₁ := decInt_length_le v.funcArgs1
  have h₂ := decInt_length_le v.funcArgs2
  have h₃ := decInt_length_le v.funcArgs3
  have h₄ := decInt_length_le v.funcArgs4
  omega

theorem length_syscallResp_le (ret : Int32) : (syscallResp ret).length ≤ 17 := by
  have h_conv : conversions syscallRspFormat = [.d] := by decide
  have h_lits : syscallRspFormat.countP Dir.isLit = 6 := by decide
  have h_match : Matches syscallRspFormat [.int ret] :=
    matches_conversions (by rw [h_conv]; trivial)
  have h_ret := decInt_length_le ret
  unfold syscallResp
  rw [length_sprintf h_match, h_conv, h_lits, sprintf_d, sprintf_nil, List.append_nil]
  omega

/-- The response to a message, printed like a reply, fits the response buffer with its NUL. -/
theorem exists_poke_dsmResp (buf : Buffer 256) (ret : Int32) :
    ∃ resp, buf.poke 0 (sprintf dsmRspFormat [.int ret] ++ [0]) = some resp := by
  have h_len := length_syscallResp_le ret
  apply Buffer.exists_poke
  change 0 + (syscallResp ret ++ [0]).length ≤ 256
  rw [List.length_append, List.length_singleton]
  omega

/-! ### Round trips -/

/-- Scanning memory that starts with a request text assigns the fields of the request. -/
theorem scan_requestText {v : SyscallVars} (h_word : IsWord v.funcName)
    (h_len : v.funcName.length ≤ 255) (old : SyscallVars) (rest : List Byte) :
    old.scan (sscanf syscallReqFormat 0 (requestText v ++ rest)) = .ok v := by
  -- the scan stops at the trailing blank, before it sees `rest`
  have h_vals : sscanf syscallReqFormat 0 (requestText v ++ rest) = v.fields :=
    sscanf_sprintf_self syscallReqFormat_delimited (fields_match h_word) 0 rest
  rw [h_vals]
  exact if_pos (by change v.funcName.length < 256; omega)

/-- A request text read to the start of the buffer is parsed whatever the buffer held behind it
and whatever lies behind the buffer. -/
theorem parseRequest_poke {v : SyscallVars} (h_word : IsWord v.funcName)
    (h_len : v.funcName.length ≤ 255) {buf buf' : Buffer maxLen}
    (h_read : buf.poke 0 (requestText v) = some buf') (k : Kernel) (old : SyscallVars) :
    parseRequest k buf' old = .ok v := by
  have h_data := Buffer.drop_of_poke h_read
  rw [List.drop_zero] at h_data
  unfold parseRequest
  rw [h_data, List.append_assoc]
  exact scan_requestText h_word h_len old _

theorem exists_poke_requestText {v : SyscallVars} (h_word : IsWord v.funcName)
    (h_len : v.funcName.length ≤ 255) (buf : Buffer maxLen) :
    ∃ buf', buf.poke 0 (requestText v) = some buf' := by
  -- at most 94 + 255 characters, and `MAXLEN` is 1024
  have h_text := length_requestText_le h_word
  apply Buffer.exists_poke
  change 0 + (requestText v).length ≤ 1024
  omega

theorem invokeRet_syscallResp (ret old : Int32) : invokeRet (syscallResp ret) old = ret := by
  have h_conv : conversions syscallRspFormat = [.d] := by decide
  have h_match : Matches syscallRspFormat [.int ret] :=
    matches_conversions (by rw [h_conv]; trivial)
  have h_len := length_syscallResp_le ret
  -- the NUL that is stored behind the reply ends the scan
  have h_vals : sscanf syscallRspFormat 0 (syscallResp ret ++ [0]) = [.int ret] :=
    sscanf_sprintf_self syscallRspFormat_delimited h_match 0 [0]
  unfold invokeRet
  rw [List.take_of_length_le (by omega), h_vals]
  rfl

/-- **The syscall codec.** For all five integers and every function name, whatever the buffer, the
memory behind it and the variables held before: the request text fits the buffer, and once it has
been read to its start the scan recovers the six fields. For every result, the reply text fits the
client's read and is recovered whatever the client's variable held before. -/
theorem syscall_codec :
    (∀ (clientId args1 args2 args3 args4 : Int32) (name : FuncName) (k : Kernel)
        (buf : Buffer maxLen) (old : SyscallVars),
      ∃ buf', buf.poke 0 (requestText ⟨clientId, name.chars, args1, args2, args3, args4⟩)
          = some buf' ∧
        parseRequest k buf' old = .ok ⟨clientId, name.chars, args1, args2, args3, args4⟩) ∧
      ∀ ret old : Int32,
        (syscallResp ret).length ≤ 31 ∧ invokeRet (syscallResp ret) old = ret := by
  constructor
  · intro clientId args1 args2 args3 args4 name k buf old
    obtain ⟨buf', h_read⟩ := exists_poke_requestText
      (v := ⟨clientId, name.chars, args1, args2, args3, args4⟩) name.isWord name.length_le buf
    exact ⟨buf', h_read, parseRequest_poke name.isWord name.length_le h_read k old⟩
  · intro ret old
    have h_len := length_syscallResp_le ret
    exact ⟨by omega, invokeRet_syscallResp ret old⟩

end MoleculeOS
