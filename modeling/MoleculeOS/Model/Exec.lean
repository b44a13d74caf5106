import MoleculeOS.Library.Stdio
import MoleculeOS.Library.Buffer

/-!
# Executing C functions

A C function of the program either returns or stops the process: `Exec` is the monad of such
functions, `Halt` lists the ways to stop. Besides `exit(-1)`, a failing `assert` and `throw`
(which prints and exits), the model stops at what C leaves undefined: an access outside an
object, an arithmetic overflow of a signed `int`.

An `int` is an `Int32`; sums and products are formed in `ℤ` and brought back by `cint`.
-/

namespace MoleculeOS

open Stdio

/-- The ways the process stops without returning from a function. -/
inductive Halt
  /-- `exit(-1)`: a bound check or an unknown syscall. -/
  | exit
  /-- A failing `assert`. -/
  | assertion
  /-- `throw`: an error message, then `exit(EXIT_FAILURE)`. -/
  | throw
  /-- An access outside the object, or through a pointer to none. -/
  | outOfBounds
  /-- A signed result that does not fit an `int`. -/
  | overflow
  deriving DecidableEq, Repr

/-- A C function's execution: it stops the process or returns. -/
abbrev Exec := Except Halt

namespace Exec

variable {α β : Type}

@[simp] theorem ok_bind (a : α) (f : α → Exec β) : ((Except.ok a : Exec α) >>= f) = f a := rfl

@[simp] theorem error_bind (h : Halt) (f : α → Exec β) :
    ((Except.error h : Exec α) >>= f) = Except.error h := rfl

/-- A sequence returns exactly when both its parts do. -/
theorem bind_eq_ok {x : Exec α} {f : α → Exec β} {b : β} :
    (x >>= f) = .ok b ↔ ∃ a, x = .ok a ∧ f a = .ok b := by
  cases x with
  | error h => simp
  | ok a => simp

end Exec

/-- `assert`. -/
def assert (c : Prop) [Decidable c] : Exec Unit := if c then .ok () else .error .assertion

@[simp] theorem assert_of {c : Prop} [Decidable c] (h : c) : assert c = .ok () := if_pos h

@[simp] theorem assert_eq_ok {c : Prop} [Decidable c] {u : Unit} : assert c = .ok u ↔ c := by
  unfold assert
  split
  · next h => exact ⟨fun _ => h, fun _ => rfl⟩
  · next h => exact ⟨fun h' => absurd h' (by simp), fun h' => absurd h' h⟩

/-- An access that is undefined outside its object. -/
def access {α : Type} : Option α → Exec α
  | some a => .ok a
  | none => .error .outOfBounds

@[simp] theorem access_some {α : Type} (a : α) : access (some a) = .ok a := rfl

@[simp] theorem access_eq_ok {α : Type} {o : Option α} {a : α} :
    access o = .ok a ↔ o = some a := by
  cases o <;> simp [access]

/-- The value of a signed expression as an `int`. -/
def cint (z : ℤ) : Exec Int32 :=
  if -2 ^ 31 ≤ z ∧ z < 2 ^ 31 then .ok (Int32.ofInt z) else .error .overflow

theorem cint_of {z : ℤ} (h_lo : -2 ^ 31 ≤ z) (h_hi : z < 2 ^ 31) : cint z = .ok (Int32.ofInt z) :=
  if_pos ⟨h_lo, h_hi⟩

theorem cint_eq_ok {z : ℤ} {x : Int32} (h : cint z = .ok x) : x.toInt = z := by
  unfold cint at h
  split at h
  · next h_fit =>
    obtain rfl := Except.ok.inj h
    exact Int32.toInt_ofInt_of_le h_fit.1 h_fit.2
  · exact absurd h (by simp)

/-! ### Tables of 4096 entries -/

/-- An index into a table of 4096 entries. -/
abbrev Slot := Fin 4096

/-- The entry an `int` index selects. -/
def slot (i : Int32) : Exec Slot :=
  if h : 0 ≤ i.toInt ∧ i.toInt < 4096 then .ok ⟨i.toInt.toNat, by omega⟩
  else .error .outOfBounds

/-- The `int` that selects an entry. -/
def Slot.toInt32 (i : Slot) : Int32 := Int32.ofInt i.val

@[simp] theorem Slot.toInt_toInt32 (i : Slot) : (Slot.toInt32 i).toInt = i.val := by
  have h := i.isLt
  exact Int32.toInt_ofInt_of_le (by omega) (by omega)

@[simp] theorem slot_toInt32 (i : Slot) : slot (Slot.toInt32 i) = .ok i := by
  have h := i.isLt
  unfold slot
  rw [dif_pos (by rw [Slot.toInt_toInt32]; omega)]
  simp

theorem Slot.toInt32_injective : Function.Injective Slot.toInt32 := by
  intro i j h
  have h_ij : (i.val : ℤ) = j.val := by rw [← Slot.toInt_toInt32 i, h, Slot.toInt_toInt32]
  exact Fin.ext (by exact_mod_cast h_ij)

theorem slot_eq_ok {x : Int32} {i : Slot} (h : slot x = .ok i) : x = Slot.toInt32 i := by
  unfold slot at h
  split at h
  · next h_range =>
    obtain rfl := Except.ok.inj h
    apply Int32.toInt_inj.mp
    rw [Slot.toInt_toInt32]
    simp only [Int.toNat_of_nonneg h_range.1]
  · exact absurd h (by simp)

theorem Slot.toInt32_ne_neg_one (i : Slot) : Slot.toInt32 i ≠ -1 := by
  intro h
  have h_val := Slot.toInt_toInt32 i
  rw [h] at h_val
  exact absurd h_val (by simp)

/-- Every index between 0 and 4095 selects an entry. -/
theorem exists_slot {x : Int32} (h_lo : 0 ≤ x.toInt) (h_hi : x.toInt < 4096) :
    ∃ i : Slot, x = Slot.toInt32 i :=
  ⟨⟨x.toInt.toNat, by omega⟩, slot_eq_ok (dif_pos ⟨h_lo, h_hi⟩)⟩

end MoleculeOS
