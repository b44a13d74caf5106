import Mathlib.Tactic.Linarith
import Mathlib.Data.List.Basic

/-!
# Formatted text: `sprintf` and `sscanf`

The fragment of C's formatted input and output that line protocols are written in:
the conversions `%d`, `%s` and `%n`, literal characters and white space. Text is a
list of bytes, and what `sscanf` reads is the memory behind its argument: the C string
ends at the first NUL, or nowhere the list says.

* `sprintf` writes a format with its arguments, `sscanf` returns the values it assigns, in
  order, up to the first directive that fails.
* `sscanf_sprintf` is the round trip: a format whose conversions are each delimited
  (`Delimited`) reads back the arguments it printed, whatever bytes follow, and then goes on
  with the directives behind it. A white-space directive at the end of the format takes all
  the white space that follows the text, which is what moves a `%n` behind it.

White space is that of the "C" locale. A `%d` is read the way the library does it, through
`strtol` and a store that keeps the low 32 bits.
-/

namespace Stdio

abbrev Byte := UInt8

/-- The bytes of a string of ASCII characters. -/
def bytes (s : String) : List Byte := s.toList.map fun c => UInt8.ofNat c.toNat

/-- `isspace` in the "C" locale: space, and `\t \n \v \f \r`. -/
def isSpace (b : Byte) : Bool := b.toNat = 32 || (9 ≤ b.toNat && b.toNat ≤ 13)

def isDigit (b : Byte) : Bool := 48 ≤ b.toNat && b.toNat ≤ 57

/-- What `%s` takes: neither white space nor the end of the string. -/
def inWord (b : Byte) : Bool := !isSpace b && b ≠ 0

/-! ### Decimal numerals -/

/-- The decimal digits of a natural number, most significant first. -/
def decNat (n : ℕ) : List Byte := (Nat.toDigits 10 n).map fun c => UInt8.ofNat c.toNat

/-- What `%d` prints. -/
def decInt (z : ℤ) : List Byte := if z < 0 then 45 :: decNat z.natAbs else decNat z.natAbs

/-- The number a list of digits denotes. -/
def numeral (ds : List Byte) : ℕ := ds.foldl (fun acc b => 10 * acc + (b.toNat - 48)) 0

/-- The sign `strtol` reads off the head of its input. -/
def readSign : List Byte → Bool × List Byte
  | 45 :: r => (true, r)
  | 43 :: r => (false, r)
  | r => (false, r)

/-- A sign and at least one digit, with what is left; nothing when there is no digit. -/
def strtol (bs : List Byte) : Option (ℤ × List Byte) :=
  let ds := (readSign bs).2.takeWhile isDigit
  if ds = [] then none
  else some (if (readSign bs).1 then -(numeral ds : ℤ) else numeral ds,
    (readSign bs).2.dropWhile isDigit)

/-- A number stored through an `int *`: `strtol` saturates at 64 bits and the store keeps
the low 32. -/
def storeInt (z : ℤ) : Int32 := Int32.ofInt (max (-2 ^ 63) (min z (2 ^ 63 - 1)))

/-! ### Formats -/

/-- One directive of a format. A white-space character of the format is a literal when it is
printed and a white-space directive when it is scanned. -/
inductive Dir
  | lit (b : Byte)
  | d
  | s
  | n
  deriving DecidableEq, Repr

abbrev Format := List Dir

/-- The directives a format string spells. -/
def directives : List Byte → Format
  | 37 :: 100 :: f => .d :: directives f
  | 37 :: 115 :: f => .s :: directives f
  | 37 :: 110 :: f => .n :: directives f
  | b :: f => .lit b :: directives f
  | [] => []

def format (text : String) : Format := directives (bytes text)

/-- An argument of `sprintf`, or a value `sscanf` assigns. -/
inductive Val
  | int (x : Int32)
  | str (w : List Byte)
  | pos (k : ℕ)
  deriving DecidableEq, Repr

def sprintf : Format → List Val → List Byte
  | .lit b :: f, as => b :: sprintf f as
  | .d :: f, .int x :: as => decInt x.toInt ++ sprintf f as
  | .s :: f, .str w :: as => w ++ sprintf f as
  | _, _ => []

/-- The values `sscanf` assigns, in order. The second argument counts the bytes read so far,
which is what `%n` stores. -/
def sscanf : Format → ℕ → List Byte → List Val
  | [], _, _ => []
  | .lit c :: f, k, bs =>
    if isSpace c then sscanf f (k + (bs.takeWhile isSpace).length) (bs.dropWhile isSpace)
    else match bs with
      | b :: bs' => if b = c then sscanf f (k + 1) bs' else []
      | [] => []
  | .d :: f, k, bs =>
    match strtol (bs.dropWhile isSpace) with
    | some (z, rest) => .int (storeInt z) :: sscanf f (k + (bs.length - rest.length)) rest
    | none => []
  | .s :: f, k, bs =>
    let w := (bs.dropWhile isSpace).takeWhile inWord
    let rest := (bs.dropWhile isSpace).dropWhile inWord
    if w = [] then [] else .str w :: sscanf f (k + (bs.length - rest.length)) rest
  | .n :: f, k, bs => .pos k :: sscanf f k bs

/-- The variable behind the `i`-th `%d` after a scan: a value assigned to it, or what it held. -/
def intAt (vals : List Val) (i : ℕ) (old : Int32) : Int32 :=
  match vals[i]? with
  | some (.int x) => x
  | _ => old

/-- The string behind the `i`-th conversion, a `%s`, after a scan. -/
def strAt (vals : List Val) (i : ℕ) (old : List Byte) : List Byte :=
  match vals[i]? with
  | some (.str w) => w
  | _ => old

/-- The count behind the `i`-th conversion, a `%n`, after a scan. -/
def posAt (vals : List Val) (i : ℕ) (old : Int32) : Int32 :=
  match vals[i]? with
  | some (.pos k) => Int32.ofInt k
  | _ => old

/-! ### Numerals read back -/

/-- The byte of a digit character. -/
theorem toNat_ofNat_of_isDigit {c : Char} (h : c.isDigit = true) :
    (UInt8.ofNat c.toNat).toNat = c.toNat ∧ 48 ≤ c.toNat ∧ c.toNat ≤ 57 := by
  simp only [Char.isDigit, Bool.and_eq_true, decide_eq_true_eq, ge_iff_le,
    UInt32.le_iff_toNat_le] at h
  have h_lo : 48 ≤ c.toNat := h.1
  have h_hi : c.toNat ≤ 57 := h.2
  refine ⟨?_, h_lo, h_hi⟩
  rw [UInt8.toNat_ofNat']
  exact Nat.mod_eq_of_lt (by omega)

theorem isDigit_of_mem_decNat {n : ℕ} {b : Byte} (h : b ∈ decNat n) : isDigit b = true := by
  obtain ⟨c, hc, rfl⟩ := List.mem_map.mp h
  obtain ⟨h_byte, h_lo, h_hi⟩ := toNat_ofNat_of_isDigit
    (Nat.isDigit_of_mem_toDigits (by decide) (by decide) hc)
  simp [isDigit, h_byte, h_lo, h_hi]

theorem decNat_ne_nil (n : ℕ) : decNat n ≠ [] := by
  unfold decNat
  rw [Ne, List.map_eq_nil_iff]
  exact Nat.toDigits_ne_nil

/-- The numeral printed for `n` denotes `n`. -/
theorem numeral_decNat (n : ℕ) : numeral (decNat n) = n := by
  -- the byte of a digit character carries the same number, so the two folds agree
  have h_fold : ∀ (cs : List Char) (acc : ℕ), (∀ c ∈ cs, c.isDigit = true) →
      (cs.map fun c => UInt8.ofNat c.toNat).foldl (fun acc b => 10 * acc + (b.toNat - 48)) acc
        = Nat.ofDigitChars 10 cs acc := by
    intro cs
    induction cs with
    | nil => intro acc _; simp
    | cons c cs ih =>
      intro acc h
      have h_byte := (toNat_ofNat_of_isDigit (h c List.mem_cons_self)).1
      rw [List.map_cons, List.foldl_cons, h_byte, Nat.ofDigitChars_cons]
      exact ih _ fun c' hc' => h c' (List.mem_cons_of_mem _ hc')
  unfold numeral decNat
  rw [h_fold _ 0 fun c hc => Nat.isDigit_of_mem_toDigits (by decide) (by decide) hc]
  exact Nat.ofDigitChars_ten_toDigits

theorem not_isSpace_of_isDigit {b : Byte} (h : isDigit b = true) : isSpace b = false := by
  simp only [isDigit, Bool.and_eq_true, decide_eq_true_eq] at h
  simp only [isSpace, Bool.or_eq_false_iff, Bool.and_eq_false_iff, decide_eq_false_iff_not]
  omega

theorem takeWhile_append_of_stop {p : Byte → Bool} {xs rest : List Byte}
    (hxs : ∀ b ∈ xs, p b = true) (h_rest : rest.takeWhile p = []) :
    (xs ++ rest).takeWhile p = xs ∧ (xs ++ rest).dropWhile p = rest := by
  have h_drop : rest.dropWhile p = rest := by
    have h := List.takeWhile_append_dropWhile (p := p) (l := rest)
    rwa [h_rest, List.nil_append] at h
  constructor
  · rw [List.takeWhile_append_of_pos hxs, h_rest, List.append_nil]
  · rw [List.dropWhile_append_of_pos hxs, h_drop]

/-- A numeral is read back up to the first byte that is not a digit. -/
theorem strtol_decInt (z : ℤ) {rest : List Byte} (h_rest : rest.takeWhile isDigit = []) :
    strtol (decInt z ++ rest) = some (z, rest) := by
  obtain ⟨h_take, h_drop⟩ := takeWhile_append_of_stop
    (fun b hb => isDigit_of_mem_decNat (n := z.natAbs) hb) h_rest
  by_cases hz : z < 0
  · -- only a negative number prints a sign
    have h_sign : readSign (decInt z ++ rest) = (true, decNat z.natAbs ++ rest) := by
      rw [decInt, if_pos hz]; rfl
    unfold strtol
    rw [h_sign]
    simp only [h_take, h_drop, if_neg (decNat_ne_nil _), if_true, numeral_decNat]
    rw [Int.ofNat_natAbs_of_nonpos hz.le, neg_neg]
  · have h_sign : readSign (decInt z ++ rest) = (false, decNat z.natAbs ++ rest) := by
      rw [decInt, if_neg hz]
      cases hd : decNat z.natAbs with
      | nil => exact absurd hd (decNat_ne_nil _)
      | cons b bs =>
        -- a digit is not taken for a sign
        have hb : isDigit b = true := isDigit_of_mem_decNat (hd ▸ List.mem_cons_self)
        rw [List.cons_append]
        unfold readSign
        split
        · next h => rw [(List.cons.inj h).1] at hb; exact absurd hb (by decide)
        · next h => rw [(List.cons.inj h).1] at hb; exact absurd hb (by decide)
        · rfl
    unfold strtol
    rw [h_sign]
    simp only [h_take, h_drop, if_neg (decNat_ne_nil _), Bool.false_eq_true, if_false,
      numeral_decNat]
    rw [Int.natAbs_of_nonneg (not_lt.mp hz)]

/-- What `%d` prints determines the number. -/
theorem decInt_injective : Function.Injective decInt := by
  intro z z' h
  have h₁ : strtol (decInt z ++ []) = some (z, []) := strtol_decInt z rfl
  have h₂ : strtol (decInt z' ++ []) = some (z', []) := strtol_decInt z' rfl
  rw [h, h₂] at h₁
  exact ((Prod.mk.inj (Option.some.inj h₁)).1).symm

theorem mem_decInt {z : ℤ} {b : Byte} (h : b ∈ decInt z) : b = 45 ∨ isDigit b = true := by
  unfold decInt at h
  split at h
  · rcases List.mem_cons.mp h with h | h
    · exact Or.inl h
    · exact Or.inr (isDigit_of_mem_decNat h)
  · exact Or.inr (isDigit_of_mem_decNat h)

/-- A printed number starts with a sign or a digit, so never with white space. -/
theorem decInt_head (z : ℤ) : ∃ b bs, decInt z = b :: bs ∧ isSpace b = false := by
  unfold decInt
  split
  · exact ⟨45, _, rfl, rfl⟩
  · cases hd : decNat z.natAbs with
    | nil => exact absurd hd (decNat_ne_nil _)
    | cons b bs =>
      exact ⟨b, bs, rfl, not_isSpace_of_isDigit
        (isDigit_of_mem_decNat (n := z.natAbs) (hd ▸ List.mem_cons_self))⟩

@[simp] theorem storeInt_toInt (x : Int32) : storeInt x.toInt = x := by
  have h_lo := x.le_toInt
  have h_hi := x.toInt_lt
  unfold storeInt
  rw [min_eq_left (by omega), max_eq_right (by omega), Int32.ofInt_toInt]

/-- A natural number below `10 ^ k` takes at most `k` digits. -/
theorem decNat_length_le {n k : ℕ} (hk : 0 < k) (h : n < 10 ^ k) : (decNat n).length ≤ k := by
  unfold decNat
  rw [List.length_map]
  exact (Nat.length_toDigits_le_iff (by decide) hk).mpr h

/-- A 32-bit number takes at most eleven characters, the sign included. -/
theorem decInt_length_le (x : Int32) : (decInt x.toInt).length ≤ 11 := by
  have h_lo := x.le_toInt
  have h_hi := x.toInt_lt
  have h_nat : (decNat x.toInt.natAbs).length ≤ 10 := decNat_length_le (by decide) (by omega)
  unfold decInt
  split
  · rw [List.length_cons]; omega
  · omega

@[simp] theorem sprintf_nil (as : List Val) : sprintf [] as = [] := by
  cases as <;> rfl

@[simp] theorem sprintf_lit (b : Byte) (f : Format) (as : List Val) :
    sprintf (.lit b :: f) as = b :: sprintf f as := by
  cases as <;> rfl

@[simp] theorem sprintf_d (f : Format) (x : Int32) (as : List Val) :
    sprintf (.d :: f) (.int x :: as) = decInt x.toInt ++ sprintf f as := rfl

@[simp] theorem sprintf_s (f : Format) (w : List Byte) (as : List Val) :
    sprintf (.s :: f) (.str w :: as) = w ++ sprintf f as := rfl

/-! ### Directives read in order

Beside its definition, `sscanf` is described by what each directive does to an input of a known
shape; the round trip is put together from these. -/

theorem sscanf_space {c : Byte} (hc : isSpace c = true) (f : Format) (k : ℕ) (bs : List Byte) :
    sscanf (.lit c :: f) k bs
      = sscanf f (k + (bs.takeWhile isSpace).length) (bs.dropWhile isSpace) := by
  simp only [sscanf, hc, if_true]

theorem sscanf_lit {c : Byte} (hc : isSpace c = false) (f : Format) (k : ℕ) (bs : List Byte) :
    sscanf (.lit c :: f) k (c :: bs) = sscanf f (k + 1) bs := by
  simp only [sscanf, hc, Bool.false_eq_true, if_false, if_true]

theorem sscanf_d {z : ℤ} {rest : List Byte} (h_rest : rest.takeWhile isDigit = [])
    (f : Format) (k : ℕ) :
    sscanf (.d :: f) k (decInt z ++ rest)
      = .int (storeInt z) :: sscanf f (k + (decInt z).length) rest := by
  -- the conversion skips white space, of which there is none
  obtain ⟨b, bs, hz, hb⟩ := decInt_head z
  have h_skip : (decInt z ++ rest).dropWhile isSpace = decInt z ++ rest := by
    rw [hz, List.cons_append, List.dropWhile_cons_of_neg (by rw [hb]; decide)]
  simp only [sscanf, h_skip, strtol_decInt z h_rest, List.length_append, Nat.add_sub_cancel]

/-- What a `%s` can print so that `%s` reads it back. -/
def IsWord (w : List Byte) : Prop := w ≠ [] ∧ ∀ b ∈ w, inWord b = true

instance (w : List Byte) : Decidable (IsWord w) :=
  decidable_of_iff ((!w.isEmpty && w.all inWord) = true) (by simp [IsWord])

theorem IsWord.head {w : List Byte} (h : IsWord w) : ∃ b bs, w = b :: bs ∧ isSpace b = false := by
  obtain ⟨h_ne, h_all⟩ := h
  cases w with
  | nil => exact absurd rfl h_ne
  | cons b bs =>
    refine ⟨b, bs, rfl, ?_⟩
    have hb := h_all b List.mem_cons_self
    simp only [inWord, Bool.and_eq_true, Bool.not_eq_true'] at hb
    exact hb.1

theorem sscanf_s {w rest : List Byte} (hw : IsWord w) (h_rest : rest.takeWhile inWord = [])
    (f : Format) (k : ℕ) :
    sscanf (.s :: f) k (w ++ rest) = .str w :: sscanf f (k + w.length) rest := by
  obtain ⟨b, bs, hwb, hb⟩ := hw.head
  have h_skip : (w ++ rest).dropWhile isSpace = w ++ rest := by
    rw [hwb, List.cons_append, List.dropWhile_cons_of_neg (by rw [hb]; decide)]
  obtain ⟨h_take, h_drop⟩ := takeWhile_append_of_stop hw.2 h_rest
  rw [sscanf, h_skip]
  simp only [h_take, h_drop, if_neg hw.1, List.length_append, Nat.add_sub_cancel]

/-! ### The round trip -/

/-- Every conversion is followed by a literal that ends it, no white space follows white
space, and the format ends with white space. -/
def Delimited : Format → Bool
  | [.lit b] => isSpace b
  | .lit b :: .lit c :: f => (!isSpace b || !isSpace c) && Delimited (.lit c :: f)
  | .lit _ :: x :: f => Delimited (x :: f)
  | .d :: .lit c :: f => !isDigit c && Delimited (.lit c :: f)
  | .s :: .lit c :: f => isSpace c && Delimited (.lit c :: f)
  | _ => false

/-- The arguments are of the kinds the conversions ask for, and the strings are words. -/
def Matches : Format → List Val → Prop
  | [], [] => True
  | .lit _ :: f, as => Matches f as
  | .d :: f, .int _ :: as => Matches f as
  | .s :: f, .str w :: as => IsWord w ∧ Matches f as
  | _, _ => False

/-- Printed behind a white-space literal, the rest of a delimited format starts with a
character that is not white space. -/
theorem sprintf_head {b : Byte} {x : Dir} {f : Format} {as : List Val}
    (hb : isSpace b = true) (hd : Delimited (.lit b :: x :: f) = true)
    (hm : Matches (x :: f) as) :
    ∃ c cs, sprintf (x :: f) as = c :: cs ∧ isSpace c = false := by
  match x, as, hm with
  | .lit c, as, _ =>
    simp only [Delimited, hb, Bool.not_true, Bool.false_or, Bool.and_eq_true,
      Bool.not_eq_true'] at hd
    exact ⟨c, sprintf f as, sprintf_lit c f as, hd.1⟩
  | .d, .int y :: as, _ =>
    obtain ⟨c, cs, hc, h_space⟩ := decInt_head y.toInt
    exact ⟨c, cs ++ sprintf f as, by rw [sprintf_d, hc, List.cons_append], h_space⟩
  | .s, .str w :: as, hm =>
    obtain ⟨c, cs, hc, h_space⟩ := hm.1.head
    exact ⟨c, cs ++ sprintf f as, by rw [sprintf_s, hc, List.cons_append], h_space⟩

/-- **Round trip.** Scanning a delimited format over the text it printed assigns the arguments,
whatever follows the text; the directives `g` behind it then see the rest without its leading
white space, which the last directive of the format has taken. -/
theorem sscanf_sprintf {f : Format} (g : Format) {as : List Val} (hd : Delimited f = true)
    (hm : Matches f as) (k : ℕ) (rest : List Byte) :
    sscanf (f ++ g) k (sprintf f as ++ rest)
      = as ++ sscanf g (k + (sprintf f as).length + (rest.takeWhile isSpace).length)
          (rest.dropWhile isSpace) := by
  induction f generalizing as k with
  | nil => exact absurd hd (by simp [Delimited])
  | cons x f ih =>
    match x, f, as, hm with
    | .lit b, [], [], _ =>
      -- the last directive: white space, which runs on into `rest`
      have hb : isSpace b = true := hd
      rw [List.cons_append, List.nil_append, sscanf_space hb, sprintf_lit, sprintf_nil,
        List.cons_append, List.nil_append, List.takeWhile_cons_of_pos hb,
        List.dropWhile_cons_of_pos hb, List.length_cons, List.length_singleton, List.nil_append]
      congr 1
      omega
    | .lit b, y :: f, as, hm =>
      have hd' : Delimited (y :: f) = true := by
        cases y <;> simp only [Delimited, Bool.and_eq_true] at hd
        · exact hd.2
        all_goals exact hd
      have h_ih := ih hd' hm
      by_cases hb : isSpace b = true
      · -- a white-space literal takes one blank, as none follows it
        obtain ⟨c, cs, hc, h_space⟩ := sprintf_head hb hd hm
        have h_neg : ¬ isSpace c = true := by rw [h_space]; decide
        have h_stop : (sprintf (y :: f) as ++ rest).takeWhile isSpace = [] := by
          rw [hc, List.cons_append, List.takeWhile_cons_of_neg h_neg]
        have h_keep : (sprintf (y :: f) as ++ rest).dropWhile isSpace
            = sprintf (y :: f) as ++ rest := by
          rw [hc, List.cons_append, List.dropWhile_cons_of_neg h_neg]
        rw [sprintf_lit]
        change sscanf (.lit b :: (y :: f ++ g)) k (b :: (sprintf (y :: f) as ++ rest)) = _
        rw [sscanf_space hb, List.takeWhile_cons_of_pos hb, List.dropWhile_cons_of_pos hb, h_stop,
          h_keep, h_ih, List.length_singleton, List.length_cons]
        congr 2
        omega
      · have hb' : isSpace b = false := by simpa using hb
        rw [sprintf_lit]
        change sscanf (.lit b :: (y :: f ++ g)) k (b :: (sprintf (y :: f) as ++ rest)) = _
        rw [sscanf_lit hb', h_ih, List.length_cons]
        congr 2
        omega
    | .d, .lit c :: f, .int y :: as, hm =>
      -- the literal behind a number is no digit, so the numeral ends where it was printed
      simp only [Delimited, Bool.and_eq_true, Bool.not_eq_true'] at hd
      have h_stop : (sprintf (.lit c :: f) as ++ rest).takeWhile isDigit = [] := by
        rw [sprintf_lit, List.cons_append, List.takeWhile_cons_of_neg (by rw [hd.1]; decide)]
      rw [sprintf_d, List.cons_append, List.append_assoc, sscanf_d h_stop, storeInt_toInt,
        ih hd.2 hm, List.cons_append, List.length_append]
      congr 3
      omega
    | .s, .lit c :: f, .str w :: as, hm =>
      -- the literal behind a word is white space
      simp only [Delimited, Bool.and_eq_true] at hd
      have h_stop : (sprintf (.lit c :: f) as ++ rest).takeWhile inWord = [] := by
        rw [sprintf_lit, List.cons_append, List.takeWhile_cons_of_neg (by simp [inWord, hd.1])]
      rw [sprintf_s, List.cons_append, List.append_assoc, sscanf_s hm.1 h_stop, ih hd.2 hm.2,
        List.cons_append, List.length_append]
      congr 3
      omega

/-- A delimited format on its own reads back its arguments. -/
theorem sscanf_sprintf_self {f : Format} {as : List Val} (hd : Delimited f = true)
    (hm : Matches f as) (k : ℕ) (rest : List Byte) :
    sscanf f k (sprintf f as ++ rest) = as := by
  have h := sscanf_sprintf [] hd hm k rest
  rwa [List.append_nil, sscanf, List.append_nil] at h

/-! ### Conversions alone

What a text takes in length, and what kinds of arguments a format asks for, depends on its
conversions; the literals only add their number. -/

def Dir.isLit : Dir → Bool
  | .lit _ => true
  | _ => false

/-- The conversions of a format, in order. -/
def conversions (f : Format) : Format := f.filter fun x => !x.isLit

@[simp] theorem conversions_lit (b : Byte) (f : Format) :
    conversions (.lit b :: f) = conversions f := rfl

@[simp] theorem conversions_d (f : Format) : conversions (.d :: f) = .d :: conversions f := rfl

@[simp] theorem conversions_s (f : Format) : conversions (.s :: f) = .s :: conversions f := rfl

theorem matches_conversions {f : Format} {as : List Val} (h : Matches (conversions f) as) :
    Matches f as := by
  induction f generalizing as with
  | nil => exact h
  | cons x f ih =>
    match x, as, h with
    | .lit _, as, h => exact ih h
    | .d, .int _ :: as, h =>
      have h_rest : Matches (conversions f) as := h
      exact ih h_rest
    | .s, .str _ :: as, h => exact ⟨h.1, ih h.2⟩

/-- A text is as long as its conversions print, and one more for each literal. -/
theorem length_sprintf {f : Format} {as : List Val} (h : Matches f as) :
    (sprintf f as).length = f.countP Dir.isLit + (sprintf (conversions f) as).length := by
  induction f generalizing as with
  | nil => rw [sprintf_nil, List.countP_nil, Nat.zero_add]; rfl
  | cons x f ih =>
    match x, as, h with
    | .lit b, as, h =>
      have h_rest : Matches f as := h
      have h_ih := ih h_rest
      rw [sprintf_lit, List.length_cons, h_ih, List.countP_cons_of_pos rfl, conversions_lit]
      omega
    | .d, .int y :: as, h =>
      have h_rest : Matches f as := h
      have h_ih := ih h_rest
      rw [sprintf_d, List.length_append, h_ih, List.countP_cons_of_neg (by decide),
        conversions_d, sprintf_d, List.length_append]
      omega
    | .s, .str w :: as, h =>
      have h_ih := ih h.2
      rw [sprintf_s, List.length_append, h_ih, List.countP_cons_of_neg (by decide),
        conversions_s, sprintf_s, List.length_append]
      omega

end Stdio
