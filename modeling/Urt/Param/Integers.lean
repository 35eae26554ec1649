import Urt.Lib.Decimal
import Urt.Param.Reading

/-!
# Integer parameters

The seven conversions that `TO_X` of `src/param.c` defines. Each calls `strtol` or `strtoul`,
looks at `errno`, and compares the value with its cast to the type of the variable; nobody looks
at where the C library stopped reading.

`readInt_eq` says what they read: an error if the number after white space and a sign is too large
for the type, and otherwise what the C library makes of it. `readsNumber_iff` compares this with
the numbers in strict form.
-/

namespace Urt

open Libc

/-! ## The types -/

/-- The types that `TO_X` is used for. -/
inductive IntType where
  | byte
  | short
  | ushort
  | int
  | uint
  | long
  | ulong
  deriving DecidableEq, Repr

namespace IntType

def type : IntType → ParamType
  | byte => .byte
  | short => .short
  | ushort => .ushort
  | int => .int
  | uint => .uint
  | long => .long
  | ulong => .ulong

def signed : IntType → Bool
  | short | int | long => true
  | byte | ushort | uint | ulong => false

/-- The size of the type, in bits. -/
def width : IntType → Nat
  | byte => 8
  | short | ushort => 16
  | int | uint => 32
  | long | ulong => 64

/-- The cast to the type. -/
def cast (t : IntType) (n : Int) : Int :=
  if t.signed then castSigned t.width n else castUnsigned t.width n

/-- The function of the C library. -/
def cnv (t : IntType) (value : Text) : Int × Bool :=
  if t.signed then strtol value else strtoul value

/-- The first number above those of the type. -/
def limit (t : IntType) : Nat := if t.signed then 2 ^ (t.width - 1) else 2 ^ t.width

/-- The least number of the type. -/
def least (t : IntType) : Int := if t.signed then -t.limit else 0

/-- The number is one of the type. -/
def InRange (t : IntType) (n : Int) : Prop := t.least ≤ n ∧ n < t.limit

instance (t : IntType) (n : Int) : Decidable (t.InRange n) :=
  inferInstanceAs (Decidable (_ ∧ _))

/-- The conversion that `TO_X` defines for the type. -/
def convert : IntType → Converter
  | byte => toByte
  | short => toShort
  | ushort => toUshort
  | int => toInt
  | uint => toUint
  | long => toLong
  | ulong => toUlong

theorem converter_eq (t : IntType) : t.type.converter = some t.convert := by
  cases t <;> rfl

theorem converter_ne_none (t : IntType) : t.type.converter ≠ none := by
  rw [converter_eq]
  exact Option.some_ne_none _

theorem attempt_eq (t : IntType) (isArray malloc : Bool) (value : Text) :
    t.type.attempt isArray malloc value = readInt t.cast t.cnv value := by
  cases t <;> rfl

theorem width_pos (t : IntType) : 0 < t.width := by
  cases t <;> decide

theorem castUnsigned_eq_iff (w : Nat) (n : Int) :
    castUnsigned w n = n ↔ 0 ≤ n ∧ n < (2 ^ w : Nat) := by
  have hpos : (0 : Int) < 2 ^ w := Int.pow_pos (by decide)
  rw [Int.natCast_pow]
  constructor
  · intro h
    rw [← h]
    exact ⟨Int.emod_nonneg n (Int.ne_of_gt hpos), Int.emod_lt_of_pos n hpos⟩
  · intro h
    exact Int.emod_eq_of_lt h.1 h.2

theorem castSigned_eq_iff (w : Nat) (n : Int) :
    castSigned (w + 1) n = n ↔ -(2 ^ w : Nat) ≤ n ∧ n < (2 ^ w : Nat) := by
  have hdouble : 2 ^ (w + 1) = 2 * 2 ^ w := Nat.pow_succ'
  have hpos : 0 < 2 * 2 ^ w := Nat.mul_pos Nat.two_pos (Nat.two_pow_pos w)
  rw [castSigned, hdouble]
  generalize 2 ^ w = b at *
  constructor
  · intro h
    rw [← h]
    have hlow := Int.le_bmod (x := n) hpos
    have hhigh := Int.bmod_lt (x := n) hpos
    constructor <;> omega
  · intro h
    apply Int.bmod_eq_of_le <;> omega

/-- A number is its own cast if it is one of the type. -/
theorem cast_eq_iff (t : IntType) (n : Int) : t.cast n = n ↔ t.InRange n := by
  unfold cast InRange least limit
  by_cases hsigned : t.signed = true
  · obtain ⟨w, hw⟩ : ∃ w, t.width = w + 1 := ⟨t.width - 1, (Nat.sub_add_cancel t.width_pos).symm⟩
    rw [if_pos hsigned, if_pos hsigned, if_pos hsigned, hw]
    exact castSigned_eq_iff w n
  · rw [if_neg hsigned, if_neg hsigned, if_neg hsigned]
    exact castUnsigned_eq_iff t.width n

/-! ## What is read -/

/-- The number after the white space and the sign is too large for the type. With a minus sign,
the numbers of an unsigned type are 0 and the last ones below `2 ^ 64`. -/
def TooLarge (t : IntType) (value : Text) : Prop :=
  let n := ofDigits (subject value).2
  if (subject value).1 then
    if t.signed then t.limit < n else n ≠ 0 ∧ (n + t.limit ≤ 2 ^ 64 ∨ 2 ^ 64 ≤ n)
  else t.limit ≤ n

instance (t : IntType) (value : Text) : Decidable (t.TooLarge value) :=
  @instDecidableIte _ _ _ inferInstance instDecidableIte inferInstance

/-- The number that the C library makes of a text. -/
def numberOf (t : IntType) (value : Text) : Int :=
  let n : Int := ofDigits (subject value).2
  let n := if (subject value).1 then -n else n
  if t.signed then n else n % 2 ^ 64

/-- The number does not fit in a `long` or an `unsigned long`. -/
def Overflows (t : IntType) (value : Text) : Prop :=
  if t.signed then t.numberOf value < -2 ^ 63 ∨ 2 ^ 63 ≤ t.numberOf value
  else 2 ^ 64 ≤ ofDigits (subject value).2

theorem cnv_cases (t : IntType) (value : Text) :
    t.cnv value = (t.numberOf value, false) ∧ ¬ t.Overflows value ∨
      (t.cnv value).2 = true ∧ t.Overflows value := by
  unfold cnv Overflows numberOf
  dsimp only
  by_cases hsigned : t.signed = true
  · simp only [if_pos hsigned, strtol]
    generalize (if (subject value).1 = true then -(ofDigits (subject value).2 : Int)
      else ofDigits (subject value).2) = n
    by_cases hlow : n < -2 ^ 63
    · rw [if_pos hlow]
      exact .inr ⟨rfl, .inl hlow⟩
    · by_cases hhigh : 2 ^ 63 - 1 < n
      · rw [if_neg hlow, if_pos hhigh]
        exact .inr ⟨rfl, .inr (by omega)⟩
      · rw [if_neg hlow, if_neg hhigh]
        exact .inl ⟨rfl, by omega⟩
  · simp only [if_neg hsigned, strtoul]
    by_cases hhigh : (2 ^ 64 - 1 : Int) < ofDigits (subject value).2
    · rw [if_pos hhigh]
      exact .inr ⟨rfl, by omega⟩
    · rw [if_neg hhigh]
      exact .inl ⟨rfl, by omega⟩

theorem limit_le (t : IntType) :
    0 < t.limit ∧ t.limit ≤ if t.signed then 2 ^ 63 else 2 ^ 64 := by
  cases t <;> decide

/-- The number is too large for the type if it is for the C library or for the cast. -/
theorem tooLarge_iff (t : IntType) (value : Text) :
    t.TooLarge value ↔ t.Overflows value ∨ ¬ t.InRange (t.numberOf value) := by
  have hlimit := t.limit_le
  unfold TooLarge Overflows InRange numberOf least
  dsimp only
  generalize ofDigits (subject value).2 = n
  by_cases hsigned : t.signed = true
  · simp only [if_pos hsigned] at hlimit ⊢
    split <;> omega
  · simp only [if_neg hsigned] at hlimit ⊢
    split <;> omega

/-- What the conversions read. -/
theorem readInt_eq (t : IntType) {value : Text} (h : value ≠ []) :
    readInt t.cast t.cnv value =
      if t.TooLarge value then .error .erange else .ok (.int (t.numberOf value)) := by
  rw [readInt, if_neg h]
  simp only [ne_eq, cast_eq_iff]
  obtain ⟨hcnv, hfits⟩ | ⟨hcnv, hover⟩ := t.cnv_cases value
  · rw [hcnv, if_neg Bool.false_ne_true]
    by_cases hrange : t.InRange (t.numberOf value)
    · rw [if_neg (not_not_intro hrange), if_neg]
      rw [tooLarge_iff]
      exact fun hor => hor.elim hfits (fun hnot => hnot hrange)
    · rw [if_pos hrange, if_pos ((t.tooLarge_iff value).mpr (.inr hrange))]
  · rw [hcnv, if_pos rfl, if_pos ((t.tooLarge_iff value).mpr (.inl hover))]

/-! ## Numbers in strict form -/

/-- The text of an element: for an array, what comes before the next comma. -/
def elementText (isArray : Bool) (value : Text) : Text :=
  if isArray then value.takeWhile (· != 44) else value

theorem eq_elementText_append (isArray : Bool) (value : Text) :
    ∃ rest, value = elementText isArray value ++ rest ∧ NoDigit rest := by
  unfold elementText
  cases isArray with
  | false =>
    refine ⟨[], (List.append_nil _).symm, ?_⟩
    intro ch hch
    cases hch
  | true =>
    refine ⟨value.dropWhile (· != 44), List.takeWhile_append_dropWhile.symm, ?_⟩
    intro ch hch
    have hcomma := List.head?_dropWhile_not (· != 44) value
    rw [hch] at hcomma
    obtain rfl : ch = 44 := by simpa using hcomma
    rfl

/-- A number of the type is printed in strict form. -/
theorem InRange.isNumber {t : IntType} {n : Int} (h : t.InRange n) :
    IsNumber t.signed (intText n) n := by
  apply isNumber_intText
  by_cases hsigned : t.signed = true
  · exact .inl hsigned
  · have hleast := h.1
    rw [least, if_neg hsigned] at hleast
    exact .inr hleast

/-- A number in strict form is read as what it is. -/
theorem subject_of_isNumber {isArray signed : Bool} {value : Text} {n : Int}
    (h : IsNumber signed (elementText isArray value) n) :
    ((subject value).1 = true → signed = true) ∧
      n = if (subject value).1 then -(ofDigits (subject value).2 : Int)
        else ofDigits (subject value).2 := by
  obtain ⟨rest, hvalue, hrest⟩ := eq_elementText_append isArray value
  obtain ⟨digits, hdigits, ⟨htext, hn⟩ | ⟨hsigned, htext, hn⟩⟩ := h
  · rw [htext] at hvalue
    rw [hvalue, subject_of_digits hdigits hrest, hn]
    exact ⟨fun hneg => (by cases hneg), rfl⟩
  · rw [htext] at hvalue
    rw [hvalue, subject_of_minus hdigits hrest, hn]
    exact ⟨fun _ => hsigned, rfl⟩

/-- It is too large exactly if it is not in the range of the type. -/
theorem tooLarge_of_isNumber {t : IntType} {isArray : Bool} {value : Text} {n : Int}
    (h : IsNumber t.signed (elementText isArray value) n) :
    (t.TooLarge value ↔ ¬ t.InRange n) ∧ (t.InRange n → t.numberOf value = n) := by
  obtain ⟨hneg, hn⟩ := subject_of_isNumber h
  have hlimit := t.limit_le
  unfold TooLarge InRange numberOf least
  dsimp only
  by_cases hsigned : t.signed = true
  · simp only [if_pos hsigned] at hlimit ⊢
    rw [← hn]
    refine ⟨?_, fun _ => rfl⟩
    by_cases hminus : (subject value).1 = true
    · rw [if_pos hminus] at hn ⊢
      omega
    · rw [if_neg hminus] at hn ⊢
      omega
  · have hpos : ¬ (subject value).1 = true := fun hminus => hsigned (hneg hminus)
    simp only [if_neg hsigned, if_neg hpos] at hlimit hn ⊢
    omega

/-- What the conversion of an element is to do: store the number that its text is, and reject any
other text and any number that is not of the type. -/
structure ReadsNumber (t : IntType) (p : ModuleParam) (value : Text) (index : Nat)
    (r : Converted) : Prop where
  number : ∀ n, IsNumber t.signed (elementText p.isArray value) n → t.InRange n →
    r.err = none ∧ r.param = p.store index (.int n)
  other : (∀ n, IsNumber t.signed (elementText p.isArray value) n → ¬ t.InRange n) →
    (r.err = some .einval ∨ r.err = some .erange) ∧ r.param = p

theorem convert_eq (t : IntType) (malloc : Bool) (blocks : Nat) (p : ModuleParam) (value : Text)
    (index : Nat) :
    t.convert malloc blocks p value index =
      if value = [] then { err := some .einval, param := p, blocks := blocks }
      else if t.TooLarge value then { err := some .erange, param := p, blocks := blocks }
      else { err := none, param := p.store index (.int (t.numberOf value)), blocks := blocks } := by
  have hblocks : t.type.blocks = 0 := by cases t <;> rfl
  rw [converter_converts t.converter_eq, attempt_eq, hblocks]
  by_cases hvalue : value = []
  · rw [if_pos hvalue, readInt, if_pos hvalue]
  · rw [if_neg hvalue, readInt_eq t hvalue]
    by_cases hlarge : t.TooLarge value
    · rw [if_pos hlarge, if_pos hlarge]
    · rw [if_neg hlarge, if_neg hlarge]
      rfl

/-- **When the integers are read strictly**: a text that is not a number is rejected exactly if it
is empty or begins with a number that is too large. -/
theorem readsNumber_iff (t : IntType) (malloc : Bool) (blocks : Nat) (p : ModuleParam)
    (value : Text) (index : Nat) :
    t.ReadsNumber p value index (t.convert malloc blocks p value index) ↔
      (∃ n, IsNumber t.signed (elementText p.isArray value) n) ∨ value = [] ∨ t.TooLarge value := by
  rw [convert_eq]
  constructor
  · intro h
    by_contra hnot
    rw [not_or, not_or, not_exists] at hnot
    obtain ⟨hnumber, hvalue, hlarge⟩ := hnot
    have hother := (h.other fun n hn => absurd hn (hnumber n)).1
    rw [if_neg hvalue, if_neg hlarge] at hother
    obtain h | h := hother <;> cases h
  · intro h
    have hempty : value = [] → ∀ n, ¬ IsNumber t.signed (elementText p.isArray value) n := by
      intro hvalue n hn
      obtain ⟨rest, htext, -⟩ := eq_elementText_append p.isArray value
      rw [hvalue] at hn htext
      exact hn.ne_nil (List.append_eq_nil_iff.mp htext.symm).1
    refine ⟨fun n hn hrange => ?_, fun hnone => ?_⟩
    · obtain ⟨hlarge, hnumber⟩ := tooLarge_of_isNumber hn
      rw [if_neg (fun hvalue => hempty hvalue n hn), if_neg (fun hnot => hlarge.mp hnot hrange),
        hnumber hrange]
      exact ⟨rfl, rfl⟩
    · by_cases hvalue : value = []
      · rw [if_pos hvalue]
        exact ⟨.inl rfl, rfl⟩
      · have hlarge : t.TooLarge value := by
          obtain ⟨n, hn⟩ | hnil | hlarge := h
          · exact (tooLarge_of_isNumber hn).1.mpr (hnone n hn)
          · exact absurd hnil hvalue
          · exact hlarge
        rw [if_neg hvalue, if_pos hlarge]
        exact ⟨.inr rfl, rfl⟩

/-- `test_arg`, of type `int` -/
def intParam : ModuleParam :=
  .common [116, 101, 115, 116, 95, 97, 114, 103] .int 1 (fun _ => .int 0) none false

/-- An `int` reads `12abc` as 12. -/
theorem not_readsNumber :
    ¬ ∀ (t : IntType) (malloc : Bool) (blocks : Nat) (p : ModuleParam) (value : Text)
      (index : Nat), t.ReadsNumber p value index (t.convert malloc blocks p value index) := by
  intro h
  have hother := (h .int true 0 intParam [49, 50, 97, 98, 99] 0).other ?_
  · have herr : (toInt true 0 intParam [49, 50, 97, 98, 99] 0).err = none := by decide
    obtain h | h := hother.1 <;> exact absurd (herr.symm.trans h) (by decide)
  · intro n hn
    have hdigit := hn.isdigit_of_mem_tail (show (97 : UInt8) ∈ _ by decide)
    cases hdigit

end IntType

end Urt
