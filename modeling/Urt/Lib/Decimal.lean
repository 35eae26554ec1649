import Urt.Lib.Strtol

/-!
# Decimal numbers

`IsNumber` is the strict form of a decimal number: an optional minus sign and digits, and nothing
else. `natText` and `intText` print numbers in that form (`isNumber_intText`), and the
conversions of the C library read what is in that form, also where more follows that is no digit
(`subject_of_digits`, `subject_of_minus`).
-/

namespace Libc

/-- The string consists of digits, at least one. -/
def IsDigits (s : Text) : Prop := s ≠ [] ∧ ∀ ch ∈ s, isdigit ch = true

/-- The string is a decimal number `n`, with a minus sign only if `signed`. -/
def IsNumber (signed : Bool) (s : Text) (n : Int) : Prop :=
  ∃ digits, IsDigits digits ∧ (s = digits ∧ n = ofDigits digits ∨
    signed = true ∧ s = 45 :: digits ∧ n = -ofDigits digits)

theorem IsNumber.ne_nil {signed : Bool} {s : Text} {n : Int} (h : IsNumber signed s n) :
    s ≠ [] := by
  obtain ⟨digits, hdigits, ⟨hs, -⟩ | ⟨-, hs, -⟩⟩ := h
  · rw [hs]
    exact hdigits.1
  · rw [hs]
    exact List.cons_ne_nil _ _

/-- All that follows the first character is digits. -/
theorem IsNumber.isdigit_of_mem_tail {signed : Bool} {s : Text} {n : Int}
    (h : IsNumber signed s n) {ch : UInt8} (hch : ch ∈ s.tail) : isdigit ch = true := by
  obtain ⟨digits, hdigits, ⟨hs, -⟩ | ⟨-, hs, -⟩⟩ := h
  · rw [hs] at hch
    exact hdigits.2 ch (List.mem_of_mem_tail hch)
  · rw [hs] at hch
    exact hdigits.2 ch hch

/-- `%lu` -/
def natText (n : Nat) : Text := (Nat.toDigits 10 n).map fun ch => .ofNat ch.toNat

/-- `%ld` -/
def intText (n : Int) : Text := if n < 0 then 45 :: natText n.natAbs else natText n.natAbs

/-! ## Printing -/

theorem isdigit_digitChar {d : Nat} (hd : d < 10) :
    isdigit (.ofNat (Nat.digitChar d).toNat) = true ∧
      (UInt8.ofNat (Nat.digitChar d).toNat).toNat - 48 = d := by
  have hall : ∀ d : Fin 10, isdigit (.ofNat (Nat.digitChar d).toNat) = true ∧
      (UInt8.ofNat (Nat.digitChar d).toNat).toNat - 48 = d := by decide
  exact hall ⟨d, hd⟩

theorem natText_of_lt {n : Nat} (h : n < 10) :
    natText n = [.ofNat (Nat.digitChar n).toNat] := by
  rw [natText, Nat.toDigits_of_lt_base h, List.map_singleton]

/-- The last digit is the remainder. -/
theorem natText_of_ge {n : Nat} (h : 10 ≤ n) :
    natText n = natText (n / 10) ++ [.ofNat (Nat.digitChar (n % 10)).toNat] := by
  have hsplit := Nat.toDigits_append_toDigits (b := 10) (n := n / 10) (d := n % 10) (by omega)
    (by omega) (by omega)
  rw [Nat.toDigits_of_lt_base (Nat.mod_lt n (by omega)), Nat.div_add_mod] at hsplit
  rw [natText, ← hsplit, List.map_append, List.map_singleton, natText]

theorem isDigits_natText (n : Nat) : IsDigits (natText n) := by
  induction n using Nat.strongRecOn with
  | ind n ih =>
    by_cases hn : n < 10
    · rw [natText_of_lt hn]
      refine ⟨List.cons_ne_nil _ _, ?_⟩
      intro ch hch
      rw [List.mem_singleton.mp hch]
      exact (isdigit_digitChar hn).1
    · rw [natText_of_ge (by omega)]
      refine ⟨List.append_ne_nil_of_right_ne_nil _ (List.cons_ne_nil _ _), ?_⟩
      intro ch hch
      obtain hch | hch := List.mem_append.mp hch
      · exact (ih (n / 10) (by omega)).2 ch hch
      · rw [List.mem_singleton.mp hch]
        exact (isdigit_digitChar (Nat.mod_lt n (by omega))).1

theorem ofDigits_natText (n : Nat) : ofDigits (natText n) = n := by
  induction n using Nat.strongRecOn with
  | ind n ih =>
    by_cases hn : n < 10
    · rw [natText_of_lt hn]
      exact (Nat.zero_add _).trans (isdigit_digitChar hn).2
    · have hlast := (isdigit_digitChar (Nat.mod_lt n (show 0 < 10 by omega))).2
      rw [natText_of_ge (by omega), ofDigits, List.foldl_append]
      change 10 * ofDigits (natText (n / 10)) + _ = n
      rw [ih (n / 10) (by omega)]
      rw [hlast, Nat.div_add_mod]

/-- A number is printed as itself. -/
theorem isNumber_intText {signed : Bool} {n : Int} (h : signed = true ∨ 0 ≤ n) :
    IsNumber signed (intText n) n := by
  refine ⟨natText n.natAbs, isDigits_natText _, ?_⟩
  rw [intText, ofDigits_natText]
  by_cases hneg : n < 0
  · rw [if_pos hneg]
    exact .inr ⟨h.resolve_right (by omega), rfl, by omega⟩
  · rw [if_neg hneg]
    exact .inl ⟨rfl, by omega⟩

/-! ## Reading -/

theorem isdigit_ne {ch : UInt8} (h : isdigit ch = true) :
    isspace ch = false ∧ ch ≠ 45 ∧ ch ≠ 43 ∧ ch ≠ 44 ∧ ch ≠ 34 := by
  unfold isdigit at h
  rw [Bool.and_eq_true, decide_eq_true_eq, decide_eq_true_eq, UInt8.le_iff_toNat_le,
    UInt8.le_iff_toNat_le] at h
  have hlow : 48 ≤ ch.toNat := h.1
  have hne : ∀ b : UInt8, b.toNat < 48 → ch ≠ b := by
    intro b hb he
    rw [he] at hlow
    omega
  refine ⟨?_, hne 45 (by decide), hne 43 (by decide), hne 44 (by decide), hne 34 (by decide)⟩
  unfold isspace
  rw [beq_false_of_ne (hne 32 (by decide)), Bool.false_or, Bool.and_eq_false_iff]
  right
  rw [decide_eq_false_iff_not, UInt8.le_iff_toNat_le]
  intro hle
  have hle : ch.toNat ≤ 13 := hle
  omega

/-- There is neither a comma nor a quote in a number. -/
theorem IsNumber.ne_of_mem {signed : Bool} {s : Text} {n : Int} (h : IsNumber signed s n)
    {ch : UInt8} (hch : ch ∈ s) : ch ≠ 44 ∧ ch ≠ 34 := by
  obtain ⟨digits, hdigits, ⟨hs, -⟩ | ⟨-, hs, -⟩⟩ := h
  · rw [hs] at hch
    exact (isdigit_ne (hdigits.2 ch hch)).2.2.2
  · rw [hs] at hch
    obtain rfl | hch := List.mem_cons.mp hch
    · decide
    · exact (isdigit_ne (hdigits.2 ch hch)).2.2.2

/-- The string does not begin with a digit. -/
def NoDigit (s : Text) : Prop := ∀ ch, s.head? = some ch → isdigit ch = false

theorem takeWhile_digits {digits rest : Text} (h : ∀ ch ∈ digits, isdigit ch = true)
    (hrest : NoDigit rest) : (digits ++ rest).takeWhile isdigit = digits := by
  rw [List.takeWhile_append_of_pos h]
  cases rest with
  | nil => rw [List.takeWhile_nil, List.append_nil]
  | cons ch rest =>
    have hch : ¬ isdigit ch = true := by
      rw [hrest ch rfl]
      exact Bool.false_ne_true
    rw [List.takeWhile_cons_of_neg hch, List.append_nil]

theorem subject_of_digits {digits rest : Text} (h : IsDigits digits) (hrest : NoDigit rest) :
    subject (digits ++ rest) = (false, digits) := by
  have htake := takeWhile_digits h.2 hrest
  obtain ⟨hne, hall⟩ := h
  cases digits with
  | nil => exact absurd rfl hne
  | cons ch digits =>
    obtain ⟨hspace, hminus, hplus, -⟩ := isdigit_ne (hall ch List.mem_cons_self)
    rw [List.cons_append] at htake ⊢
    rw [subject, List.dropWhile_cons_of_neg (by rw [hspace]; exact Bool.false_ne_true)]
    dsimp only
    rw [if_neg hminus, if_neg hplus, htake]

theorem subject_of_minus {digits rest : Text} (h : IsDigits digits) (hrest : NoDigit rest) :
    subject (45 :: digits ++ rest) = (true, digits) := by
  rw [List.cons_append, subject, List.dropWhile_cons_of_neg (by decide)]
  dsimp only
  rw [if_pos rfl, takeWhile_digits h.2 hrest]

end Libc
