import Mathlib.Algebra.Order.Ring.Int
import Mathlib.Data.Int.DivMod
import Mathlib.Data.List.Basic
import Mathlib.Tactic.Common

/-!
# Strings and numbers of the C library

A NUL-terminated string is the list of its bytes before the NUL. `strchr`, `strtol` and
`strtoul` follow the C standard, in the C locale, in base 10 and with a `long` of 64 bits. The
two conversions give their value and whether they set `errno` to `ERANGE`; where the input has
no digits they give zero and leave `errno` alone.
-/

namespace Libc

/-- The bytes of a NUL-terminated string, without the NUL. -/
abbrev Text := List UInt8

/-- The string from its first `ch` on, if it has one. -/
def strchr : Text → UInt8 → Option Text
  | [], _ => none
  | b :: bs, ch => if b = ch then some (b :: bs) else strchr bs ch

def isspace (ch : UInt8) : Bool := ch == 32 || (9 ≤ ch && ch ≤ 13)
def isdigit (ch : UInt8) : Bool := 48 ≤ ch && ch ≤ 57

/-- The number that a string of digits stands for. -/
def ofDigits (digits : Text) : Nat := digits.foldl (fun n ch => 10 * n + (ch.toNat - 48)) 0

/-- Whether there is a minus sign after the white space, and the digits after the sign. -/
def subject (s : Text) : Bool × Text :=
  match s.dropWhile isspace with
  | [] => (false, [])
  | ch :: rest =>
      if ch = 45 then (true, rest.takeWhile isdigit)
      else if ch = 43 then (false, rest.takeWhile isdigit)
      else (false, (ch :: rest).takeWhile isdigit)

/-- `strtol(s, NULL, 10)` and whether it sets `errno` to `ERANGE` -/
def strtol (s : Text) : Int × Bool :=
  let (neg, digits) := subject s
  let n : Int := if neg then -ofDigits digits else ofDigits digits
  if n < -2 ^ 63 then (-2 ^ 63, true)
  else if 2 ^ 63 - 1 < n then (2 ^ 63 - 1, true)
  else (n, false)

/-- `strtoul(s, NULL, 10)` and whether it sets `errno` to `ERANGE` -/
def strtoul (s : Text) : Int × Bool :=
  let (neg, digits) := subject s
  let n : Int := ofDigits digits
  if 2 ^ 64 - 1 < n then (2 ^ 64 - 1, true)
  else ((if neg then -n else n) % 2 ^ 64, false)

theorem strchr_eq_some {s rest : Text} {ch : UInt8} (h : strchr s ch = some rest) :
    s = s.takeWhile (· != ch) ++ rest ∧ rest.head? = some ch := by
  induction s with
  | nil => cases h
  | cons b bs ih =>
    rw [strchr] at h
    split at h
    · rename_i hb
      cases h
      subst hb
      simp
    · rename_i hb
      obtain ⟨hbs, hrest⟩ := ih h
      refine ⟨?_, hrest⟩
      rw [List.takeWhile_cons_of_pos (by simpa using hb), List.cons_append, ← hbs]

/-- `strncpy` up to the character found. -/
theorem take_of_strchr {s rest : Text} {ch : UInt8} (h : strchr s ch = some rest) :
    s.take (s.length - rest.length) = s.takeWhile (· != ch) := by
  obtain ⟨hs, -⟩ := strchr_eq_some h
  have hlen := congrArg List.length hs
  rw [List.length_append] at hlen
  have hlen : s.length - rest.length = (s.takeWhile (· != ch)).length := by omega
  rw [hlen]
  exact (List.prefix_iff_eq_take.mp (List.takeWhile_prefix _)).symm

theorem strchr_eq_none {s : Text} {ch : UInt8} (h : strchr s ch = none) :
    s.takeWhile (· != ch) = s := by
  induction s with
  | nil => rfl
  | cons b bs ih =>
    rw [strchr] at h
    split at h
    · cases h
    · rename_i hb
      rw [List.takeWhile_cons_of_pos (by simpa using hb), ih h]

end Libc
