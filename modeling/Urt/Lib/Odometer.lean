import Mathlib.Algebra.Order.Group.Nat
import Mathlib.Tactic.Common

/-!
# Odometers

A counter of `n` digits in base `b`, least significant digit first. `incr` adds one in place,
carrying from digit to digit, and tells whether the carry fell off the end; `digits b n k` are
the digits of `k`. Incrementing the digits of `k` gives the digits of `k + 1`
(`incr_digits`), and a number below `b ^ n` is known by its digits (`digits_injective`).
-/

namespace Odometer

variable {b : Nat}

/-- Add one; `true` if the counter wraps round. -/
def incr (b : Nat) : List Nat → List Nat × Bool
  | [] => ([], true)
  | d :: ds =>
      if d + 1 < b then ((d + 1) :: ds, false)
      else (0 :: (incr b ds).1, (incr b ds).2)

/-- The `n` lowest digits of a number. -/
def digits (b : Nat) : Nat → Nat → List Nat
  | 0, _ => []
  | n + 1, k => k % b :: digits b n (k / b)

@[simp] theorem digits_length (n k : Nat) : (digits b n k).length = n := by
  induction n generalizing k with
  | zero => rfl
  | succ n ih => rw [digits, List.length_cons, ih]

theorem digits_lt (hb : 0 < b) {n k d : Nat} (h : d ∈ digits b n k) : d < b := by
  induction n generalizing k with
  | zero => cases h
  | succ n ih =>
    rw [digits, List.mem_cons] at h
    rcases h with rfl | h
    · exact Nat.mod_lt _ hb
    · exact ih h

theorem dvd_pow_succ (b n : Nat) : b ∣ b ^ (n + 1) := ⟨b ^ n, by rw [Nat.pow_succ, Nat.mul_comm]⟩

/-- Only the remainder modulo `b ^ n` shows. -/
theorem digits_mod (n k : Nat) : digits b n (k % b ^ n) = digits b n k := by
  induction n generalizing k with
  | zero => rfl
  | succ n ih =>
    have hmod : k % b ^ (n + 1) % b = k % b :=
      Nat.mod_mod_of_dvd k (dvd_pow_succ b n)
    have hdiv : k % b ^ (n + 1) / b = k / b % b ^ n := by
      rw [Nat.pow_succ, Nat.mul_comm, Nat.mod_mul_right_div_self]
    rw [digits, digits, hmod, hdiv, ih]

theorem digits_injective {n j k : Nat} (hj : j < b ^ n) (hk : k < b ^ n)
    (h : digits b n j = digits b n k) : j = k := by
  induction n generalizing j k with
  | zero =>
    rw [Nat.pow_zero] at hj hk
    omega
  | succ n ih =>
    rw [digits, digits, List.cons.injEq] at h
    rw [Nat.pow_succ] at hj hk
    have hq : j / b = k / b :=
      ih (Nat.div_lt_of_lt_mul (by rwa [Nat.mul_comm]))
        (Nat.div_lt_of_lt_mul (by rwa [Nat.mul_comm])) h.2
    rw [← Nat.div_add_mod j b, ← Nat.div_add_mod k b, hq, h.1]

/-- The digit at place `i` is that of `b ^ i`. -/
theorem digits_getElem? {n i : Nat} (hi : i < n) (k : Nat) :
    (digits b n k)[i]? = some (k / b ^ i % b) := by
  induction n generalizing i k with
  | zero => omega
  | succ n ih =>
    rw [digits]
    cases i with
    | zero => rw [List.getElem?_cons_zero, Nat.pow_zero, Nat.div_one]
    | succ i =>
      rw [List.getElem?_cons_succ, ih (by omega), Nat.div_div_eq_div_mul, Nat.pow_succ,
        Nat.mul_comm b]

/-- Every list of digits is that of a number. -/
theorem digits_surjective {ds : List Nat} (h : ∀ d ∈ ds, d < b) :
    ∃ k < b ^ ds.length, digits b ds.length k = ds := by
  induction ds with
  | nil => exact ⟨0, by simp, rfl⟩
  | cons d ds ih =>
    obtain ⟨k, hk, hdigits⟩ := ih fun e he => h e (List.mem_cons_of_mem _ he)
    have hd := h d List.mem_cons_self
    have hb : 0 < b := by omega
    refine ⟨d + b * k, ?_, ?_⟩
    · rw [List.length_cons, Nat.pow_succ, Nat.mul_comm _ b]
      calc d + b * k < b + b * k := by omega
        _ = b * (k + 1) := by rw [Nat.mul_add, Nat.mul_one, Nat.add_comm]
        _ ≤ b * b ^ ds.length := Nat.mul_le_mul_left b hk
    · have hmod : (d + b * k) % b = d := by rw [Nat.add_mul_mod_self_left, Nat.mod_eq_of_lt hd]
      have hdiv : (d + b * k) / b = k := by
        rw [Nat.add_mul_div_left _ _ hb, Nat.div_eq_of_lt hd, Nat.zero_add]
      rw [List.length_cons, digits, hmod, hdiv, hdigits]

/-- Incrementing the digits of a number gives the digits of the next one, and the counter wraps
round exactly at the last number. -/
theorem incr_digits (hb : 0 < b) (n k : Nat) :
    incr b (digits b n k) = (digits b n (k + 1), decide (b ^ n ∣ k + 1)) := by
  induction n generalizing k with
  | zero => simp [digits, incr]
  | succ n ih =>
    have hk := Nat.div_add_mod k b
    have hr := Nat.mod_lt k hb
    rw [digits, incr]
    by_cases hlast : k % b + 1 < b
    · -- the lowest digit takes the one
      have hmod : (k + 1) % b = k % b + 1 := by
        rw [Nat.add_mod, Nat.mod_eq_of_lt (show 1 < b by omega), Nat.mod_eq_of_lt hlast]
      have hdiv : (k + 1) / b = k / b := by
        apply Nat.div_eq_of_lt_le
        · rw [Nat.mul_comm]
          omega
        · rw [Nat.succ_mul, Nat.mul_comm]
          omega
      have hndvd : ¬ b ^ (n + 1) ∣ k + 1 := by
        intro hdvd
        have hb' : b ∣ k + 1 := Nat.dvd_trans (dvd_pow_succ b n) hdvd
        rw [Nat.dvd_iff_mod_eq_zero, hmod] at hb'
        omega
      rw [if_pos hlast, digits, hmod, hdiv, decide_eq_false hndvd]
    · -- the lowest digit wraps round, and the rest takes the one
      have hsucc : k + 1 = b * (k / b + 1) := by
        rw [Nat.mul_add, Nat.mul_one]
        omega
      have hmod : (k + 1) % b = 0 := by rw [hsucc, Nat.mul_mod_right]
      have hdiv : (k + 1) / b = k / b + 1 := by rw [hsucc, Nat.mul_div_cancel_left _ hb]
      have hdvd : b ^ (n + 1) ∣ k + 1 ↔ b ^ n ∣ k / b + 1 := by
        rw [hsucc, Nat.pow_succ, Nat.mul_comm, Nat.mul_dvd_mul_iff_left hb]
      rw [if_neg hlast, ih, digits, hmod, hdiv, decide_eq_decide.mpr hdvd]

end Odometer
