import Mathlib.Algebra.Order.BigOperators.Group.Finset
import Mathlib.Data.List.Count
import Mathlib.Data.List.Perm.Subperm

/-!
# Registers and totals

A register is overwritten at some steps, by a value that is at most what the step takes; the
total of what was taken grows at every step. The two agree exactly if at most one step takes
anything, and that amount is written to the register (`kept_eq_total_iff`). `count_eq_one_iff` is
the other half of an account: distinct numbers below a bound are all the numbers below it exactly
if there are enough of them.
-/

namespace Register

variable {value amount : Nat → Nat} {written : Nat → Bool}

/-- The register after `n` steps. -/
def kept (value : Nat → Nat) (written : Nat → Bool) : Nat → Nat
  | 0 => 0
  | n + 1 => if written n then value n else kept value written n

theorem kept_eq_zero (h : ∀ i, written i = false) (n : Nat) : kept value written n = 0 := by
  induction n with
  | zero => rfl
  | succ n ih => rw [kept, h n, if_neg Bool.false_ne_true, ih]

theorem kept_le_total (hle : ∀ i, value i ≤ amount i) (n : Nat) :
    kept value written n ≤ ∑ i ∈ Finset.range n, amount i := by
  induction n with
  | zero => exact Nat.le_refl 0
  | succ n ih =>
    have hn := hle n
    rw [kept, Finset.sum_range_succ]
    split <;> omega

/-- Nothing has been taken exactly if no step has taken anything. -/
theorem total_eq_zero_iff (n : Nat) :
    ∑ i ∈ Finset.range n, amount i = 0 ↔ ∀ i < n, ¬ 0 < amount i := by
  rw [Finset.sum_eq_zero_iff]
  simp only [Finset.mem_range, Nat.not_lt, Nat.le_zero]

/-- The register holds the total exactly if at most one step has taken anything, and this amount
has been written. -/
theorem kept_eq_total_iff (hle : ∀ i, value i ≤ amount i)
    (hpos : ∀ i, written i = true → 0 < amount i) (n : Nat) :
    kept value written n = ∑ i ∈ Finset.range n, amount i ↔
      ∀ i < n, 0 < amount i → (written i = true ∧ value i = amount i) ∧
        ∀ i' < n, 0 < amount i' → i' = i := by
  induction n with
  | zero => exact ⟨fun _ i hi => absurd hi (Nat.not_lt_zero i), fun _ => rfl⟩
  | succ n ih =>
    have htotal : kept value written n ≤ _ := kept_le_total hle n
    have hn := hle n
    rw [kept, Finset.sum_range_succ]
    cases hw : written n with
    | true =>
      rw [if_pos rfl]
      have hamount := hpos n hw
      -- the register holds what step `n` has taken, so nothing may have been taken before
      have hsplit : value n = ∑ i ∈ Finset.range n, amount i + amount n ↔
          (∀ j < n, ¬ 0 < amount j) ∧ value n = amount n := by
        rw [← total_eq_zero_iff]
        omega
      rw [hsplit]
      constructor
      · intro h i hi hi'
        obtain ⟨hbefore, hvalue⟩ := h
        have hlast : ∀ j < n + 1, 0 < amount j → j = n := by
          intro j hj hjpos
          by_contra hne
          exact hbefore j (by omega) hjpos
        obtain rfl := hlast i hi hi'
        exact ⟨⟨hw, hvalue⟩, hlast⟩
      · intro h
        obtain ⟨⟨-, hvalue⟩, hothers⟩ := h n (Nat.lt_succ_self n) hamount
        refine ⟨?_, hvalue⟩
        intro j hj hjpos
        have hjn := hothers j (by omega) hjpos
        omega
    | false =>
      rw [if_neg Bool.false_ne_true]
      constructor
      · intro h i hi hamount
        have hlast : amount n = 0 := by omega
        have hih := ih.mp (by omega)
        have hne : ∀ j, 0 < amount j → j ≠ n := by
          intro j hj he
          rw [he] at hj
          omega
        have hin := hne i hamount
        obtain ⟨hwi, hothers⟩ := hih i (by omega) hamount
        refine ⟨hwi, fun j hj hjpos => ?_⟩
        have hjn := hne j hjpos
        exact hothers j (by omega) hjpos
      · intro h
        have hlast : amount n = 0 := by
          by_contra hne
          have := (h n (by omega) (Nat.pos_of_ne_zero hne)).1.1
          rw [hw] at this
          cases this
        rw [hlast, Nat.add_zero]
        apply ih.mpr
        intro i hi hamount
        obtain ⟨hwi, hothers⟩ := h i (by omega) hamount
        exact ⟨hwi, fun j hj => hothers j (by omega)⟩

/-- Distinct numbers below a bound: each number below it is among them exactly if there are
enough of them. -/
theorem count_eq_one_iff {l : List Nat} {bound : Nat} (hnodup : l.Nodup)
    (hlt : ∀ b ∈ l, b < bound) : (∀ b < bound, l.count b = 1) ↔ l.length = bound := by
  have hsub : l.Subperm (List.range bound) :=
    List.subperm_of_subset hnodup fun b hb => List.mem_range.mpr (hlt b hb)
  constructor
  · intro h
    have hsub' : (List.range bound).Subperm l := by
      apply List.subperm_of_subset List.nodup_range
      intro b hb
      have hcount := h b (List.mem_range.mp hb)
      exact List.count_pos_iff.mp (by omega)
    have hlen := (hsub.antisymm hsub').length_eq
    rwa [List.length_range] at hlen
  · intro h b hb
    have hperm : l.Perm (List.range bound) :=
      hsub.perm_of_length_le (by rw [List.length_range, h])
    rw [hperm.count_eq]
    exact List.count_eq_one_of_mem List.nodup_range (List.mem_range.mpr hb)

end Register
