import Mathlib.Data.List.Basic
import Mathlib.Tactic.Common

/-!
# Rows of an interval

A loop walks through the numbers from `lo` to below `hi` in strides of `w`, and handles in each
round those before the next stride. `Cut w hi lo rows` says that `rows` are the numbers it
handles, round by round.
-/

namespace Stride

/-- `rows` are the numbers from `lo` to below `hi`, at most `w` in a row. -/
inductive Cut (w hi : Nat) : Nat → List (List Nat) → Prop where
  | done {lo : Nat} (h : hi ≤ lo) : Cut w hi lo []
  | row {lo : Nat} {rows : List (List Nat)} (h : lo < hi) (rest : Cut w hi (lo + w) rows) :
      Cut w hi lo (List.range' lo (min w (hi - lo)) :: rows)

variable {w hi lo : Nat} {rows : List (List Nat)}

/-- Together the rows are the interval, in order. -/
theorem Cut.flatten (h : Cut w hi lo rows) : rows.flatten = List.range' lo (hi - lo) := by
  induction h with
  | done h =>
    rw [Nat.sub_eq_zero_of_le h]
    rfl
  | @row lo rows h rest ih =>
    rw [List.flatten_cons, ih]
    by_cases hfull : lo + w ≤ hi
    · rw [Nat.min_eq_left (by omega), List.range'_append_1]
      congr 1
      omega
    · have hrest : hi - (lo + w) = 0 := by omega
      rw [Nat.min_eq_right (by omega), hrest, List.range'_zero, List.append_nil]

theorem Cut.lt (h : Cut w hi lo rows) {row : List Nat} (hrow : row ∈ rows) {p : Nat}
    (hp : p ∈ row) : p < hi := by
  have hmem : p ∈ rows.flatten := List.mem_flatten.mpr ⟨row, hrow, hp⟩
  rw [h.flatten, List.mem_range'_1] at hmem
  omega

theorem Cut.length_le (h : Cut w hi lo rows) : ∀ row ∈ rows, row.length ≤ w := by
  induction h with
  | done h => exact fun row hrow => absurd hrow List.not_mem_nil
  | row h rest ih =>
    intro row hrow
    obtain rfl | hrow := List.mem_cons.mp hrow
    · rw [List.length_range']
      exact Nat.min_le_left _ _
    · exact ih row hrow

/-- Every row but the last is full. -/
theorem Cut.length_dropLast (h : Cut w hi lo rows) : ∀ row ∈ rows.dropLast, row.length = w := by
  induction h with
  | done h => exact fun row hrow => absurd hrow List.not_mem_nil
  | row h rest ih =>
    cases rest with
    | done _ => exact fun row hrow => absurd hrow List.not_mem_nil
    | row hnext rest =>
      intro row hrow
      rw [List.dropLast_cons_of_ne_nil (List.cons_ne_nil _ _)] at hrow
      obtain rfl | hrow := List.mem_cons.mp hrow
      · rw [List.length_range', Nat.min_eq_left (by omega)]
      · exact ih row hrow

end Stride
