import Mathlib.Tactic.Common

/-!
# Counting over a list that is changed in one place

Parties in progress and resources handed out are kept in lists; a step replaces one entry or
appends one. These are the balance equations of `List.countP` for such a step, in a form
without subtraction.
-/

namespace Tally

variable {α : Type}

/-- Replacing one entry trades its contribution for the new one. -/
theorem countP_set {l : List α} {k : Nat} {x : α} (h : l[k]? = some x) (p : α → Bool) (y : α) :
    (l.set k y).countP p + (p x).toNat = l.countP p + (p y).toNat := by
  induction l generalizing k with
  | nil => cases h
  | cons z l ih =>
    cases k with
    | zero =>
      cases h
      simp only [List.set_cons_zero, List.countP_cons]
      cases p x <;> cases p y <;> simp
    | succ k =>
      have hk := ih (k := k) (by simpa using h)
      simp only [List.set_cons_succ, List.countP_cons]
      omega

theorem countP_append_singleton (l : List α) (p : α → Bool) (y : α) :
    (l ++ [y]).countP p = l.countP p + (p y).toNat := by
  rw [List.countP_append, List.countP_singleton]
  cases p y <;> rfl

theorem countP_pos {l : List α} {k : Nat} {x : α} (h : l[k]? = some x) {p : α → Bool}
    (hp : p x = true) : 0 < l.countP p :=
  List.countP_pos_iff.mpr ⟨x, List.mem_of_getElem? h, hp⟩

/-- An entry that counted before and does not count now makes the count smaller, if no other
starts to count. -/
theorem countP_lt {l : List α} {p q : α → Bool} (h : ∀ x ∈ l, p x = true → q x = true) {x : α}
    (hx : x ∈ l) (hp : p x = false) (hq : q x = true) : l.countP p < l.countP q := by
  obtain ⟨l₁, l₂, rfl⟩ := List.append_of_mem hx
  have h₁ : l₁.countP p ≤ l₁.countP q :=
    List.countP_mono_left fun y hy => h y (List.mem_append_left _ hy)
  have h₂ : l₂.countP p ≤ l₂.countP q :=
    List.countP_mono_left fun y hy => h y (List.mem_append_right _ (List.mem_cons_of_mem _ hy))
  simp only [List.countP_append, List.countP_cons, hp, hq, Bool.false_eq_true, if_true, if_false]
  omega

/-- Whether an entry counts, as a number. -/
@[simp] theorem toNat_beq [DecidableEq α] (x y : α) : (x == y).toNat = if y = x then 1 else 0 := by
  by_cases h : y = x
  · simp [h]
  · simp [h, Ne.symm h]

/-- A changed list at the changed place and elsewhere. -/
theorem getElem?_set_cases {l : List α} {k j : Nat} {x y : α}
    (h : (l.set k y)[j]? = some x) : (j = k ∧ x = y) ∨ (j ≠ k ∧ l[j]? = some x) := by
  rw [List.getElem?_set] at h
  split at h
  · rename_i hkj
    split at h
    · cases h
      exact .inl ⟨hkj.symm, rfl⟩
    · cases h
  · rename_i hkj
    exact .inr ⟨fun he => hkj he.symm, h⟩

theorem getElem?_append_cases {l : List α} {j : Nat} {x y : α}
    (h : (l ++ [y])[j]? = some x) : l[j]? = some x ∨ (j = l.length ∧ x = y) := by
  rw [List.getElem?_append] at h
  split at h
  · exact .inl h
  · rename_i hge
    by_cases he : j - l.length = 0
    · rw [he] at h
      cases h
      exact .inr ⟨by omega, rfl⟩
    · rw [List.getElem?_eq_none (by simp; omega)] at h
      cases h

end Tally
