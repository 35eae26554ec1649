import Mathlib.Data.Finset.Lattice.Fold
import Mathlib.Data.Fintype.Basic
import Mathlib.Data.List.FinRange
import Mathlib.Order.Lattice.Nat
import Mathlib.Tactic.Common

/-!
# Scans over a fixed array of slots

A table of `N` slots is seen through a predicate `p : Fin N → Bool` on its indices. The
loops a C program runs over such a table are stated here once:

* `first p b`: the upward search `for (i = 0; i < b; ++i) if (p(i)) break;`
* `down p m`: the downward search `while (m > 0 && !p(m)) --m;`
* `raise p m`: the running maximum `for (i = 0; i < N; ++i) if (p(i) && m < i) m = i;`

`top p` is what the last two are about: the highest index that satisfies `p`, or `0`. It
is a supremum, so its lemmas say what it does when one slot changes.
-/

namespace SlotScan

variable {N : Nat}

/-! ## The upward search -/

/-- `for (i = start; i < start + n; ++i) if (p(i)) break;`, where an index outside the
array ends the search. -/
def firstFrom (p : Fin N → Bool) : Nat → Nat → Option (Fin N)
  | 0, _ => none
  | n + 1, i =>
      if h : i < N then
        if p ⟨i, h⟩ then some ⟨i, h⟩ else firstFrom p n (i + 1)
      else none

/-- The first index below `bound` that satisfies `p`. -/
def first (p : Fin N → Bool) (bound : Nat) : Option (Fin N) := firstFrom p bound 0

theorem firstFrom_eq_some {p : Fin N → Bool} {n i : Nat} {k : Fin N} :
    firstFrom p n i = some k ↔
      i ≤ k.val ∧ k.val < i + n ∧ p k = true ∧ ∀ j : Fin N, i ≤ j.val → j < k → p j = false := by
  induction n generalizing i with
  | zero => simp [firstFrom]; omega
  | succ n ih =>
    unfold firstFrom
    by_cases h : i < N
    · rw [dif_pos h]
      by_cases hp : p ⟨i, h⟩ = true
      · rw [if_pos hp, Option.some.injEq]
        constructor
        · rintro rfl
          exact ⟨le_refl _, by dsimp only; omega, hp, fun j hij hjk => absurd hjk (by
            rw [Fin.lt_def]; dsimp only; omega)⟩
        · rintro ⟨hik, -, -, hmin⟩
          by_contra hne
          have hlt : (⟨i, h⟩ : Fin N) < k := by
            have : i ≠ k.val := fun he => hne (Fin.ext he)
            rw [Fin.lt_def]
            dsimp only
            omega
          rw [hmin ⟨i, h⟩ (le_refl _) hlt] at hp
          cases hp
      · rw [if_neg hp, ih]
        constructor
        · rintro ⟨hik, hkn, hk, hmin⟩
          refine ⟨by omega, by omega, hk, fun j hij hjk => ?_⟩
          by_cases hj : i = j.val
          · have : j = ⟨i, h⟩ := Fin.ext hj.symm
            simpa [this] using hp
          · exact hmin j (by omega) hjk
        · rintro ⟨hik, hkn, hk, hmin⟩
          have hne : i ≠ k.val := by
            rintro rfl
            exact hp hk
          exact ⟨by omega, by omega, hk, fun j hij hjk => hmin j (by omega) hjk⟩
    · rw [dif_neg h]
      constructor
      · intro hk
        cases hk
      · rintro ⟨hik, -⟩
        exact absurd k.isLt (by omega)

theorem first_eq_some {p : Fin N → Bool} {b : Nat} {k : Fin N} :
    first p b = some k ↔ k.val < b ∧ p k = true ∧ ∀ j < k, p j = false := by
  simp [first, firstFrom_eq_some]

theorem first_eq_none {p : Fin N → Bool} {b : Nat} :
    first p b = none ↔ ∀ i : Fin N, i.val < b → p i = false := by
  constructor
  · intro h
    by_contra hne
    push Not at hne
    obtain ⟨i, hib, hi⟩ := hne
    -- the least index that satisfies `p` would have been found
    have hex : ∃ k, ∃ hk : k < N, k < b ∧ p ⟨k, hk⟩ = true :=
      ⟨i.val, i.isLt, hib, by simpa using hi⟩
    classical
    obtain ⟨hk, hkb, hp⟩ := Nat.find_spec hex
    have hsome : first p b = some ⟨Nat.find hex, hk⟩ := by
      refine first_eq_some.mpr ⟨hkb, hp, fun j hj => ?_⟩
      by_contra hpj
      have hj' : j.val < Nat.find hex := hj
      exact Nat.find_min hex hj' ⟨j.isLt, by omega, by simpa using hpj⟩
    rw [h] at hsome
    cases hsome
  · intro h
    cases hf : first p b with
    | none => rfl
    | some k =>
      obtain ⟨hkb, hk, -⟩ := first_eq_some.mp hf
      rw [h k hkb] at hk
      cases hk

/-- A search cut off at a bound finds what the full search finds, if no index from the
bound on satisfies `p`. -/
theorem first_eq_full {p : Fin N → Bool} {b : Nat} (h : ∀ i, p i = true → i.val < b) :
    first p b = first p N := by
  cases hf : first p N with
  | none =>
    exact first_eq_none.mpr fun i _ => first_eq_none.mp hf i i.isLt
  | some k =>
    obtain ⟨-, hk, hmin⟩ := first_eq_some.mp hf
    exact first_eq_some.mpr ⟨h k hk, hk, hmin⟩

/-! ## The highest index -/

/-- The highest index that satisfies `p`, or `0`. -/
def top (p : Fin N → Bool) : Nat := (Finset.univ.filter fun i => p i = true).sup Fin.val

theorem top_le_iff {p : Fin N → Bool} {m : Nat} : top p ≤ m ↔ ∀ i, p i = true → i.val ≤ m := by
  simp [top]

theorem le_top {p : Fin N → Bool} {i : Fin N} (h : p i = true) : i.val ≤ top p :=
  top_le_iff.mp (le_refl _) i h

theorem top_attained {p : Fin N → Bool} {i : Fin N} (h : p i = true) :
    ∃ j, p j = true ∧ j.val = top p := by
  have hne : (Finset.univ.filter fun i => p i = true).Nonempty := ⟨i, by simp [h]⟩
  obtain ⟨j, hj, he⟩ := Finset.exists_mem_eq_sup _ hne Fin.val
  exact ⟨j, (Finset.mem_filter.mp hj).2, he.symm⟩

theorem top_lt (p : Fin N → Bool) (hN : 0 < N) : top p < N := by
  have : top p ≤ N - 1 := top_le_iff.mpr fun i _ => by omega
  omega

theorem top_eq_zero {p : Fin N → Bool} (h : ∀ i, p i = false) : top p = 0 := by
  have : top p ≤ 0 := top_le_iff.mpr fun i hi => by rw [h i] at hi; cases hi
  omega

/-- Taking slot `i` raises the highest index to at least `i`. -/
theorem top_update_true (p : Fin N → Bool) (i : Fin N) :
    top (Function.update p i true) = max (top p) i.val := by
  apply le_antisymm
  · apply top_le_iff.mpr
    intro j hj
    by_cases hji : j = i
    · subst hji
      exact le_max_right _ _
    · rw [Function.update_of_ne hji] at hj
      exact le_max_of_le_left (le_top hj)
  · refine max_le (top_le_iff.mpr fun j hj => le_top ?_) (le_top (Function.update_self ..))
    by_cases hji : j = i
    · subst hji
      exact Function.update_self ..
    · rw [Function.update_of_ne hji]
      exact hj

/-- Releasing a slot other than the highest one leaves the highest index alone. -/
theorem top_update_false {p : Fin N → Bool} {i : Fin N} (hi : i.val ≠ top p) :
    top (Function.update p i false) = top p := by
  apply le_antisymm
  · apply top_le_iff.mpr
    intro j hj
    by_cases hji : j = i
    · subst hji
      rw [Function.update_self] at hj
      cases hj
    · rw [Function.update_of_ne hji] at hj
      exact le_top hj
  · apply top_le_iff.mpr
    intro j hj
    obtain ⟨k, hk, hkt⟩ := top_attained hj
    have hki : k ≠ i := by
      rintro rfl
      exact hi hkt
    have hle : k.val ≤ top (Function.update p i false) := le_top (by
      rw [Function.update_of_ne hki]
      exact hk)
    exact (le_top hj).trans (by omega)

/-! ## The downward search and the running maximum -/

/-- The predicate at an index that may lie outside the array. -/
def probe (p : Fin N → Bool) (i : Nat) : Bool := if h : i < N then p ⟨i, h⟩ else false

theorem probe_val (p : Fin N → Bool) (i : Fin N) : probe p i.val = p i := by simp [probe]

/-- `while (m > 0 && !p(m)) --m;` -/
def down (p : Fin N → Bool) : Nat → Nat
  | 0 => 0
  | m + 1 => if probe p (m + 1) then m + 1 else down p m

/-- From any upper bound, the downward search stops at the highest index. -/
theorem down_eq_top {p : Fin N → Bool} {m : Nat} (h : top p ≤ m) : down p m = top p := by
  induction m with
  | zero => simp only [down]; omega
  | succ m ih =>
    unfold down
    by_cases hp : probe p (m + 1) = true
    · rw [if_pos hp]
      have hlt : m + 1 < N := by
        by_contra hge
        simp [probe, hge] at hp
      have : m + 1 ≤ top p := le_top (i := ⟨m + 1, hlt⟩) (by simpa [probe, hlt] using hp)
      omega
    · rw [if_neg hp]
      refine ih (top_le_iff.mpr fun i hi => ?_)
      have hle := (le_top hi).trans h
      have hne : i.val ≠ m + 1 := by
        intro he
        rw [← he, probe_val] at hp
        exact hp hi
      omega

/-- The downward search does not pass a hit. -/
theorem le_down {p : Fin N → Bool} {i : Fin N} {m : Nat} (h : p i = true) (hi : i.val ≤ m) :
    i.val ≤ down p m := by
  induction m with
  | zero => exact hi
  | succ m ih =>
    unfold down
    split
    · exact hi
    · rename_i hp
      have hne : i.val ≠ m + 1 := by
        intro he
        rw [← he, probe_val] at hp
        exact hp h
      exact ih (by omega)

/-- From the first miss, the downward search goes one step. -/
theorem down_first_miss {p : Fin N → Bool} {i : Fin N} (hi : p i = false)
    (hlow : ∀ j < i, p j = true) : down p i.val = i.val - 1 := by
  cases hm : i.val with
  | zero => rfl
  | succ m =>
    have hmiss : probe p (m + 1) = false := by rw [← hm, probe_val, hi]
    rw [down, hmiss, if_neg Bool.false_ne_true, Nat.add_sub_cancel]
    cases m with
    | zero => rfl
    | succ k =>
      have hlt : k + 1 < N := by omega
      have hhit : probe p (k + 1) = true := by
        rw [probe, dif_pos hlt]
        exact hlow ⟨k + 1, hlt⟩ (by rw [Fin.lt_def]; dsimp only; omega)
      rw [down, hhit, if_pos rfl]

/-- `for (i = 0; i < N; ++i) if (p(i) && m < i) m = i;` -/
def raise (p : Fin N → Bool) (m : Nat) : Nat :=
  (List.finRange N).foldl (fun m i => if p i && decide (m < i.val) then i.val else m) m

theorem foldl_raise_le_iff {p : Fin N → Bool} (is : List (Fin N)) {m b : Nat} :
    is.foldl (fun m i => if p i && decide (m < i.val) then i.val else m) m ≤ b ↔
      m ≤ b ∧ ∀ i ∈ is, p i = true → i.val ≤ b := by
  induction is generalizing m with
  | nil => simp
  | cons i is ih =>
    rw [List.foldl_cons, ih]
    by_cases hp : p i = true
    · by_cases hlt : m < i.val
      · simp [hp, hlt]; omega
      · simp [hp, hlt]; omega
    · simp [hp]

theorem raise_eq (p : Fin N → Bool) (m : Nat) : raise p m = max m (top p) := by
  apply eq_of_forall_ge_iff
  intro b
  rw [raise, foldl_raise_le_iff, max_le_iff, top_le_iff]
  simp

end SlotScan
