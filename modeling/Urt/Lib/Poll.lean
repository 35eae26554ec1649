import Mathlib.Tactic.Common

/-!
# Waiting with looks

A caller wants a resource and is willing to be told to stop. It waits for the resource a
fixed `delay` at a time and looks between two waits whether to stop. `avail u` says that the
resource can be had at time `u`, `stop u` that a look at time `u` finds the order to stop;
nothing but the waits takes time.

`lookFirst` looks before the first wait, `waitFirst` only after it. A loop that goes on for
more than its number of rounds answers `none`; `Returns` says that some number is enough.
-/

namespace Poll

/-- How a wait with looks ends. -/
inductive Outcome where
  | acquired
  | stopped
  deriving DecidableEq, Repr

/-- The first time in `[start, start + n)` at which the resource can be had. -/
def window (avail : Nat → Bool) : Nat → Nat → Option Nat
  | 0, _ => none
  | n + 1, start => if avail start then some start else window avail n (start + 1)

/-- Look, wait, look, wait. -/
def lookFirst (stop avail : Nat → Bool) (delay : Nat) : Nat → Nat → Option (Outcome × Nat)
  | 0, _ => none
  | k + 1, now =>
      if stop now then some (.stopped, now)
      else
        match window avail delay now with
        | some u => some (.acquired, u)
        | none => lookFirst stop avail delay k (now + delay)

/-- Wait, look, wait, look. -/
def waitFirst (stop avail : Nat → Bool) (delay : Nat) : Nat → Nat → Option (Outcome × Nat)
  | 0, _ => none
  | k + 1, now =>
      match window avail delay now with
      | some u => some (.acquired, u)
      | none =>
          if stop (now + delay) then some (.stopped, now + delay)
          else waitFirst stop avail delay k (now + delay)

/-- A loop with a number of rounds comes to an end with this answer. -/
def Returns {R : Type} (loop : Nat → Option R) (r : R) : Prop := ∃ k, loop k = some r

theorem returns_map {R Q : Type} {f : R → Q} (loop : Nat → Option R) (q : Q) :
    Returns (fun k => (loop k).map f) q ↔ ∃ r, Returns loop r ∧ f r = q := by
  constructor
  · rintro ⟨k, hk⟩
    obtain ⟨r, hr, hq⟩ := Option.map_eq_some_iff.mp hk
    exact ⟨r, ⟨k, hr⟩, hq⟩
  · rintro ⟨r, ⟨k, hk⟩, hq⟩
    refine ⟨k, ?_⟩
    dsimp only
    rw [hk, Option.map_some, hq]

variable {stop avail : Nat → Bool} {delay : Nat}

/-- The resource cannot be had from `start` on before `t`. -/
def Absent (avail : Nat → Bool) (start t : Nat) : Prop := ∀ u, start ≤ u → u < t → avail u = false

/-! ## One wait -/

theorem window_eq_some {n start t : Nat} :
    window avail n start = some t ↔
      start ≤ t ∧ t < start + n ∧ avail t = true ∧ Absent avail start t := by
  induction n generalizing start with
  | zero =>
    constructor
    · intro h
      cases h
    · rintro ⟨hle, hlt, -⟩
      omega
  | succ n ih =>
    rw [window]
    cases ha : avail start with
    | true =>
      rw [if_pos rfl, Option.some.injEq]
      constructor
      · rintro rfl
        exact ⟨Nat.le_refl _, by omega, ha, fun u hu hut => absurd hut (by omega)⟩
      · rintro ⟨hle, -, -, habs⟩
        by_contra hne
        have hfalse := habs start (Nat.le_refl _) (by omega)
        rw [ha] at hfalse
        cases hfalse
    | false =>
      rw [if_neg Bool.false_ne_true, ih]
      constructor
      · rintro ⟨hle, hlt, hav, habs⟩
        refine ⟨by omega, by omega, hav, ?_⟩
        intro u hu hut
        rcases Nat.eq_or_lt_of_le hu with rfl | hu
        · exact ha
        · exact habs u hu hut
      · rintro ⟨hle, hlt, hav, habs⟩
        have hne : start ≠ t := by
          rintro rfl
          rw [ha] at hav
          cases hav
        exact ⟨by omega, by omega, hav, fun u hu hut => habs u (by omega) hut⟩

theorem window_eq_none {n start : Nat} :
    window avail n start = none ↔ Absent avail start (start + n) := by
  induction n generalizing start with
  | zero => exact iff_of_true rfl fun u hu hut => absurd hut (by omega)
  | succ n ih =>
    rw [window]
    cases ha : avail start with
    | true =>
      refine iff_of_false (by simp) ?_
      intro habs
      have hfalse := habs start (Nat.le_refl _) (by omega)
      rw [ha] at hfalse
      cases hfalse
    | false =>
      rw [if_neg Bool.false_ne_true, ih]
      constructor
      · intro habs u hu hut
        rcases Nat.eq_or_lt_of_le hu with rfl | hu
        · exact ha
        · exact habs u hu (by omega)
      · intro habs u hu hut
        exact habs u (by omega) (by omega)

/-! ## The two loops -/

theorem waitFirst_of_lookFirst {k now : Nat} {r : Outcome × Nat} (hnow : stop now = false)
    (h : lookFirst stop avail delay k now = some r) :
    waitFirst stop avail delay k now = some r := by
  induction k generalizing now with
  | zero => cases h
  | succ k ih =>
    rw [lookFirst, hnow, if_neg Bool.false_ne_true] at h
    rw [waitFirst]
    cases hw : window avail delay now with
    | some u =>
      rw [hw] at h
      exact h
    | none =>
      rw [hw] at h
      cases hs : stop (now + delay) with
      | false => exact ih hs h
      | true =>
        cases k with
        | zero => cases h
        | succ k =>
          simp only [lookFirst, hs, if_true] at h
          exact h

/-- The loop that looks first takes a round more. -/
theorem lookFirst_of_waitFirst {k now : Nat} {r : Outcome × Nat} (hnow : stop now = false)
    (h : waitFirst stop avail delay k now = some r) :
    lookFirst stop avail delay (k + 1) now = some r := by
  induction k generalizing now with
  | zero => cases h
  | succ k ih =>
    rw [waitFirst] at h
    rw [lookFirst, hnow, if_neg Bool.false_ne_true]
    cases hw : window avail delay now with
    | some u =>
      rw [hw] at h
      exact h
    | none =>
      rw [hw] at h
      cases hs : stop (now + delay) with
      | false =>
        simp only [hs, Bool.false_eq_true, if_false] at h
        exact ih hs h
      | true =>
        simp only [hs, if_true] at h
        simp only [lookFirst, hs, if_true]
        exact h

/-- After a look that found nothing, the loop that looks first is one that waits first. -/
theorem returns_lookFirst {now : Nat} (h : stop now = false) (r : Outcome × Nat) :
    Returns (lookFirst stop avail delay · now) r ↔
      Returns (waitFirst stop avail delay · now) r := by
  constructor
  · intro hr
    obtain ⟨k, hk⟩ := hr
    exact ⟨k, waitFirst_of_lookFirst h hk⟩
  · intro hr
    obtain ⟨k, hk⟩ := hr
    exact ⟨k + 1, lookFirst_of_waitFirst h hk⟩

/-- A look that finds the order to stop ends the loop that looks first. -/
theorem returns_lookFirst_of_stop {now : Nat} (h : stop now = true) (r : Outcome × Nat) :
    Returns (lookFirst stop avail delay · now) r ↔ r = (.stopped, now) := by
  constructor
  · rintro ⟨k, hk⟩
    cases k with
    | zero => cases hk
    | succ k =>
      simp only [lookFirst, h, if_true, Option.some.injEq] at hk
      exact hk.symm
  · rintro rfl
    refine ⟨1, ?_⟩
    simp only [lookFirst, h, if_true]

theorem returns_waitFirst_step {now : Nat} (r : Outcome × Nat) :
    Returns (waitFirst stop avail delay · now) r ↔
      match window avail delay now with
      | some u => r = (.acquired, u)
      | none =>
          if stop (now + delay) then r = (.stopped, now + delay)
          else Returns (waitFirst stop avail delay · (now + delay)) r := by
  constructor
  · rintro ⟨k, hk⟩
    cases k with
    | zero => cases hk
    | succ k =>
      simp only [waitFirst] at hk
      cases hw : window avail delay now with
      | some u =>
        rw [hw] at hk
        exact (Option.some.inj hk).symm
      | none =>
        rw [hw] at hk
        dsimp only at hk ⊢
        split
        · rename_i hs
          rw [if_pos hs] at hk
          exact (Option.some.inj hk).symm
        · rename_i hs
          rw [if_neg hs] at hk
          exact ⟨k, hk⟩
  · intro h
    cases hw : window avail delay now with
    | some u =>
      rw [hw] at h
      refine ⟨1, ?_⟩
      simp only [waitFirst, hw]
      rw [h]
    | none =>
      rw [hw] at h
      dsimp only at h
      split at h
      · rename_i hs
        refine ⟨1, ?_⟩
        simp only [waitFirst, hw, hs, if_true]
        rw [h]
      · rename_i hs
        obtain ⟨k, hk⟩ := h
        refine ⟨k + 1, ?_⟩
        simp only [waitFirst, hw, hs]
        exact hk

/-- What holds where a wait ends the loop that waits first, and of each wait before it, holds of
what the loop returns. -/
theorem Returns.waitFirst_induction {motive : Nat → Outcome × Nat → Prop}
    (hacquired : ∀ now u, window avail delay now = some u → motive now (.acquired, u))
    (hstopped : ∀ now, window avail delay now = none → stop (now + delay) = true →
      motive now (.stopped, now + delay))
    (hagain : ∀ now r, window avail delay now = none → stop (now + delay) = false →
      motive (now + delay) r → motive now r)
    {start : Nat} {r : Outcome × Nat} (h : Returns (waitFirst stop avail delay · start) r) :
    motive start r := by
  obtain ⟨fuel, h⟩ := h
  induction fuel generalizing start with
  | zero => cases h
  | succ fuel ih =>
    simp only [waitFirst] at h
    cases hw : window avail delay start with
    | some u =>
      rw [hw] at h
      obtain rfl := Option.some.inj h
      exact hacquired start u hw
    | none =>
      rw [hw] at h
      cases hs : stop (start + delay) with
      | true =>
        simp only [hs, if_true] at h
        obtain rfl := Option.some.inj h
        exact hstopped start hw hs
      | false =>
        simp only [hs, Bool.false_eq_true, if_false] at h
        exact hagain start r hw hs (ih h)

/-! ## What the answers mean -/

theorem Absent.glue {start m t : Nat} (h₁ : Absent avail start m) (h₂ : Absent avail m t) :
    Absent avail start t := by
  intro u hu hut
  by_cases hum : u < m
  · exact h₁ u hu hum
  · exact h₂ u (by omega) hut

theorem Absent.sub {start m t n : Nat} (h : Absent avail start t) (hm : start ≤ m) (hn : n ≤ t) :
    Absent avail m n :=
  fun u hu hun => h u (by omega) (by omega)

/-- The look number `k` of a loop that waits first. -/
def lookTime (start delay k : Nat) : Nat := start + (k + 1) * delay

theorem lookTime_succ (start delay k : Nat) :
    lookTime start delay (k + 1) = lookTime (start + delay) delay k := by
  simp only [lookTime, Nat.succ_mul]
  omega

theorem lookTime_zero (start delay : Nat) : lookTime start delay 0 = start + delay := by
  simp only [lookTime, Nat.zero_add, Nat.one_mul]

theorem le_lookTime (start delay k : Nat) : start + delay ≤ lookTime start delay k := by
  simp only [lookTime, Nat.succ_mul]
  omega

/-- A loop that is stopped is so by a look that comes before the resource can be had. -/
theorem Returns.exists_look {start : Nat} {r : Outcome × Nat}
    (h : Returns (waitFirst stop avail delay · start) r) (hr : r.1 = .stopped) :
    ∃ k, stop (lookTime start delay k) = true ∧ Absent avail start (lookTime start delay k) := by
  refine Returns.waitFirst_induction (motive := fun start r => r.1 = .stopped →
    ∃ k, stop (lookTime start delay k) = true ∧ Absent avail start (lookTime start delay k))
    ?_ ?_ ?_ h hr
  · intro now u hw hr
    cases hr
  · intro now hw hs _
    refine ⟨0, ?_, ?_⟩
    · rw [lookTime_zero]
      exact hs
    · rw [lookTime_zero]
      exact window_eq_none.mp hw
  · intro now r hw hs ih hr
    obtain ⟨k, hk, hrest⟩ := ih hr
    refine ⟨k + 1, ?_, ?_⟩
    · rw [lookTime_succ]
      exact hk
    · rw [lookTime_succ]
      exact (window_eq_none.mp hw).glue hrest

/-- **The loop is stopped exactly when some look finds the order before the resource can be
had.** -/
theorem returns_stopped_iff (start : Nat) :
    (∃ t, Returns (waitFirst stop avail delay · start) (.stopped, t)) ↔
      ∃ k, stop (lookTime start delay k) = true ∧
        Absent avail start (lookTime start delay k) := by
  constructor
  · intro h
    obtain ⟨t, ht⟩ := h
    exact ht.exists_look rfl
  · intro h
    obtain ⟨k, hk, habs⟩ := h
    induction k generalizing start with
    | zero =>
      rw [lookTime_zero] at hk habs
      refine ⟨start + delay, (returns_waitFirst_step _).mpr ?_⟩
      rw [window_eq_none.mpr habs]
      simp only [hk, if_true]
    | succ k ih =>
      have hle := le_lookTime (start + delay) delay k
      rw [lookTime_succ] at hk habs
      have hnone : window avail delay start = none :=
        window_eq_none.mpr (habs.sub (Nat.le_refl _) (by omega))
      cases hs : stop (start + delay) with
      | true =>
        refine ⟨start + delay, (returns_waitFirst_step _).mpr ?_⟩
        rw [hnone]
        simp only [hs, if_true]
      | false =>
        obtain ⟨t, ht⟩ := ih (start + delay) hk (habs.sub (by omega) (Nat.le_refl _))
        refine ⟨t, (returns_waitFirst_step _).mpr ?_⟩
        rw [hnone]
        simp only [hs, Bool.false_eq_true, if_false]
        exact ht

/-- A loop that gets the resource does so at the first time it can be had, and no look before
finds the order. -/
theorem Returns.first_available (hdelay : 0 < delay) {start : Nat} {r : Outcome × Nat}
    (h : Returns (waitFirst stop avail delay · start) r) (hr : r.1 = .acquired) :
    start ≤ r.2 ∧ avail r.2 = true ∧ Absent avail start r.2 ∧
      ∀ k, lookTime start delay k ≤ r.2 → stop (lookTime start delay k) = false := by
  refine Returns.waitFirst_induction (motive := fun start r => r.1 = .acquired →
    start ≤ r.2 ∧ avail r.2 = true ∧ Absent avail start r.2 ∧
      ∀ k, lookTime start delay k ≤ r.2 → stop (lookTime start delay k) = false) ?_ ?_ ?_ h hr
  · intro now u hw _
    obtain ⟨hle, hlt, hav, habs⟩ := window_eq_some.mp hw
    refine ⟨hle, hav, habs, ?_⟩
    intro k hk
    have hlook := le_lookTime now delay k
    have hku : lookTime now delay k ≤ u := hk
    omega
  · intro now hw hs hr
    cases hr
  · intro now r hw hs ih hr
    obtain ⟨hle, hav, hrest, hlooks⟩ := ih hr
    refine ⟨by omega, hav, (window_eq_none.mp hw).glue hrest, ?_⟩
    intro k hk
    cases k with
    | zero =>
      rw [lookTime_zero]
      exact hs
    | succ k =>
      rw [lookTime_succ] at hk ⊢
      exact hlooks k hk

/-- Two times at which the resource can be had for the first time are the same. -/
theorem Absent.first_unique {start t u : Nat} (ht : start ≤ t) (hu : start ≤ u)
    (hat : avail t = true) (hau : avail u = true) (habst : Absent avail start t)
    (habsu : Absent avail start u) : u = t := by
  obtain hlt | heq | hgt := Nat.lt_trichotomy u t
  · rw [habst u hu hlt] at hau
    cases hau
  · exact heq
  · rw [habsu t ht hgt] at hat
    cases hat

/-- **The loop gets the resource at the first time it can be had, if no look before found the
order to stop.** -/
theorem returns_acquired_iff (hdelay : 0 < delay) (start t : Nat) :
    Returns (waitFirst stop avail delay · start) (.acquired, t) ↔
      start ≤ t ∧ avail t = true ∧ Absent avail start t ∧
        ∀ k, lookTime start delay k ≤ t → stop (lookTime start delay k) = false := by
  constructor
  · intro h
    exact h.first_available hdelay rfl
  · intro h
    obtain ⟨hle, hav, habs, hlooks⟩ := h
    -- every wait that comes to nothing brings the call nearer to `t`
    induction hn : t - start using Nat.strongRecOn generalizing start with
    | ind n ih =>
      rw [returns_waitFirst_step]
      cases hw : window avail delay start with
      | some u =>
        obtain ⟨hsu, -, hu, hbefore⟩ := window_eq_some.mp hw
        dsimp only
        rw [Absent.first_unique hle hsu hav hu habs hbefore]
      | none =>
        have hlate : start + delay ≤ t := by
          by_contra hearly
          rw [window_eq_none.mp hw t hle (by omega)] at hav
          cases hav
        have hs := hlooks 0 (by rw [lookTime_zero]; exact hlate)
        rw [lookTime_zero] at hs
        simp only [hs, Bool.false_eq_true, if_false]
        apply ih (t - (start + delay)) (by omega) (start + delay) hlate
        · exact habs.sub (by omega) (Nat.le_refl _)
        · intro k hk
          have hk' := hlooks (k + 1) (by rw [lookTime_succ]; exact hk)
          rwa [lookTime_succ] at hk'
        · rfl

end Poll
