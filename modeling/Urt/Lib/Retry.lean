import Urt.Lib.Poll

/-!
# Trying with looks

A loop over a state: each round looks whether to stop and, if not, makes an attempt, which
changes the state; the loop goes on as long as the attempt calls for another one. `stop i` is
what the look of round `i` finds, `attempt i` what the attempt of round `i` does.
-/

namespace Retry

/-- What a loop leaves: the state after the last attempt, or `none` if a look ended it; the
number of looks; the number of attempts. -/
structure Ended (σ : Type) where
  final : Option σ
  looks : Nat
  attempts : Nat
  deriving DecidableEq, Repr

section

variable {σ : Type} (stop : Nat → Bool) (attempt : Nat → σ → σ) (again : σ → Bool)

/-- The loop from round `i`, for at most the given number of rounds. -/
def loop : Nat → Nat → σ → Option (Ended σ)
  | 0, _, _ => none
  | k + 1, i, s =>
      if stop i then some ⟨none, i + 1, i⟩
      else if again (attempt i s) then loop k (i + 1) (attempt i s)
      else some ⟨some (attempt i s), i + 1, i + 1⟩

/-- A loop without looks: it makes an attempt, and another one as long as the attempt calls for
it. It leaves the state after the last attempt and the number of attempts. -/
def doWhile : Nat → Nat → σ → Option (σ × Nat)
  | 0, _, _ => none
  | k + 1, i, s =>
      if again (attempt i s) then doWhile k (i + 1) (attempt i s) else some (attempt i s, i + 1)

/-- The state after `n` attempts. -/
def after (s : σ) : Nat → σ
  | 0 => s
  | n + 1 => attempt n (after s n)

/-- The loop goes on after round `j`. -/
def GoesOn (s : σ) (j : Nat) : Prop := stop j = false ∧ again (after attempt s (j + 1)) = true

/-- The loop ends in round `m` with the given result. -/
def EndsAt (s : σ) (m : Nat) (r : Ended σ) : Prop :=
  (stop m = true ∧ r = ⟨none, m + 1, m⟩) ∨
    (stop m = false ∧ again (after attempt s (m + 1)) = false ∧
      r = ⟨some (after attempt s (m + 1)), m + 1, m + 1⟩)

end

variable {σ : Type} {stop : Nat → Bool} {attempt : Nat → σ → σ} {again : σ → Bool}

theorem endsAt_of_loop {s : σ} {k i : Nat} {r : Ended σ}
    (h : loop stop attempt again k i (after attempt s i) = some r) :
    ∃ m, i ≤ m ∧ (∀ j, i ≤ j → j < m → GoesOn stop attempt again s j) ∧
      EndsAt stop attempt again s m r := by
  induction k generalizing i with
  | zero => cases h
  | succ k ih =>
    rw [loop] at h
    cases hstop : stop i with
    | true =>
      rw [hstop, if_pos rfl] at h
      cases h
      exact ⟨i, Nat.le_refl i, fun j h₁ h₂ => by omega, .inl ⟨hstop, rfl⟩⟩
    | false =>
      rw [hstop, if_neg Bool.false_ne_true] at h
      change (if again (after attempt s (i + 1)) then _ else _) = _ at h
      cases hagain : again (after attempt s (i + 1)) with
      | true =>
        rw [hagain, if_pos rfl] at h
        obtain ⟨m, him, hgo, hends⟩ := ih h
        refine ⟨m, by omega, ?_, hends⟩
        intro j h₁ h₂
        by_cases hj : j = i
        · subst hj
          exact ⟨hstop, hagain⟩
        · exact hgo j (by omega) h₂
      | false =>
        rw [hagain, if_neg Bool.false_ne_true] at h
        cases h
        exact ⟨i, Nat.le_refl i, fun j h₁ h₂ => by omega, .inr ⟨hstop, hagain, rfl⟩⟩

theorem loop_of_endsAt {s : σ} {n i : Nat} {r : Ended σ}
    (hgo : ∀ j, i ≤ j → j < i + n → GoesOn stop attempt again s j)
    (hends : EndsAt stop attempt again s (i + n) r) :
    loop stop attempt again (n + 1) i (after attempt s i) = some r := by
  induction n generalizing i with
  | zero =>
    rw [loop]
    obtain ⟨hstop, rfl⟩ | ⟨hstop, hagain, rfl⟩ := hends
    · exact if_pos hstop
    · rw [if_neg (by simpa using hstop)]
      change again (attempt i (after attempt s i)) = false at hagain
      rw [hagain]
      rfl
  | succ n ih =>
    obtain ⟨hstop, hagain⟩ := hgo i (Nat.le_refl i) (by omega)
    rw [loop, if_neg (by simpa using hstop)]
    have hround : attempt i (after attempt s i) = after attempt s (i + 1) := rfl
    rw [hround, if_pos hagain]
    apply ih
    · intro j h₁ h₂
      exact hgo j (by omega) (by omega)
    · rwa [show i + 1 + n = i + (n + 1) by omega]

/-- The loop returns what it has in the first round in which it does not go on. -/
theorem returns_iff {s : σ} {r : Ended σ} :
    Poll.Returns (fun k => loop stop attempt again k 0 s) r ↔
      ∃ m, (∀ j < m, GoesOn stop attempt again s j) ∧ EndsAt stop attempt again s m r := by
  constructor
  · intro h
    obtain ⟨k, hk⟩ := h
    obtain ⟨m, -, hgo, hends⟩ := endsAt_of_loop (i := 0) hk
    exact ⟨m, fun j hj => hgo j (Nat.zero_le j) hj, hends⟩
  · intro h
    obtain ⟨m, hgo, hends⟩ := h
    refine ⟨m + 1, loop_of_endsAt (i := 0) ?_ ?_⟩
    · intro j _ hj
      exact hgo j (by omega)
    · rwa [Nat.zero_add]

theorem loop_eq_doWhile (k i : Nat) (s : σ) :
    loop (fun _ => false) attempt again k i s =
      (doWhile attempt again k i s).map fun r => ⟨some r.1, r.2, r.2⟩ := by
  induction k generalizing i s with
  | zero => rfl
  | succ k ih =>
    rw [loop, doWhile, if_neg Bool.false_ne_true]
    split
    · exact ih (i + 1) (attempt i s)
    · rfl

/-- The loop without looks returns what it has after the first attempt that does not call for
another one. -/
theorem doWhile_returns_iff {s : σ} {r : σ × Nat} :
    Poll.Returns (fun k => doWhile attempt again k 0 s) r ↔
      ∃ m, (∀ j < m, again (after attempt s (j + 1)) = true) ∧
        again (after attempt s (m + 1)) = false ∧ r = (after attempt s (m + 1), m + 1) := by
  have hmap : Poll.Returns (fun k => doWhile attempt again k 0 s) r ↔
      Poll.Returns (fun k => loop (fun _ => false) attempt again k 0 s)
        ⟨some r.1, r.2, r.2⟩ := by
    simp only [loop_eq_doWhile, Poll.returns_map]
    constructor
    · intro h
      exact ⟨r, h, rfl⟩
    · intro h
      obtain ⟨r', hr', he⟩ := h
      cases r'
      cases he
      exact hr'
  rw [hmap, returns_iff]
  constructor
  · intro h
    obtain ⟨m, hgo, ⟨hstop, -⟩ | ⟨-, hlast, he⟩⟩ := h
    · cases hstop
    · refine ⟨m, fun j hj => (hgo j hj).2, hlast, ?_⟩
      cases r
      cases he
      rfl
  · intro h
    obtain ⟨m, hgo, hlast, rfl⟩ := h
    exact ⟨m, fun j hj => ⟨rfl, hgo j hj⟩, .inr ⟨rfl, hlast, rfl⟩⟩

/-! ## Trying first

A loop that looks only when an attempt calls for another one. It is the other loop, with looks
that come one round later and a first look that finds nothing. -/

/-- The looks of a loop that tries first, numbered as those of one that looks first. -/
def lookLater (stop : Nat → Bool) : Nat → Bool
  | 0 => false
  | i + 1 => stop i

/-- One look more. -/
def Ended.lookedMore (r : Ended σ) : Ended σ := { r with looks := r.looks + 1 }

section

variable (stop : Nat → Bool) (attempt : Nat → σ → σ) (again : σ → Bool)

/-- The loop from round `i`, for at most the given number of rounds. -/
def tryFirst : Nat → Nat → σ → Option (Ended σ)
  | 0, _, _ => none
  | k + 1, i, s =>
      if again (attempt i s) then
        if stop i then some ⟨none, i + 1, i + 1⟩ else tryFirst k (i + 1) (attempt i s)
      else some ⟨some (attempt i s), i, i + 1⟩

end

theorem loop_of_tryFirst {s : σ} {k i : Nat} {r : Ended σ} (hi : lookLater stop i = false)
    (h : tryFirst stop attempt again k i s = some r) :
    loop (lookLater stop) attempt again (k + 1) i s = some r.lookedMore := by
  induction k generalizing i s with
  | zero => cases h
  | succ k ih =>
    rw [tryFirst] at h
    rw [loop, hi, if_neg Bool.false_ne_true]
    cases hagain : again (attempt i s) with
    | true =>
      simp only [hagain, if_true] at h ⊢
      cases hstop : stop i with
      | true =>
        simp only [hstop, if_true, Option.some.injEq] at h
        subst h
        rw [loop, if_pos (show lookLater stop (i + 1) = true from hstop)]
        rfl
      | false =>
        simp only [hstop, Bool.false_eq_true, if_false] at h
        exact ih hstop h
    | false =>
      simp only [hagain, Bool.false_eq_true, if_false, Option.some.injEq] at h ⊢
      subst h
      rfl

theorem tryFirst_of_loop {s : σ} {k i : Nat} {q : Ended σ} (hi : lookLater stop i = false)
    (h : loop (lookLater stop) attempt again k i s = some q) :
    ∃ r, tryFirst stop attempt again k i s = some r ∧ r.lookedMore = q := by
  induction k generalizing i s with
  | zero => cases h
  | succ k ih =>
    rw [loop, hi, if_neg Bool.false_ne_true] at h
    rw [tryFirst]
    cases hagain : again (attempt i s) with
    | true =>
      simp only [hagain, if_true] at h ⊢
      cases hstop : stop i with
      | true =>
        cases k with
        | zero => cases h
        | succ k =>
          rw [loop, if_pos (show lookLater stop (i + 1) = true from hstop)] at h
          exact ⟨_, if_pos rfl, Option.some.inj h⟩
      | false =>
        simp only [Bool.false_eq_true, if_false]
        exact ih hstop h
    | false =>
      simp only [hagain, Bool.false_eq_true, if_false, Option.some.injEq] at h ⊢
      exact ⟨_, rfl, h⟩

/-- What the loop with later looks returns is what the loop that tries first does, with one look
more. -/
theorem returns_lookLater_iff {s : σ} {q : Ended σ} :
    Poll.Returns (fun k => loop (lookLater stop) attempt again k 0 s) q ↔
      ∃ r, Poll.Returns (fun k => tryFirst stop attempt again k 0 s) r ∧ r.lookedMore = q := by
  constructor
  · intro h
    obtain ⟨k, hk⟩ := h
    obtain ⟨r, hr, he⟩ := tryFirst_of_loop rfl hk
    exact ⟨r, ⟨k, hr⟩, he⟩
  · intro h
    obtain ⟨r, ⟨k, hk⟩, rfl⟩ := h
    exact ⟨k + 1, loop_of_tryFirst rfl hk⟩

end Retry
