import Urt.Lib.Poll
import Urt.Registry.Basic

/-!
# Waiting for a semaphore with a stop function

`urt_sem_waitf` of both back ends (`sys/posix/src/lock.c`, `sys/rtai/src/lock.c`), called with
a stop function. Both wait `URT_LOCK_STOP_MAX_DELAY` at a time for the semaphore; the POSIX
version looks before each wait whether to stop, the RTAI version only after a wait that timed
out. `sem_timedwait` and `rt_sem_wait_timed` are parameters: given the time of the call they
answer with what came of it and with the time of their return. Times are in nanoseconds, and
nothing but these calls takes time.
-/

namespace Urt

/-- What comes of a timed wait: the semaphore, a time-out (`ETIMEDOUT`, `RTE_TIMOUT`), or
another error. -/
inductive Timed where
  | acquired
  | timedOut
  | failed (e : Errno)
  deriving DecidableEq, Repr

/-- What `urt_sem_waitf` returns: `0`, `ECANCELED`, or another error. -/
inductive WaitResult where
  | ok
  | ecanceled
  | failed (e : Errno)
  deriving DecidableEq, Repr

/-- The loop of the POSIX `urt_sem_waitf`, for at most the given number of rounds. The deadline
`t` moves by `delay` in each round, whatever the time is. -/
def Posix.semWaitfLoop (timedwait : Nat → Nat → Timed × Nat) (delay : Nat) (stop : Nat → Bool) :
    Nat → Nat → Nat → Option (WaitResult × Nat)
  | 0, _, _ => none
  | k + 1, t, now =>
      if stop now then some (.ecanceled, now)
      else
        match timedwait (t + delay) now with
        | (.timedOut, now) => semWaitfLoop timedwait delay stop k (t + delay) now
        | (.acquired, now) => some (.ok, now)
        | (.failed e, now) => some (.failed e, now)

/-- `urt_sem_waitf` with a stop function on POSIX, called at time `now`; `timedwait` is
`sem_timedwait`, given the deadline. -/
def Posix.semWaitf (timedwait : Nat → Nat → Timed × Nat) (delay : Nat) (stop : Nat → Bool)
    (now k : Nat) : Option (WaitResult × Nat) := semWaitfLoop timedwait delay stop k now now

/-- `urt_sem_waitf` with a stop function on RTAI, called at time `now`; `waitTimed` is
`rt_sem_wait_timed`, given the delay. -/
def Rtai.semWaitf (waitTimed : Nat → Nat → Timed × Nat) (delay : Nat) (stop : Nat → Bool) :
    (now k : Nat) → Option (WaitResult × Nat)
  | _, 0 => none
  | now, k + 1 =>
      match waitTimed delay now with
      | (.timedOut, now) =>
          if stop now then some (.ecanceled, now) else semWaitf waitTimed delay stop now k
      | (.acquired, now) => some (.ok, now)
      | (.failed _, now) => some (.failed .einval, now)

/-! ## Histories of the semaphore -/

/-- A timed wait from `now` until `deadline` takes the semaphore at the first time in between
at which it is available, or times out at the deadline without taking it. -/
def TakesOrTimesOut (avail : Nat → Bool) (timedwait : Nat → Nat → Timed × Nat)
    (deadline : Nat → Nat → Nat) : Prop :=
  ∀ arg now, now ≤ deadline arg now → timedwait arg now =
    match Poll.window avail (deadline arg now - now) now with
    | some u => (.acquired, u)
    | none => (.timedOut, deadline arg now)

/-- A `sem_timedwait` with the given history. -/
def timedwaitOf (avail : Nat → Bool) (deadline now : Nat) : Timed × Nat :=
  match Poll.window avail (deadline - now) now with
  | some u => (.acquired, u)
  | none => (.timedOut, deadline)

/-- A `rt_sem_wait_timed` with the given history. -/
def waitTimedOf (avail : Nat → Bool) (delay now : Nat) : Timed × Nat :=
  timedwaitOf avail (now + delay) now

theorem timedwaitOf_spec (avail : Nat → Bool) :
    TakesOrTimesOut avail (timedwaitOf avail) fun deadline _ => deadline := fun _ _ _ => rfl

theorem waitTimedOf_spec (avail : Nat → Bool) :
    TakesOrTimesOut avail (waitTimedOf avail) fun delay now => now + delay := fun _ _ _ => rfl

/-- The answer of `urt_sem_waitf` to the way its wait ends. -/
def WaitResult.of : Poll.Outcome → WaitResult
  | .acquired => .ok
  | .stopped => .ecanceled

section Histories

variable {avail stop : Nat → Bool} {delay : Nat} {timedwait waitTimed : Nat → Nat → Timed × Nat}

/-- The POSIX version looks first. -/
theorem Posix.semWaitf_eq (hposix : TakesOrTimesOut avail timedwait fun deadline _ => deadline)
    (now k : Nat) :
    Posix.semWaitf timedwait delay stop now k =
      (Poll.lookFirst stop avail delay k now).map fun r => (.of r.1, r.2) := by
  unfold Posix.semWaitf
  induction k generalizing now with
  | zero => rfl
  | succ k ih =>
    rw [semWaitfLoop, Poll.lookFirst]
    cases stop now with
    | true => rfl
    | false =>
      rw [hposix _ _ (Nat.le_add_right now delay), Nat.add_sub_cancel_left]
      simp only [Bool.false_eq_true, if_false]
      cases Poll.window avail delay now with
      | some u => rfl
      | none => exact ih (now + delay)

/-- The RTAI version waits first. -/
theorem Rtai.semWaitf_eq (hrtai : TakesOrTimesOut avail waitTimed fun delay now => now + delay)
    (now k : Nat) :
    Rtai.semWaitf waitTimed delay stop now k =
      (Poll.waitFirst stop avail delay k now).map fun r => (.of r.1, r.2) := by
  induction k generalizing now with
  | zero => rfl
  | succ k ih =>
    rw [semWaitf, Poll.waitFirst, hrtai _ _ (Nat.le_add_right now delay), Nat.add_sub_cancel_left]
    cases Poll.window avail delay now with
    | some u => rfl
    | none =>
      dsimp only
      cases stop (now + delay) with
      | true => rfl
      | false => exact ih (now + delay)

/-- A result of either version is the end of its wait. -/
theorem returns_of (loop : Nat → Option (Poll.Outcome × Nat)) (o : Poll.Outcome) (t : Nat) :
    Poll.Returns (fun k => (loop k).map fun r => (WaitResult.of r.1, r.2)) (.of o, t) ↔
      Poll.Returns loop (o, t) := by
  rw [Poll.returns_map]
  constructor
  · rintro ⟨⟨o', t'⟩, hr, hrt⟩
    cases o <;> cases o' <;> cases hrt <;> exact hr
  · intro h
    exact ⟨(o, t), h, rfl⟩

end Histories

/-! ## What the documentation says, and what the code does -/

/-- The two versions, called at time `start`, agree and do what the documentation says, taken
at its word. -/
structure SemWaitfAsDocumented (posix rtai : Nat → Option (WaitResult × Nat))
    (stop avail : Nat → Bool) (start : Nat) : Prop where
  /-- they return the same -/
  agree : ∀ r, (∃ t, Poll.Returns posix (r, t)) ↔ ∃ t, Poll.Returns rtai (r, t)
  /-- told to stop before the call, they are canceled -/
  atOnce : stop start = true →
    (∃ t, Poll.Returns posix (.ecanceled, t)) ∧ ∃ t, Poll.Returns rtai (.ecanceled, t)
  /-- told later, they are canceled exactly if that is before the semaphore can be taken -/
  later : stop start = false →
    ((∃ t, Poll.Returns posix (.ecanceled, t)) ↔
      ∃ t, start ≤ t ∧ stop t = true ∧ Poll.Absent avail start (t + 1)) ∧
    ((∃ t, Poll.Returns rtai (.ecanceled, t)) ↔
      ∃ t, start ≤ t ∧ stop t = true ∧ Poll.Absent avail start (t + 1))

/-- What the code does by design: it looks at the stop function once every `delay`. -/
structure SemWaitfByLooks (posix rtai : Nat → Option (WaitResult × Nat))
    (stop avail : Nat → Bool) (delay start : Nat) : Prop where
  /-- told to stop before the call, the POSIX version is canceled at once -/
  atOnce : stop start = true → ∀ r t, Poll.Returns posix (r, t) ↔ r = .ecanceled ∧ t = start
  /-- otherwise the versions return the same at the same time -/
  agree : stop start = false → ∀ r, Poll.Returns posix r ↔ Poll.Returns rtai r
  /-- they are canceled exactly if a look finds the order before the semaphore can be taken -/
  canceled : stop start = false → ((∃ t, Poll.Returns posix (.ecanceled, t)) ↔
    ∃ k, stop (Poll.lookTime start delay k) = true ∧
      Poll.Absent avail start (Poll.lookTime start delay k))
  /-- they take the semaphore as soon as it can be taken, if no look before found the order -/
  acquired : 0 < delay → stop start = false → ∀ t, Poll.Returns posix (.ok, t) ↔
    start ≤ t ∧ avail t = true ∧ Poll.Absent avail start t ∧
      ∀ k, Poll.lookTime start delay k ≤ t → stop (Poll.lookTime start delay k) = false

/-- **For all histories of the semaphore and of the stop function, `urt_sem_waitf` is canceled
at once on POSIX if it is told to stop before the call; otherwise both versions do the same,
and they are canceled exactly if one of their looks, one every `URT_LOCK_STOP_MAX_DELAY`,
finds the order to stop before the semaphore can be taken.** -/
theorem semWaitf_byLooks {avail stop : Nat → Bool} {timedwait waitTimed : Nat → Nat → Timed × Nat}
    (hposix : TakesOrTimesOut avail timedwait fun deadline _ => deadline)
    (hrtai : TakesOrTimesOut avail waitTimed fun delay now => now + delay) (delay start : Nat) :
    SemWaitfByLooks (Posix.semWaitf timedwait delay stop start)
      (Rtai.semWaitf waitTimed delay stop start) stop avail delay start := by
  have hp : Posix.semWaitf timedwait delay stop start =
      fun k => (Poll.lookFirst stop avail delay k start).map fun r => (.of r.1, r.2) :=
    funext fun k => Posix.semWaitf_eq hposix start k
  have hr : Rtai.semWaitf waitTimed delay stop start =
      fun k => (Poll.waitFirst stop avail delay k start).map fun r => (.of r.1, r.2) :=
    funext fun k => Rtai.semWaitf_eq hrtai start k
  rw [hp, hr]
  constructor
  · intro hstop r t
    rw [Poll.returns_map]
    simp only [Poll.returns_lookFirst_of_stop hstop]
    constructor
    · rintro ⟨_, rfl, hrt⟩
      cases hrt
      exact ⟨rfl, rfl⟩
    · rintro ⟨rfl, rfl⟩
      exact ⟨_, rfl, rfl⟩
  · intro hstop r
    rw [Poll.returns_map, Poll.returns_map]
    simp only [Poll.returns_lookFirst hstop]
  · intro hstop
    rw [← Poll.returns_stopped_iff]
    apply exists_congr
    intro t
    rw [← Poll.returns_lookFirst hstop]
    exact returns_of _ .stopped t
  · intro hdelay hstop t
    rw [← Poll.returns_acquired_iff hdelay, ← Poll.returns_lookFirst hstop]
    exact returns_of _ .acquired t

/-- A semaphore that is posted at time 25, with the order to stop at time 15, and a look every
ten: both versions are canceled. -/
theorem semWaitf_byLooks_ten :
    ∃ t, Poll.Returns (Rtai.semWaitf (waitTimedOf fun u => 25 ≤ u) 10 (fun u => 15 ≤ u) 0)
      (.ecanceled, t) := by
  have h : SemWaitfByLooks (Posix.semWaitf (timedwaitOf fun u => 25 ≤ u) 10 (fun u => 15 ≤ u) 0)
      (Rtai.semWaitf (waitTimedOf fun u => 25 ≤ u) 10 (fun u => 15 ≤ u) 0)
      (fun u => 15 ≤ u) (fun u => 25 ≤ u) 10 0 :=
    semWaitf_byLooks (timedwaitOf_spec _) (waitTimedOf_spec _) 10 0
  obtain ⟨t, ht⟩ := (h.canceled rfl).mpr ⟨1, rfl, fun u _ hu => by
    have hu : u < 20 := hu
    exact decide_eq_false (by omega)⟩
  exact ⟨t, (h.agree rfl _).mp ht⟩

/-- Told to stop before the call, with the semaphore available, the POSIX version is canceled
and the RTAI version takes the semaphore. And an order that comes at time 3, with the
semaphore posted at time 5 and a look every ten, is not seen by either version. -/
theorem semWaitf_not_asDocumented :
    ¬ SemWaitfAsDocumented (Posix.semWaitf (timedwaitOf fun _ => true) 10 (fun _ => true) 0)
        (Rtai.semWaitf (waitTimedOf fun _ => true) 10 (fun _ => true) 0)
        (fun _ => true) (fun _ => true) 0 ∧
      ¬ SemWaitfAsDocumented
        (Posix.semWaitf (timedwaitOf fun u => 5 ≤ u) 10 (fun u => 3 ≤ u) 0)
        (Rtai.semWaitf (waitTimedOf fun u => 5 ≤ u) 10 (fun u => 3 ≤ u) 0)
        (fun u => 3 ≤ u) (fun u => 5 ≤ u) 0 := by
  constructor
  · intro h
    obtain ⟨-, t, k, hk⟩ := h.atOnce rfl
    cases k <;> cases hk
  · intro h
    obtain ⟨t, k, hk⟩ := (h.later rfl).1.mpr ⟨3, by omega, rfl, fun u _ hu => by
      exact decide_eq_false (by omega)⟩
    cases k <;> cases hk

end Urt
