import Urt.Lib.Retry
import Urt.Lock.SemWait
import Mathlib.Tactic.Ring

/-!
# The lock functions that take a stop function

`urt_sem_waitf`, `urt_mutex_lockf`, `urt_rwlock_read_lockf`, `urt_rwlock_write_lockf` and
`urt_cond_waitf` of `sys/posix/src/lock.c`, and `urt_sem_timed_wait`, which waits in the same
way. What the stop function answers, and what comes of the attempts, are parameters: `stop i`
is the answer to the `i`-th call, `timed i tp` the outcome of the `i`-th attempt, made with the
deadline `tp`. The semaphore functions report an error in `errno`, those of pthread return it,
and only the former can be interrupted by a signal.
-/

namespace Urt.Posix.Lockf

/-- An `int` that is 0 or an error code: those the functions compare with or return
themselves, and the others. -/
inductive Code where
  | zero
  | etimedout
  | eintr
  | ecanceled
  | other (e : Errno)
  deriving DecidableEq, Repr

/-- What comes of an attempt to take a semaphore. -/
inductive Attempt where
  | acquired
  | timedOut
  | interrupted
  | failed (e : Errno)
  deriving DecidableEq, Repr

def Attempt.code : Attempt → Code
  | acquired => .zero
  | timedOut => .etimedout
  | interrupted => .eintr
  | failed e => .other e

/-- What comes of an attempt that no signal interrupts. -/
def attemptOf : Timed → Attempt
  | .acquired => .acquired
  | .timedOut => .timedOut
  | .failed e => .failed e

@[simp] theorem attemptOf_ne_interrupted (o : Timed) : attemptOf o ≠ .interrupted := by
  cases o <;> exact Attempt.noConfusion

/-- `struct timespec` -/
structure Timespec where
  tvSec : Int
  tvNsec : Int
  deriving DecidableEq, Repr

/-- A `urt_time` as a `struct timespec`. -/
def timespec (t : Int) : Timespec := ⟨t.tdiv 1000000000, t.tmod 1000000000⟩

/-! ## The semaphore -/

/-- The variables of the semaphore functions, `errno` among them. -/
structure SemVars where
  t : Int
  res : Int
  errno : Code
  deriving DecidableEq, Repr

/-- A call of `sem_wait` or `sem_timedwait`: only a failure sets `errno`. -/
def SemVars.call (v : SemVars) : Attempt → SemVars
  | .acquired => { v with res := 0 }
  | o => { v with res := -1, errno := o.code }

@[simp] theorem SemVars.call_t (v : SemVars) (o : Attempt) : (v.call o).t = v.t := by
  cases o <;> rfl

/-- `return res == 0?0:errno` -/
def SemVars.ret (v : SemVars) : Code := if v.res = 0 then .zero else v.errno

/-- `(res = ..) == -1 && errno == e` -/
def SemVars.failedWith (e : Code) (v : SemVars) : Bool := v.res == -1 && v.errno == e

/-- What a call returns, with the looks and attempts it made. -/
structure Answer where
  ret : Code
  looks : Nat
  attempts : Nat
  deriving DecidableEq, Repr

/-- A loop that ended gives the code it left, or `ECANCELED` if a look ended it. -/
def answer {σ : Type} (ret : σ → Code) (r : Retry.Ended σ) : Answer :=
  ⟨r.final.elim .ecanceled ret, r.looks, r.attempts⟩

/-- A round of `urt_sem_waitf`: the deadline moves by `delay`, which is
`URT_LOCK_STOP_MAX_DELAY`. -/
def semRound (delay : Int) (timed : Nat → Timespec → Attempt) (i : Nat) (v : SemVars) : SemVars :=
  let v := { v with t := v.t + delay }
  v.call (timed i (timespec v.t))

/-- `urt_sem_waitf`; `t` is `urt_get_time_epoch`, `timed` is `sem_timedwait`, `wait` is
`sem_wait`. -/
def semWaitf (stop : Option (Nat → Bool)) (delay : Int) (timed : Nat → Timespec → Attempt)
    (wait : Nat → Attempt) (t : Int) (errno : Code) (k : Nat) : Option Answer :=
  match stop with
  | some stop =>
      (Retry.loop stop (semRound delay timed) (SemVars.failedWith .etimedout) k 0
        ⟨t, 0, errno⟩).map (answer SemVars.ret)
  | none =>
      (Retry.loop (fun _ => false) (fun i v => v.call (wait i)) (SemVars.failedWith .eintr) k 0
        ⟨t, 0, errno⟩).map (answer SemVars.ret)

/-- `urt_sem_timed_wait` -/
def semTimedWait (timed : Nat → Timespec → Attempt) (t maxWait : Int) (errno : Code) (k : Nat) :
    Option Answer :=
  (Retry.loop (fun _ => false) (fun i v => v.call (timed i (timespec v.t)))
    (SemVars.failedWith .eintr) k 0 ⟨t + maxWait, 0, errno⟩).map (answer SemVars.ret)

/-! ## The locks of pthread -/

/-- The variables of the other functions. -/
structure PthreadVars where
  t : Int
  res : Code
  deriving DecidableEq, Repr

/-- A round of the other functions. -/
def pthreadRound (delay : Int) (timed : Nat → Timespec → Timed) (i : Nat) (v : PthreadVars) :
    PthreadVars :=
  let t := v.t + delay
  ⟨t, (attemptOf (timed i (timespec t))).code⟩

/-- The body the other functions share: `timed` is their timed function, `plain` what the
function without a time limit returns. -/
def pthreadLockf (timed : Nat → Timespec → Timed) (plain : Code) (stop : Option (Nat → Bool))
    (delay t : Int) (k : Nat) : Option Answer :=
  match stop with
  | some stop =>
      (Retry.loop stop (pthreadRound delay timed) (fun v => v.res == .etimedout) k 0
        ⟨t, .zero⟩).map (answer PthreadVars.res)
  | none => some ⟨plain, 0, 1⟩

/-- `urt_mutex_lockf` -/
def mutexLockf (pthreadMutexTimedlock : Nat → Timespec → Timed) (pthreadMutexLock : Code) :=
  pthreadLockf pthreadMutexTimedlock pthreadMutexLock

/-- `urt_rwlock_read_lockf` -/
def rwlockReadLockf (pthreadRwlockTimedrdlock : Nat → Timespec → Timed)
    (pthreadRwlockRdlock : Code) := pthreadLockf pthreadRwlockTimedrdlock pthreadRwlockRdlock

/-- `urt_rwlock_write_lockf` -/
def rwlockWriteLockf (pthreadRwlockTimedwrlock : Nat → Timespec → Timed)
    (pthreadRwlockWrlock : Code) := pthreadLockf pthreadRwlockTimedwrlock pthreadRwlockWrlock

/-- `urt_cond_waitf` -/
def condWaitf (pthreadCondTimedwait : Nat → Timespec → Timed) (pthreadCondWait : Code) :=
  pthreadLockf pthreadCondTimedwait pthreadCondWait

/-! ## What comes of a call -/

/-- The deadlines of the attempts: the `i`-th is `i + 1` delays after the call. -/
def deadline (t delay : Int) (i : Nat) : Int := t + (i + 1) * delay

/-- The outcomes of the attempts of a call made at time `t`. -/
def outcomes {ω : Type} (timed : Nat → Timespec → ω) (t delay : Int) (i : Nat) : ω :=
  timed i (timespec (deadline t delay i))

/-- The call gets to round `m`: no look before it ends the call, and all attempts before it
come to what makes the call try again. -/
def Reaches (retried : Attempt) (stop : Nat → Bool) (outcome : Nat → Attempt) (m : Nat) : Prop :=
  ∀ j < m, stop j = false ∧ outcome j = retried

/-- The answer of a call that tries again as long as its attempts come to `retried`. -/
def Answers (retried : Attempt) (stop : Nat → Bool) (outcome : Nat → Attempt) (r : Answer) :
    Prop :=
  ∃ m, Reaches retried stop outcome m ∧
    ((stop m = true ∧ r = ⟨.ecanceled, m + 1, m⟩) ∨
      (stop m = false ∧ outcome m ≠ retried ∧ r = ⟨(outcome m).code, m + 1, m + 1⟩))

/-- A loop answers for its attempts if its variables say after each what came of it. -/
theorem returns_answer_iff {σ : Type} {stop : Nat → Bool} {attempt : Nat → σ → σ}
    {again : σ → Bool} {ret : σ → Code} {s : σ} {retried : Attempt} {outcome : Nat → Attempt}
    (hret : ∀ m, ret (Retry.after attempt s (m + 1)) = (outcome m).code)
    (hagain : ∀ m, again (Retry.after attempt s (m + 1)) = true ↔ outcome m = retried)
    (r : Answer) :
    Poll.Returns (fun k => (Retry.loop stop attempt again k 0 s).map (answer ret)) r ↔
      Answers retried stop outcome r := by
  have hgoes : ∀ j, Retry.GoesOn stop attempt again s j ↔
      stop j = false ∧ outcome j = retried := fun j => and_congr_right fun _ => hagain j
  rw [Poll.returns_map]
  simp only [Retry.returns_iff, hgoes]
  constructor
  · intro h
    obtain ⟨e, ⟨m, hreach, hends⟩, rfl⟩ := h
    refine ⟨m, hreach, ?_⟩
    obtain ⟨hstop, rfl⟩ | ⟨hstop, hlast, rfl⟩ := hends
    · exact .inl ⟨hstop, rfl⟩
    · refine .inr ⟨hstop, ?_, ?_⟩
      · intro hretried
        rw [(hagain m).mpr hretried] at hlast
        cases hlast
      · show Answer.mk (ret _) _ _ = _
        rw [hret]
  · intro h
    obtain ⟨m, hreach, ⟨hstop, rfl⟩ | ⟨hstop, hlast, rfl⟩⟩ := h
    · exact ⟨_, ⟨m, hreach, .inl ⟨hstop, rfl⟩⟩, rfl⟩
    · refine ⟨_, ⟨m, hreach, .inr ⟨hstop, ?_, rfl⟩⟩, ?_⟩
      · rwa [← Bool.not_eq_true, hagain]
      · show Answer.mk (ret _) _ _ = _
        rw [hret]

/-- What a call has left in the variables of the semaphore functions. -/
theorem SemVars.ret_call (v : SemVars) (o : Attempt) : (v.call o).ret = o.code := by
  cases o <;> rfl

theorem SemVars.failedWith_call (v : SemVars) {o e : Attempt} (he : e.code ≠ .zero) :
    (v.call o).failedWith e.code = true ↔ o = e := by
  cases o <;> cases e <;> simp_all [SemVars.call, SemVars.failedWith, Attempt.code]

theorem t_after_semRound (delay : Int) (timed : Nat → Timespec → Attempt) (v : SemVars)
    (n : Nat) : (Retry.after (semRound delay timed) v n).t = v.t + n * delay := by
  induction n with
  | zero => simp [Retry.after]
  | succ n ih =>
    have hround : (Retry.after (semRound delay timed) v (n + 1)).t =
        (Retry.after (semRound delay timed) v n).t + delay := SemVars.call_t _ _
    rw [hround, ih]
    push_cast
    ring

theorem t_after_pthreadRound (delay : Int) (timed : Nat → Timespec → Timed) (v : PthreadVars)
    (n : Nat) : (Retry.after (pthreadRound delay timed) v n).t = v.t + n * delay := by
  induction n with
  | zero => simp [Retry.after]
  | succ n ih =>
    show (Retry.after (pthreadRound delay timed) v n).t + delay = _
    rw [ih]
    push_cast
    ring

/-- Called with a stop function, `urt_sem_waitf` answers for its attempts, and tries again
after a time-out. -/
theorem returns_semWaitf (stop : Nat → Bool) (delay : Int) (timed : Nat → Timespec → Attempt)
    (wait : Nat → Attempt) (t : Int) (errno : Code) (r : Answer) :
    Poll.Returns (semWaitf (some stop) delay timed wait t errno) r ↔
      Answers .timedOut stop (outcomes timed t delay) r := by
  have hround : ∀ m, Retry.after (semRound delay timed) ⟨t, 0, errno⟩ (m + 1) =
      { Retry.after (semRound delay timed) ⟨t, 0, errno⟩ m with t := deadline t delay m }.call
        (outcomes timed t delay m) := by
    intro m
    have ht : (Retry.after (semRound delay timed) ⟨t, 0, errno⟩ m).t + delay =
        deadline t delay m := by
      rw [t_after_semRound, deadline]
      ring
    show semRound delay timed m _ = _
    rw [semRound, ht]
    rfl
  apply returns_answer_iff
  · intro m
    rw [hround, SemVars.ret_call]
  · intro m
    rw [hround]
    exact SemVars.failedWith_call _ (e := .timedOut) Code.noConfusion

/-- So do the other functions. -/
theorem returns_pthreadLockf (timed : Nat → Timespec → Timed) (plain : Code) (stop : Nat → Bool)
    (delay t : Int) (r : Answer) :
    Poll.Returns (pthreadLockf timed plain (some stop) delay t) r ↔
      Answers .timedOut stop (fun i => attemptOf (outcomes timed t delay i)) r := by
  have hround : ∀ m, (Retry.after (pthreadRound delay timed) ⟨t, .zero⟩ (m + 1)).res =
      (attemptOf (outcomes timed t delay m)).code := by
    intro m
    have ht : (Retry.after (pthreadRound delay timed) ⟨t, .zero⟩ m).t + delay =
        deadline t delay m := by
      rw [t_after_pthreadRound, deadline]
      ring
    show (pthreadRound delay timed m _).res = _
    rw [pthreadRound, ht]
    rfl
  apply returns_answer_iff
  · exact hround
  · intro m
    rw [hround, beq_iff_eq]
    cases outcomes timed t delay m <;> simp [attemptOf, Attempt.code]

/-- Without a stop function `urt_sem_waitf` tries again after an interruption. -/
theorem returns_semWaitf_none (delay : Int) (timed : Nat → Timespec → Attempt)
    (wait : Nat → Attempt) (t : Int) (errno : Code) (r : Answer) :
    Poll.Returns (semWaitf none delay timed wait t errno) r ↔
      Answers .interrupted (fun _ => false) wait r := by
  apply returns_answer_iff
  · intro m
    exact SemVars.ret_call _ _
  · intro m
    exact SemVars.failedWith_call _ (e := .interrupted) Code.noConfusion

/-- `urt_sem_timed_wait` tries again, with the same deadline, after an interruption. -/
theorem returns_semTimedWait (timed : Nat → Timespec → Attempt) (t maxWait : Int) (errno : Code)
    (r : Answer) :
    Poll.Returns (semTimedWait timed t maxWait errno) r ↔
      Answers .interrupted (fun _ => false) (fun i => timed i (timespec (t + maxWait))) r := by
  have ht : ∀ m, (Retry.after (fun i (v : SemVars) => v.call (timed i (timespec v.t)))
      ⟨t + maxWait, 0, errno⟩ m).t = t + maxWait := by
    intro m
    induction m with
    | zero => rfl
    | succ m ih => exact (SemVars.call_t _ _).trans ih
  have hround : ∀ m, Retry.after (fun i (v : SemVars) => v.call (timed i (timespec v.t)))
      ⟨t + maxWait, 0, errno⟩ (m + 1) = (Retry.after (fun i (v : SemVars) =>
        v.call (timed i (timespec v.t))) ⟨t + maxWait, 0, errno⟩ m).call
          (timed m (timespec (t + maxWait))) := by
    intro m
    show SemVars.call _ (timed m (timespec (SemVars.t _))) = _
    rw [ht]
  apply returns_answer_iff
  · intro m
    rw [hround, SemVars.ret_call]
  · intro m
    rw [hround]
    exact SemVars.failedWith_call _ (e := .interrupted) Code.noConfusion

/-! ## The calls with times

`Posix.semWaitf` takes the semaphore and the stop function by their histories. It is the
function above, with what they answer at the times of the calls. -/

/-- The number of nanoseconds of a `struct timespec`. -/
def Timespec.nanos (tp : Timespec) : Int := tp.tvSec * 1000000000 + tp.tvNsec

@[simp] theorem nanos_timespec (t : Int) : (timespec t).nanos = t := by
  rw [Timespec.nanos, timespec]
  exact Int.tdiv_mul_add_tmod t 1000000000

section Times

variable (timedwait : Nat → Nat → Timed × Nat) (delay now : Nat)

/-- The times at which `Posix.semWaitf` calls the stop function. -/
def callTime : Nat → Nat
  | 0 => now
  | i + 1 => (timedwait (now + (i + 1) * delay) (callTime i)).2

/-- What `sem_timedwait` gives at these times. -/
def timedAt (i : Nat) (tp : Timespec) : Attempt :=
  attemptOf (timedwait tp.nanos.toNat (callTime timedwait delay now i)).1

end Times

/-- What `WaitResult` stands for. -/
def codeOf : WaitResult → Code
  | .ok => .zero
  | .ecanceled => .ecanceled
  | .failed e => .other e

theorem semWaitfLoop_eq (timedwait : Nat → Nat → Timed × Nat) (delay : Nat) (stop : Nat → Bool)
    (now k i : Nat) (v : SemVars) (hv : v.t = now + i * delay) :
    (semWaitfLoop timedwait delay stop k (now + i * delay)
        (callTime timedwait delay now i)).map (fun r => (codeOf r.1, r.2)) =
      ((Retry.loop (fun i => stop (callTime timedwait delay now i))
        (semRound delay (timedAt timedwait delay now)) (SemVars.failedWith .etimedout) k i v).map
          (answer SemVars.ret)).map fun a => (a.ret, callTime timedwait delay now a.attempts) := by
  induction k generalizing i v with
  | zero => rfl
  | succ k ih =>
    rw [semWaitfLoop, Retry.loop]
    cases stop (callTime timedwait delay now i) with
    | true => rfl
    | false =>
      have ht : v.t + delay = ((now + (i + 1) * delay : Nat) : Int) := by
        rw [hv]
        push_cast
        ring
      have hd : now + i * delay + delay = now + (i + 1) * delay := by ring
      have hround : semRound delay (timedAt timedwait delay now) i v =
          { v with t := v.t + delay }.call (attemptOf (timedwait (now + (i + 1) * delay)
            (callTime timedwait delay now i)).1) := by
        show SemVars.call _ (timedAt _ _ _ _ (timespec (v.t + delay))) = _
        rw [timedAt, nanos_timespec, ht, Int.toNat_natCast]
      have hnext : (timedwait (now + (i + 1) * delay) (callTime timedwait delay now i)).2 =
          callTime timedwait delay now (i + 1) := rfl
      rw [hround, hd]
      simp only [Bool.false_eq_true, if_false]
      generalize timedwait (now + (i + 1) * delay) (callTime timedwait delay now i) = o at hnext
      obtain ⟨o, u⟩ := o
      change u = _ at hnext
      subst hnext
      cases o with
      | timedOut => exact ih (i + 1) _ (by rw [SemVars.call_t]; exact_mod_cast ht)
      | acquired | failed => rfl

/-- At each fuel, `Posix.semWaitf` answers as `urt_sem_waitf` does with these parameters. -/
theorem semWaitf_eq_timed (timedwait : Nat → Nat → Timed × Nat) (delay : Nat)
    (stop : Nat → Bool) (wait : Nat → Attempt) (now : Nat) (errno : Code) (k : Nat) :
    (Posix.semWaitf timedwait delay stop now k).map (fun r => (codeOf r.1, r.2)) =
      (semWaitf (some fun i => stop (callTime timedwait delay now i)) delay
        (timedAt timedwait delay now) wait now errno k).map
          fun a => (a.ret, callTime timedwait delay now a.attempts) := by
  have h := semWaitfLoop_eq timedwait delay stop now k 0 ⟨now, 0, errno⟩ (by simp)
  rwa [Nat.zero_mul, Nat.add_zero] at h

/-! ## What the functions are to return -/

/-- What the functions are to return, called with a stop function: `outcome i` is what comes of
the `i`-th attempt. -/
structure LockfLaw (call : Nat → Option Answer) (stop : Nat → Bool) (outcome : Nat → Attempt) :
    Prop where
  /-- told to stop, or with an attempt that succeeds or fails, the call returns -/
  returns : (∃ i, stop i = true ∨ outcome i = .acquired ∨ ∃ e, outcome i = .failed e) →
    ∃ r, Poll.Returns call r
  /-- it returns 0 exactly if its last attempt succeeded -/
  zero : ∀ r, Poll.Returns call r →
    (r.ret = .zero ↔ ∃ i, r.attempts = i + 1 ∧ outcome i = .acquired)
  /-- it returns `ECANCELED` exactly if it was told to stop before any attempt succeeded -/
  ecanceled : ∀ r, Poll.Returns call r →
    (r.ret = .ecanceled ↔ ∃ i < r.looks, stop i = true ∧ ∀ j < i, outcome j ≠ .acquired)
  /-- and then nothing has been acquired -/
  nothing : ∀ r, Poll.Returns call r → r.ret = .ecanceled →
    ∀ j < r.attempts, outcome j ≠ .acquired
  /-- otherwise it returns the error of its last attempt -/
  error : ∀ r, Poll.Returns call r → r.ret ≠ .zero → r.ret ≠ .ecanceled →
    ∃ i, r.attempts = i + 1 ∧ r.ret = (outcome i).code
  /-- it never returns `ETIMEDOUT` or `EINTR` -/
  never : ∀ r, Poll.Returns call r → r.ret ≠ .etimedout ∧ r.ret ≠ .eintr

/-- No attempt the call gets to is interrupted. -/
def NoneInterrupted (stop : Nat → Bool) (outcome : Nat → Attempt) : Prop :=
  ∀ m, Reaches .timedOut stop outcome m → stop m = false → outcome m ≠ .interrupted

theorem Attempt.code_ne_ecanceled (o : Attempt) : o.code ≠ .ecanceled := by
  cases o <;> exact Code.noConfusion

theorem Attempt.code_eq_zero_iff (o : Attempt) : o.code = .zero ↔ o = .acquired := by
  cases o <;> simp [Attempt.code]

/-- A call that tries again after an interruption never returns `EINTR`. -/
theorem Answers.ret_ne_eintr {stop : Nat → Bool} {outcome : Nat → Attempt} {r : Answer}
    (h : Answers .interrupted stop outcome r) : r.ret ≠ .eintr := by
  obtain ⟨m, -, ⟨-, rfl⟩ | ⟨-, hlast, rfl⟩⟩ := h
  · exact Code.noConfusion
  · show (outcome m).code ≠ .eintr
    cases ho : outcome m with
    | interrupted => exact absurd ho hlast
    | acquired | timedOut | failed => exact Code.noConfusion

/-- If a round ends the call, there is a first one, and the call returns from it. -/
theorem Answers.exists_of_end {retried : Attempt} {stop : Nat → Bool} {outcome : Nat → Attempt}
    (h : ∃ i, stop i = true ∨ outcome i ≠ retried) : ∃ r, Answers retried stop outcome r := by
  classical
  have hreach : Reaches retried stop outcome (Nat.find h) := by
    intro j hj
    have hmin := Nat.find_min h hj
    rw [not_or, Bool.not_eq_true, not_not] at hmin
    exact hmin
  cases hstop : stop (Nat.find h) with
  | true => exact ⟨_, Nat.find h, hreach, .inl ⟨hstop, rfl⟩⟩
  | false =>
    refine ⟨_, Nat.find h, hreach, .inr ⟨hstop, ?_, rfl⟩⟩
    obtain hspec | hspec := Nat.find_spec h
    · rw [hstop] at hspec
      cases hspec
    · exact hspec

/-! What follows for a call that tries again after a time-out. -/

section TimedOut

variable {stop : Nat → Bool} {outcome : Nat → Attempt} {r : Answer}

theorem Reaches.ne_acquired {m : Nat} (h : Reaches .timedOut stop outcome m) {j : Nat}
    (hj : j < m) : outcome j ≠ .acquired := by
  rw [(h j hj).2]
  exact Attempt.noConfusion

theorem Answers.zero_iff (h : Answers .timedOut stop outcome r) :
    r.ret = .zero ↔ ∃ i, r.attempts = i + 1 ∧ outcome i = .acquired := by
  obtain ⟨m, hreach, ⟨-, rfl⟩ | ⟨-, -, rfl⟩⟩ := h
  · constructor
    · intro h
      cases h
    · intro h
      obtain ⟨i, hi, hacq⟩ := h
      have him : i < m := Nat.lt_of_succ_le (Nat.le_of_eq hi.symm)
      exact absurd hacq (hreach.ne_acquired him)
  · show (outcome m).code = _ ↔ _
    rw [Attempt.code_eq_zero_iff]
    constructor
    · intro h
      exact ⟨m, rfl, h⟩
    · intro h
      obtain ⟨i, hi, hacq⟩ := h
      cases hi
      exact hacq

theorem Answers.ecanceled_iff (h : Answers .timedOut stop outcome r) :
    r.ret = .ecanceled ↔ ∃ i < r.looks, stop i = true ∧ ∀ j < i, outcome j ≠ .acquired := by
  obtain ⟨m, hreach, ⟨hstop, rfl⟩ | ⟨hstop, -, rfl⟩⟩ := h
  · constructor
    · intro _
      exact ⟨m, Nat.lt_succ_self m, hstop, fun j hj => hreach.ne_acquired hj⟩
    · intro _
      rfl
  · constructor
    · intro h
      exact absurd h (outcome m).code_ne_ecanceled
    · intro h
      obtain ⟨i, hi, htrue, -⟩ := h
      have hfalse : stop i = false := by
        obtain rfl | him := Nat.eq_or_lt_of_le (Nat.le_of_lt_succ hi)
        · exact hstop
        · exact (hreach i him).1
      rw [hfalse] at htrue
      cases htrue

theorem Answers.nothing_acquired (h : Answers .timedOut stop outcome r) (hret : r.ret = .ecanceled)
    {j : Nat} (hj : j < r.attempts) : outcome j ≠ .acquired := by
  obtain ⟨m, hreach, ⟨-, rfl⟩ | ⟨-, -, rfl⟩⟩ := h
  · exact hreach.ne_acquired hj
  · exact absurd hret (outcome m).code_ne_ecanceled

theorem Answers.ret_eq (h : Answers .timedOut stop outcome r) (hret : r.ret ≠ .ecanceled) :
    ∃ i, r.attempts = i + 1 ∧ r.ret = (outcome i).code := by
  obtain ⟨m, -, ⟨-, rfl⟩ | ⟨-, -, rfl⟩⟩ := h
  · exact absurd rfl hret
  · exact ⟨m, rfl, rfl⟩

theorem Answers.ret_ne (h : Answers .timedOut stop outcome r)
    (hnone : NoneInterrupted stop outcome) : r.ret ≠ .etimedout ∧ r.ret ≠ .eintr := by
  obtain ⟨m, hreach, ⟨-, rfl⟩ | ⟨hstop, hlast, rfl⟩⟩ := h
  · exact ⟨Code.noConfusion, Code.noConfusion⟩
  · show (outcome m).code ≠ _ ∧ (outcome m).code ≠ _
    have hint := hnone m hreach hstop
    cases ho : outcome m with
    | timedOut => exact absurd ho hlast
    | interrupted => exact absurd ho hint
    | acquired | failed => exact ⟨Code.noConfusion, Code.noConfusion⟩

end TimedOut

/-- A call that tries again only after a time-out keeps to the law exactly if no attempt it
gets to is interrupted. -/
theorem lockfLaw_of_answers {call : Nat → Option Answer} {stop : Nat → Bool}
    {outcome : Nat → Attempt}
    (hcall : ∀ r, Poll.Returns call r ↔ Answers .timedOut stop outcome r) :
    LockfLaw call stop outcome ↔ NoneInterrupted stop outcome := by
  constructor
  · intro hlaw m hreach hstop hint
    apply (hlaw.never ⟨.eintr, m + 1, m + 1⟩ ((hcall _).mpr ⟨m, hreach, .inr ⟨hstop, ?_, ?_⟩⟩)).2
    · rfl
    · rw [hint]
      exact Attempt.noConfusion
    · rw [hint]
      rfl
  · intro hnone
    constructor
    · intro h
      obtain ⟨i, hi⟩ := h
      simp only [hcall]
      apply Answers.exists_of_end
      refine ⟨i, ?_⟩
      obtain hi | hi | ⟨e, hi⟩ := hi
      · exact .inl hi
      · exact .inr (by rw [hi]; exact Attempt.noConfusion)
      · exact .inr (by rw [hi]; exact Attempt.noConfusion)
    · intro r hr
      exact ((hcall r).mp hr).zero_iff
    · intro r hr
      exact ((hcall r).mp hr).ecanceled_iff
    · intro r hr hret j hj
      exact ((hcall r).mp hr).nothing_acquired hret hj
    · intro r hr _ hcanceled
      exact ((hcall r).mp hr).ret_eq hcanceled
    · intro r hr
      exact ((hcall r).mp hr).ret_ne hnone

/-- Called with a stop function, a function of the pthread locks keeps to the law, whatever its
attempts come to. -/
def KeepsLaw (lockf : (Nat → Timespec → Timed) → Code → Option (Nat → Bool) → Int → Int → Nat →
    Option Answer) : Prop :=
  ∀ timed plain stop delay t, LockfLaw (lockf timed plain (some stop) delay t) stop
    fun i => attemptOf (outcomes timed t delay i)

theorem keepsLaw_pthreadLockf : KeepsLaw pthreadLockf := fun timed plain stop delay t =>
  (lockfLaw_of_answers (returns_pthreadLockf timed plain stop delay t)).mpr
    fun _ _ _ => attemptOf_ne_interrupted _

/-- **For all answers of the stop function and all outcomes of the attempts, `urt_sem_waitf`
keeps to the law exactly if no attempt it gets to is interrupted by a signal. The other four
functions always do.** -/
theorem lockf_lawful (stop : Nat → Bool) (delay : Int) (timed : Nat → Timespec → Attempt)
    (wait : Nat → Attempt) (t : Int) (errno : Code) :
    (LockfLaw (semWaitf (some stop) delay timed wait t errno) stop (outcomes timed t delay) ↔
      NoneInterrupted stop (outcomes timed t delay)) ∧
    KeepsLaw mutexLockf ∧ KeepsLaw rwlockReadLockf ∧ KeepsLaw rwlockWriteLockf ∧
    KeepsLaw condWaitf :=
  ⟨lockfLaw_of_answers (returns_semWaitf stop delay timed wait t errno),
    keepsLaw_pthreadLockf, keepsLaw_pthreadLockf, keepsLaw_pthreadLockf, keepsLaw_pthreadLockf⟩

/-- A wait that is never told to stop, whose first attempt is interrupted. -/
theorem semWaitf_eintr :
    ¬ LockfLaw (semWaitf (some fun _ => false) 10 (fun _ _ => .interrupted) (fun _ => .acquired)
      0 .zero) (fun _ => false) (outcomes (fun _ _ => .interrupted) 0 10) := by
  intro h
  exact (h.never ⟨.eintr, 1, 1⟩ ⟨1, rfl⟩).2 rfl

end Urt.Posix.Lockf
