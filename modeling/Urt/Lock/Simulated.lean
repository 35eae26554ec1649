import Urt.Lock.Lockf

/-!
# Timed locks made of attempts

Where the system lacks the timed lock functions, `SIMULATE_TIMEDLOCK_WITH_TRYLOCK`
(`sys/posix/src/lock.c`) makes them of the functions that only try: one body for `sem_trywait`,
which reports in `errno`, and for the functions of pthread, which report in what they return and
leave `errno` as it is. What comes of the attempts is a parameter, and so are the clock, the first
value of `errno` and what a sleep makes of it.

`timedlock_lawful_iff` says that the semaphore function is what it stands for, and for which
values of `errno` the other three are.
-/

namespace Urt.Posix.Timedlock

open Lockf (Timespec)

/-! ## Attempts -/

/-- Zero and the error codes: those that the functions compare with, and the others. -/
inductive Code where
  | zero
  | eagain
  | ebusy
  | etimedout
  | other (e : Errno)
  deriving DecidableEq, Repr

/-- What a function returns. -/
inductive Ret where
  | minusOne
  | code (c : Code)
  deriving DecidableEq, Repr

theorem Ret.code_ne_zero {c : Code} (h : c ≠ .zero) : Ret.code c ≠ .code .zero :=
  fun he => h (Ret.code.inj he)

/-- An error of an attempt other than `busy`, which tells that the lock is not free. No function
that only tries times out. -/
structure Failure (busy : Code) where
  code : Code
  ne_zero : code ≠ .zero
  ne_busy : code ≠ busy
  ne_etimedout : code ≠ .etimedout

/-- What comes of an attempt. -/
inductive Trylock (busy : Code) where
  | acquired
  | busy
  | failed (f : Failure busy)

/-- What a function that reports in `errno` returns, and `errno` after it. -/
def errnoCall {busy : Code} (o : Trylock busy) (errno : Code) : Ret × Code :=
  match o with
  | .acquired => (.code .zero, errno)
  | .busy => (.minusOne, busy)
  | .failed f => (.minusOne, f.code)

/-- What a function that reports in what it returns does. -/
def returnCall {busy : Code} (o : Trylock busy) (errno : Code) : Ret × Code :=
  match o with
  | .acquired => (.code .zero, errno)
  | .busy => (.code busy, errno)
  | .failed f => (.code f.code, errno)

/-! ## `SIMULATE_TIMEDLOCK_WITH_TRYLOCK` -/

/-- What comes after the body of the loop: another round, the code after the loop, or the return
in the body. -/
inductive Next where
  | again
  | left
  | returned
  deriving DecidableEq, Repr

/-- The variables, with the number of sleeps. -/
structure Vars where
  ret : Ret
  errno : Code
  sleeps : Nat
  next : Next
  deriving DecidableEq, Repr

/-- What the function has done: what it returns, the `errno` it leaves, its attempts and its
sleeps. -/
structure Report where
  ret : Ret
  errno : Code
  attempts : Nat
  sleeps : Nat
  deriving DecidableEq, Repr

section

variable (trylock : Nat → Code → Ret × Code) (againErrno : Code) (sleepErrno : Nat → Code → Code)
  (clock : Nat → Int)

/-- A round of the loop. `sleepErrno i` is what `urt_sleep` and `urt_get_time_epoch` make of
`errno`, and `clock i` what the latter returns. -/
def round (timeout : Int) (i : Nat) (v : Vars) : Vars :=
  let (ret, errno) := trylock i v.errno
  if ret ≠ .code .zero ∧ errno ≠ againErrno then ⟨ret, errno, v.sleeps, .returned⟩
  else if ret ≠ .code .zero then
    ⟨ret, sleepErrno i errno, v.sleeps + 1, if clock i < timeout then .again else .left⟩
  else ⟨ret, errno, v.sleeps, .left⟩

/-- `if (ret) errno = ETIMEDOUT; return ret;` after the loop, and the other return. -/
def report (r : Vars × Nat) : Report :=
  let errno := if r.1.next = .left ∧ r.1.ret ≠ .code .zero then .etimedout else r.1.errno
  ⟨r.1.ret, errno, r.2, r.1.sleeps⟩

/-- The body of the functions. -/
def simulate (absTimeout : Timespec) (errno : Code) (k : Nat) : Option Report :=
  (Retry.doWhile (round trylock againErrno sleepErrno clock absTimeout.nanos) (·.next == .again)
    k 0 ⟨.minusOne, errno, 0, .again⟩).map report

end

/-- `sem_timedwait` -/
def semTimedwait (semTrywait : Nat → Trylock .eagain) :=
  simulate (fun i => errnoCall (semTrywait i)) .eagain

/-- `pthread_mutex_timedlock` -/
def pthreadMutexTimedlock (pthreadMutexTrylock : Nat → Trylock .ebusy) :=
  simulate (fun i => returnCall (pthreadMutexTrylock i)) .ebusy

/-- `pthread_rwlock_timedrdlock` -/
def pthreadRwlockTimedrdlock (pthreadRwlockTryrdlock : Nat → Trylock .ebusy) :=
  simulate (fun i => returnCall (pthreadRwlockTryrdlock i)) .ebusy

/-- `pthread_rwlock_timedwrlock` -/
def pthreadRwlockTimedwrlock (pthreadRwlockTrywrlock : Nat → Trylock .ebusy) :=
  simulate (fun i => returnCall (pthreadRwlockTrywrlock i)) .ebusy

/-! ## What the functions stand for -/

/-- An error as a function reports it in `errno`. -/
def ErrnoReports (r : Report) (c : Code) : Prop := r.ret = .minusOne ∧ r.errno = c

/-- An error as a function reports it in what it returns. -/
def ReturnReports (r : Report) (c : Code) : Prop := r.ret = .code c

/-- What a timed lock function is to do: `outcome i` is what comes of the `i`-th attempt, and
`late i` says that the deadline has passed after it. -/
structure Lawful {busy : Code} (reports : Report → Code → Prop) (outcome : Nat → Trylock busy)
    (late : Nat → Prop) (call : Nat → Option Report) : Prop where
  /-- with a lock that does not stay busy, or with a deadline that passes, the call returns -/
  returns : (∃ m, outcome m ≠ .busy ∨ late m) → ∃ r, Poll.Returns call r
  /-- it has made an attempt -/
  tried : ∀ r, Poll.Returns call r → 0 < r.attempts
  /-- it returns 0 exactly if its last attempt took the lock -/
  zero : ∀ r m, Poll.Returns call r → r.attempts = m + 1 →
    (r.ret = .code .zero ↔ outcome m = .acquired)
  /-- it reports `ETIMEDOUT` exactly if the lock was busy until the deadline passed -/
  timedOut : ∀ r m, Poll.Returns call r → r.attempts = m + 1 →
    (reports r .etimedout ↔
      (∀ j < m + 1, outcome j = .busy) ∧ (∀ j < m, ¬ late j) ∧ late m)
  /-- it reports another error exactly if its last attempt failed with it -/
  failed : ∀ r m c, Poll.Returns call r → r.attempts = m + 1 → c ≠ .zero → c ≠ .etimedout →
    (reports r c ↔ ∃ f, outcome m = .failed f ∧ f.code = c)
  /-- and then at once: a failed attempt is followed by no sleep and by no other attempt -/
  atOnce : ∀ r m f, Poll.Returns call r → m < r.attempts → outcome m = .failed f →
    r.attempts = m + 1 ∧ r.sleeps = m

/-! ## Rounds -/

section

variable (trylock : Nat → Code → Ret × Code) (againErrno : Code) (sleepErrno : Nat → Code → Code)
  (clock : Nat → Int) (timeout : Int)

/-- What a round can do. -/
theorem round_cases (i : Nat) (v : Vars) :
    let a := trylock i v.errno
    let r := round trylock againErrno sleepErrno clock timeout i v
    (a.1 = .code .zero ∧ r = ⟨a.1, a.2, v.sleeps, .left⟩) ∨
    (a.1 ≠ .code .zero ∧ a.2 ≠ againErrno ∧ r = ⟨a.1, a.2, v.sleeps, .returned⟩) ∨
    (a.1 ≠ .code .zero ∧ a.2 = againErrno ∧ clock i < timeout ∧
      r = ⟨a.1, sleepErrno i a.2, v.sleeps + 1, .again⟩) ∨
    (a.1 ≠ .code .zero ∧ a.2 = againErrno ∧ timeout ≤ clock i ∧
      r = ⟨a.1, sleepErrno i a.2, v.sleeps + 1, .left⟩) := by
  unfold round
  generalize trylock i v.errno = a
  obtain ⟨ret, e⟩ := a
  dsimp only
  by_cases hret : ret = .code .zero
  · refine .inl ⟨hret, ?_⟩
    rw [if_neg (fun h => h.1 hret), if_neg (fun h => h hret)]
  · by_cases herrno : e = againErrno
    · rw [if_neg (fun h => h.2 herrno), if_pos hret]
      by_cases hclock : clock i < timeout
      · rw [if_pos hclock]
        exact .inr (.inr (.inl ⟨hret, herrno, hclock, rfl⟩))
      · rw [if_neg hclock]
        exact .inr (.inr (.inr ⟨hret, herrno, Int.not_lt.mp hclock, rfl⟩))
    · rw [if_pos ⟨hret, herrno⟩]
      exact .inr (.inl ⟨hret, herrno, rfl⟩)

variable (errno : Code)

/-- `errno` before the `m`-th attempt, if the loop gets there. -/
def errnoAt : Nat → Code
  | 0 => errno
  | m + 1 => sleepErrno m (trylock m (errnoAt m)).2

/-- The `m`-th attempt, if the loop gets there. -/
def attemptAt (m : Nat) : Ret × Code := trylock m (errnoAt trylock sleepErrno errno m)

/-- The variables after `m` rounds. -/
def varsAt (m : Nat) : Vars :=
  Retry.after (round trylock againErrno sleepErrno clock timeout) ⟨.minusOne, errno, 0, .again⟩ m

/-- The loop goes on after round `m`. -/
def GoesOn (m : Nat) : Prop :=
  (attemptAt trylock sleepErrno errno m).1 ≠ .code .zero ∧
    (attemptAt trylock sleepErrno errno m).2 = againErrno ∧ clock m < timeout

/-- The call ends in round `m`: with the lock, with an error that is not to be retried, or after
the deadline. -/
def EndsAt (m : Nat) (r : Report) : Prop :=
  let a := attemptAt trylock sleepErrno errno m
  (a.1 = .code .zero ∧ r = ⟨a.1, a.2, m + 1, m⟩) ∨
  (a.1 ≠ .code .zero ∧ a.2 ≠ againErrno ∧ r = ⟨a.1, a.2, m + 1, m⟩) ∨
  (a.1 ≠ .code .zero ∧ a.2 = againErrno ∧ timeout ≤ clock m ∧
    r = ⟨a.1, .etimedout, m + 1, m + 1⟩)

end

section

variable {trylock : Nat → Code → Ret × Code} {againErrno : Code} {sleepErrno : Nat → Code → Code}
  {clock : Nat → Int} {timeout : Int} {errno : Code}

theorem not_goesOn_of_endsAt {m : Nat} {r : Report}
    (h : EndsAt trylock againErrno sleepErrno clock timeout errno m r) :
    ¬ GoesOn trylock againErrno sleepErrno clock timeout errno m := by
  intro hgo
  obtain ⟨hret, -⟩ | ⟨-, hne, -⟩ | ⟨-, -, hclock, -⟩ := h
  · exact hgo.1 hret
  · exact hne hgo.2.1
  · exact absurd hgo.2.2 (Int.not_lt.mpr hclock)

/-- The loop begins round `m` with the `errno` of that round and after `m` sleeps. -/
theorem varsAt_of_again {m : Nat}
    (h : ∀ j < m, (varsAt trylock againErrno sleepErrno clock timeout errno (j + 1)).next =
      .again) :
    (varsAt trylock againErrno sleepErrno clock timeout errno m).errno =
        errnoAt trylock sleepErrno errno m ∧
      (varsAt trylock againErrno sleepErrno clock timeout errno m).sleeps = m := by
  induction m with
  | zero => exact ⟨rfl, rfl⟩
  | succ m ih =>
    obtain ⟨herrno, hsleeps⟩ := ih fun j hj => h j (by omega)
    have hlast := h m (by omega)
    have hround : varsAt trylock againErrno sleepErrno clock timeout errno (m + 1) =
        round trylock againErrno sleepErrno clock timeout m
          (varsAt trylock againErrno sleepErrno clock timeout errno m) := rfl
    rw [hround] at hlast ⊢
    obtain ⟨-, he⟩ | ⟨-, -, he⟩ | ⟨-, -, -, he⟩ | ⟨-, -, -, he⟩ :=
      round_cases trylock againErrno sleepErrno clock timeout m
        (varsAt trylock againErrno sleepErrno clock timeout errno m)
    · rw [he] at hlast
      cases hlast
    · rw [he] at hlast
      cases hlast
    · rw [he, herrno, hsleeps]
      exact ⟨rfl, rfl⟩
    · rw [he] at hlast
      cases hlast

/-- Round `m` goes on, or it ends the call. -/
theorem goesOn_or_endsAt {m : Nat}
    (h : ∀ j < m, (varsAt trylock againErrno sleepErrno clock timeout errno (j + 1)).next =
      .again) :
    let v := varsAt trylock againErrno sleepErrno clock timeout errno (m + 1)
    (v.next = .again ∧ GoesOn trylock againErrno sleepErrno clock timeout errno m) ∨
      (v.next ≠ .again ∧ ¬ GoesOn trylock againErrno sleepErrno clock timeout errno m ∧
        ∀ r, EndsAt trylock againErrno sleepErrno clock timeout errno m r ↔
          r = report (v, m + 1)) := by
  have hcases := round_cases trylock againErrno sleepErrno clock timeout m
    (varsAt trylock againErrno sleepErrno clock timeout errno m)
  obtain ⟨herrno, hsleeps⟩ := varsAt_of_again h
  rw [herrno, hsleeps] at hcases
  dsimp only at hcases ⊢
  have hround : varsAt trylock againErrno sleepErrno clock timeout errno (m + 1) =
      round trylock againErrno sleepErrno clock timeout m
        (varsAt trylock againErrno sleepErrno clock timeout errno m) := rfl
  rw [← hround] at hcases
  unfold GoesOn EndsAt attemptAt
  dsimp only
  obtain ⟨hret, he⟩ | ⟨hret, hne, he⟩ | ⟨hret, heq, hclock, he⟩ | ⟨hret, heq, hclock, he⟩ := hcases
  · right
    rw [he]
    simp [report, hret]
  · right
    rw [he]
    simp [report, hret, hne]
  · left
    rw [he]
    exact ⟨rfl, hret, heq, hclock⟩
  · right
    rw [he]
    simp [report, hret, heq, hclock]

theorem forall_again_iff (m : Nat) :
    (∀ j < m, (varsAt trylock againErrno sleepErrno clock timeout errno (j + 1)).next = .again) ↔
      ∀ j < m, GoesOn trylock againErrno sleepErrno clock timeout errno j := by
  induction m with
  | zero => exact ⟨fun _ j hj => absurd hj (Nat.not_lt_zero j), fun _ j hj => by omega⟩
  | succ m ih =>
    rw [Nat.forall_lt_succ_right, Nat.forall_lt_succ_right, ← ih]
    apply and_congr_right
    intro h
    obtain ⟨hnext, hgo⟩ | ⟨hnext, hgo, -⟩ := goesOn_or_endsAt h
    · exact iff_of_true hnext hgo
    · exact iff_of_false hnext hgo

/-- The call ends in the first round in which it does not go on. -/
theorem returns_simulate_iff {absTimeout : Timespec} {r : Report} :
    Poll.Returns (simulate trylock againErrno sleepErrno clock absTimeout errno) r ↔
      ∃ m, (∀ j < m, GoesOn trylock againErrno sleepErrno clock absTimeout.nanos errno j) ∧
        EndsAt trylock againErrno sleepErrno clock absTimeout.nanos errno m r := by
  unfold simulate
  rw [Poll.returns_map]
  simp only [Retry.doWhile_returns_iff, beq_iff_eq, beq_eq_false_iff_ne]
  constructor
  · intro h
    obtain ⟨_, ⟨m, hagain, hlast, rfl⟩, rfl⟩ := h
    refine ⟨m, (forall_again_iff m).mp hagain, ?_⟩
    obtain ⟨hnext, -⟩ | ⟨-, -, hends⟩ := goesOn_or_endsAt hagain
    · exact absurd hnext hlast
    · exact (hends _).mpr rfl
  · intro h
    obtain ⟨m, hgo, hends⟩ := h
    have hagain := (forall_again_iff m).mpr hgo
    obtain ⟨-, hgoes⟩ | ⟨hnext, -, hreport⟩ := goesOn_or_endsAt hagain
    · exact absurd hgoes (not_goesOn_of_endsAt hends)
    · exact ⟨_, ⟨m, hagain, hnext, rfl⟩, ((hreport r).mp hends).symm⟩

theorem endsAt_of_zero {m : Nat} {r : Report}
    (hret : (attemptAt trylock sleepErrno errno m).1 = .code .zero) :
    EndsAt trylock againErrno sleepErrno clock timeout errno m r ↔
      r = ⟨.code .zero, (attemptAt trylock sleepErrno errno m).2, m + 1, m⟩ := by
  simp [EndsAt, hret]

theorem endsAt_of_ne {m : Nat} {r : Report}
    (hret : (attemptAt trylock sleepErrno errno m).1 ≠ .code .zero)
    (hne : (attemptAt trylock sleepErrno errno m).2 ≠ againErrno) :
    EndsAt trylock againErrno sleepErrno clock timeout errno m r ↔
      r = ⟨(attemptAt trylock sleepErrno errno m).1, (attemptAt trylock sleepErrno errno m).2,
        m + 1, m⟩ := by
  simp [EndsAt, hret, hne]

theorem endsAt_of_eq {m : Nat} {r : Report}
    (hret : (attemptAt trylock sleepErrno errno m).1 ≠ .code .zero)
    (heq : (attemptAt trylock sleepErrno errno m).2 = againErrno) :
    EndsAt trylock againErrno sleepErrno clock timeout errno m r ↔
      timeout ≤ clock m ∧
        r = ⟨(attemptAt trylock sleepErrno errno m).1, .etimedout, m + 1, m + 1⟩ := by
  simp [EndsAt, hret, heq]

theorem exists_endsAt {m : Nat}
    (h : ¬ GoesOn trylock againErrno sleepErrno clock timeout errno m) :
    ∃ r, EndsAt trylock againErrno sleepErrno clock timeout errno m r := by
  by_cases hret : (attemptAt trylock sleepErrno errno m).1 = .code .zero
  · exact ⟨_, (endsAt_of_zero hret).mpr rfl⟩
  · by_cases herrno : (attemptAt trylock sleepErrno errno m).2 = againErrno
    · have hclock : timeout ≤ clock m := Int.not_lt.mp fun hlt => h ⟨hret, herrno, hlt⟩
      exact ⟨_, (endsAt_of_eq hret herrno).mpr ⟨hclock, rfl⟩⟩
    · exact ⟨_, (endsAt_of_ne hret herrno).mpr rfl⟩

/-- The attempts of a call are its rounds. -/
theorem attempts_of_endsAt {m : Nat} {r : Report}
    (h : EndsAt trylock againErrno sleepErrno clock timeout errno m r) : r.attempts = m + 1 := by
  obtain ⟨-, rfl⟩ | ⟨-, -, rfl⟩ | ⟨-, -, -, rfl⟩ := h <;> rfl

end

/-! ## When a call does what it stands for -/

section

variable {busy : Code} {reports : Report → Code → Prop} {outcome : Nat → Trylock busy}
  {late : Nat → Prop} {call : Nat → Option Report}

/-- The lock is busy before attempt `m`, and the deadline not passed. -/
def Waits (outcome : Nat → Trylock busy) (late : Nat → Prop) (m : Nat) : Prop :=
  ∀ j < m, outcome j = .busy ∧ ¬ late j

/-- The answer that the call is to give when it ends with attempt `m`. -/
def Answers (reports : Report → Code → Prop) (outcome : Nat → Trylock busy) (late : Nat → Prop)
    (m : Nat) (r : Report) : Prop :=
  r.attempts = m + 1 ∧
    ((outcome m = .acquired ∧ r.ret = .code .zero) ∨
      (∃ f, outcome m = .failed f ∧ reports r f.code ∧ r.sleeps = m) ∨
      (outcome m = .busy ∧ late m ∧ reports r .etimedout))

/-- A way to report errors: one at a time, and none with success. -/
structure IsConvention (reports : Report → Code → Prop) : Prop where
  unique : ∀ {r c c'}, reports r c → reports r c' → c = c'
  ret_ne_zero : ∀ {r c}, c ≠ .zero → reports r c → r.ret ≠ .code .zero

theorem isConvention_errnoReports : IsConvention ErrnoReports where
  unique h h' := h.2.symm.trans h'.2
  ret_ne_zero _ h hret := Ret.noConfusion (h.1.symm.trans hret)

theorem isConvention_returnReports : IsConvention ReturnReports where
  unique h h' := Ret.code.inj (h.symm.trans h')
  ret_ne_zero hc h hret := hc (Ret.code.inj (h.symm.trans hret))

variable {m : Nat} {r : Report}

theorem Answers.zero_iff (hconv : IsConvention reports) (h : Answers reports outcome late m r) :
    r.ret = .code .zero ↔ outcome m = .acquired := by
  obtain ⟨-, ⟨hout, hret⟩ | ⟨f, hout, hrep, -⟩ | ⟨hout, -, hrep⟩⟩ := h
  · exact iff_of_true hret hout
  · exact iff_of_false (hconv.ret_ne_zero f.ne_zero hrep) (by simp [hout])
  · exact iff_of_false (hconv.ret_ne_zero Code.noConfusion hrep) (by simp [hout])

theorem Answers.etimedout_iff (hconv : IsConvention reports)
    (h : Answers reports outcome late m r) :
    reports r .etimedout ↔ outcome m = .busy ∧ late m := by
  obtain ⟨-, ⟨hout, hret⟩ | ⟨f, hout, hrep, -⟩ | ⟨hout, hlate, hrep⟩⟩ := h
  · exact iff_of_false (fun h => hconv.ret_ne_zero Code.noConfusion h hret) (by simp [hout])
  · exact iff_of_false (fun h => f.ne_etimedout (hconv.unique hrep h)) (by simp [hout])
  · exact iff_of_true hrep ⟨hout, hlate⟩

theorem Answers.error_iff (hconv : IsConvention reports) (h : Answers reports outcome late m r)
    {c : Code} (hzero : c ≠ .zero) (hc : c ≠ .etimedout) :
    reports r c ↔ ∃ f, outcome m = .failed f ∧ f.code = c := by
  obtain ⟨-, ⟨hout, hret⟩ | ⟨f, hout, hrep, -⟩ | ⟨hout, -, hrep⟩⟩ := h
  · exact iff_of_false (fun h => hconv.ret_ne_zero hzero h hret) (by simp [hout])
  · constructor
    · intro h
      exact ⟨f, hout, hconv.unique hrep h⟩
    · intro h
      obtain ⟨f', hout', rfl⟩ := h
      rw [hout] at hout'
      cases hout'
      exact hrep
  · exact iff_of_false (fun h => hc (hconv.unique h hrep)) (by simp [hout])

theorem Answers.sleeps_of_failed (h : Answers reports outcome late m r) {f : Failure busy}
    (hfailed : outcome m = .failed f) : r.sleeps = m := by
  obtain ⟨-, ⟨hout, -⟩ | ⟨-, -, -, hsleeps⟩ | ⟨hout, -⟩⟩ := h
  · simp [hfailed] at hout
  · exact hsleeps
  · simp [hfailed] at hout

/-- It is enough that the call answers as it is to for its last attempt. -/
theorem lawful_of_answers (hconv : IsConvention reports)
    (hreturns : (∃ m, outcome m ≠ .busy ∨ late m) → ∃ r, Poll.Returns call r)
    (hanswers : ∀ r, Poll.Returns call r →
      ∃ m, Waits outcome late m ∧ Answers reports outcome late m r) :
    Lawful reports outcome late call := by
  have hlast : ∀ r m, Poll.Returns call r → r.attempts = m + 1 →
      Waits outcome late m ∧ Answers reports outcome late m r := by
    intro r m hr hm
    obtain ⟨m', hwaits, hanswer⟩ := hanswers r hr
    obtain rfl : m' = m := Nat.succ.inj (hanswer.1.symm.trans hm)
    exact ⟨hwaits, hanswer⟩
  constructor
  · exact hreturns
  · intro r hr
    obtain ⟨m, -, hattempts, -⟩ := hanswers r hr
    omega
  · intro r m hr hm
    exact (hlast r m hr hm).2.zero_iff hconv
  · intro r m hr hm
    obtain ⟨hwaits, hanswer⟩ := hlast r m hr hm
    rw [hanswer.etimedout_iff hconv, Nat.forall_lt_succ_right]
    constructor
    · intro h
      exact ⟨⟨fun j hj => (hwaits j hj).1, h.1⟩, fun j hj => (hwaits j hj).2, h.2⟩
    · intro h
      exact ⟨h.1.2, h.2.2⟩
  · intro r m c hr hm hzero hc
    exact (hlast r m hr hm).2.error_iff hconv hzero hc
  · intro r j f hr hj hfailed
    obtain ⟨m, hwaits, hanswer⟩ := hanswers r hr
    have hattempts := hanswer.1
    have hjm : j = m := by
      by_contra hne
      have hbusy := (hwaits j (by omega)).1
      simp [hfailed] at hbusy
    subst hjm
    exact ⟨hattempts, hanswer.sleeps_of_failed hfailed⟩

end

section

variable {busy : Code} {reports : Report → Code → Prop} {outcome : Nat → Trylock busy}
  {trylock : Nat → Code → Ret × Code} {againErrno : Code} {sleepErrno : Nat → Code → Code}
  {clock : Nat → Int} {absTimeout : Timespec} {errno : Code}

/-- The deadline has passed after attempt `m`. -/
def Late (clock : Nat → Int) (absTimeout : Timespec) (m : Nat) : Prop := absTimeout.nanos ≤ clock m

instance (clock : Nat → Int) (absTimeout : Timespec) (m : Nat) :
    Decidable (Late clock absTimeout m) := inferInstanceAs (Decidable (_ ≤ _))

theorem forall_goesOn_iff {late : Nat → Prop} {timeout : Int}
    (hstep : ∀ m, Waits outcome late m →
      (GoesOn trylock againErrno sleepErrno clock timeout errno m ↔
        outcome m = .busy ∧ ¬ late m)) (m : Nat) :
    (∀ j < m, GoesOn trylock againErrno sleepErrno clock timeout errno j) ↔
      Waits outcome late m := by
  unfold Waits at *
  induction m with
  | zero => exact ⟨fun _ j hj => absurd hj (Nat.not_lt_zero j), fun _ j hj => by omega⟩
  | succ m ih =>
    rw [Nat.forall_lt_succ_right, Nat.forall_lt_succ_right, ih]
    exact and_congr_right fun hwaits => hstep m hwaits

/-- It is enough that the loop goes on while it is to wait and ends with the right answer. -/
theorem lawful_of_step (hconv : IsConvention reports)
    (hstep : ∀ m, Waits outcome (Late clock absTimeout) m →
      (GoesOn trylock againErrno sleepErrno clock absTimeout.nanos errno m ↔
        outcome m = .busy ∧ ¬ Late clock absTimeout m))
    (hends : ∀ m r, Waits outcome (Late clock absTimeout) m →
      EndsAt trylock againErrno sleepErrno clock absTimeout.nanos errno m r →
        Answers reports outcome (Late clock absTimeout) m r) :
    Lawful reports outcome (Late clock absTimeout)
      (simulate trylock againErrno sleepErrno clock absTimeout errno) := by
  apply lawful_of_answers hconv
  · intro h
    classical
    have hwaits : Waits outcome (Late clock absTimeout) (Nat.find h) := by
      intro j hj
      have hmin := Nat.find_min h hj
      rwa [not_or, not_not] at hmin
    have hstop : ¬ GoesOn trylock againErrno sleepErrno clock absTimeout.nanos errno
        (Nat.find h) := by
      rw [hstep _ hwaits, not_and, not_not]
      intro hbusy
      exact (Nat.find_spec h).resolve_left (fun hne => hne hbusy)
    obtain ⟨r, hr⟩ := exists_endsAt hstop
    exact ⟨r, returns_simulate_iff.mpr ⟨_, (forall_goesOn_iff hstep _).mpr hwaits, hr⟩⟩
  · intro r hr
    obtain ⟨m, hgo, hr⟩ := returns_simulate_iff.mp hr
    have hwaits := (forall_goesOn_iff hstep m).mp hgo
    exact ⟨m, hwaits, hends m r hwaits hr⟩

end

/-! ## The four functions -/

section

variable (sleepErrno : Nat → Code → Code) (clock : Nat → Int) (absTimeout : Timespec)
  (errno : Code)

/-- The semaphore function looks at the `errno` that the attempt has just set. -/
theorem semTimedwait_lawful (semTrywait : Nat → Trylock .eagain) :
    Lawful ErrnoReports semTrywait (Late clock absTimeout)
      (semTimedwait semTrywait sleepErrno clock absTimeout errno) := by
  apply lawful_of_step isConvention_errnoReports
  · intro m _
    rw [GoesOn, attemptAt, Late, Int.not_le]
    cases semTrywait m with
    | acquired => simp [errnoCall]
    | busy => simp [errnoCall]
    | failed f => simp [errnoCall, f.ne_busy]
  · intro m r _ hr
    have hattempt : attemptAt (fun i => errnoCall (semTrywait i)) sleepErrno errno m =
        errnoCall (semTrywait m) (errnoAt (fun i => errnoCall (semTrywait i)) sleepErrno errno m) :=
      rfl
    cases hout : semTrywait m with
    | acquired =>
      rw [hout] at hattempt
      rw [endsAt_of_zero (by rw [hattempt]; rfl)] at hr
      subst hr
      exact ⟨rfl, .inl ⟨hout, rfl⟩⟩
    | busy =>
      rw [hout] at hattempt
      rw [endsAt_of_eq (by rw [hattempt]; exact Ret.noConfusion) (by rw [hattempt]; rfl)] at hr
      obtain ⟨hlate, rfl⟩ := hr
      rw [hattempt]
      exact ⟨rfl, .inr (.inr ⟨hout, hlate, rfl, rfl⟩)⟩
    | failed f =>
      rw [hout] at hattempt
      rw [endsAt_of_ne (by rw [hattempt]; exact Ret.noConfusion)
        (by rw [hattempt]; exact f.ne_busy)] at hr
      subst hr
      rw [hattempt]
      exact ⟨rfl, .inr (.inl ⟨f, hout, ⟨rfl, rfl⟩, rfl⟩)⟩

/-- The `errno` that an attempt of a pthread function finds, and leaves: the first value and what
the sleeps make of it. -/
def staleErrno : Nat → Code
  | 0 => errno
  | m + 1 => sleepErrno m (staleErrno m)

/-- The `errno` of another time lets the pthread functions go on exactly when they are to: it
is `EBUSY` when the lock is busy, which must not last until the deadline, and it is not when an
attempt fails. -/
def ErrnoFits (outcome : Nat → Trylock .ebusy) : Prop :=
  ∀ m, Waits outcome (Late clock absTimeout) m →
    (outcome m = .busy → staleErrno sleepErrno errno m = .ebusy ∧ ¬ Late clock absTimeout m) ∧
      ∀ f, outcome m = .failed f → staleErrno sleepErrno errno m ≠ .ebusy

theorem attemptAt_returnCall (outcome : Nat → Trylock .ebusy) (m : Nat) :
    attemptAt (fun i => returnCall (outcome i)) sleepErrno errno m =
      returnCall (outcome m) (staleErrno sleepErrno errno m) := by
  have hkeeps : ∀ (o : Trylock .ebusy) e, (returnCall o e).2 = e := by
    intro o e
    cases o <;> rfl
  have hstale : errnoAt (fun i => returnCall (outcome i)) sleepErrno errno m =
      staleErrno sleepErrno errno m := by
    induction m with
    | zero => rfl
    | succ m ih => rw [errnoAt, staleErrno, hkeeps, ih]
  rw [attemptAt, hstale]

theorem goesOn_returnCall_iff (outcome : Nat → Trylock .ebusy) (m : Nat) :
    GoesOn (fun i => returnCall (outcome i)) .ebusy sleepErrno clock absTimeout.nanos errno m ↔
      outcome m ≠ .acquired ∧ staleErrno sleepErrno errno m = .ebusy ∧
        ¬ Late clock absTimeout m := by
  rw [GoesOn, attemptAt_returnCall, Late, Int.not_le]
  cases outcome m with
  | acquired => simp [returnCall]
  | busy => simp [returnCall]
  | failed f => simp [returnCall, f.ne_zero]

variable {sleepErrno clock absTimeout errno}

/-- With the right `errno` the pthread functions are what they stand for. -/
theorem lawful_of_errnoFits {outcome : Nat → Trylock .ebusy}
    (hfits : ErrnoFits sleepErrno clock absTimeout errno outcome) :
    Lawful ReturnReports outcome (Late clock absTimeout)
      (simulate (fun i => returnCall (outcome i)) .ebusy sleepErrno clock absTimeout errno) := by
  apply lawful_of_step isConvention_returnReports
  · intro m hwaits
    obtain ⟨hbusy, hfailed⟩ := hfits m hwaits
    rw [goesOn_returnCall_iff]
    cases hout : outcome m with
    | acquired => simp
    | busy => simp [hbusy hout]
    | failed f => simp [hfailed f hout]
  · intro m r hwaits hr
    obtain ⟨hbusy, hfailed⟩ := hfits m hwaits
    have hattempt := attemptAt_returnCall sleepErrno errno outcome m
    cases hout : outcome m with
    | acquired =>
      rw [hout] at hattempt
      rw [endsAt_of_zero (by rw [hattempt]; rfl)] at hr
      subst hr
      exact ⟨rfl, .inl ⟨hout, rfl⟩⟩
    | busy =>
      obtain ⟨herrno, hnotLate⟩ := hbusy hout
      rw [hout] at hattempt
      rw [endsAt_of_eq (by rw [hattempt]; exact Ret.code_ne_zero Code.noConfusion)
        (by rw [hattempt]; exact herrno)] at hr
      exact absurd hr.1 hnotLate
    | failed f =>
      rw [hout] at hattempt
      rw [endsAt_of_ne (by rw [hattempt]; exact Ret.code_ne_zero f.ne_zero)
        (by rw [hattempt]; exact hfailed f hout)] at hr
      subst hr
      rw [hattempt]
      exact ⟨rfl, .inr (.inl ⟨f, hout, rfl, rfl⟩)⟩

section

variable {outcome : Nat → Trylock .ebusy} {m : Nat}

/-- A round that the call gets to with the lock busy: it must go on. -/
theorem errno_of_busy
    (h : Lawful ReturnReports outcome (Late clock absTimeout)
      (simulate (fun i => returnCall (outcome i)) .ebusy sleepErrno clock absTimeout errno))
    (hgo : ∀ j < m, GoesOn (fun i => returnCall (outcome i)) .ebusy sleepErrno clock
      absTimeout.nanos errno j)
    (hwaits : Waits outcome (Late clock absTimeout) m) (hbusy : outcome m = .busy) :
    staleErrno sleepErrno errno m = .ebusy ∧ ¬ Late clock absTimeout m := by
  have hattempt := attemptAt_returnCall sleepErrno errno outcome m
  rw [hbusy] at hattempt
  have hret : (attemptAt (fun i => returnCall (outcome i)) sleepErrno errno m).1 ≠ .code .zero := by
    rw [hattempt]
    exact Ret.code_ne_zero Code.noConfusion
  have herrno : staleErrno sleepErrno errno m = .ebusy := by
    by_contra hne
    -- the call returns `EBUSY` at once
    have hends := returns_simulate_iff.mpr ⟨m, hgo, (endsAt_of_ne hret (by rwa [hattempt])).mpr rfl⟩
    obtain ⟨f, hfailed, -⟩ :=
      (h.failed _ m .ebusy hends rfl Code.noConfusion Code.noConfusion).mp (by rw [hattempt]; rfl)
    rw [hbusy] at hfailed
    cases hfailed
  refine ⟨herrno, ?_⟩
  intro hlate
  -- the call returns `EBUSY`, with `ETIMEDOUT` in `errno`
  have hends := returns_simulate_iff.mpr
    ⟨m, hgo, (endsAt_of_eq hret (by rwa [hattempt])).mpr ⟨hlate, rfl⟩⟩
  have hreport := (h.timedOut _ m hends rfl).mpr
    ⟨Nat.forall_lt_succ_right.mpr ⟨fun j hj => (hwaits j hj).1, hbusy⟩,
      fun j hj => (hwaits j hj).2, hlate⟩
  rw [hattempt] at hreport
  cases hreport

/-- A round that the call gets to and whose attempt fails: it must end the call. -/
theorem errno_ne_of_failed
    (h : Lawful ReturnReports outcome (Late clock absTimeout)
      (simulate (fun i => returnCall (outcome i)) .ebusy sleepErrno clock absTimeout errno))
    (hgo : ∀ j < m, GoesOn (fun i => returnCall (outcome i)) .ebusy sleepErrno clock
      absTimeout.nanos errno j)
    {f : Failure .ebusy} (hfailed : outcome m = .failed f) :
    staleErrno sleepErrno errno m ≠ .ebusy := by
  intro herrno
  have hattempt := attemptAt_returnCall sleepErrno errno outcome m
  rw [hfailed] at hattempt
  by_cases hlate : Late clock absTimeout m
  · -- the call sleeps before it returns the error
    have hends := returns_simulate_iff.mpr ⟨m, hgo, (endsAt_of_eq
      (by rw [hattempt]; exact Ret.code_ne_zero f.ne_zero) (by rwa [hattempt])).mpr ⟨hlate, rfl⟩⟩
    have hsleeps := (h.atOnce _ m f hends (Nat.lt_succ_self m) hfailed).2
    exact absurd hsleeps (Nat.succ_ne_self m)
  · -- the call makes another attempt
    have hgoes : GoesOn (fun i => returnCall (outcome i)) .ebusy sleepErrno clock
        absTimeout.nanos errno m := by
      rw [goesOn_returnCall_iff, hfailed]
      exact ⟨by simp, herrno, hlate⟩
    obtain ⟨r, hret⟩ := h.returns ⟨m, .inl (by simp [hfailed])⟩
    obtain ⟨m', -, hr⟩ := returns_simulate_iff.mp hret
    have hlt : m < m' := by
      by_contra hle
      obtain hlt | rfl := Nat.lt_or_eq_of_le (Nat.not_lt.mp hle)
      · exact not_goesOn_of_endsAt hr (hgo m' hlt)
      · exact not_goesOn_of_endsAt hr hgoes
    have hattempts := attempts_of_endsAt hr
    have hlast := (h.atOnce r m f hret (by omega) hfailed).1
    omega

/-- With another `errno` they are not: the first round in which it is wrong gives them away. -/
theorem errnoFits_of_lawful
    (h : Lawful ReturnReports outcome (Late clock absTimeout)
      (simulate (fun i => returnCall (outcome i)) .ebusy sleepErrno clock absTimeout errno)) :
    ErrnoFits sleepErrno clock absTimeout errno outcome := by
  intro m
  induction m using Nat.strong_induction_on with
  | _ m ih =>
  intro hwaits
  have hgo : ∀ j < m, GoesOn (fun i => returnCall (outcome i)) .ebusy sleepErrno clock
      absTimeout.nanos errno j := by
    intro j hj
    obtain ⟨hbusy, hnotLate⟩ := hwaits j hj
    have herrno := (ih j hj fun i hi => hwaits i (by omega)).1 hbusy
    rw [goesOn_returnCall_iff, hbusy]
    exact ⟨by simp, herrno.1, hnotLate⟩
  exact ⟨errno_of_busy h hgo hwaits, fun f hfailed => errno_ne_of_failed h hgo hfailed⟩

end

theorem returnCall_lawful_iff {outcome : Nat → Trylock .ebusy} :
    Lawful ReturnReports outcome (Late clock absTimeout)
        (simulate (fun i => returnCall (outcome i)) .ebusy sleepErrno clock absTimeout errno) ↔
      ErrnoFits sleepErrno clock absTimeout errno outcome :=
  ⟨errnoFits_of_lawful, lawful_of_errnoFits⟩

end

/-- **Of the functions made by `SIMULATE_TIMEDLOCK_WITH_TRYLOCK`, the semaphore function is always
what it stands for; those of pthread are it exactly if `errno`, which they do not set, happens to
be `EBUSY` in every round that finds the lock busy, and to be something else when an attempt
fails, and the lock is not busy until the deadline.** -/
theorem timedlock_lawful_iff (sleepErrno : Nat → Code → Code) (clock : Nat → Int)
    (absTimeout : Timespec) (errno : Code) (semTrywait : Nat → Trylock .eagain)
    (trylock : Nat → Trylock .ebusy) :
    Lawful ErrnoReports semTrywait (Late clock absTimeout)
        (semTimedwait semTrywait sleepErrno clock absTimeout errno) ∧
      (Lawful ReturnReports trylock (Late clock absTimeout)
          (pthreadMutexTimedlock trylock sleepErrno clock absTimeout errno) ↔
        ErrnoFits sleepErrno clock absTimeout errno trylock) ∧
      (Lawful ReturnReports trylock (Late clock absTimeout)
          (pthreadRwlockTimedrdlock trylock sleepErrno clock absTimeout errno) ↔
        ErrnoFits sleepErrno clock absTimeout errno trylock) ∧
      (Lawful ReturnReports trylock (Late clock absTimeout)
          (pthreadRwlockTimedwrlock trylock sleepErrno clock absTimeout errno) ↔
        ErrnoFits sleepErrno clock absTimeout errno trylock) :=
  ⟨semTimedwait_lawful sleepErrno clock absTimeout errno semTrywait, returnCall_lawful_iff,
    returnCall_lawful_iff, returnCall_lawful_iff⟩

/-- A lock that is busy for one attempt. -/
def busyOnce : Nat → Trylock .ebusy
  | 0 => .busy
  | _ + 1 => .acquired

/-- With `errno` 0, a mutex that is busy for one attempt is not waited for. With `errno` `EBUSY`,
one that stays busy until the deadline is reported as busy, and the time-out in `errno`. -/
theorem timedlock_not_lawful :
    pthreadMutexTimedlock busyOnce (fun _ e => e) (fun _ => 0) ⟨1, 0⟩ .zero 1 =
        some ⟨.code .ebusy, .zero, 1, 0⟩ ∧
      ¬ Lawful ReturnReports busyOnce (Late (fun _ => 0) ⟨1, 0⟩)
        (pthreadMutexTimedlock busyOnce (fun _ e => e) (fun _ => 0) ⟨1, 0⟩ .zero) ∧
      pthreadMutexTimedlock (fun _ => .busy) (fun _ e => e) (fun _ => 1000000000) ⟨1, 0⟩ .ebusy 1 =
        some ⟨.code .ebusy, .etimedout, 1, 1⟩ ∧
      ¬ Lawful ReturnReports (fun _ => (.busy : Trylock .ebusy))
        (Late (fun _ => 1000000000) ⟨1, 0⟩)
        (pthreadMutexTimedlock (fun _ => .busy) (fun _ e => e) (fun _ => 1000000000) ⟨1, 0⟩
          .ebusy) := by
  refine ⟨by decide, ?_, by decide, ?_⟩
  · intro h
    have hret : Poll.Returns (pthreadMutexTimedlock busyOnce (fun _ e => e) (fun _ => 0) ⟨1, 0⟩
        .zero) ⟨.code .ebusy, .zero, 1, 0⟩ := ⟨1, by decide⟩
    obtain ⟨f, hfailed, -⟩ :=
      (h.failed _ 0 .ebusy hret rfl Code.noConfusion Code.noConfusion).mp rfl
    cases hfailed
  · intro h
    have hret : Poll.Returns (pthreadMutexTimedlock (fun _ => .busy) (fun _ e => e)
        (fun _ => 1000000000) ⟨1, 0⟩ .ebusy) ⟨.code .ebusy, .etimedout, 1, 1⟩ := ⟨1, by decide⟩
    have hreport := (h.timedOut _ 0 hret rfl).mpr
      ⟨fun _ _ => rfl, fun j hj => absurd hj (Nat.not_lt_zero j), by decide⟩
    cases hreport

end Urt.Posix.Timedlock
