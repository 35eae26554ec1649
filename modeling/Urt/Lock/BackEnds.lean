import Urt.Lock.Lockf

/-!
# The lock functions of both back ends

`urt_sem_waitf`, `urt_mutex_lockf`, `urt_rwlock_read_lockf`, `urt_rwlock_write_lockf` and
`urt_cond_waitf` of `sys/rtai/src/lock.c`. They look whether to stop only when an attempt has
timed out, and each error of RTAI comes out as one and the same code. What the attempts return is
a parameter, and so are the numbers of RTAI's errors.

`rtai_lockf_lawful` says that they keep to the law of the POSIX functions, and `backends_alike`
how the functions of the two back ends compare: the POSIX functions look once more, at the
beginning.
-/

namespace Urt.Rtai.Lockf

open Posix.Lockf (Code Attempt Answer Answers LockfLaw Timespec answer attemptOf outcomes)

/-! ## The functions -/

/-- `EDEADLK` -/
def edeadlk : Errno := .sys 35

/-- How a function tells errors: which results of RTAI are errors, and the code for them. -/
structure Convention where
  fails : Int → Bool
  error : Errno

/-- `return res >= RTE_BASE?EINVAL:0` -/
def semConvention (rteBase : Int) : Convention := ⟨fun res => decide (res ≥ rteBase), .einval⟩

/-- `return res == 0?0:EDEADLK` -/
def rwlConvention : Convention := ⟨fun res => decide (res ≠ 0), edeadlk⟩

/-- What a function returns. -/
def Convention.ret (c : Convention) (res : Int) : Code :=
  if c.fails res then .other c.error else .zero

section

variable (rteBase rteTimout : Int)

/-- The body the functions share: `timed i delay` is what the `i`-th call of their timed function
returns, `plain` what the function without a time limit does. `delay` is
`nano2count(URT_LOCK_STOP_MAX_DELAY)`. -/
def lockf (c : Convention) (timed : Nat → Int → Int) (plain : Int) (stop : Option (Nat → Bool))
    (delay : Int) (k : Nat) : Option Answer :=
  match stop with
  | some stop =>
      (Retry.tryFirst stop (fun i _ => timed i delay) (· == rteTimout) k 0 0).map (answer c.ret)
  | none => some ⟨c.ret plain, 0, 1⟩

/-- `urt_sem_waitf` -/
def semWaitf (rtSemWaitTimed : Nat → Int → Int) (rtSemWait : Int) :=
  lockf rteTimout (semConvention rteBase) rtSemWaitTimed rtSemWait

/-- `urt_mutex_lockf` -/
def mutexLockf (rtSemWaitTimed : Nat → Int → Int) (rtSemWait : Int) :=
  semWaitf rteBase rteTimout rtSemWaitTimed rtSemWait

/-- `urt_rwlock_read_lockf` -/
def rwlockReadLockf (rtRwlRdlockTimed : Nat → Int → Int) (rtRwlRdlock : Int) :=
  lockf rteTimout rwlConvention rtRwlRdlockTimed rtRwlRdlock

/-- `urt_rwlock_write_lockf` -/
def rwlockWriteLockf (rtRwlWrlockTimed : Nat → Int → Int) (rtRwlWrlock : Int) :=
  lockf rteTimout rwlConvention rtRwlWrlockTimed rtRwlWrlock

/-- `urt_cond_waitf` -/
def condWaitf (rtCondWaitTimed : Nat → Int → Int) (rtCondWait : Int) :=
  lockf rteTimout rwlConvention rtCondWaitTimed rtCondWait

/-- What an attempt comes to that returns `res`. -/
def Convention.outcome (c : Convention) (res : Int) : Timed :=
  if res = rteTimout then .timedOut
  else if c.fails res then .failed c.error
  else .acquired

end

/-! ## What comes of a call -/

/-- One look more. -/
def lookedMore (r : Answer) : Answer := { r with looks := r.looks + 1 }

variable {rteBase rteTimout : Int} {c : Convention}

theorem Convention.outcome_eq_timedOut_iff {res : Int} :
    attemptOf (c.outcome rteTimout res) = .timedOut ↔ res = rteTimout := by
  unfold outcome
  split
  · rename_i h
    exact iff_of_true rfl h
  · rename_i h
    refine iff_of_false ?_ h
    split <;> exact Attempt.noConfusion

theorem Convention.ret_eq {res : Int} (h : res ≠ rteTimout) :
    c.ret res = (attemptOf (c.outcome rteTimout res)).code := by
  unfold ret outcome
  rw [if_neg h]
  split <;> rfl

/-- The loop that looks later answers for its attempts. -/
theorem returns_loop_lookLater (timed : Nat → Int → Int) (stop : Nat → Bool) (delay : Int)
    (q : Answer) :
    Poll.Returns (fun k => (Retry.loop (Retry.lookLater stop) (fun i _ => timed i delay)
        (· == rteTimout) k 0 0).map (answer c.ret)) q ↔
      Answers .timedOut (Retry.lookLater stop)
        (fun i => attemptOf (c.outcome rteTimout (timed i delay))) q := by
  have hgoes : ∀ j, Retry.GoesOn (Retry.lookLater stop) (fun i _ => timed i delay)
      (· == rteTimout) 0 j ↔ Retry.lookLater stop j = false ∧
        attemptOf (c.outcome rteTimout (timed j delay)) = .timedOut := by
    intro j
    rw [Convention.outcome_eq_timedOut_iff]
    exact and_congr_right fun _ => beq_iff_eq
  rw [Poll.returns_map]
  simp only [Retry.returns_iff, hgoes]
  constructor
  · intro h
    obtain ⟨e, ⟨m, hreach, ⟨hstop, rfl⟩ | ⟨hstop, hlast, rfl⟩⟩, rfl⟩ := h
    · exact ⟨m, hreach, .inl ⟨hstop, rfl⟩⟩
    · have hres : timed m delay ≠ rteTimout := beq_eq_false_iff_ne.mp hlast
      refine ⟨m, hreach, .inr ⟨hstop, mt Convention.outcome_eq_timedOut_iff.mp hres, ?_⟩⟩
      rw [← Convention.ret_eq hres]
      rfl
  · intro h
    obtain ⟨m, hreach, ⟨hstop, rfl⟩ | ⟨hstop, hlast, rfl⟩⟩ := h
    · exact ⟨_, ⟨m, hreach, .inl ⟨hstop, rfl⟩⟩, rfl⟩
    · have hres : timed m delay ≠ rteTimout := mt Convention.outcome_eq_timedOut_iff.mpr hlast
      refine ⟨_, ⟨m, hreach, .inr ⟨hstop, beq_eq_false_iff_ne.mpr hres, rfl⟩⟩, ?_⟩
      rw [← Convention.ret_eq hres]
      rfl

/-- A call answers for its attempts, as one does that looks later. -/
theorem returns_lockf (timed : Nat → Int → Int) (plain : Int) (stop : Nat → Bool) (delay : Int)
    (r : Answer) :
    Poll.Returns (lockf rteTimout c timed plain (some stop) delay) r ↔
      Answers .timedOut (Retry.lookLater stop)
        (fun i => attemptOf (c.outcome rteTimout (timed i delay))) (lookedMore r) := by
  rw [← returns_loop_lookLater, Poll.returns_map]
  simp only [Retry.returns_lookLater_iff]
  unfold lockf
  rw [Poll.returns_map]
  constructor
  · intro h
    obtain ⟨e, he, rfl⟩ := h
    exact ⟨e.lookedMore, ⟨e, he, rfl⟩, rfl⟩
  · intro h
    obtain ⟨_, ⟨e, he, rfl⟩, hr⟩ := h
    refine ⟨e, he, ?_⟩
    cases r
    cases hr
    rfl

/-! ## The law -/

section

variable {stop : Nat → Bool} {outcome : Nat → Attempt} {q : Answer}

/-- The last round has the last look. -/
theorem exists_round (h : Answers .timedOut stop outcome q) :
    ∃ m, Posix.Lockf.Reaches .timedOut stop outcome m ∧ q.looks = m + 1 := by
  obtain ⟨m, hreach, ⟨-, rfl⟩ | ⟨-, -, rfl⟩⟩ := h
  · exact ⟨m, hreach, rfl⟩
  · exact ⟨m, hreach, rfl⟩

theorem exists_lookedMore (h : Answers .timedOut stop outcome q) : ∃ r, lookedMore r = q := by
  obtain ⟨m, -, hm⟩ := exists_round h
  refine ⟨⟨q.ret, m, q.attempts⟩, ?_⟩
  rw [lookedMore, ← hm]

end

/-- A function keeps to the law of the POSIX functions, whatever RTAI returns. -/
def KeepsLaw (rteTimout : Int) (c : Convention)
    (call : (Nat → Int → Int) → Int → Option (Nat → Bool) → Int → Nat → Option Answer) : Prop :=
  ∀ timed plain stop delay, LockfLaw (call timed plain (some stop) delay) stop
    fun i => attemptOf (c.outcome rteTimout (timed i delay))

theorem keepsLaw_lockf : KeepsLaw rteTimout c (lockf rteTimout c) := by
  intro timed plain stop delay
  have hcall : ∀ r, Poll.Returns (lockf rteTimout c timed plain (some stop) delay) r ↔ _ :=
    returns_lockf timed plain stop delay
  refine ⟨fun h => ?_, fun r hr => ?_, fun r hr => ?_, fun r hr hret j hj => ?_,
    fun r hr _ hret => ?_, fun r hr => ?_⟩
  · have hend : ∃ i, Retry.lookLater stop i = true ∨
        attemptOf (c.outcome rteTimout (timed i delay)) ≠ .timedOut := by
      obtain ⟨i, hi | hi | ⟨e, hi⟩⟩ := h
      · exact ⟨i + 1, .inl hi⟩
      · exact ⟨i, .inr (by rw [hi]; exact Attempt.noConfusion)⟩
      · exact ⟨i, .inr (by rw [hi]; exact Attempt.noConfusion)⟩
    obtain ⟨q, hq⟩ := Answers.exists_of_end hend
    obtain ⟨r, rfl⟩ := exists_lookedMore hq
    exact ⟨r, (hcall r).mpr hq⟩
  · exact ((hcall r).mp hr).zero_iff
  · have hanswers := (hcall r).mp hr
    refine hanswers.ecanceled_iff.trans ⟨?_, ?_⟩
    · rintro ⟨i, hi, hstop, hacq⟩
      cases i with
      | zero => cases hstop
      | succ i => exact ⟨i, Nat.lt_of_succ_lt_succ hi, hstop, fun j hj => hacq j (by omega)⟩
    · rintro ⟨i, hi, hstop, -⟩
      obtain ⟨m, hreach, hm⟩ := exists_round hanswers
      have him : i < m := hi.trans_eq (Nat.succ.inj hm)
      exact ⟨i + 1, Nat.succ_lt_succ hi, hstop, fun j hj => hreach.ne_acquired (by omega)⟩
  · exact ((hcall r).mp hr).nothing_acquired hret hj
  · exact ((hcall r).mp hr).ret_eq hret
  · exact ((hcall r).mp hr).ret_ne fun _ _ _ => Posix.Lockf.attemptOf_ne_interrupted _

/-- **For all answers of the stop function and all results of RTAI, the five functions keep to the
law**, with `EINVAL` for any error of a semaphore and `EDEADLK` for any other. -/
theorem rtai_lockf_lawful (rteBase rteTimout : Int) :
    KeepsLaw rteTimout (semConvention rteBase) (semWaitf rteBase rteTimout) ∧
    KeepsLaw rteTimout (semConvention rteBase) (mutexLockf rteBase rteTimout) ∧
    KeepsLaw rteTimout rwlConvention (rwlockReadLockf rteTimout) ∧
    KeepsLaw rteTimout rwlConvention (rwlockWriteLockf rteTimout) ∧
    KeepsLaw rteTimout rwlConvention (condWaitf rteTimout) :=
  ⟨keepsLaw_lockf, keepsLaw_lockf, keepsLaw_lockf, keepsLaw_lockf, keepsLaw_lockf⟩

/-! ## Both back ends -/

/-- Attempts that come to the same, up to the error. -/
def SameOutcome : Timed → Timed → Prop
  | .acquired, .acquired | .timedOut, .timedOut | .failed _, .failed _ => True
  | _, _ => False

/-- Answers that are the same, up to the error. -/
structure SameAnswer (p q : Answer) : Prop where
  zero : p.ret = .zero ↔ q.ret = .zero
  ecanceled : p.ret = .ecanceled ↔ q.ret = .ecanceled
  looks : p.looks = q.looks
  attempts : p.attempts = q.attempts

theorem SameAnswer.symm {p q : Answer} (h : SameAnswer p q) : SameAnswer q p :=
  ⟨h.zero.symm, h.ecanceled.symm, h.looks.symm, h.attempts.symm⟩

theorem SameOutcome.symm {o u : Timed} (h : SameOutcome o u) : SameOutcome u o := by
  cases o <;> cases u <;> exact h

theorem SameOutcome.timedOut_iff {o u : Timed} (h : SameOutcome o u) :
    attemptOf o = .timedOut ↔ attemptOf u = .timedOut := by
  cases o <;> cases u <;> simp_all [SameOutcome, attemptOf]

theorem SameOutcome.zero_iff {o u : Timed} (h : SameOutcome o u) :
    (attemptOf o).code = .zero ↔ (attemptOf u).code = .zero := by
  cases o <;> cases u <;> simp_all [SameOutcome, attemptOf, Attempt.code]

/-- Attempts that come to the same have the same answer. -/
theorem sameAnswer_of_outcomes {stop : Nat → Bool} {o u : Nat → Timed}
    (h : ∀ i, SameOutcome (o i) (u i)) {p : Answer}
    (hp : Answers .timedOut stop (fun i => attemptOf (o i)) p) :
    ∃ q, Answers .timedOut stop (fun i => attemptOf (u i)) q ∧ SameAnswer p q := by
  obtain ⟨m, hreach, hm⟩ := hp
  have hreach' : Posix.Lockf.Reaches .timedOut stop (fun i => attemptOf (u i)) m :=
    fun j hj => ⟨(hreach j hj).1, (h j).timedOut_iff.mp (hreach j hj).2⟩
  rcases hm with ⟨hstop, rfl⟩ | ⟨hstop, hlast, rfl⟩
  · exact ⟨_, ⟨m, hreach', .inl ⟨hstop, rfl⟩⟩, Iff.rfl, Iff.rfl, rfl, rfl⟩
  · refine ⟨_, ⟨m, hreach', .inr ⟨hstop, mt (h m).timedOut_iff.mpr hlast, rfl⟩⟩, (h m).zero_iff,
      ?_, rfl, rfl⟩
    exact iff_of_false (Attempt.code_ne_ecanceled _) (Attempt.code_ne_ecanceled _)

/-- How a POSIX function and its RTAI counterpart compare, each called with a stop function. -/
structure Alike (posix rtai : (Nat → Bool) → Nat → Option Answer) : Prop where
  /-- told to stop at once, the POSIX function makes no attempt -/
  stopped : ∀ stop, stop 0 = true → ∀ p, Poll.Returns (posix stop) p ↔ p = ⟨.ecanceled, 1, 0⟩
  /-- otherwise its first look is the only difference -/
  toRtai : ∀ stop, stop 0 = false → ∀ p, Poll.Returns (posix stop) p →
    ∃ r, Poll.Returns (rtai fun i => stop (i + 1)) r ∧ SameAnswer p (lookedMore r)
  toPosix : ∀ stop, stop 0 = false → ∀ r, Poll.Returns (rtai fun i => stop (i + 1)) r →
    ∃ p, Poll.Returns (posix stop) p ∧ SameAnswer p (lookedMore r)

theorem alike_of_answers {posix rtai : (Nat → Bool) → Nat → Option Answer} {o u : Nat → Timed}
    (hsame : ∀ i, SameOutcome (o i) (u i))
    (hposix : ∀ stop p, Poll.Returns (posix stop) p ↔
      Answers .timedOut stop (fun i => attemptOf (o i)) p)
    (hrtai : ∀ stop r, Poll.Returns (rtai stop) r ↔
      Answers .timedOut (Retry.lookLater stop) (fun i => attemptOf (u i)) (lookedMore r)) :
    Alike posix rtai := by
  have hlater : ∀ stop : Nat → Bool, stop 0 = false →
      Retry.lookLater (fun i => stop (i + 1)) = stop := by
    intro stop h
    funext i
    cases i with
    | zero => exact h.symm
    | succ i => rfl
  refine ⟨fun stop h p => ?_, fun stop h p hp => ?_, fun stop h r hr => ?_⟩
  · rw [hposix]
    constructor
    · rintro ⟨m, hreach, hm⟩
      cases m with
      | zero =>
        obtain ⟨-, rfl⟩ | ⟨hstop, -⟩ := hm
        · rfl
        · rw [h] at hstop
          cases hstop
      | succ m =>
        have hfirst := (hreach 0 (Nat.succ_pos m)).1
        rw [h] at hfirst
        cases hfirst
    · rintro rfl
      exact ⟨0, fun j hj => absurd hj (Nat.not_lt_zero j), .inl ⟨h, rfl⟩⟩
  · obtain ⟨q, hq, hpq⟩ := sameAnswer_of_outcomes hsame ((hposix stop p).mp hp)
    obtain ⟨r, rfl⟩ := exists_lookedMore hq
    refine ⟨r, (hrtai _ r).mpr ?_, hpq⟩
    rw [hlater stop h]
    exact hq
  · have hq := (hrtai _ r).mp hr
    rw [hlater stop h] at hq
    obtain ⟨p, hp, hqp⟩ := sameAnswer_of_outcomes (fun i => (hsame i).symm) hq
    exact ⟨p, (hposix stop p).mpr hp, hqp.symm⟩

/-- A POSIX function and an RTAI function are alike whenever their attempts come to the same. -/
def BackEndsAlike (rteTimout : Int) (c : Convention)
    (posix : (Nat → Timespec → Timed) → Int → Int → (Nat → Bool) → Nat → Option Answer)
    (rtai : (Nat → Int → Int) → Int → Option (Nat → Bool) → Int → Nat → Option Answer) : Prop :=
  ∀ timed delay t results plain count,
    (∀ i, SameOutcome (outcomes timed t delay i) (c.outcome rteTimout (results i count))) →
    Alike (posix timed delay t) fun stop => rtai results plain (some stop) count

theorem backEndsAlike_pthreadLockf (plain : Code) : BackEndsAlike rteTimout c
    (fun timed delay t stop => Posix.Lockf.pthreadLockf timed plain (some stop) delay t)
    (lockf rteTimout c) := by
  intro timed delay t results rtPlain count hsame
  apply alike_of_answers hsame
  · intro stop p
    exact Posix.Lockf.returns_pthreadLockf timed plain stop delay t p
  · intro stop r
    exact returns_lockf results rtPlain stop count r

/-- **Both back ends.** As long as no signal interrupts an attempt of the POSIX semaphore, each of
the five functions does the same on POSIX and on RTAI, for all answers of the stop function and all
outcomes of the attempts, except that on POSIX it looks once more, before the first attempt. The
codes of errors differ. -/
theorem backends_alike (rteBase rteTimout : Int) (wait : Nat → Attempt) (errno plain : Code) :
    BackEndsAlike rteTimout (semConvention rteBase)
      (fun timed delay t stop => Posix.Lockf.semWaitf (some stop) delay
        (fun i tp => attemptOf (timed i tp)) wait t errno) (semWaitf rteBase rteTimout) ∧
    BackEndsAlike rteTimout (semConvention rteBase)
      (fun timed delay t stop => Posix.Lockf.mutexLockf timed plain (some stop) delay t)
      (mutexLockf rteBase rteTimout) ∧
    BackEndsAlike rteTimout rwlConvention
      (fun timed delay t stop => Posix.Lockf.rwlockReadLockf timed plain (some stop) delay t)
      (rwlockReadLockf rteTimout) ∧
    BackEndsAlike rteTimout rwlConvention
      (fun timed delay t stop => Posix.Lockf.rwlockWriteLockf timed plain (some stop) delay t)
      (rwlockWriteLockf rteTimout) ∧
    BackEndsAlike rteTimout rwlConvention
      (fun timed delay t stop => Posix.Lockf.condWaitf timed plain (some stop) delay t)
      (condWaitf rteTimout) := by
  refine ⟨?_, backEndsAlike_pthreadLockf plain, backEndsAlike_pthreadLockf plain,
    backEndsAlike_pthreadLockf plain, backEndsAlike_pthreadLockf plain⟩
  intro timed delay t results rtPlain count hsame
  apply alike_of_answers hsame
  · intro stop p
    exact Posix.Lockf.returns_semWaitf stop delay _ wait t errno p
  · intro stop r
    exact returns_lockf results rtPlain stop count r

/-- A mutex that is taken in the third attempt, and a stop function that says so from the third
look on: on POSIX the look comes first. -/
example :
    Posix.Lockf.mutexLockf (fun i _ => if i < 2 then .timedOut else .acquired) .zero
        (some fun i => decide (2 ≤ i)) 10 0 9 = some ⟨.ecanceled, 3, 2⟩ ∧
      mutexLockf 100 101 (fun i _ => if i < 2 then 101 else 1) 0 (some fun i => decide (2 ≤ i))
        10 9 = some ⟨.zero, 2, 3⟩ := by
  decide

/-! ## The calls with times

`Rtai.semWaitf` takes the semaphore and the stop function by their histories, and is the function
above with what they answer at the times of the calls. -/

section Times

variable (waitTimed : Nat → Nat → Timed × Nat) (delay now : Nat)

/-- The times at which `rt_sem_wait_timed` is called; each but the first is that of a look. -/
def callTime : Nat → Nat
  | 0 => now
  | i + 1 => (waitTimed delay (callTime i)).2

/-- A result of RTAI for each outcome. -/
def resultOf (rteTimout : Int) : Timed → Int
  | .acquired => 0
  | .timedOut => rteTimout
  | .failed _ => rteTimout + 1

end Times

theorem ret_resultOf (hbase : 0 < rteBase) (htimout : rteBase ≤ rteTimout) {o : Timed}
    (ho : o ≠ .timedOut) :
    resultOf rteTimout o ≠ rteTimout ∧ (semConvention rteBase).ret (resultOf rteTimout o) =
      if o = .acquired then .zero else .other .einval := by
  cases o with
  | acquired =>
    have hlt : ¬ (0 : Int) ≥ rteBase := by omega
    exact ⟨by simp only [resultOf]; omega, by simp [resultOf, Convention.ret, semConvention, hlt]⟩
  | timedOut => exact absurd rfl ho
  | failed e =>
    have hge : rteTimout + 1 ≥ rteBase := by omega
    exact ⟨by simp only [resultOf]; omega, by simp [resultOf, Convention.ret, semConvention, hge]⟩

theorem semWaitf_eq_tryFirst (waitTimed : Nat → Nat → Timed × Nat) (delay : Nat)
    (stop : Nat → Bool) (now k i : Nat) (res : Int) (hbase : 0 < rteBase)
    (htimout : rteBase ≤ rteTimout) :
    (Rtai.semWaitf waitTimed delay stop (callTime waitTimed delay now i) k).map
        (fun r => (Posix.Lockf.codeOf r.1, r.2)) =
      ((Retry.tryFirst (fun i => stop (callTime waitTimed delay now (i + 1)))
        (fun i _ => resultOf rteTimout (waitTimed delay (callTime waitTimed delay now i)).1)
        (· == rteTimout) k i res).map (answer (semConvention rteBase).ret)).map
          fun a => (a.ret, callTime waitTimed delay now a.attempts) := by
  induction k generalizing i res with
  | zero => rfl
  | succ k ih =>
    rw [Rtai.semWaitf, Retry.tryFirst]
    have hnext : (waitTimed delay (callTime waitTimed delay now i)).2 =
        callTime waitTimed delay now (i + 1) := rfl
    generalize waitTimed delay (callTime waitTimed delay now i) = w at hnext
    obtain ⟨o, u⟩ := w
    change u = _ at hnext
    subst hnext
    by_cases ho : o = .timedOut
    · subst ho
      simp only [resultOf, beq_self_eq_true, if_true]
      cases stop (callTime waitTimed delay now (i + 1)) with
      | true => rfl
      | false =>
        simp only [Bool.false_eq_true, if_false]
        exact ih (i + 1) _
    · obtain ⟨hne, hret⟩ := ret_resultOf hbase htimout ho
      rw [if_neg (by simpa using hne)]
      simp only [Option.map_some, answer, Option.elim_some, hret]
      cases o with
      | acquired => rfl
      | timedOut => exact absurd rfl ho
      | failed e => rfl

/-- At each fuel, `Rtai.semWaitf` answers as `urt_sem_waitf` does with these parameters. -/
theorem semWaitf_eq_callTimes (waitTimed : Nat → Nat → Timed × Nat) (delay : Nat)
    (stop : Nat → Bool) (plain : Int) (now k : Nat) (hbase : 0 < rteBase)
    (htimout : rteBase ≤ rteTimout) :
    (Rtai.semWaitf waitTimed delay stop now k).map (fun r => (Posix.Lockf.codeOf r.1, r.2)) =
      (semWaitf rteBase rteTimout
        (fun i _ => resultOf rteTimout (waitTimed delay (callTime waitTimed delay now i)).1) plain
        (some fun i => stop (callTime waitTimed delay now (i + 1))) delay k).map
          fun a => (a.ret, callTime waitTimed delay now a.attempts) :=
  semWaitf_eq_tryFirst waitTimed delay stop now k 0 0 hbase htimout

end Urt.Rtai.Lockf
