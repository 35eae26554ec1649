import Urt.Lib.Lts

/-!
# Periodic tasks on POSIX

`sys/posix/src/task.c`: a periodic task keeps the start of its next period in
`attr.start_time`. `_update_start_time` moves it on by one period, at the first query or wait
of each period, and `urt_task_wait_period` sleeps until then. Time is a nondecreasing
sequence of readings, in nanoseconds, that the labels of a run carry.

A `urt_time` has 64 bits, and here it is an integer without a bound. The only sum is
`start_time + period`, of a start the clock has passed. If it exceeded `2 ^ 63 - 1`, that would
be the start of a period no clock can read, and a wait for it would not return; so in a run
whose readings are of 64 bits no sum that is waited for wraps. The differences are of readings
and starts, both of them within these bounds.

It moves on only if the clock is past the stored start: a reading equal to it, which is what
a task that woke in time can see, leaves it alone, and the wait returns in the same period.
`punctual_iff` says that a run is as documented exactly when this does not happen.
-/

namespace Urt.Posix

/-- The part of `urt_task` that has to do with periods. -/
structure Task where
  /-- `attr.period` -/
  period : Int
  /-- `attr.start_time` -/
  startTime : Int
  nextPeriodCalculated : Bool
  deriving DecidableEq, Repr

/-- `urt_sleep(t)` called at `now` may return at `wake`. -/
def Sleeps (t now wake : Int) : Prop := now ≤ wake ∧ (0 < t → now + t ≤ wake)

instance (t now wake : Int) : Decidable (Sleeps t now wake) :=
  inferInstanceAs (Decidable (_ ∧ (_ → _)))

/-- `_update_start_time`, where `cur` is what `urt_get_time` returns if it is called. -/
def updateStartTime (task : Task) (cur : Int) : Task :=
  if task.period ≤ 0 then task
  else if task.nextPeriodCalculated then task
  else
    { task with
      startTime := if cur > task.startTime then task.startTime + task.period else task.startTime
      nextPeriodCalculated := true }

/-- A task that runs, the latest time it has seen, and how often it has waited for a period. -/
structure Running where
  task : Task
  clock : Int
  waits : Nat
  deriving DecidableEq, Repr

/-- `_task_wrapper` until it calls the task's function: it reads the clock at `now` and, if the
start time is set, returns from `urt_sleep` at `wake`. -/
def taskWrapper (task : Task) (now wake : Int) : Option Running :=
  if task.startTime = 0 then
    some { task := { task with startTime := now }, clock := now, waits := 0 }
  else if Sleeps (task.startTime - now) now wake then
    some { task := task, clock := wake, waits := 0 }
  else none

/-- The calls a task makes, with the readings of the clock. -/
inductive TaskCall where
  /-- `urt_task_next_period` -/
  | nextPeriod (cur : Int)
  /-- `urt_task_period_time_left`, which also reads the clock after `urt_task_next_period` -/
  | periodTimeLeft (cur now : Int)
  /-- `urt_task_wait_period`: the reading for `urt_sleep`, and the time at which that returns -/
  | waitPeriod (cur now wake : Int)
  deriving DecidableEq, Repr

/-- The reading a call passes to `_update_start_time`. -/
def TaskCall.cur : TaskCall → Int
  | .nextPeriod cur => cur
  | .periodTimeLeft cur _ => cur
  | .waitPeriod cur _ _ => cur

/-- `urt_task_next_period`: the value it returns and the task after it -/
def taskNextPeriod (task : Task) (cur : Int) : Int × Task :=
  let task := updateStartTime task cur
  (task.startTime, task)

/-- `urt_task_period_time_left` -/
def taskPeriodTimeLeft (task : Task) (cur now : Int) : Int × Task :=
  let (next, task) := taskNextPeriod task cur
  (next - now, task)

/-- `urt_task_wait_period`; `none` if `urt_sleep` does not return at `wake`. -/
def taskWaitPeriod (task : Task) (cur now wake : Int) : Option Task :=
  let task := updateStartTime task cur
  if Sleeps (task.startTime - now) now wake then some { task with nextPeriodCalculated := false }
  else none

/-- One call of a running task; `none` if the readings go back. -/
def taskStep (s : Running) : TaskCall → Option Running
  | .nextPeriod cur =>
      if s.clock ≤ cur then some { s with task := (taskNextPeriod s.task cur).2, clock := cur }
      else none
  | .periodTimeLeft cur now =>
      if s.clock ≤ cur ∧ cur ≤ now then
        some { s with task := (taskPeriodTimeLeft s.task cur now).2, clock := now }
      else none
  | .waitPeriod cur now wake =>
      if s.clock ≤ cur ∧ cur ≤ now then
        (taskWaitPeriod s.task cur now wake).map fun task =>
          { task := task, clock := wake, waits := s.waits + 1 }
      else none

/-! ## What a call does -/

theorem updateStartTime_period (task : Task) (cur : Int) :
    (updateStartTime task cur).period = task.period := by
  unfold updateStartTime
  split
  · rfl
  · split <;> rfl

/-- For a periodic task the next period is calculated once and then stands. -/
theorem updateStartTime_eq {task : Task} (h : 0 < task.period) (cur : Int) :
    updateStartTime task cur =
      { task with
        startTime := if task.nextPeriodCalculated = false ∧ task.startTime < cur then
          task.startTime + task.period else task.startTime
        nextPeriodCalculated := true } := by
  obtain ⟨period, startTime, calculated⟩ := task
  unfold updateStartTime
  rw [if_neg (by simpa using h)]
  cases calculated with
  | true => simp
  | false =>
    by_cases hcur : startTime < cur <;> simp [hcur]

/-- A call updates the start time at a reading that is not in the past; a wait also lasts until
then and makes the next call calculate anew. -/
theorem taskStep_cases {s s' : Running} {l : TaskCall} (h : taskStep s l = some s') :
    s.clock ≤ l.cur ∧ l.cur ≤ s'.clock ∧
      (s'.task = updateStartTime s.task l.cur ∧ s'.waits = s.waits ∨
        s'.task = { updateStartTime s.task l.cur with nextPeriodCalculated := false } ∧
          s'.waits = s.waits + 1 ∧ s'.task.startTime ≤ s'.clock) := by
  cases l with
  | nextPeriod cur =>
    simp only [taskStep] at h
    split at h
    · rename_i hle
      cases h
      exact ⟨hle, Int.le_refl _, .inl ⟨rfl, rfl⟩⟩
    · cases h
  | periodTimeLeft cur now =>
    simp only [taskStep] at h
    split at h
    · rename_i hle
      cases h
      exact ⟨hle.1, hle.2, .inl ⟨rfl, rfl⟩⟩
    · cases h
  | waitPeriod cur now wake =>
    simp only [taskStep, taskWaitPeriod] at h
    split at h
    · rename_i hle
      split at h
      · rename_i hsleep
        cases h
        obtain ⟨hwake, hlong⟩ := hsleep
        refine ⟨hle.1, Int.le_trans hle.2 hwake, .inr ⟨rfl, rfl, ?_⟩⟩
        dsimp only
        by_cases hpos : 0 < (updateStartTime s.task cur).startTime - now
        · have := hlong hpos
          omega
        · omega
      · cases h
    · cases h

/-! ## The start time over a run -/

/-- After each wait (and before the first call), when no period is calculated, the start time
is `s0` plus one period for each wait, and it is not in the future. -/
def Punctual (s0 : Int) (s : Running) : Prop :=
  s.task.nextPeriodCalculated = false →
    s.task.startTime = s0 + s.waits * s.task.period ∧ s.task.startTime ≤ s.clock

instance (s0 : Int) (s : Running) : Decidable (Punctual s0 s) :=
  inferInstanceAs (Decidable (_ → _))

/-- The first reading of a period is not the start of that period itself. -/
def Ticking (s : Running) (l : TaskCall) : Prop :=
  s.task.nextPeriodCalculated = false → l.cur ≠ s.task.startTime

instance (s : Running) (l : TaskCall) : Decidable (Ticking s l) :=
  inferInstanceAs (Decidable (_ → _))

/-- The number of periods the start time should be after `s0`. -/
def Running.periods (s : Running) : Int :=
  s.waits + if s.task.nextPeriodCalculated then 1 else 0

/-- The start time is as many periods after `s0` as it should be, and a task that has not
calculated its next period has seen the start of this one. -/
structure OnTime (s0 : Int) (s : Running) : Prop where
  period_pos : 0 < s.task.period
  start : s.task.startTime = s0 + s.periods * s.task.period
  started : s.task.nextPeriodCalculated = false → s.task.startTime ≤ s.clock

/-- The start time is behind by a period at least. -/
structure Behind (s0 : Int) (s : Running) : Prop where
  period_pos : 0 < s.task.period
  start : s.task.startTime ≤ s0 + (s.periods - 1) * s.task.period

theorem OnTime.punctual {s0 : Int} {s : Running} (h : OnTime s0 s) : Punctual s0 s := by
  intro hcalc
  refine ⟨?_, h.started hcalc⟩
  rw [h.start]
  simp [Running.periods, hcalc]

theorem Behind.not_punctual {s0 : Int} {s : Running} (h : Behind s0 s)
    (hcalc : s.task.nextPeriodCalculated = false) : ¬ Punctual s0 s := by
  intro hp
  have heq := (hp hcalc).1
  have hle := h.start
  have hpos := h.period_pos
  simp only [Running.periods, hcalc, Bool.false_eq_true, if_false, Int.add_zero, Int.sub_mul] at hle
  omega

/-- How far the start time and the number of periods due move in one call. -/
theorem taskStep_moves {s s' : Running} {l : TaskCall} (hpos : 0 < s.task.period)
    (h : taskStep s l = some s') :
    s'.task.period = s.task.period ∧
      s'.periods = s.periods + (if s.task.nextPeriodCalculated then 0 else 1) ∧
      s'.task.startTime =
        s.task.startTime +
          (if s.task.nextPeriodCalculated = false ∧ s.task.startTime < l.cur then s.task.period
          else 0) ∧
      (s'.task.nextPeriodCalculated = false → s'.task.startTime ≤ s'.clock) := by
  obtain ⟨-, -, hcase⟩ := taskStep_cases h
  have hstart : (updateStartTime s.task l.cur).startTime =
      s.task.startTime +
        (if s.task.nextPeriodCalculated = false ∧ s.task.startTime < l.cur then s.task.period
        else 0) := by
    rw [updateStartTime_eq hpos]
    dsimp only
    split <;> omega
  have hflag : (updateStartTime s.task l.cur).nextPeriodCalculated = true := by
    rw [updateStartTime_eq hpos]
  rcases hcase with ⟨htask, hwaits⟩ | ⟨htask, hwaits, hslept⟩
  · rw [htask]
    refine ⟨updateStartTime_period _ _, ?_, hstart, ?_⟩
    · -- the call leaves the next period calculated
      simp only [Running.periods, htask, hflag, hwaits, if_true]
      cases s.task.nextPeriodCalculated <;> simp
    · rw [hflag]
      intro hf
      cases hf
  · refine ⟨?_, ?_, ?_, fun _ => hslept⟩
    · rw [htask]
      exact updateStartTime_period _ _
    · -- the wait takes the period that is calculated
      simp only [Running.periods, htask, hwaits]
      cases s.task.nextPeriodCalculated <;> simp
    · rw [htask]
      exact hstart

theorem onTime_step {s0 : Int} {s s' : Running} {l : TaskCall} (h : OnTime s0 s)
    (hs : taskStep s l = some s') (hl : Ticking s l) : OnTime s0 s' := by
  obtain ⟨hperiod, hperiods, hstart, hslept⟩ := taskStep_moves h.period_pos hs
  refine ⟨hperiod ▸ h.period_pos, ?_, hslept⟩
  rw [hstart, hperiods, hperiod, h.start]
  cases hcalc : s.task.nextPeriodCalculated with
  | true => simp
  | false =>
    -- the clock is not behind the start of this period, and it does not stand at it
    have hcur : s0 + s.periods * s.task.period < l.cur := by
      have hseen := h.started hcalc
      have hread := (taskStep_cases hs).1
      have hne := hl hcalc
      rw [h.start] at hseen hne
      omega
    rw [if_pos ⟨rfl, hcur⟩, if_neg Bool.false_ne_true, Int.add_mul, Int.one_mul, Int.add_assoc]

/-- A first reading equal to the start of the period loses the period. -/
theorem behind_of_onTime {s0 : Int} {s s' : Running} {l : TaskCall} (h : OnTime s0 s)
    (hs : taskStep s l = some s') (hl : ¬ Ticking s l) : Behind s0 s' := by
  obtain ⟨hperiod, hperiods, hstart, -⟩ := taskStep_moves h.period_pos hs
  unfold Ticking at hl
  push Not at hl
  obtain ⟨hcalc, hcur⟩ := hl
  refine ⟨hperiod ▸ h.period_pos, ?_⟩
  rw [hstart, hperiods, hperiod, hcalc, if_neg Bool.false_ne_true, if_neg (by omega),
    Int.add_sub_cancel, h.start]
  omega

/-- A period that is lost is never made up for. -/
theorem behind_step {s0 : Int} {s s' : Running} {l : TaskCall} (h : Behind s0 s)
    (hs : taskStep s l = some s') : Behind s0 s' := by
  obtain ⟨hperiod, hperiods, hstart, -⟩ := taskStep_moves h.period_pos hs
  have hpos := h.period_pos
  have hle := h.start
  refine ⟨hperiod ▸ h.period_pos, ?_⟩
  rw [hstart, hperiods, hperiod]
  cases s.task.nextPeriodCalculated with
  | true => simpa using hle
  | false =>
    have hmul : (s.periods + 1 - 1) * s.task.period =
        (s.periods - 1) * s.task.period + s.task.period := by
      rw [Int.add_sub_cancel, Int.sub_mul]
      omega
    rw [if_neg Bool.false_ne_true, hmul]
    split <;> omega

theorem onTime_taskWrapper {period startTime now wake : Int} (hperiod : 0 < period) {s : Running}
    (h : taskWrapper ⟨period, startTime, false⟩ now wake = some s) :
    OnTime s.task.startTime s ∧ s.task.nextPeriodCalculated = false := by
  unfold taskWrapper at h
  dsimp only at h
  split at h
  · cases h
    exact ⟨⟨hperiod, by simp [Running.periods], fun _ => Int.le_refl _⟩, rfl⟩
  · split at h
    · rename_i hsleep
      cases h
      refine ⟨⟨hperiod, by simp [Running.periods], fun _ => ?_⟩, rfl⟩
      obtain ⟨hwake, hlong⟩ := hsleep
      dsimp only
      by_cases hfuture : 0 < startTime - now
      · have := hlong hfuture
        omega
      · omega
    · cases h

/-- A run that ends with a wait leaves no period calculated. -/
theorem nextPeriodCalculated_of_wait {s s' : Running} {ls : List TaskCall} {cur now wake : Int}
    (h : Lts.exec taskStep s (ls ++ [.waitPeriod cur now wake]) = some s') :
    s'.task.nextPeriodCalculated = false := by
  obtain ⟨u, -, hlast⟩ := Lts.exec_concat h
  simp only [taskStep, taskWaitPeriod] at hlast
  split at hlast
  · split at hlast
    · cases hlast
      rfl
    · cases hlast
  · cases hlast

/-- **In a run of a periodic task that ends with a wait, after each wait the start time is `s0`
plus one period for each wait made and not in the future, exactly when in no period the first
reading of the clock is the start of that period itself.** -/
theorem punctual_iff {period startTime now wake : Int} (hperiod : 0 < period) {s s' : Running}
    (hwrap : taskWrapper ⟨period, startTime, false⟩ now wake = some s) {ls : List TaskCall}
    {cur now' wake' : Int}
    (hrun : Lts.exec taskStep s (ls ++ [.waitPeriod cur now' wake']) = some s') :
    Lts.AllStates taskStep (Punctual s.task.startTime) s (ls ++ [.waitPeriod cur now' wake']) ↔
      Lts.AllSteps taskStep Ticking s (ls ++ [.waitPeriod cur now' wake']) := by
  apply Lts.allStates_iff_of_fall (I := OnTime s.task.startTime) (J := Behind s.task.startTime)
  · exact fun _ => OnTime.punctual
  · exact fun _ _ _ => onTime_step
  · exact fun _ _ _ => behind_of_onTime
  · exact fun _ _ _ => behind_step
  · exact (onTime_taskWrapper hperiod hwrap).1
  · exact hrun
  · intro hbehind
    exact hbehind.not_punctual (nextPeriodCalculated_of_wait hrun)

/-- A task with a period of ten that starts at 100, asks for its next period at 103, waits for
it, and misses the one after. -/
theorem punctual_iff_ten :
    Lts.exec taskStep ⟨⟨10, 100, false⟩, 100, 0⟩
        ([.nextPeriod 103, .waitPeriod 104 105 110] ++ [.waitPeriod 125 126 126]) =
      some ⟨⟨10, 120, false⟩, 126, 2⟩ ∧
    Lts.AllStates taskStep (Punctual 100) ⟨⟨10, 100, false⟩, 100, 0⟩
      ([.nextPeriod 103, .waitPeriod 104 105 110] ++ [.waitPeriod 125 126 126]) :=
  ⟨rfl, (@punctual_iff 10 0 100 100 (by decide) _ _ rfl _ _ _ _ rfl).mpr (by decide)⟩

/-- The clock still shows the start time when the task waits for its first period: the wait
returns in the same period, and the start time has not moved. -/
theorem not_punctual :
    ∃ s s', taskWrapper ⟨10, 0, false⟩ 100 100 = some s ∧
      Lts.exec taskStep s [.waitPeriod 100 100 100] = some s' ∧ s'.waits = 1 ∧
      s'.task.startTime = s.task.startTime ∧ ¬ Punctual s.task.startTime s' :=
  ⟨_, _, rfl, rfl, rfl, rfl, by decide⟩

end Urt.Posix
