import Mathlib.Data.List.Basic
import Mathlib.Order.Basic
import Urt.Posix.PeriodicTask

/-!
# Queries of a periodic task

`urt_task_next_period` and `urt_task_period_time_left` are no read-only calls: the first of
them in a period moves `attr.start_time` on and sets a flag that the next wait takes back. Here
the readings of the clock may be any; `TaskCall.after` is what a call makes of the task, whatever
the clock says. Between two waits all queries give the same time, the one the next wait sleeps
until (`answers_eq`), and with a clock that advances strictly it does not matter to the waits
how many queries there are (`startTimes_eq`).
-/

namespace Urt.Posix

/-! ## Calls with any readings -/

/-- The call is a wait. -/
def TaskCall.isWait : TaskCall → Bool
  | .waitPeriod _ _ _ => true
  | _ => false

/-- What a call makes of the task. -/
def TaskCall.after (task : Task) : TaskCall → Task
  | .nextPeriod cur => (taskNextPeriod task cur).2
  | .periodTimeLeft cur now => (taskPeriodTimeLeft task cur now).2
  | .waitPeriod cur _ _ => { updateStartTime task cur with nextPeriodCalculated := false }

/-- What `urt_task_next_period` returns, called by the task or by `urt_task_period_time_left`. -/
def TaskCall.answer (task : Task) : TaskCall → Option Int
  | .nextPeriod cur | .periodTimeLeft cur _ => some (taskNextPeriod task cur).1
  | .waitPeriod _ _ _ => none

/-- The start time that a wait sleeps until. -/
def TaskCall.sleepsUntil (task : Task) : TaskCall → Option Int
  | .waitPeriod cur _ _ => some (updateStartTime task cur).startTime
  | _ => none

/-- The task after some calls. -/
def afterCalls (task : Task) (ls : List TaskCall) : Task := ls.foldl TaskCall.after task

/-- All that `urt_task_next_period` returns in some calls. -/
def answers (task : Task) : List TaskCall → List Int
  | [] => []
  | l :: ls => (l.answer task).toList ++ answers (l.after task) ls

/-- The start times at the waits. -/
def startTimes (task : Task) : List TaskCall → List Int
  | [] => []
  | l :: ls => (l.sleepsUntil task).toList ++ startTimes (l.after task) ls

/-- The number of waits. -/
def waitCalls (ls : List TaskCall) : Nat := ls.countP TaskCall.isWait

/-- The clock is read by the first call of a period. -/
def Task.Reads (task : Task) : Prop := 0 < task.period ∧ task.nextPeriodCalculated = false

instance (task : Task) : Decidable task.Reads := inferInstanceAs (Decidable (_ ∧ _))

theorem updateStartTime_of_not_reads {task : Task} (h : ¬ task.Reads) (cur : Int) :
    updateStartTime task cur = task := by
  unfold updateStartTime
  by_cases hperiod : task.period ≤ 0
  · exact if_pos hperiod
  · rw [if_neg hperiod]
    apply if_pos
    by_contra hflag
    exact h ⟨by omega, by simpa using hflag⟩

/-- Once calculated, the next period stands. -/
theorem updateStartTime_not_reads (task : Task) (cur : Int) :
    ¬ (updateStartTime task cur).Reads := by
  by_cases hreads : task.Reads
  · rw [updateStartTime_eq hreads.1]
    intro h
    cases h.2
  · rwa [updateStartTime_of_not_reads hreads]

theorem after_of_not_wait {l : TaskCall} (h : l.isWait = false) (task : Task) :
    l.after task = updateStartTime task l.cur := by
  cases l with
  | nextPeriod | periodTimeLeft => rfl
  | waitPeriod => cases h

/-- Queries leave a task alone whose next period is calculated. -/
theorem afterCalls_of_not_reads {task : Task} (hreads : ¬ task.Reads) {ls : List TaskCall}
    (h : ∀ l ∈ ls, l.isWait = false) : afterCalls task ls = task := by
  induction ls with
  | nil => rfl
  | cons l ls ih =>
    show afterCalls (l.after task) ls = task
    rw [after_of_not_wait (h l List.mem_cons_self), updateStartTime_of_not_reads hreads]
    exact ih fun x hx => h x (List.mem_cons_of_mem _ hx)

/-- All queries before a wait give the start time that the wait sleeps until. -/
theorem answers_eq {task : Task} {ls : List TaskCall} (h : ∀ l ∈ ls, l.isWait = false)
    (cur : Int) :
    ∀ v ∈ answers task ls, v = (updateStartTime (afterCalls task ls) cur).startTime := by
  induction ls generalizing task with
  | nil => exact fun v hv => absurd hv List.not_mem_nil
  | cons l ls ih =>
    have hl := h l List.mem_cons_self
    have hls : ∀ x ∈ ls, x.isWait = false := fun x hx => h x (List.mem_cons_of_mem _ hx)
    intro v hv
    obtain hv | hv := List.mem_append.mp hv
    · -- the task this query leaves is the one the wait finds
      have hstands : afterCalls task (l :: ls) = updateStartTime task l.cur := by
        show afterCalls (l.after task) ls = _
        rw [after_of_not_wait hl]
        exact afterCalls_of_not_reads (updateStartTime_not_reads task l.cur) hls
      rw [hstands, updateStartTime_of_not_reads (updateStartTime_not_reads task l.cur)]
      cases l with
      | nextPeriod | periodTimeLeft => exact List.mem_singleton.mp hv
      | waitPeriod => cases hl
    · exact ih hls v hv

/-! ## A clock that advances strictly -/

/-- What a call reads after `_update_start_time`. -/
def TaskCall.laterReadings : TaskCall → List Int
  | .nextPeriod _ => []
  | .periodTimeLeft _ now | .waitPeriod _ now _ => [now]

/-- The readings of the clock that a call takes. -/
def TaskCall.readings (task : Task) (l : TaskCall) : List Int :=
  (if task.Reads then [l.cur] else []) ++ l.laterReadings

/-- One call of a running task whose clock advances strictly: each reading is later than the
one before, and than the time at which the sleep before returned. -/
def strictStep (s : Running) (l : TaskCall) : Option Running :=
  if (s.clock :: l.readings s.task).Pairwise (· < ·) then
    match l with
    | .nextPeriod _ =>
        some { s with task := l.after s.task, clock := (l.readings s.task).getLastD s.clock }
    | .periodTimeLeft _ now => some { s with task := l.after s.task, clock := now }
    | .waitPeriod cur now wake =>
        (taskWaitPeriod s.task cur now wake).map fun task =>
          { task := task, clock := wake, waits := s.waits + 1 }
  else none

theorem readings_of_reads {task : Task} (h : task.Reads) (l : TaskCall) :
    l.readings task = l.cur :: l.laterReadings := by
  rw [TaskCall.readings, if_pos h]
  rfl

theorem readings_of_not_reads {task : Task} (h : ¬ task.Reads) (l : TaskCall) :
    l.readings task = l.laterReadings := by
  rw [TaskCall.readings, if_neg h]
  rfl

/-- A step of a strictly advancing clock is one of a clock that does not go back. A reading that
is not taken may be any. -/
theorem taskStep_of_strictStep {s s' : Running} {l : TaskCall} (h : strictStep s l = some s') :
    ∃ l', taskStep s l' = some s' ∧ (s.task.Reads → l'.cur = l.cur ∧ s.clock < l.cur) := by
  unfold strictStep at h
  by_cases hstrict : (s.clock :: l.readings s.task).Pairwise (· < ·)
  · rw [if_pos hstrict] at h
    by_cases hreads : s.task.Reads
    · rw [readings_of_reads hreads, List.pairwise_cons, List.pairwise_cons] at hstrict
      obtain ⟨hclock, hlater, -⟩ := hstrict
      have hcur : s.clock < l.cur := hclock l.cur List.mem_cons_self
      refine ⟨l, ?_, fun _ => ⟨rfl, hcur⟩⟩
      cases l with
      | nextPeriod cur =>
        have hcur : s.clock < cur := hcur
        rw [readings_of_reads hreads] at h
        rw [taskStep, if_pos (Int.le_of_lt hcur), ← h]
        rfl
      | periodTimeLeft cur now =>
        have hcur : s.clock < cur := hcur
        have hnow : cur < now := hlater now (List.mem_singleton.mpr rfl)
        rw [taskStep, if_pos ⟨Int.le_of_lt hcur, Int.le_of_lt hnow⟩, ← h]
        rfl
      | waitPeriod cur now wake =>
        have hcur : s.clock < cur := hcur
        have hnow : cur < now := hlater now (List.mem_singleton.mpr rfl)
        rw [taskStep, if_pos ⟨Int.le_of_lt hcur, Int.le_of_lt hnow⟩, ← h]
    · rw [readings_of_not_reads hreads, List.pairwise_cons] at hstrict
      have hupdate := updateStartTime_of_not_reads hreads
      cases l with
      | nextPeriod cur =>
        refine ⟨.nextPeriod s.clock, ?_, fun hr => absurd hr hreads⟩
        rw [readings_of_not_reads hreads] at h
        rw [taskStep, if_pos (Int.le_refl _), ← h]
        show some { s with task := updateStartTime s.task s.clock } =
          some { s with task := updateStartTime s.task cur }
        rw [hupdate, hupdate]
      | periodTimeLeft cur now =>
        have hnow : s.clock < now := hstrict.1 now (List.mem_singleton.mpr rfl)
        refine ⟨.periodTimeLeft s.clock now, ?_, fun hr => absurd hr hreads⟩
        rw [taskStep, if_pos ⟨Int.le_refl _, Int.le_of_lt hnow⟩, ← h]
        show some { s with task := updateStartTime s.task s.clock, clock := now } =
          some { s with task := updateStartTime s.task cur, clock := now }
        rw [hupdate, hupdate]
      | waitPeriod cur now wake =>
        have hnow : s.clock < now := hstrict.1 now (List.mem_singleton.mpr rfl)
        refine ⟨.waitPeriod s.clock now wake, ?_, fun hr => absurd hr hreads⟩
        rw [taskStep, if_pos ⟨Int.le_refl _, Int.le_of_lt hnow⟩, ← h]
        simp only [taskWaitPeriod, hupdate]
  · rw [if_neg hstrict] at h
    cases h

/-- What a step makes of the task and of the number of waits, and when a wait returns. -/
theorem strictStep_cases {s s' : Running} {l : TaskCall} (h : strictStep s l = some s') :
    s'.task = l.after s.task ∧
      (l.isWait = false ∧ s'.waits = s.waits ∧ l.sleepsUntil s.task = none ∨
        l.isWait = true ∧ s'.waits = s.waits + 1 ∧
          l.sleepsUntil s.task = some s'.task.startTime ∧
          s'.task.nextPeriodCalculated = false) := by
  unfold strictStep at h
  by_cases hstrict : (s.clock :: l.readings s.task).Pairwise (· < ·)
  · rw [if_pos hstrict] at h
    cases l with
    | nextPeriod | periodTimeLeft =>
      cases h
      exact ⟨rfl, .inl ⟨rfl, rfl, rfl⟩⟩
    | waitPeriod cur now wake =>
      obtain ⟨task, htask, rfl⟩ := Option.map_eq_some_iff.mp h
      simp only [taskWaitPeriod] at htask
      split at htask
      · cases htask
        exact ⟨rfl, .inr ⟨rfl, rfl, rfl, rfl⟩⟩
      · cases htask
  · rw [if_neg hstrict] at h
    cases h

/-- With a strictly advancing clock the start time keeps up with the waits. -/
theorem onTime_strictStep {s0 : Int} {s s' : Running} {l : TaskCall} (h : OnTime s0 s)
    (hs : strictStep s l = some s') : OnTime s0 s' := by
  obtain ⟨l', hl', hcur⟩ := taskStep_of_strictStep hs
  apply onTime_step h hl'
  intro hflag
  obtain ⟨heq, hlt⟩ := hcur ⟨h.period_pos, hflag⟩
  have hstarted := h.started hflag
  omega

theorem period_strictStep {s s' : Running} {l : TaskCall} (hs : strictStep s l = some s') :
    s'.task.period = s.task.period := by
  rw [(strictStep_cases hs).1]
  cases l <;> exact updateStartTime_period _ _

/-- The start times at the waits of a run: one period further each. -/
theorem startTimes_of_onTime {s0 : Int} {s s' : Running} {ls : List TaskCall} (h : OnTime s0 s)
    (hrun : Lts.exec strictStep s ls = some s') :
    startTimes s.task ls =
      (List.range' (s.waits + 1) (waitCalls ls)).map fun k => s0 + (k : Nat) * s.task.period := by
  induction ls generalizing s with
  | nil => rfl
  | cons l ls ih =>
    cases hl : strictStep s l with
    | none =>
      rw [Lts.exec, hl] at hrun
      cases hrun
    | some t =>
      rw [Lts.exec_cons hl] at hrun
      have ht := onTime_strictStep h hl
      have hrest := ih ht hrun
      obtain ⟨htask, hcase⟩ := strictStep_cases hl
      rw [startTimes, ← htask, hrest, period_strictStep hl]
      obtain ⟨hquery, hwaits, hnone⟩ | ⟨hwait, hwaits, hsleep, hflag⟩ := hcase
      · rw [hnone, hwaits, waitCalls, waitCalls, List.countP_cons_of_neg (by simp [hquery])]
        rfl
      · have hstart : t.task.startTime = s0 + ((s.waits + 1 : Nat) : Int) * s.task.period := by
          rw [(ht.punctual hflag).1, hwaits, period_strictStep hl]
        rw [hsleep, hwaits, hstart, waitCalls, waitCalls, List.countP_cons_of_pos hwait,
          List.range'_succ]
        rfl

/-- With a strictly advancing clock, two runs with the same first start time and the same number
of waits go through the same start times, whatever queries they make. -/
theorem startTimes_eq {period startTime now₁ wake₁ now₂ wake₂ : Int} (hperiod : 0 < period)
    {s₁ s₂ s₁' s₂' : Running} (h₁ : taskWrapper ⟨period, startTime, false⟩ now₁ wake₁ = some s₁)
    (h₂ : taskWrapper ⟨period, startTime, false⟩ now₂ wake₂ = some s₂)
    (hstart : s₁.task = s₂.task) {ls₁ ls₂ : List TaskCall}
    (hrun₁ : Lts.exec strictStep s₁ ls₁ = some s₁')
    (hrun₂ : Lts.exec strictStep s₂ ls₂ = some s₂') (hwaits : waitCalls ls₁ = waitCalls ls₂) :
    startTimes s₁.task ls₁ = startTimes s₂.task ls₂ := by
  have hzero : ∀ {now wake : Int} {s : Running},
      taskWrapper ⟨period, startTime, false⟩ now wake = some s → s.waits = 0 := by
    intro now wake s h
    unfold taskWrapper at h
    split at h
    · cases h
      rfl
    · split at h
      · cases h
        rfl
      · cases h
  rw [startTimes_of_onTime (onTime_taskWrapper hperiod h₁).1 hrun₁,
    startTimes_of_onTime (onTime_taskWrapper hperiod h₂).1 hrun₂, hwaits, hstart, hzero h₁,
    hzero h₂]

/-! ## Queries and waits -/

/-- **For every task and all readings of the clock, what `urt_task_next_period` returns between
two waits is the start time that the second of them sleeps until. And if the clock advances
strictly, two runs of a periodic task with the same first start time and equally many waits go
through the same start times at their waits, whatever queries they make.** -/
theorem queries_transparent :
    (∀ (task : Task) (queries : List TaskCall) (cur now wake : Int),
      (∀ l ∈ queries, l.isWait = false) → ∀ v ∈ answers task queries,
        (TaskCall.waitPeriod cur now wake).sleepsUntil (afterCalls task queries) = some v) ∧
    ∀ (period startTime now₁ wake₁ now₂ wake₂ : Int) (s₁ s₂ s₁' s₂' : Running)
      (ls₁ ls₂ : List TaskCall), 0 < period →
      taskWrapper ⟨period, startTime, false⟩ now₁ wake₁ = some s₁ →
      taskWrapper ⟨period, startTime, false⟩ now₂ wake₂ = some s₂ → s₁.task = s₂.task →
      Lts.exec strictStep s₁ ls₁ = some s₁' → Lts.exec strictStep s₂ ls₂ = some s₂' →
      waitCalls ls₁ = waitCalls ls₂ → startTimes s₁.task ls₁ = startTimes s₂.task ls₂ := by
  constructor
  · intro task queries cur now wake hqueries v hv
    rw [answers_eq hqueries cur v hv]
    rfl
  · intro period startTime now₁ wake₁ now₂ wake₂ s₁ s₂ s₁' s₂' ls₁ ls₂ hperiod h₁ h₂ hstart
      hrun₁ hrun₂ hwaits
    exact startTimes_eq hperiod h₁ h₂ hstart hrun₁ hrun₂ hwaits

/-- A task with a period of ten: two queries with different readings, and a run with queries
beside one without. -/
theorem queries_transparent_ten :
    (∀ v ∈ answers ⟨10, 100, false⟩ [.nextPeriod 103, .periodTimeLeft 90 200], v = 110) ∧
    startTimes ⟨10, 100, false⟩ [.waitPeriod 101 102 110, .waitPeriod 111 112 120] =
      startTimes ⟨10, 100, false⟩
        [.nextPeriod 105, .waitPeriod 0 106 110, .periodTimeLeft 111 112,
          .waitPeriod 0 113 121] := by
  constructor
  · intro v hv
    have h := queries_transparent.1 ⟨10, 100, false⟩ [.nextPeriod 103, .periodTimeLeft 90 200]
      201 202 203 (by decide) v hv
    exact (Option.some.inj h).symm
  · exact queries_transparent.2 10 0 100 100 100 100 ⟨⟨10, 100, false⟩, 100, 0⟩
      ⟨⟨10, 100, false⟩, 100, 0⟩ _ _ _ _ (by decide) rfl rfl rfl
      (Option.some_get (by decide)).symm (Option.some_get (by decide)).symm rfl

end Urt.Posix
