import Mathlib.Logic.Function.Basic
import Urt.Lib.Lts

/-!
# The global semaphore of a bi-space build

`src/lock_common.c` and `src/kern_main.c` with `URT_BI_SPACE`: the global semaphore is a
semaphore of the kernel. Kernel threads use it directly; a thread of a user process writes a
command byte to a sysfs file whose store handler `_lock_op` uses it on its behalf, and the
threads of one process exclude each other from that file with `sysfs_lock`.

A wait that sleeps can be interrupted by a signal. `urt_global_sem_wait` has no way to say
so: the caller enters its critical section without the semaphore, and its post later raises
the count all the same. `exclusive_iff` says that this is the only way in which a run can go
wrong.
-/

namespace Urt.BiSpace

/-! ## The semaphore in the kernel -/

/-- `down_interruptible`: it takes the semaphore if it can; otherwise it sleeps (`none`) until
the count is raised or, with an error, until a signal comes. -/
def downInterruptible (signal : Bool) (count : Nat) : Option (Int × Nat) :=
  if 0 < count then some (0, count - 1)
  else if signal then some (-4, count)
  else none

/-- `down_trylock` -/
def downTrylock (count : Nat) : Int × Nat :=
  if 0 < count then (0, count - 1) else (1, count)

/-- `up` -/
def up (count : Nat) : Nat := count + 1

/-- `urt_global_sem_wait` in kernel space; the error is printed and nothing else. -/
def Kernel.globalSemWait (signal : Bool) (count : Nat) : Option Nat :=
  match downInterruptible signal count with
  | none => none
  | some (_, count) => some count

/-- `urt_global_sem_try_wait` in kernel space -/
def Kernel.globalSemTryWait (count : Nat) : Nat := (downTrylock count).2

/-- `urt_global_sem_post` in kernel space -/
def Kernel.globalSemPost (count : Nat) : Nat := up count

/-- `URT_GLOBAL_SEM_WAIT`, `URT_GLOBAL_SEM_TRY_WAIT` and `URT_GLOBAL_SEM_POST` -/
def cmdWait : UInt8 := 48
def cmdTryWait : UInt8 := 49
def cmdPost : UInt8 := 50

/-- `_lock_op`, the store handler of the sysfs file: its return value and the semaphore. -/
def lockOp (signal : Bool) (command : UInt8) (size : Int) (count : Nat) : Option (Int × Nat) :=
  if command = cmdWait then (Kernel.globalSemWait signal count).map fun count => (size, count)
  else if command = cmdTryWait then some (size, Kernel.globalSemTryWait count)
  else if command = cmdPost then some (size, Kernel.globalSemPost count)
  else some (size, count)

/-! ## Threads -/

/-- Where a thread is: outside, past `sysfs_lock` but not past the wait, in its critical
section, or past the post but not past the release of `sysfs_lock`. A kernel thread has no
`sysfs_lock` to pass. -/
inductive Phase where
  | idle
  | waiting
  | critical
  | posted
  deriving DecidableEq, Repr

variable {T P : Type} [DecidableEq T] [DecidableEq P]

structure State (T P : Type) where
  /-- the count of the semaphore -/
  count : Nat
  /-- whether `sysfs_lock` of a user process is held -/
  sysfsLock : P → Bool
  phase : T → Phase

/-- After `sema_init(&urt_global_sem, 1)`, with every thread outside. -/
def State.init : State T P :=
  { count := 1, sysfsLock := fun _ => false, phase := fun _ => .idle }

def State.setPhase (s : State T P) (t : T) (ph : Phase) : State T P :=
  { s with phase := Function.update s.phase t ph }

/-- What a thread does next. -/
inductive Label (T : Type) where
  /-- call `urt_global_sem_wait` and, in user space, take `sysfs_lock` -/
  | lock (t : T)
  /-- return from the wait; `signal` tells whether a signal is pending -/
  | down (t : T) (signal : Bool)
  /-- leave the critical section and raise the semaphore -/
  | up (t : T)
  /-- in user space, release `sysfs_lock`; return from `urt_global_sem_post` -/
  | unlock (t : T)
  deriving DecidableEq

/-- The wait of a thread, past `sysfs_lock`: a user thread writes the command, and the result
of the write is not negative. -/
def globalSemWait (process : Option P) (signal : Bool) (count : Nat) : Option Nat :=
  match process with
  | none => Kernel.globalSemWait signal count
  | some _ => (lockOp signal cmdWait 1 count).map fun r => r.2

/-- The post of a thread, before `sysfs_lock` is released. -/
def globalSemPost (process : Option P) (count : Nat) : Option Nat :=
  match process with
  | none => some (Kernel.globalSemPost count)
  | some _ => (lockOp false cmdPost 1 count).map fun r => r.2

/-- One step; `space t` is the user process of the thread, `none` for a kernel thread. -/
def step (space : T → Option P) (s : State T P) : Label T → Option (State T P)
  | .lock t =>
      if s.phase t = .idle then
        match space t with
        | none => some (s.setPhase t .waiting)
        | some p =>
            if s.sysfsLock p then none
            else some { s.setPhase t .waiting with
              sysfsLock := Function.update s.sysfsLock p true }
      else none
  | .down t signal =>
      if s.phase t = .waiting then
        (globalSemWait (space t) signal s.count).map fun count =>
          { s.setPhase t .critical with count := count }
      else none
  | .up t =>
      if s.phase t = .critical then
        (globalSemPost (space t) s.count).map fun count =>
          { s.setPhase t .posted with count := count }
      else none
  | .unlock t =>
      if s.phase t = .posted then
        match space t with
        | none => some (s.setPhase t .idle)
        | some p => some { s.setPhase t .idle with
            sysfsLock := Function.update s.sysfsLock p false }
      else none

/-! ## What a step does -/

omit [DecidableEq P] in
theorem globalSemWait_eq (process : Option P) (signal : Bool) (count : Nat) :
    globalSemWait process signal count =
      if 0 < count then some (count - 1) else if signal then some count else none := by
  have hkernel : Kernel.globalSemWait signal count =
      if 0 < count then some (count - 1) else if signal then some count else none := by
    unfold Kernel.globalSemWait downInterruptible
    by_cases hc : 0 < count
    · simp only [hc, if_true]
    · cases signal <;> simp [hc]
  cases process with
  | none => exact hkernel
  | some p =>
    rw [← hkernel]
    simp [globalSemWait, lockOp, Option.map_map, Function.comp_def]

omit [DecidableEq P] in
theorem globalSemPost_eq (process : Option P) (count : Nat) :
    globalSemPost process count = some (count + 1) := by
  cases process with
  | none => rfl
  | some p => rfl

/-- The wait of this step finds nothing to take and is interrupted. -/
def Interrupted (s : State T P) : Label T → Prop
  | .down _ signal => s.count = 0 ∧ signal = true
  | .lock _ | .up _ | .unlock _ => False

instance (s : State T P) (l : Label T) : Decidable (Interrupted s l) :=
  match l with
  | .down _ _ => instDecidableAnd
  | .lock _ | .up _ | .unlock _ => inferInstanceAs (Decidable False)

/-- A step moves one thread: outside the critical section, into it with or without the
semaphore, or out of it. -/
theorem step_cases {space : T → Option P} {s s' : State T P} {l : Label T}
    (h : step space s l = some s') :
    (∃ t ph, ¬ Interrupted s l ∧ s.phase t ≠ .critical ∧ ph ≠ .critical ∧
      s'.phase = Function.update s.phase t ph ∧ s'.count = s.count) ∨
    (∃ t, ¬ Interrupted s l ∧ 0 < s.count ∧
      s'.phase = Function.update s.phase t .critical ∧ s'.count = s.count - 1) ∨
    (∃ t, Interrupted s l ∧ s.phase t = .waiting ∧
      s'.phase = Function.update s.phase t .critical) ∨
    (∃ t, ¬ Interrupted s l ∧ s.phase t = .critical ∧
      s'.phase = Function.update s.phase t .posted ∧ s'.count = s.count + 1) := by
  cases l with
  | lock t =>
    simp only [step] at h
    split at h
    · rename_i hphase
      have hout : s.phase t ≠ .critical := by
        rw [hphase]
        decide
      refine .inl ⟨t, .waiting, id, hout, by decide, ?_⟩
      split at h
      · cases h
        exact ⟨rfl, rfl⟩
      · split at h
        · cases h
        · cases h
          exact ⟨rfl, rfl⟩
    · cases h
  | down t signal =>
    simp only [step, globalSemWait_eq] at h
    split at h
    · rename_i hphase
      by_cases hc : 0 < s.count
      · rw [if_pos hc] at h
        cases h
        exact .inr (.inl ⟨t, fun hi => absurd hi.1 (by omega), hc, rfl, rfl⟩)
      · rw [if_neg hc] at h
        split at h
        · rename_i hsignal
          cases h
          exact .inr (.inr (.inl ⟨t, ⟨by omega, hsignal⟩, hphase, rfl⟩))
        · cases h
    · cases h
  | up t =>
    simp only [step, globalSemPost_eq] at h
    split at h
    · rename_i hphase
      cases h
      exact .inr (.inr (.inr ⟨t, id, hphase, rfl, rfl⟩))
    · cases h
  | unlock t =>
    simp only [step] at h
    split at h
    · rename_i hphase
      have hout : s.phase t ≠ .critical := by
        rw [hphase]
        decide
      refine .inl ⟨t, .idle, id, hout, by decide, ?_⟩
      split at h
      · cases h
        exact ⟨rfl, rfl⟩
      · cases h
        exact ⟨rfl, rfl⟩
    · cases h

/-! ## Mutual exclusion -/

/-- At most one thread is in a critical section, and the count is at most one. -/
def Exclusive (s : State T P) : Prop :=
  s.count ≤ 1 ∧ ∀ t u, s.phase t = .critical → s.phase u = .critical → t = u

/-- The semaphore is free and nobody is inside, or it is taken and one thread is. -/
inductive Held (s : State T P) : Prop where
  | free (count : s.count = 1) (outside : ∀ t, s.phase t ≠ .critical)
  | taken (count : s.count = 0) (t : T) (inside : s.phase t = .critical)
      (only : ∀ u, s.phase u = .critical → u = t)

omit [DecidableEq T] [DecidableEq P] in
theorem Held.exclusive {s : State T P} (h : Held s) : Exclusive s := by
  cases h with
  | free count outside => exact ⟨by omega, fun t _ ht => absurd ht (outside t)⟩
  | taken count t inside only =>
    exact ⟨by omega, fun u v hu hv => (only u hu).trans (only v hv).symm⟩

omit [DecidableEq T] [DecidableEq P] in
theorem held_init : Held (State.init : State T P) := by
  apply Held.free rfl
  intro t h
  cases h

/-- A step that is no interrupted wait keeps the semaphore and the critical sections in step. -/
theorem held_step {space : T → Option P} {s s' : State T P} {l : Label T} (h : Held s)
    (hs : step space s l = some s') (hl : ¬ Interrupted s l) : Held s' := by
  rcases step_cases hs with ⟨t, ph, -, hout, hph, hphase, hcount⟩ | ⟨t, -, hpos, hphase, hcount⟩ |
    ⟨t, hi, -, -⟩ | ⟨t, -, hin, hphase, hcount⟩
  · -- a thread moves outside the critical section
    have hsame : ∀ u, s'.phase u = .critical ↔ s.phase u = .critical := by
      intro u
      rw [hphase]
      by_cases hu : u = t
      · rw [hu, Function.update_self]
        exact iff_of_false hph hout
      · rw [Function.update_of_ne hu]
    cases h with
    | free count outside =>
      exact .free (hcount.trans count) fun u hu => outside u ((hsame u).mp hu)
    | taken count v inside only =>
      exact .taken (hcount.trans count) v ((hsame v).mpr inside) fun u hu =>
        only u ((hsame u).mp hu)
  · -- a thread takes the semaphore, so nobody was inside
    cases h with
    | free count outside =>
      refine .taken (by omega) t ?_ ?_
      · rw [hphase, Function.update_self]
      · intro u hu
        by_contra hne
        rw [hphase, Function.update_of_ne hne] at hu
        exact outside u hu
    | taken count v inside only => omega
  · exact absurd hi hl
  · -- the thread inside leaves
    cases h with
    | free count outside => exact absurd hin (outside t)
    | taken count v inside only =>
      refine .free (by omega) ?_
      intro u hu
      by_cases hne : u = t
      · rw [hphase, hne, Function.update_self] at hu
        cases hu
      · rw [hphase, Function.update_of_ne hne] at hu
        exact hne ((only u hu).trans (only t hin).symm)

/-- An interrupted wait lets a second thread in. -/
theorem not_exclusive_of_interrupted {space : T → Option P} {s s' : State T P} {l : Label T}
    (h : Held s) (hs : step space s l = some s') (hl : Interrupted s l) : ¬ Exclusive s' := by
  rcases step_cases hs with ⟨_, _, hn, -⟩ | ⟨_, hn, -⟩ | ⟨t, -, hwait, hphase⟩ | ⟨_, hn, -⟩
  · exact absurd hl hn
  · exact absurd hl hn
  · have hcount : s.count = 0 := by
      cases l with
      | down u signal => exact hl.1
      | lock u | up u | unlock u => exact absurd hl id
    cases h with
    | free count outside => omega
    | taken count v inside only =>
      have hne : v ≠ t := by
        rintro rfl
        rw [inside] at hwait
        cases hwait
      intro hex
      apply hne
      apply hex.2 v t
      · rw [hphase, Function.update_of_ne hne, inside]
      · rw [hphase, Function.update_self]
  · exact absurd hl hn

/-- **In a run of any number of threads, in user or kernel space, at most one thread is in a
critical section at any time and the count never exceeds one, exactly when no wait of the run
is interrupted.** -/
theorem exclusive_iff {space : T → Option P} {s : State T P} {ls : List (Label T)}
    (hrun : Lts.exec (step space) .init ls = some s) :
    Lts.AllStates (step space) Exclusive .init ls ↔
      Lts.AllSteps (step space) (fun s l => ¬ Interrupted s l) .init ls := by
  apply Lts.allStates_iff (I := Held)
  · exact fun _ => Held.exclusive
  · intro s l s' h hs hl
    exact held_step h hs hl
  · intro s l s' h hs hl
    exact not_exclusive_of_interrupted h hs (not_not.mp hl)
  · exact held_init
  · exact hrun

/-- Two user processes, one after the other; the second one waits until the first has posted. -/
theorem exclusive_iff_two :
    ∃ s : State (Fin 2) (Fin 2),
      Lts.exec (step some) .init [.lock 0, .down 0 false, .lock 1, .up 0, .down 1 true] = some s ∧
      Lts.AllStates (step (some : Fin 2 → Option (Fin 2))) Exclusive .init
        [.lock 0, .down 0 false, .lock 1, .up 0, .down 1 true] :=
  ⟨_, rfl, (exclusive_iff rfl).mpr (by decide)⟩

/-- Two user processes: the first is in its critical section when the wait of the second is
interrupted, which lets the second in; and after both posts the count is two. -/
theorem not_exclusive :
    ∃ s s' : State (Fin 2) (Fin 2),
      Lts.exec (step some) .init [.lock 0, .down 0 false, .lock 1, .down 1 true] = some s ∧
      s.phase 0 = .critical ∧ s.phase 1 = .critical ∧ ¬ Exclusive s ∧
      Lts.exec (step some) s [.up 0, .up 1] = some s' ∧ s'.count = 2 := by
  refine ⟨_, _, rfl, rfl, rfl, ?_, rfl, rfl⟩
  intro h
  exact absurd (h.2 0 1 rfl rfl) (by decide)

end Urt.BiSpace
