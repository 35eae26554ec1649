import Mathlib.Tactic.Common
import Mathlib.Data.UInt

/-!
# Attributes of tasks

`urt_task_new` (`src/task_common.c`) takes the attributes it is given where they make sense and
its defaults elsewhere. `urt_priority` (`include/urt_task.h`) is to give the `n`-th highest
priority; it computes with `unsigned int`, and what it computes need not be valid.
`rtai_priority_order` says for which numbers the tasks come out in order on RTAI.
-/

namespace Urt

/-- `urt_task_attr` -/
structure TaskAttr where
  period : Int
  startTime : Int
  stackSize : UInt64
  priority : Int32
  usesFpu : Bool
  soft : Bool
  deriving DecidableEq

/-- What a back end says about priorities. -/
structure Priorities where
  /-- `URT_MAX_PRIORITY`, `URT_MIN_PRIORITY`, `URT_MORE_PRIORITY` -/
  max : Int32
  min : Int32
  more : Int32
  /-- `urt_priority_is_valid` -/
  isValid : Int32 → Bool
  /-- `urt_priority_is_higher` -/
  isHigher : Int32 → Int32 → Bool

def Posix.priorities : Priorities where
  max := 0
  min := 0
  more := 0
  isValid p := p == 0
  isHigher a b := decide (a > b)

/-- The arguments are `RT_SCHED_HIGHEST_PRIORITY` and `RT_SCHED_LOWEST_PRIORITY`. -/
def Rtai.priorities (highest lowest : Int32) : Priorities where
  max := highest + 1
  min := lowest
  more := -1
  isValid p := decide (p ≤ lowest) && decide (p ≥ highest)
  isHigher a b := decide (a < b)

/-- `urt_priority` -/
def Priorities.priority (P : Priorities) (n : UInt32) : Int32 :=
  (P.max.toUInt32 - P.more.toUInt32 * n).toInt32

/-- The attributes that `urt_task_new` gives a task; `stack` is `URT_DEFAULT_STACK_SIZE`. -/
def taskNew (P : Priorities) (stack : UInt64) (attr : Option TaskAttr) : TaskAttr :=
  let task : TaskAttr :=
    { period := 0, startTime := 0, stackSize := stack, priority := P.min, usesFpu := false,
      soft := false }
  match attr with
  | none => task
  | some attr =>
      { period := if attr.period > 0 then attr.period else task.period
        startTime := if attr.startTime > 0 then attr.startTime else task.startTime
        stackSize := if attr.stackSize > 0 then attr.stackSize else task.stackSize
        priority := if P.isValid attr.priority then attr.priority else task.priority
        usesFpu := attr.usesFpu
        soft := attr.soft }

/-- Attributes that need no correction. -/
structure TaskAttr.Valid (P : Priorities) (a : TaskAttr) : Prop where
  period : 0 ≤ a.period
  startTime : 0 ≤ a.startTime
  stackSize : 0 < a.stackSize
  priority : P.isValid a.priority = true

/-- The defaults of a back end are valid. -/
structure Priorities.Sound (P : Priorities) (stack : UInt64) : Prop where
  stack : 0 < stack
  min : P.isValid P.min = true

/-- A task has valid attributes, whatever was asked for. -/
theorem taskNew_valid {P : Priorities} {stack : UInt64} (h : P.Sound stack)
    (attr : Option TaskAttr) : (taskNew P stack attr).Valid P := by
  cases attr with
  | none => exact ⟨le_refl 0, le_refl 0, h.stack, h.min⟩
  | some attr =>
    unfold taskNew
    refine ⟨?_, ?_, ?_, ?_⟩ <;> dsimp only <;> split
    · exact le_of_lt ‹_›
    · exact le_refl 0
    · exact le_of_lt ‹_›
    · exact le_refl 0
    · assumption
    · exact h.stack
    · assumption
    · exact h.min

/-- Valid attributes are taken as they are. -/
theorem taskNew_of_valid {P : Priorities} (stack : UInt64) {a : TaskAttr} (h : a.Valid P) :
    taskNew P stack (some a) = a := by
  obtain ⟨period, startTime, stackSize, priority, usesFpu, soft⟩ := a
  obtain ⟨hperiod, hstart, hstack, hpriority⟩ := h
  dsimp only at hperiod hstart hstack hpriority
  simp only [taskNew, gt_iff_lt, hstack, hpriority, if_true, TaskAttr.mk.injEq, and_true]
  constructor <;> split <;> omega

/-! ## Numbered priorities -/

/-- The priority of a task that was given the `n`-th highest. -/
def taskPriority (P : Priorities) (stack : UInt64) (attr : TaskAttr) (n : UInt32) : Int32 :=
  (taskNew P stack (some { attr with priority := P.priority n })).priority

theorem taskPriority_eq (P : Priorities) (stack : UInt64) (attr : TaskAttr) (n : UInt32) :
    taskPriority P stack attr n =
      if P.isValid (P.priority n) then P.priority n else P.min := rfl

section Rtai

variable {highest lowest : Int32}

/-- `unsigned int` wraps into the sum. -/
theorem priority_rtai (n : UInt32) :
    (Rtai.priorities highest lowest).priority n = highest + 1 + n.toInt32 := by
  unfold Priorities.priority Rtai.priorities
  dsimp only
  rw [UInt32.toInt32_sub, UInt32.toInt32_mul, Int32.toInt32_toUInt32, Int32.toInt32_toUInt32]
  grind

theorem toInt_priority_rtai (h0 : 0 ≤ highest.toInt) (hlt : highest.toInt < lowest.toInt)
    (n : UInt32) :
    ((Rtai.priorities highest lowest).priority n).toInt =
      if highest.toInt + 1 + n.toNat < 2 ^ 31 then highest.toInt + 1 + n.toNat
      else highest.toInt + 1 + n.toNat - 2 ^ 32 := by
  have hn : n.toInt32.toInt = (n.toNat : Int).bmod (2 ^ 32) := BitVec.toInt_eq_toNat_bmod _
  have hnlt : n.toNat < 2 ^ 32 := n.toNat_lt
  have hmax : lowest.toInt < 2 ^ 31 := Int32.toInt_lt lowest
  rw [priority_rtai, Int32.toInt_add, Int32.toInt_add, hn, show (1 : Int32).toInt = 1 from rfl,
    Int.bmod_add_bmod, Int.add_bmod_bmod, Int.bmod_def]
  split <;> split <;> omega

theorem isValid_rtai_iff (p : Int32) :
    (Rtai.priorities highest lowest).isValid p = true ↔
      highest.toInt ≤ p.toInt ∧ p.toInt ≤ lowest.toInt := by
  simp [Rtai.priorities, Int32.le_iff_toInt_le, and_comm]

theorem isHigher_rtai_iff (p q : Int32) :
    (Rtai.priorities highest lowest).isHigher p q = true ↔ p.toInt < q.toInt := by
  simp [Rtai.priorities, Int32.lt_iff_toInt_lt]

/-- Beyond the lowest priority a task gets the lowest; the last number of all comes out as the
highest priority, the one `URT_MAX_PRIORITY` leaves to the watchdog. -/
theorem toInt_taskPriority_rtai (h0 : 0 ≤ highest.toInt) (hlt : highest.toInt < lowest.toInt)
    (stack : UInt64) (attr : TaskAttr) (n : UInt32) :
    (taskPriority (Rtai.priorities highest lowest) stack attr n).toInt =
      if n.toNat + 1 < 2 ^ 32 then min (highest.toInt + 1 + n.toNat) lowest.toInt
      else highest.toInt := by
  have hp := toInt_priority_rtai h0 hlt n
  have hnlt : n.toNat < 2 ^ 32 := n.toNat_lt
  have hmax : lowest.toInt < 2 ^ 31 := Int32.toInt_lt lowest
  rw [taskPriority_eq]
  by_cases hv : (Rtai.priorities highest lowest).isValid
      ((Rtai.priorities highest lowest).priority n) = true
  · rw [if_pos hv, hp]
    rw [isValid_rtai_iff, hp] at hv
    split at hv <;> split <;> split <;> omega
  · rw [if_neg hv]
    rw [isValid_rtai_iff, hp] at hv
    show lowest.toInt = _
    split at hv <;> split <;> omega

/-- **The order of priorities on RTAI.** Of two tasks created with the `n`-th and the `m`-th
highest priority, `n < m`, the first is higher if there are as many priorities, and the second
never is, unless `m` is the last `unsigned int`. -/
theorem rtai_priority_order (h0 : 0 ≤ highest.toInt) (hlt : highest.toInt < lowest.toInt)
    (stack : UInt64) (attr attr' : TaskAttr) {n m : UInt32} (hnm : n.toNat < m.toNat) :
    ((Rtai.priorities highest lowest).isHigher
        (taskPriority (Rtai.priorities highest lowest) stack attr n)
        (taskPriority (Rtai.priorities highest lowest) stack attr' m) = true ↔
      highest.toInt + 1 + n.toNat < lowest.toInt ∧ m.toNat + 1 < 2 ^ 32) ∧
    ((Rtai.priorities highest lowest).isHigher
        (taskPriority (Rtai.priorities highest lowest) stack attr' m)
        (taskPriority (Rtai.priorities highest lowest) stack attr n) = true ↔
      m.toNat + 1 = 2 ^ 32) := by
  have hmlt : m.toNat < 2 ^ 32 := m.toNat_lt
  rw [isHigher_rtai_iff, isHigher_rtai_iff, toInt_taskPriority_rtai h0 hlt,
    toInt_taskPriority_rtai h0 hlt, if_pos (by omega)]
  constructor <;> split <;> omega

theorem rtai_priority_order_ten :
    (Rtai.priorities 0 1073741823).isHigher
      (taskPriority (Rtai.priorities 0 1073741823) 65536 ⟨1000, 0, 0, 0, false, false⟩ 10)
      (taskPriority (Rtai.priorities 0 1073741823) 65536 ⟨2000, 0, 0, 0, false, true⟩ 11) =
        true :=
  (rtai_priority_order (by decide) (by decide) 65536 ⟨1000, 0, 0, 0, false, false⟩
    ⟨2000, 0, 0, 0, false, true⟩ (by decide)).1.mpr (by decide)

end Rtai

end Urt
