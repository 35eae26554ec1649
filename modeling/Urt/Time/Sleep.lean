import Mathlib.Tactic.Ring

/-!
# Sleeping

`urt_sleep` for POSIX (`sys/posix/include/urt_sys_time.h`), and for RTAI in user space and in the
kernel (`sys/rtai/include/urt_sys_time.h`). Each rounds the time up to the units of the system
calls it makes, whose arguments are narrower than an `urt_time`; a sum that overflows an
`urt_time` wraps.

The function is documented to sleep for at least the time it is given. `sleep_exact` says for
which times it asks for as much.
-/

namespace Urt

/-! ## The functions -/

/-- The system calls, with their arguments as they are passed. -/
inductive SleepCall where
  | sleep (seconds : UInt32)
  | usleep (usec : UInt32)
  | udelay (usecs : UInt64)
  | usleepRange (min max : UInt64)
  | msleep (msecs : UInt32)
  deriving DecidableEq, Repr

/-- An `urt_time` passed as an `unsigned int`. -/
def unsignedArg (t : Int64) : UInt32 := t.toUInt64.toUInt32

/-- `do_div`, which divides unsigned numbers, of an `urt_time`. -/
def doDiv (t : Int64) (base : UInt64) : Int64 := (t.toUInt64 / base).toInt64

/-- `urt_sleep` for POSIX -/
def Posix.sleep (t : Int64) : List SleepCall :=
  if t ≤ 0 then []
  else
    let t := (t + 999) / 1000
    let ts := t / 1000000
    let tu := t % 1000000
    [.sleep (unsignedArg ts), .usleep (unsignedArg tu)]

/-- `urt_sleep` for RTAI: a call of `rt_sleep`, or what a thread that is not real-time calls. -/
inductive RtaiSleep where
  | rtSleep (count : Int64)
  | nonrt (calls : List SleepCall)
  deriving DecidableEq, Repr

section

variable (nano2count : Int64 → Int64) (isRtContext : Bool) (t : Int64)

/-- `urt_sleep` for RTAI in user space -/
def Rtai.sleep : RtaiSleep :=
  if isRtContext then .rtSleep (nano2count t) else .nonrt (Posix.sleep t)

/-- `urt_sleep` for RTAI in the kernel -/
def Rtai.kernelSleep : RtaiSleep :=
  if isRtContext then .rtSleep (nano2count t)
  else if t ≤ 0 then .nonrt []
  else
    let t := doDiv (t + 999) 1000
    if t < 10 then .nonrt [.udelay t.toUInt64]
    else if t < 15000 then .nonrt [.usleepRange t.toUInt64 (t + t / 64).toUInt64]
    else
      let t := doDiv (t + 999) 1000
      .nonrt [.msleep (unsignedArg t)]

end

/-! ## What is asked for -/

/-- The nanoseconds that a call asks for, at the least. -/
def SleepCall.nanos : SleepCall → Nat
  | sleep seconds => seconds.toNat * 1000000000
  | usleep usec => usec.toNat * 1000
  | udelay usecs => usecs.toNat * 1000
  | usleepRange min _ => min.toNat * 1000
  | msleep msecs => msecs.toNat * 1000000

def totalNanos (calls : List SleepCall) : Nat := (calls.map SleepCall.nanos).sum

/-- The calls ask for no delay or for at least `t`. -/
structure SleepsFor (t : Int64) (calls : List SleepCall) : Prop where
  nonpos : t ≤ 0 → calls = []
  enough : 0 < t → t.toInt ≤ totalNanos calls

/-- In user space they do it with `sleep` and `usleep`, without a microsecond too much. -/
structure UserSleeps (t : Int64) (calls : List SleepCall) : Prop extends SleepsFor t calls where
  through : ∀ call ∈ calls,
    (∃ s, call = .sleep s) ∨ ∃ u : UInt32, call = .usleep u ∧ u.toNat < 1000000
  excess : 0 < t → totalNanos calls < t.toInt + 1000

/-- In the kernel they are a single call. -/
structure KernelSleeps (t : Int64) (calls : List SleepCall) : Prop extends SleepsFor t calls where
  one : 0 < t → (∃ u, calls = [.udelay u]) ∨ (∃ a b, calls = [.usleepRange a b]) ∨
    ∃ m, calls = [.msleep m]

/-! ## Arithmetic of `urt_time` -/

theorem toInt_add_of_lt {a b : Int64} (hle : -2 ^ 63 ≤ a.toInt + b.toInt)
    (hlt : a.toInt + b.toInt < 2 ^ 63) : (a + b).toInt = a.toInt + b.toInt := by
  rw [Int64.toInt_add]
  exact Int.bmod_eq_of_le (by omega) (by omega)

theorem toInt_div_of_nonneg {a b : Int64} (ha : 0 ≤ a.toInt) (hb : b ≠ -1) :
    (a / b).toInt = a.toInt / b.toInt := by
  rw [Int64.toInt_div_of_ne_right a b hb, Int.tdiv_eq_ediv_of_nonneg ha]

theorem toInt_mod_of_nonneg {a b : Int64} (ha : 0 ≤ a.toInt) :
    (a % b).toInt = a.toInt % b.toInt := by
  rw [Int64.toInt_mod, Int.tmod_eq_emod_of_nonneg ha]

theorem toNat_toUInt64 {a : Int64} (ha : 0 ≤ a.toInt) : a.toUInt64.toNat = a.toInt.toNat :=
  Int64.toNat_toUInt64_of_le (Int64.le_iff_toInt_le.mpr ha)

theorem toNat_unsignedArg {a : Int64} (ha : 0 ≤ a.toInt) :
    (unsignedArg a).toNat = a.toInt.toNat % 2 ^ 32 := by
  rw [unsignedArg, UInt64.toNat_toUInt32, toNat_toUInt64 ha]

theorem toInt_toInt64 {a : UInt64} (ha : a.toNat < 2 ^ 63) : a.toInt64.toInt = a.toNat := by
  have hnat : a.toInt64 = Int64.ofNat a.toNat := by
    rw [← UInt64.toInt64_ofNat', UInt64.ofNat_toNat]
  rw [hnat, Int64.toInt_ofNat_of_lt ha]

/-- `do_div` takes the bits of its argument for an unsigned number. -/
theorem toInt_doDiv (a : Int64) {base : UInt64} (hbase : 1 < base.toNat) :
    (doDiv a base).toInt = (a.toUInt64.toNat / base.toNat : Nat) := by
  have hlt : a.toUInt64.toNat < 2 ^ 64 := UInt64.toNat_lt _
  have hquot : a.toUInt64.toNat / base.toNat ≤ a.toUInt64.toNat / 2 :=
    Nat.div_le_div_left hbase (by omega)
  have hdiv : (a.toUInt64 / base).toNat = a.toUInt64.toNat / base.toNat := UInt64.toNat_div _ _
  rw [doDiv, toInt_toInt64 (by omega), hdiv]

theorem nonpos_iff {t : Int64} : t ≤ 0 ↔ t.toInt ≤ 0 := Int64.le_iff_toInt_le

theorem pos_iff {t : Int64} : 0 < t ↔ 0 < t.toInt := Int64.lt_iff_toInt_lt

/-! ## User space -/

/-- `t` in microseconds, rounded up. -/
def micros (t : Int64) : Nat := (t.toInt.toNat + 999) / 1000

/-- The two calls split the microseconds, as long as these can be computed. -/
theorem posix_sleep_pos {t : Int64} (ht : 0 < t.toInt) :
    ∃ s u, Posix.sleep t = [.sleep s, .usleep u] ∧
      (t.toInt + 999 < 2 ^ 63 →
        s.toNat = micros t / 1000000 % 2 ^ 32 ∧ u.toNat = micros t % 1000000) := by
  refine ⟨_, _, if_neg (by rw [nonpos_iff]; omega), ?_⟩
  intro hlt
  have h999 : (999 : Int64).toInt = 999 := rfl
  have hsum : (t + 999).toInt = t.toInt + 999 := by
    rw [← h999] at hlt ⊢
    exact toInt_add_of_lt (by omega) hlt
  have hus : ((t + 999) / 1000).toInt = micros t := by
    rw [toInt_div_of_nonneg (by omega) (by decide), hsum, micros]
    show (t.toInt + 999) / 1000 = _
    omega
  have hts : ((t + 999) / 1000 / 1000000).toInt = (micros t / 1000000 : Nat) := by
    rw [toInt_div_of_nonneg (by omega) (by decide), hus]
    rfl
  have htu : ((t + 999) / 1000 % 1000000).toInt = (micros t % 1000000 : Nat) := by
    rw [toInt_mod_of_nonneg (by omega), hus]
    rfl
  rw [toNat_unsignedArg (by omega), toNat_unsignedArg (by omega), hts, htu]
  refine ⟨rfl, ?_⟩
  rw [Int.toNat_natCast]
  omega

theorem totalNanos_user (s u : UInt32) :
    totalNanos [.sleep s, .usleep u] = s.toNat * 1000000000 + u.toNat * 1000 := by
  simp [totalNanos, SleepCall.nanos]

/-- Two calls with a proper `usleep` ask for less than `2 ^ 32` seconds. -/
theorem userSleeps_iff (t : Int64) :
    UserSleeps t (Posix.sleep t) ↔ t.toInt ≤ 4294967295999999000 := by
  by_cases ht : t.toInt ≤ 0
  · have hcalls : Posix.sleep t = [] := if_pos (nonpos_iff.mpr ht)
    have hpos : ¬ 0 < t := by
      rw [pos_iff]
      omega
    rw [hcalls]
    refine ⟨fun _ => by omega, fun _ => ⟨⟨fun _ => rfl, fun h => absurd h hpos⟩, ?_, ?_⟩⟩
    · exact fun call hcall => absurd hcall List.not_mem_nil
    · exact fun h => absurd h hpos
  · obtain ⟨s, u, hcalls, hargs⟩ := posix_sleep_pos (by omega : 0 < t.toInt)
    rw [hcalls]
    constructor
    · intro h
      have henough := h.enough (pos_iff.mpr (by omega))
      rw [totalNanos_user] at henough
      have hs : s.toNat < 2 ^ 32 := UInt32.toNat_lt s
      have hu : u.toNat < 1000000 := by
        obtain ⟨v, hv⟩ | ⟨v, hv, hlt⟩ := h.through (.usleep u) (by simp)
        · cases hv
        · cases hv
          exact hlt
      omega
    · intro hle
      obtain ⟨hs, hu⟩ := hargs (by omega)
      rw [micros] at hs hu
      refine ⟨⟨?_, ?_⟩, ?_, ?_⟩
      · intro hnonpos
        exact absurd (nonpos_iff.mp hnonpos) ht
      · intro _
        rw [totalNanos_user]
        omega
      · intro call hcall
        obtain rfl | hcall := List.mem_cons.mp hcall
        · exact .inl ⟨s, rfl⟩
        · obtain rfl := List.mem_singleton.mp hcall
          exact .inr ⟨u, rfl, by omega⟩
      · intro _
        rw [totalNanos_user]
        omega

/-! ## The kernel -/

/-- The microseconds of the kernel, which even a sum that overflows gives right. -/
theorem toInt_doDiv_micros {t : Int64} (ht : 0 < t.toInt) :
    (doDiv (t + 999) 1000).toInt = micros t := by
  have hlt : t.toInt < 2 ^ 63 := Int64.toInt_lt t
  have h999 : (999 : Int64).toUInt64.toNat = 999 := rfl
  have hsum : (t + 999).toUInt64.toNat = t.toInt.toNat + 999 := by
    rw [Int64.toUInt64_add, UInt64.toNat_add, toNat_toUInt64 (by omega), h999]
    exact Nat.mod_eq_of_lt (by omega)
  rw [toInt_doDiv _ (by decide), hsum]
  rfl

/-- The milliseconds, rounded up once more. -/
theorem toInt_doDiv_millis {us : Int64} {n : Nat} (hus : us.toInt = n) (hn : n + 999 < 2 ^ 63) :
    (doDiv (us + 999) 1000).toInt = ((n + 999) / 1000 : Nat) := by
  have h999 : (999 : Int64).toInt = 999 := rfl
  have hsum : (us + 999).toInt = (n + 999 : Nat) := by
    rw [toInt_add_of_lt (by omega) (by omega), hus]
    rfl
  rw [toInt_doDiv _ (by decide), toNat_toUInt64 (by omega), hsum]
  rfl

/-- The kernel makes one call. -/
theorem kernelSleep_pos (nano2count : Int64 → Int64) {t : Int64} (ht : 0 < t.toInt) :
    ∃ call, Rtai.kernelSleep nano2count false t = .nonrt [call] ∧
      ((∃ u, call = .udelay u) ∨ (∃ a b, call = .usleepRange a b) ∨ ∃ m, call = .msleep m) ∧
      call.nanos = if micros t < 15000 then micros t * 1000
        else (micros t + 999) / 1000 % 2 ^ 32 * 1000000 := by
  have hlt : t.toInt < 2 ^ 63 := Int64.toInt_lt t
  have hus := toInt_doDiv_micros ht
  have harg : (doDiv (t + 999) 1000).toUInt64.toNat = micros t := by
    rw [toNat_toUInt64 (by omega), hus]
    rfl
  have hlt10 : doDiv (t + 999) 1000 < 10 ↔ micros t < 10 := by
    rw [Int64.lt_iff_toInt_lt, hus]
    exact Int.ofNat_lt
  have hlt15000 : doDiv (t + 999) 1000 < 15000 ↔ micros t < 15000 := by
    rw [Int64.lt_iff_toInt_lt, hus]
    exact Int.ofNat_lt
  have hnonpos : ¬ t ≤ 0 := by
    rw [nonpos_iff]
    omega
  rw [Rtai.kernelSleep, if_neg Bool.false_ne_true, if_neg hnonpos]
  dsimp only
  by_cases h10 : micros t < 10
  · rw [if_pos (hlt10.mpr h10)]
    refine ⟨_, rfl, .inl ⟨_, rfl⟩, ?_⟩
    rw [if_pos (by omega), SleepCall.nanos, harg]
  · rw [if_neg (mt hlt10.mp h10)]
    by_cases h15000 : micros t < 15000
    · rw [if_pos (hlt15000.mpr h15000)]
      refine ⟨_, rfl, .inr (.inl ⟨_, _, rfl⟩), ?_⟩
      rw [if_pos h15000, SleepCall.nanos, harg]
    · rw [if_neg (mt hlt15000.mp h15000)]
      refine ⟨_, rfl, .inr (.inr ⟨_, rfl⟩), ?_⟩
      have hms := toInt_doDiv_millis hus (by rw [micros]; omega)
      rw [if_neg h15000, SleepCall.nanos, toNat_unsignedArg (by omega), hms, Int.toNat_natCast]

theorem totalNanos_singleton (call : SleepCall) : totalNanos [call] = call.nanos := by
  simp [totalNanos]

/-- A call of `msleep` asks for less than `2 ^ 32` milliseconds. -/
theorem kernelSleeps_iff (nano2count : Int64 → Int64) (t : Int64) :
    (∃ calls, Rtai.kernelSleep nano2count false t = .nonrt calls ∧ KernelSleeps t calls) ↔
      t.toInt ≤ 4294967295000000 := by
  by_cases ht : t.toInt ≤ 0
  · have hpos : ¬ 0 < t := by
      rw [pos_iff]
      omega
    have hcalls : Rtai.kernelSleep nano2count false t = .nonrt [] := if_pos (nonpos_iff.mpr ht)
    refine ⟨fun _ => by omega, fun _ => ⟨[], hcalls, ?_⟩⟩
    exact ⟨⟨fun _ => rfl, fun h => absurd h hpos⟩, fun h => absurd h hpos⟩
  · obtain ⟨call, hcall, hkind, hnanos⟩ := kernelSleep_pos nano2count (by omega : 0 < t.toInt)
    rw [hcall]
    rw [micros] at hnanos
    constructor
    · intro h
      obtain ⟨calls, hcalls, hlaw⟩ := h
      cases hcalls
      have henough := hlaw.enough (pos_iff.mpr (by omega))
      rw [totalNanos_singleton, hnanos] at henough
      split at henough <;> omega
    · intro hle
      refine ⟨[call], rfl, ⟨?_, ?_⟩, ?_⟩
      · intro hnonpos
        exact absurd (nonpos_iff.mp hnonpos) ht
      · intro _
        rw [totalNanos_singleton, hnanos]
        split <;> omega
      · intro _
        obtain ⟨u, rfl⟩ | ⟨a, b, rfl⟩ | ⟨m, rfl⟩ := hkind
        · exact .inl ⟨u, rfl⟩
        · exact .inr (.inl ⟨a, b, rfl⟩)
        · exact .inr (.inr ⟨m, rfl⟩)

/-! ## How long it sleeps -/

/-- **`urt_sleep` asks for as much as it is to exactly for the times whose seconds, in user
space, or milliseconds, in the kernel, fit an `unsigned int` when they are rounded.** -/
theorem sleep_exact (nano2count : Int64 → Int64) (t : Int64) :
    (UserSleeps t (Posix.sleep t) ↔ t.toInt ≤ 4294967295999999000) ∧
      ((∃ calls, Rtai.sleep nano2count false t = .nonrt calls ∧ UserSleeps t calls) ↔
        t.toInt ≤ 4294967295999999000) ∧
      ((∃ calls, Rtai.kernelSleep nano2count false t = .nonrt calls ∧ KernelSleeps t calls) ↔
        t.toInt ≤ 4294967295000000) := by
  refine ⟨userSleeps_iff t, ?_, kernelSleeps_iff nano2count t⟩
  rw [← userSleeps_iff]
  constructor
  · intro h
    obtain ⟨calls, hcalls, hlaw⟩ := h
    cases hcalls
    exact hlaw
  · intro hlaw
    exact ⟨_, rfl, hlaw⟩

/-- For `2 ^ 32` seconds nothing is asked for in user space, and for `2 ^ 32` milliseconds
nothing in the kernel. -/
theorem sleep_not_enough :
    Posix.sleep 4294967296000000000 = [.sleep 0, .usleep 0] ∧
      ¬ UserSleeps 4294967296000000000 (Posix.sleep 4294967296000000000) ∧
      Rtai.kernelSleep id false 4294967296000000 = .nonrt [.msleep 0] ∧
      ¬ KernelSleeps 4294967296000000 [.msleep 0] := by
  have huser : Posix.sleep 4294967296000000000 = [.sleep 0, .usleep 0] := by decide
  refine ⟨huser, ?_, by decide, ?_⟩
  · intro h
    rw [huser] at h
    exact absurd (h.enough (by decide)) (by decide)
  · intro h
    exact absurd (h.enough (by decide)) (by decide)

end Urt
