import Mathlib.Order.Lattice
import Mathlib.Algebra.Order.Group.Unbundled.Int
import Urt.Lib.Lts
import Urt.Setup.Basic

/-!
# Calibration of the user clock

In user space of a bi-space build, `_calibrate` (`src/setup_common.c`) reads the clock of the
kernel from a sysfs file and the own clock with `urt_get_time`, ten times, and stores the
smallest difference in `urt_time_offset`. The own clock it reads already contains the offset
that was stored before, and the difference is stored in its place: a second calibration
measures what the first one left and then undoes it.

The clocks run at one rate, the kernel clock ahead of the raw user clock by a fixed `shift`
that the code does not know. Times are in nanoseconds. A `urt_time` has 64 bits, and here it is
an integer without a bound: both clocks count from when the machine was started, far from
`2 ^ 62`, and an offset is `shift` less the offset before it and a delay (`calibrate_eq`), so
that it stays within `shift` and the time that has passed. No sum and no difference wraps.
-/

namespace Urt.BiSpace

/-- One round of the loop of `_calibrate`: no number could be read from the file, or both
clocks were read. -/
inductive Reading where
  | unreadable
  /-- the kernel clock, and then the raw user clock (`rt_get_time_ns`) -/
  | clocks (kernel raw : Int)
  deriving DecidableEq, Repr

/-- `urt_get_time` -/
def getTime (raw offset : Int) : Int := raw + offset

/-- The local variables of `_calibrate`. -/
structure Calibrating where
  first : Bool
  offset : Int

/-- The body of the loop of `_calibrate`; `timeOffset` is `urt_time_offset`. -/
def calibrateRound (timeOffset : Int) (v : Calibrating) : Reading → Calibrating
  | .unreadable => v
  | .clocks kernel raw =>
      let diff := kernel - getTime raw timeOffset
      { first := false, offset := if v.first || diff < v.offset then diff else v.offset }

/-- `_calibrate`: the new value of `urt_time_offset`. The file can be opened as often as there
are readings, and the loop takes at most ten. -/
def calibrate (readings : List Reading) (timeOffset : Int) : Int :=
  ((readings.take 10).foldl (calibrateRound timeOffset) { first := true, offset := 0 }).offset

/-! ## A process of a bi-space build -/

/-- What the process keeps, as far as `urt_init` and `urt_exit` go. -/
structure Process where
  /-- `urt_time_offset` -/
  timeOffset : Int
  /-- `urt_global_mem != NULL` -/
  mapped : Bool
  deriving DecidableEq

/-- A process that has just started. -/
def Process.start : Process := { timeOffset := 0, mapped := false }

/-- How the calls `urt_init` makes after the calibration end. -/
structure Outcomes where
  sysInit : Option Errno
  semGet : Option Errno
  memGet : Option Errno
  registryInit : Int

/-- Every call succeeds. -/
def Outcomes.ok : Outcomes := { sysInit := none, semGet := none, memGet := none, registryInit := 0 }

/-- The back end of a user process of a bi-space build. -/
def backend (readings : List Reading) (o : Outcomes) : Backend Process where
  calibrate p := { p with timeOffset := calibrate readings p.timeOffset }
  sysInit p := (o.sysInit, p)
  mapped p := p.mapped
  semGet p := (o.semGet, p)
  semWait p := some p
  memGet p :=
    match o.memGet with
    | some e => (some e, { p with mapped := false })
    | none => (none, { p with mapped := true })
  registryInit p := (o.registryInit, p)
  semPost p := p
  memFree p := { p with mapped := false }
  semFree p := p
  sysExit p := p

/-- The two clocks read one after the other: the raw user clock at the time of the first
reading, and the delay until the second. -/
structure Sample where
  start : Int
  delay : Nat
  deriving DecidableEq, Repr

/-- What the code reads when the kernel clock is ahead by `shift`. -/
def Sample.reading (shift : Int) (x : Sample) : Reading :=
  .clocks (x.start + shift) (x.start + x.delay)

/-- One round as it happens: nothing could be read, or a sample was taken. -/
def Round.reading (shift : Int) : Option Sample → Reading
  | none => .unreadable
  | some x => x.reading shift

inductive Call where
  | init (rounds : List (Option Sample)) (o : Outcomes)
  | exit

/-- The samples a call of `urt_init` takes. -/
def Call.samples : Call → List Sample
  | .init rounds _ => (rounds.take 10).filterMap id
  | .exit => []

/-- The largest delay between the two readings of a sample. -/
def Call.maxDelay (l : Call) : Nat := (l.samples.map Sample.delay).foldl max 0

/-- One call of a process; `shift` is how far the kernel clock is ahead. -/
def callStep (shift : Int) (p : Process) : Call → Option Process
  | .init rounds o => (Urt.init (backend (rounds.map (Round.reading shift)) o) p).map fun r => r.2
  | .exit => some (Urt.exit (backend [] .ok) p)

/-! ## What a calibration stores -/

/-- The largest of some delays. -/
def largest (ds : List Nat) : Nat := ds.foldl max 0

theorem largest_concat (ds : List Nat) (d : Nat) : largest (ds ++ [d]) = max (largest ds) d := by
  simp [largest]

/-- The loop has seen samples of these delays: it keeps the smallest difference, which is that
of the largest delay. -/
def Tracks (shift old : Int) (v : Calibrating) (ds : List Nat) : Prop :=
  (ds = [] ∧ v.first = true ∧ v.offset = 0) ∨
    (ds ≠ [] ∧ v.first = false ∧ v.offset = shift - old - largest ds)

theorem tracks_sample {shift old : Int} {v : Calibrating} {ds : List Nat}
    (h : Tracks shift old v ds) (x : Sample) :
    Tracks shift old (calibrateRound old v (x.reading shift)) (ds ++ [x.delay]) := by
  have hdiff : x.start + shift - getTime (x.start + x.delay) old = shift - old - x.delay := by
    unfold getTime
    omega
  refine .inr ⟨by simp, rfl, ?_⟩
  simp only [calibrateRound, Sample.reading, hdiff, largest_concat]
  rcases h with ⟨rfl, hfirst, -⟩ | ⟨-, hfirst, hoffset⟩
  · rw [hfirst]
    simp [largest]
  · rw [hfirst, hoffset]
    simp only [Bool.false_or, decide_eq_true_eq]
    split <;> omega

theorem tracks_foldl {shift old : Int} (rounds : List (Option Sample)) {v : Calibrating}
    {ds : List Nat} (h : Tracks shift old v ds) :
    Tracks shift old ((rounds.map (Round.reading shift)).foldl (calibrateRound old) v)
      (ds ++ (rounds.filterMap id).map Sample.delay) := by
  induction rounds generalizing v ds with
  | nil => simpa using h
  | cons r rounds ih =>
    rw [List.map_cons, List.foldl_cons]
    cases r with
    | none => exact ih h
    | some x =>
      have hx := ih (tracks_sample h x)
      rw [List.append_assoc] at hx
      exact hx

/-- What a calibration stores: nothing without a sample, and otherwise how far the clock with
the old offset is behind, less the largest delay. -/
theorem calibrate_eq (shift old : Int) (rounds : List (Option Sample)) (o : Outcomes) :
    calibrate (rounds.map (Round.reading shift)) old =
      if (Call.init rounds o).samples = [] then 0
      else shift - old - (Call.init rounds o).maxDelay := by
  have hsamples : (Call.init rounds o).samples = (rounds.take 10).filterMap id := rfl
  have hstart : Tracks shift old { first := true, offset := 0 } [] := .inl ⟨rfl, rfl, rfl⟩
  have h := tracks_foldl (rounds.take 10) hstart
  rw [List.nil_append, ← hsamples] at h
  unfold calibrate
  rw [← List.map_take]
  rcases h with ⟨hds, -, hoffset⟩ | ⟨hds, -, hoffset⟩
  · rw [hoffset, if_pos (List.map_eq_nil_iff.mp hds)]
  · rw [hoffset, if_neg fun h => hds (List.map_eq_nil_iff.mpr h)]
    rfl

/-- `urt_init` calibrates first, whatever it then returns. -/
theorem callStep_init (shift : Int) (p : Process) (rounds : List (Option Sample)) (o : Outcomes) :
    ∃ p', callStep shift p (.init rounds o) = some p' ∧
      p'.timeOffset = calibrate (rounds.map (Round.reading shift)) p.timeOffset := by
  simp only [callStep, Urt.init, backend]
  cases o.sysInit with
  | some e => exact ⟨_, rfl, rfl⟩
  | none =>
    cases p.mapped with
    | true => exact ⟨_, rfl, rfl⟩
    | false =>
      cases o.semGet with
      | some e => exact ⟨_, rfl, rfl⟩
      | none =>
        cases o.memGet with
        | some e => exact ⟨_, rfl, rfl⟩
        | none =>
          by_cases hr : o.registryInit = 0
          · exact ⟨_, by simp [hr]; rfl, rfl⟩
          · exact ⟨_, by simp [hr]; rfl, rfl⟩

/-! ## Accuracy over a run -/

/-- After a call of `urt_init` the clock of the process differs from the kernel clock by at most
the largest delay among the samples of that call. -/
def Accurate (shift : Int) (p : Process) : Call → Prop
  | .init rounds o => ∀ p', callStep shift p (.init rounds o) = some p' → ∀ raw : Int,
      (getTime raw p'.timeOffset - (raw + shift)).natAbs ≤ (Call.init rounds o).maxDelay
  | .exit => True

/-- The offset in force is nearly none: from zero down to twice the largest delay of the
samples to come. Without samples, the clocks agree to begin with. -/
def NearlyRaw (shift : Int) (p : Process) : Call → Prop
  | .init rounds o =>
      if (Call.init rounds o).samples = [] then shift = 0
      else -(2 * (Call.init rounds o).maxDelay : Int) ≤ p.timeOffset ∧ p.timeOffset ≤ 0
  | .exit => True

theorem accurate_iff_nearlyRaw (shift : Int) (p : Process) (l : Call) :
    Accurate shift p l ↔ NearlyRaw shift p l := by
  cases l with
  | exit => exact Iff.rfl
  | init rounds o =>
    obtain ⟨p', hstep, hoffset⟩ := callStep_init shift p rounds o
    rw [calibrate_eq shift p.timeOffset rounds o] at hoffset
    simp only [Accurate, NearlyRaw, getTime]
    split
    · rename_i hnone
      rw [if_pos hnone] at hoffset
      have hzero : (Call.init rounds o).maxDelay = 0 := by
        rw [Call.maxDelay, hnone]
        rfl
      constructor
      · intro h
        have := h p' hstep 0
        omega
      · intro hshift q hq raw
        rw [hstep] at hq
        cases hq
        omega
    · rename_i hsome
      rw [if_neg hsome] at hoffset
      constructor
      · intro h
        have := h p' hstep 0
        omega
      · intro hnear q hq raw
        rw [hstep] at hq
        cases hq
        omega

/-- **In every sequence of `urt_init` and `urt_exit` of a process, each `urt_init` leaves the
clock within the largest delay of its samples from the kernel clock, exactly when at each the
offset in force before was nearly none.** -/
theorem accurate_iff (shift : Int) (ls : List Call) :
    Lts.AllSteps (callStep shift) (Accurate shift) .start ls ↔
      Lts.AllSteps (callStep shift) (NearlyRaw shift) .start ls :=
  Lts.allSteps_congr (accurate_iff_nearlyRaw shift) _ _

/-- The kernel clock is ahead by 1000 and every delay is 1. The first `urt_init` stores 999; the
second, which returns `EALREADY`, stores 0, and the clock is off by 1000 again. -/
theorem not_accurate :
    Lts.exec (callStep 1000) .start [.init [some ⟨0, 1⟩] .ok] = some ⟨999, true⟩ ∧
      (Urt.init (backend [.clocks 1050 51] .ok) ⟨999, true⟩).map (fun r => r.1) =
        some (some .ealready) ∧
      Lts.exec (callStep 1000) .start [.init [some ⟨0, 1⟩] .ok, .init [some ⟨50, 1⟩] .ok] =
        some ⟨0, true⟩ ∧
      ¬ Lts.AllSteps (callStep 1000) (Accurate 1000) .start
        [.init [some ⟨0, 1⟩] .ok, .init [some ⟨50, 1⟩] .ok] := by
  refine ⟨rfl, rfl, rfl, ?_⟩
  intro h
  exact absurd (h.2.1 _ rfl 0) (by decide)

/-! ## The choice among the samples -/

/-- What the loop of `_calibrate` computes for a sample, with no offset in force. -/
def Sample.diff (shift : Int) (x : Sample) : Int := x.start + shift - getTime (x.start + x.delay) 0

/-- How far a difference is from the true offset. -/
def offsetError (shift diff : Int) : Nat := (diff - shift).natAbs

/-- `offset` is the difference of one of the samples, and none is closer to the true offset. -/
def Closest (shift : Int) (samples : List Sample) (offset : Int) : Prop :=
  (∃ x ∈ samples, offset = x.diff shift) ∧
    ∀ y ∈ samples, offsetError shift offset ≤ offsetError shift (y.diff shift)

/-- The error of a sample is its delay. -/
theorem offsetError_diff (shift : Int) (x : Sample) :
    offsetError shift (x.diff shift) = x.delay := by
  unfold offsetError Sample.diff getTime
  omega

theorem le_largest {ds : List Nat} {d : Nat} (h : d ∈ ds) : d ≤ largest ds := by
  induction ds using List.reverseRecOn with
  | nil => cases h
  | append_singleton ds e ih =>
    rw [largest_concat]
    obtain h | h := List.mem_append.mp h
    · exact le_max_of_le_left (ih h)
    · rw [List.mem_singleton.mp h]
      exact le_max_right _ _

theorem largest_mem {ds : List Nat} (h : ds ≠ []) : largest ds ∈ ds := by
  induction ds using List.reverseRecOn with
  | nil => exact absurd rfl h
  | append_singleton ds e ih =>
    rw [largest_concat]
    by_cases hle : largest ds ≤ e
    · rw [max_eq_right hle]
      simp
    · have hds : ds ≠ [] := by
        intro hnil
        subst hnil
        exact hle (Nat.zero_le e)
      rw [max_eq_left (Nat.le_of_not_le hle)]
      exact List.mem_append.mpr (.inl (ih hds))

/-- Called with no offset in force, `_calibrate` stores the difference of the sample that is
farthest from the true offset. -/
theorem calibrate_farthest (shift : Int) {rounds : List (Option Sample)} {o : Outcomes}
    (hsome : (Call.init rounds o).samples ≠ []) :
    ∃ x ∈ (Call.init rounds o).samples,
      calibrate (rounds.map (Round.reading shift)) 0 = x.diff shift ∧
        ∀ y ∈ (Call.init rounds o).samples, y.delay ≤ x.delay := by
  have hdelays : (Call.init rounds o).samples.map Sample.delay ≠ [] := by simpa using hsome
  obtain ⟨x, hx, hdelay⟩ := List.mem_map.mp (largest_mem hdelays)
  refine ⟨x, hx, ?_, ?_⟩
  · have hmax : ((Call.init rounds o).maxDelay : Int) = x.delay := congrArg Nat.cast hdelay.symm
    rw [calibrate_eq shift 0 rounds o, if_neg hsome, hmax]
    unfold Sample.diff getTime
    omega
  · intro y hy
    rw [hdelay]
    exact le_largest (List.mem_map.mpr ⟨y, hy, rfl⟩)

/-- **Called with no offset in force, `_calibrate` stores the difference closest to the true
offset exactly if all its samples took equally long.** -/
theorem calibrate_closest_iff (shift : Int) (rounds : List (Option Sample)) (o : Outcomes)
    (hsome : (Call.init rounds o).samples ≠ []) :
    Closest shift (Call.init rounds o).samples (calibrate (rounds.map (Round.reading shift)) 0) ↔
      ∀ x ∈ (Call.init rounds o).samples, ∀ y ∈ (Call.init rounds o).samples,
        x.delay = y.delay := by
  obtain ⟨z, hz, hstored, hmax⟩ := calibrate_farthest shift hsome
  rw [hstored]
  constructor
  · intro h x hx y hy
    have hmin : ∀ w ∈ (Call.init rounds o).samples, z.delay ≤ w.delay := by
      intro w hw
      have hle := h.2 w hw
      rwa [offsetError_diff, offsetError_diff] at hle
    have hx : x.delay = z.delay := Nat.le_antisymm (hmax x hx) (hmin x hx)
    have hy : y.delay = z.delay := Nat.le_antisymm (hmax y hy) (hmin y hy)
    rw [hx, hy]
  · intro h
    refine ⟨⟨z, hz, rfl⟩, ?_⟩
    intro y hy
    rw [offsetError_diff, offsetError_diff, h z hz y hy]

/-- A single sample is the closest. -/
theorem calibrate_closest_one :
    Closest 1000 [⟨0, 5⟩] (calibrate [.clocks 1000 5] 0) :=
  (calibrate_closest_iff 1000 [some ⟨0, 5⟩] .ok (by decide)).mpr (by
    intro x hx y hy
    rw [List.mem_singleton.mp hx, List.mem_singleton.mp hy])

/-- Of a sample with no delay and one that took 50, the worse is stored. -/
theorem calibrate_not_closest :
    ¬ Closest 1000 (Call.init [some ⟨0, 0⟩, some ⟨100, 50⟩] .ok).samples
      (calibrate ([some ⟨0, 0⟩, some ⟨100, 50⟩].map (Round.reading 1000)) 0) := by
  intro h
  exact absurd (h.2 ⟨0, 0⟩ (List.mem_cons_self)) (by decide)

end Urt.BiSpace
