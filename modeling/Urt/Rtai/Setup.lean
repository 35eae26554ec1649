import Urt.Rtai.Agreement
import Urt.Setup.Basic

/-!
# The registry on RTAI

`urt_init` and `urt_exit` with the RTAI back end, and the main kernel module
(`src/setup_common.c`, `src/kern_main.c`, `sys/rtai/src/mem.c`). The registry is a segment of
RTAI. The kernel module has a share of it from load to unload, and every process from
`urt_init` to `urt_exit`; the segment is there as long as somebody has one.

`urt_exit` gives the share back and, unlike on POSIX, leaves `urt_global_mem` as it is. A
second call then gives back a share of somebody else, and a later `urt_init` reports that all
is done. `shares_exact_iff` says that a second `urt_exit` is the only way to get the count of
shares wrong.
-/

namespace Urt.Rtai

variable {c : Config} {σ : Type}

/-! ## The segment -/

/-- The services, and what can be read of a segment that `rt_shm_alloc` has just made. -/
structure SegmentServices (c : Config) (σ : Type) extends Services σ where
  blank : σ → Internal c

/-- What is known of them: a new segment is filled with zeros. -/
structure LawfulSegments (R : SegmentServices c σ) (table : σ → Nat → Option Entry) : Prop
    extends Lawful R.toServices table where
  blank_eq : ∀ os, R.blank os = .zero c

/-- Such services on the small system. -/
def Simple.segments : SegmentServices .two State :=
  { services with blank := fun _ => .zero .two }

theorem Simple.lawfulSegments : LawfulSegments segments table :=
  { lawful with blank_eq := fun _ => rfl }

/-! ## What `urt_init` and `urt_exit` work on -/

/-- What the kernel and all processes have in common. -/
structure Shared (c : Config) (σ : Type) where
  os : σ
  /-- the content of the segment -/
  mem : Internal c
  /-- the count of the global semaphore in the kernel -/
  count : Nat
  /-- whether the sysfs file of the semaphore is there -/
  sysfs : Bool

/-- The variables of a process or of the main kernel module. -/
structure Proc where
  /-- `urt_global_mem` -/
  globalMem : Option Nat
  /-- `urt_global_sem >= 0` -/
  semOpen : Bool
  /-- Not in the code: whether it has a share of the segment. -/
  held : Bool
  deriving DecidableEq

/-- The initial values of the variables. -/
def Proc.fresh : Proc := { globalMem := none, semOpen := false, held := false }

/-- A process, or the kernel, and what it shares. -/
structure Machine (c : Config) (σ : Type) where
  shared : Shared c σ
  proc : Proc

variable (R : SegmentServices c σ)

/-- `nam2num(URT_GLOBAL_MEM_NAME)` -/
def globalNum : Nat := R.nam2num globalMemName

/-- What can be read of the segment once it is allocated. -/
def content (os : σ) (mem : Internal c) : Internal c :=
  if (R.getAdr (globalNum R) os).isSome then mem else R.blank os

/-- `urt_global_mem = urt_global_mem_get(URT_GLOBAL_MEM_NAME, sizeof *urt_global_mem, &error)` -/
def memGet (m : Machine c σ) : Option Errno × Machine c σ :=
  match R.shmAlloc (globalNum R) c.sizeofInternal m.shared.os with
  | (none, os) =>
      (some .enomem,
        { shared := { m.shared with os := os }, proc := { m.proc with globalMem := none } })
  | (some adr, os) =>
      (none,
        { shared := { m.shared with os := os, mem := content R m.shared.os m.shared.mem }
          proc := { m.proc with globalMem := some adr, held := true } })

/-- `urt_global_mem_free(URT_GLOBAL_MEM_NAME)` -/
def memFree (m : Machine c σ) : Machine c σ :=
  { shared := { m.shared with os := R.shmFree (globalNum R) m.shared.os }
    proc := { m.proc with held := false } }

/-- The back end in a process. `urt_sys_init` starts the timer and cannot fail; the semaphore
is a file of the main kernel module. -/
def userBackend : Backend (Machine c σ) where
  calibrate m := m
  sysInit m := (none, m)
  mapped m := m.proc.globalMem.isSome
  semGet m :=
    if m.shared.sysfs then (none, { m with proc := { m.proc with semOpen := true } })
    else (some .enoent, { m with proc := { m.proc with semOpen := false } })
  semWait m :=
    if m.shared.count = 0 then none
    else some { m with shared := { m.shared with count := m.shared.count - 1 } }
  memGet := memGet R
  registryInit m :=
    let (r, g) := Urt.registryInit m.shared.mem
    (r, { m with shared := { m.shared with mem := g } })
  semPost m := { m with shared := { m.shared with count := m.shared.count + 1 } }
  memFree := memFree R
  semFree m := { m with proc := { m.proc with semOpen := false } }
  sysExit m := m

/-- The back end in the kernel, where the semaphore is a variable. -/
def kernBackend : Backend (Machine c σ) :=
  { userBackend R with
    semGet := fun m => (none, m)
    semFree := fun m => m }

/-- `urt_init` in kernel space: it returns `0` where it returns `EALREADY` in user space. -/
def kernInit (b : Backend (Machine c σ)) (m : Machine c σ) :
    Option (Option InitError × Machine c σ) :=
  match init b m with
  | some (some .ealready, m) => some (none, m)
  | r => r

/-- `urt_exit` in kernel space -/
def kernExit (b : Backend (Machine c σ)) (m : Machine c σ) : Machine c σ :=
  if b.mapped m then b.sysExit m else m

/-- `_urt_main_init`: whether the module is loaded. `sysfs` says whether the files of the
semaphore can be made; the module is loaded without them. -/
def mainInit (sysfs : Bool) (m : Machine c σ) : Option (Bool × Machine c σ) :=
  match kernInit (kernBackend R) { m with shared := { m.shared with count := 1 } } with
  | none => none
  | some (some _, m) => some (false, kernExit (kernBackend R) m)
  | some (none, m) => some (true, { m with shared := { m.shared with sysfs := sysfs } })

/-- `_urt_main_exit` -/
def mainExit (m : Machine c σ) : Machine c σ :=
  let m := { m with shared := { m.shared with sysfs := false } }
  let m := kernExit (kernBackend R) m
  if m.proc.globalMem.isSome then memFree R m else m

/-! ## Runs -/

/-- The main kernel module, if it is loaded, and the processes. -/
structure Setup (c : Config) (σ : Type) where
  shared : Shared c σ
  main : Option Proc
  procs : List Proc

/-- Nothing is loaded. -/
def Setup.init (os : σ) (mem : Internal c) : Setup c σ :=
  { shared := { os := os, mem := mem, count := 0, sysfs := false }, main := none, procs := [] }

inductive SetupLabel where
  /-- load the main kernel module -/
  | load (sysfs : Bool)
  /-- `urt_init` of another kernel module -/
  | moduleInit
  | unload
  /-- start a process -/
  | spawn
  /-- `urt_init` of process `p` -/
  | init (p : Nat)
  /-- `urt_exit` of process `p` -/
  | exit (p : Nat)
  deriving DecidableEq

/-- One call from beginning to end; `none` if the label cannot happen. -/
def setupStep (s : Setup c σ) : SetupLabel → Option (Setup c σ)
  | .load sysfs =>
      match s.main with
      | some _ => none
      | none =>
          match mainInit R sysfs { shared := s.shared, proc := .fresh } with
          | none => none
          | some (true, m) => some { s with shared := m.shared, main := some m.proc }
          | some (false, m) => some { s with shared := m.shared }
  | .moduleInit =>
      match s.main with
      | none => none
      | some x =>
          (kernInit (kernBackend R) { shared := s.shared, proc := x }).map fun r =>
            { s with shared := r.2.shared, main := some r.2.proc }
  | .unload =>
      match s.main with
      | none => none
      | some x => some { s with
          shared := (mainExit R { shared := s.shared, proc := x }).shared
          main := none }
  | .spawn => some { s with procs := s.procs ++ [.fresh] }
  | .init p =>
      match s.procs[p]? with
      | none => none
      | some x =>
          (Urt.init (userBackend R) { shared := s.shared, proc := x }).map fun r =>
            { s with shared := r.2.shared, procs := s.procs.set p r.2.proc }
  | .exit p =>
      match s.procs[p]? with
      | none => none
      | some x =>
          let m := Urt.exit (userBackend R) { shared := s.shared, proc := x }
          some { s with shared := m.shared, procs := s.procs.set p m.proc }

/-! ## What the calls do -/

/-- The outcomes of `urt_init`. -/
inductive Outcome (m : Machine c σ) : Option InitError → Machine c σ → Prop where
  | mapped (hmapped : m.proc.globalMem.isSome = true) : Outcome m (some .ealready) m
  | unopened {e : Errno} {m' : Machine c σ} (shared : m'.shared = m.shared)
      (globalMem : m'.proc.globalMem = m.proc.globalMem) (held : m'.proc.held = m.proc.held) :
      Outcome m (some (.errno e)) m'
  | refused {e : Errno} {m' : Machine c σ} {os : σ}
      (halloc : R.shmAlloc (globalNum R) c.sizeofInternal m.shared.os = (none, os))
      (shared : m'.shared = { m.shared with os := os })
      (globalMem : m'.proc.globalMem = m.proc.globalMem) (held : m'.proc.held = m.proc.held) :
      Outcome m (some (.errno e)) m'
  | joined {r : Option InitError} {m' : Machine c σ} {os : σ} {adr : Nat}
      (hnone : m.proc.globalMem = none)
      (halloc : R.shmAlloc (globalNum R) c.sizeofInternal m.shared.os = (some adr, os))
      (hr : r =
        if (registryInit (content R m.shared.os m.shared.mem)).1 = 0 then none else some .ebusy)
      (shared : m'.shared =
        { m.shared with
          os := os
          mem := (registryInit (content R m.shared.os m.shared.mem)).2 })
      (globalMem : m'.proc.globalMem = some adr) (held : m'.proc.held = true) : Outcome m r m'

variable {R}

/-- What happens under the semaphore. -/
theorem locked_outcome {m m' : Machine c σ} {r : Option InitError} (m₀ : Machine c σ)
    (hmem : m.proc.globalMem = none) (hshared : m₀.shared = m.shared)
    (hglobal : m₀.proc.globalMem = none) (hheld : m₀.proc.held = m.proc.held)
    (h : locked (userBackend R) m₀ = some (r, m')) : Outcome R m r m' := by
  obtain ⟨shared, proc⟩ := m₀
  dsimp only at hshared hglobal hheld
  subst hshared
  simp only [locked, userBackend] at h
  by_cases hc : m.shared.count = 0
  · rw [if_pos hc] at h
    cases h
  · rw [if_neg hc] at h
    have hback : m.shared.count - 1 + 1 = m.shared.count := by omega
    unfold memGet at h
    dsimp only at h
    cases halloc : R.shmAlloc (globalNum R) c.sizeofInternal m.shared.os with
    | mk adr os =>
    rw [halloc] at h
    cases adr with
    | none =>
      cases h
      exact .refused halloc (by rw [hback]) hmem.symm hheld
    | some adr =>
      simp only [hback] at h
      by_cases hr : (registryInit (content R m.shared.os m.shared.mem)).1 = 0
      · rw [if_neg (by simpa using hr)] at h
        cases h
        exact .joined hmem halloc (if_pos hr).symm rfl rfl rfl
      · rw [if_pos hr] at h
        cases h
        exact .joined hmem halloc (if_neg hr).symm rfl rfl rfl

theorem init_outcome {b : Backend (Machine c σ)} (hb : b = userBackend R ∨ b = kernBackend R)
    {m m' : Machine c σ} {r : Option InitError} (h : Urt.init b m = some (r, m')) :
    Outcome R m r m' := by
  cases hmem : m.proc.globalMem with
  | some adr =>
    have hm : r = some .ealready ∧ m' = m := by
      rcases hb with rfl | rfl <;>
      · simp [Urt.init, userBackend, kernBackend, hmem] at h
        exact ⟨h.1.symm, h.2.symm⟩
    obtain ⟨rfl, rfl⟩ := hm
    exact .mapped (by rw [hmem]; rfl)
  | none =>
    have hmapped : (userBackend R).mapped m = false := by
      change m.proc.globalMem.isSome = false
      rw [hmem]
      rfl
    rcases hb with rfl | rfl
    · by_cases hfs : m.shared.sysfs = true
      · rw [init_eq_locked rfl hmapped (if_pos hfs)] at h
        exact locked_outcome { m with proc := { m.proc with semOpen := true } } hmem rfl hmem
          rfl h
      · simp [Urt.init, userBackend, hmem, hfs] at h
        obtain ⟨rfl, rfl⟩ := h
        exact .unopened rfl hmem.symm rfl
    · have hlocked : Urt.init (kernBackend R) m = locked (userBackend R) m :=
        init_eq_locked (b := kernBackend R) rfl hmapped rfl
      rw [hlocked] at h
      exact locked_outcome m hmem rfl hmem rfl h

/-! ## Shares -/

/-- How many have a share of the segment. -/
def Setup.shares (s : Setup c σ) : Nat :=
  s.procs.countP Proc.held + s.main.toList.countP Proc.held

/-- The process or the kernel. -/
def Setup.Member (s : Setup c σ) (x : Proc) : Prop := x ∈ s.procs ∨ s.main = some x

variable (R) (table : σ → Nat → Option Entry)

/-- RTAI counts the shares, everybody who has one has the segment mapped, the kernel has one
while the module is loaded, and the registry in the segment is one of this build. -/
structure Exact (s : Setup c σ) : Prop where
  counted : Entered .mem s.shares (table s.shared.os (globalNum R))
  mapped : ∀ x, s.Member x → x.held = true →
    ∃ e, table s.shared.os (globalNum R) = some e ∧ x.globalMem = some e.adr
  loaded : ∀ x, s.main = some x → x.held = true
  ready : (table s.shared.os (globalNum R)).isSome = true →
    registryInit s.shared.mem = (0, s.shared.mem)

/-- `urt_exit` is not called again by a process that has given its share back, unless there is
no segment any more. -/
def Once (s : Setup c σ) : SetupLabel → Prop
  | .exit p => ∀ x ∈ s.procs[p]?, x.globalMem.isSome = true →
      x.held = true ∨ R.getAdr (globalNum R) s.shared.os = none
  | .load _ | .moduleInit | .unload | .spawn | .init _ => True

instance (s : Setup c σ) (l : SetupLabel) : Decidable (Once R s l) :=
  match l with
  | .exit p => inferInstanceAs (Decidable (∀ x ∈ s.procs[p]?, x.globalMem.isSome = true →
      x.held = true ∨ R.getAdr (globalNum R) s.shared.os = none))
  | .load _ | .moduleInit | .unload | .spawn | .init _ => inferInstanceAs (Decidable True)

variable {R} {table} (law : LawfulSegments R table)

/-- A registry of this build stays as it is. -/
theorem registryInit_ready (g : Internal c) (h : g.initialized = false) :
    (registryInit g).1 = 0 ∧
      registryInit (registryInit g).2 = (0, (registryInit g).2) := by
  simp [registryInit, h]

include law

/-- The segment was asked for and refused. -/
theorem table_refused {os os' : σ} {users : Nat}
    (hentry : Entered .mem users (table os (globalNum R))) {size : UInt64}
    (halloc : R.shmAlloc (globalNum R) size os = (none, os')) : table os' = table os := by
  have hacq := law.shmAlloc (globalNum R) size os
  cases he : table os (globalNum R) with
  | some e =>
    rw [he] at hentry
    have hfound := hacq.found e he hentry.1.shape_eq
    rw [halloc] at hfound
    cases hfound.1
  | none =>
    rcases hacq.made he with ⟨-, ht⟩ | ⟨-, a, ha, -⟩
    · rw [halloc] at ht
      exact ht
    · rw [halloc] at ha
      cases ha

/-- The segment was made or attached to: one share more. -/
theorem table_joined {os os' : σ} {users adr : Nat}
    (hentry : Entered .mem users (table os (globalNum R))) {size : UInt64}
    (halloc : R.shmAlloc (globalNum R) size os = (some adr, os')) :
    Entered .mem (users + 1) (table os' (globalNum R)) ∧
      (∃ e, table os' (globalNum R) = some e ∧ e.adr = adr) ∧
      ∀ e, table os (globalNum R) = some e → e.adr = adr := by
  have hacq := law.shmAlloc (globalNum R) size os
  cases he : table os (globalNum R) with
  | some e =>
    rw [he] at hentry
    obtain ⟨hadr, ht⟩ := hacq.found e he hentry.1.shape_eq
    rw [halloc] at hadr ht
    obtain rfl := Option.some.inj hadr
    rw [ht, Function.update_self]
    refine ⟨⟨hentry.1, congrArg (· + 1) hentry.2⟩, ⟨e.more, rfl, rfl⟩, ?_⟩
    rintro e' ⟨⟩
    rfl
  | none =>
    rcases hacq.made he with ⟨ha, -⟩ | ⟨-, a, ha, ht⟩
    · rw [halloc] at ha
      cases ha
    · rw [halloc] at ha ht
      obtain rfl := Option.some.inj ha
      rw [he] at hentry
      rw [ht, Function.update_self]
      refine ⟨⟨trivial, ?_⟩, ⟨_, rfl, rfl⟩, by rintro e' ⟨⟩⟩
      rw [show users = 0 from hentry]

/-- A share was given back. -/
theorem table_freed {os : σ} {users : Nat}
    (hentry : Entered .mem users (table os (globalNum R))) :
    table (R.shmFree (globalNum R) os) (globalNum R) =
      (table os (globalNum R)).bind Entry.less := by
  rw [law.shmFree, Function.update_self]
  intro e he
  rw [he] at hentry
  exact hentry.1.shape_eq

omit law in
theorem entered_less {users : Nat} {x : Option Entry} (h : Entered .mem (users + 1) x) :
    Entered .mem users (x.bind Entry.less) := by
  cases x with
  | none => exact absurd h (Nat.succ_ne_zero users)
  | some e =>
    obtain ⟨hfits, husers⟩ := h
    rw [Option.bind_some, Entry.less]
    split
    · rw [Entered]
      omega
    · refine ⟨hfits, ?_⟩
      dsimp only
      omega

omit law in
/-- Whoever has a share still has the segment mapped after another one was given back. -/
theorem mapped_less {users : Nat} {x : Option Entry} (h : Entered .mem (users + 1) x)
    (hpos : 0 < users) {e : Entry} (he : x = some e) :
    ∃ e', x.bind Entry.less = some e' ∧ e'.adr = e.adr := by
  subst he
  have husers : e.users = users + 1 := h.2
  refine ⟨{ e with users := e.users - 1 }, ?_, rfl⟩
  rw [Option.bind_some, Entry.less, if_neg (by omega)]

/-! ## Every step -/

namespace Exact

variable {s s' : Setup c σ}

/-- The registry that `urt_init` finds is one of this build. -/
theorem content_ready (h : Exact R table s) :
    (registryInit (content R s.shared.os s.shared.mem)).1 = 0 ∧
      registryInit (registryInit (content R s.shared.os s.shared.mem)).2 =
        (0, (registryInit (content R s.shared.os s.shared.mem)).2) := by
  unfold content
  rw [law.getAdr_eq, Option.isSome_map]
  by_cases hsome : (table s.shared.os (globalNum R)).isSome = true
  · rw [if_pos hsome, h.ready hsome]
    exact ⟨rfl, h.ready hsome⟩
  · rw [if_neg hsome, law.blank_eq]
    exact registryInit_ready _ rfl

/-- Somebody joins. -/
theorem join (h : Exact R table s) {os : σ} {adr : Nat}
    (halloc : R.shmAlloc (globalNum R) c.sizeofInternal s.shared.os = (some adr, os))
    (hos : s'.shared.os = os)
    (hmem : s'.shared.mem = (registryInit (content R s.shared.os s.shared.mem)).2)
    (hshares : s'.shares = s.shares + 1)
    (hmember : ∀ x, s'.Member x → x.held = true → s.Member x ∨ x.globalMem = some adr)
    (hloaded : ∀ x, s'.main = some x → x.held = true) : Exact R table s' := by
  subst hos
  obtain ⟨hcounted, ⟨e, he, hadr⟩, hold⟩ := table_joined law h.counted halloc
  refine ⟨hshares ▸ hcounted, fun x hx hheld => ?_, hloaded, fun _ => ?_⟩
  · refine ⟨e, he, ?_⟩
    rcases hmember x hx hheld with hx | hx
    · obtain ⟨e', he', hglobal⟩ := h.mapped x hx hheld
      rw [hglobal, hadr, hold e' he']
    · rw [hx, hadr]
  · rw [hmem]
    exact (h.content_ready law).2

omit law in
/-- Nobody joins or leaves. -/
theorem keep (h : Exact R table s) (htable : table s'.shared.os = table s.shared.os)
    (hmem : s'.shared.mem = s.shared.mem) (hshares : s'.shares = s.shares)
    (hmember : ∀ x, s'.Member x → x.held = true → s.Member x)
    (hloaded : ∀ x, s'.main = some x → x.held = true) : Exact R table s' := by
  refine ⟨?_, fun x hx hheld => ?_, hloaded, ?_⟩
  · rw [htable, hshares]
    exact h.counted
  · rw [htable]
    exact h.mapped x (hmember x hx hheld) hheld
  · rw [htable, hmem]
    exact h.ready

/-- Somebody leaves. -/
theorem leave (h : Exact R table s) (hos : s'.shared.os = R.shmFree (globalNum R) s.shared.os)
    (hmem : s'.shared.mem = s.shared.mem) (hshares : s.shares = s'.shares + 1)
    (hmember : ∀ x, s'.Member x → x.held = true → s.Member x)
    (hpos : ∀ x, s'.Member x → x.held = true → 0 < s'.shares)
    (hloaded : ∀ x, s'.main = some x → x.held = true) : Exact R table s' := by
  have hcounted := h.counted
  have htable := table_freed law hcounted
  rw [hshares] at hcounted
  rw [← hos] at htable
  refine ⟨?_, fun x hx hheld => ?_, hloaded, fun hsome => ?_⟩
  · rw [htable]
    exact entered_less hcounted
  · obtain ⟨e, he, hglobal⟩ := h.mapped x (hmember x hx hheld) hheld
    obtain ⟨e', he', hadr⟩ := mapped_less hcounted (hpos x hx hheld) he
    exact ⟨e', htable.trans he', by rw [hglobal, hadr]⟩
  · rw [hmem]
    apply h.ready
    rw [htable] at hsome
    cases he : table s.shared.os (globalNum R) with
    | none =>
      rw [he] at hsome
      cases hsome
    | some e => rfl

omit law in
/-- A member with a share has the segment mapped. -/
theorem not_held (h : Exact R table s) {x : Proc} (hx : s.Member x) (hnone : x.globalMem = none) :
    x.held = false := by
  rw [← Bool.not_eq_true]
  intro hheld
  obtain ⟨e, -, hglobal⟩ := h.mapped x hx hheld
  rw [hnone] at hglobal
  cases hglobal

end Exact

omit law in
/-- A member that has a share is counted. -/
theorem shares_pos {s : Setup c σ} {x : Proc} (hx : s.Member x) (hheld : x.held = true) :
    0 < s.shares := by
  unfold Setup.shares
  rcases hx with hx | hx
  · have := List.countP_pos_iff.mpr ⟨x, hx, hheld⟩
    omega
  · rw [hx]
    simp [hheld]

omit law in
/-- The shares after the variables of a process have changed. -/
theorem shares_set {s : Setup c σ} {p : Nat} {x : Proc} (hp : s.procs[p]? = some x) (y : Proc)
    (shared : Shared c σ) :
    Setup.shares { s with shared := shared, procs := s.procs.set p y } + x.held.toNat =
      s.shares + y.held.toNat := by
  have hset := Tally.countP_set hp Proc.held y
  unfold Setup.shares
  dsimp only
  omega

omit law in
theorem member_set {s : Setup c σ} {p : Nat} {y z : Proc} {shared : Shared c σ}
    (h : Setup.Member { s with shared := shared, procs := s.procs.set p y } z) :
    s.Member z ∨ z = y := by
  rcases h with h | h
  · exact (List.mem_or_eq_of_mem_set h).imp_left .inl
  · exact .inl (.inr h)

/-- `urt_init` of a process. -/
theorem exact_init {s s' : Setup c σ} {p : Nat} (h : Exact R table s)
    (hs : setupStep R s (.init p) = some s') : Exact R table s' := by
  simp only [setupStep] at hs
  split at hs
  · cases hs
  · rename_i x hp
    obtain ⟨⟨r, m⟩, hinit, rfl⟩ := Option.map_eq_some_iff.mp hs
    have hx : s.Member x := .inl (List.mem_of_getElem? hp)
    have hshares := shares_set hp m.proc m.shared
    -- the variables of the process are the same, or it has no share
    have hsame : ∀ (hglobal : m.proc.globalMem = x.globalMem) (hheld : m.proc.held = x.held)
        (htable : table m.shared.os = table s.shared.os) (hmem : m.shared.mem = s.shared.mem),
        Exact R table { s with shared := m.shared, procs := s.procs.set p m.proc } := by
      intro hglobal hheld htable hmem
      rw [hheld] at hshares
      refine ⟨?_, fun z hz hzheld => ?_, h.loaded, ?_⟩
      · have hshares' := Nat.add_right_cancel hshares
        dsimp only at hshares' ⊢
        rw [hshares', htable]
        exact h.counted
      · dsimp only
        rw [htable]
        rcases member_set hz with hz | rfl
        · exact h.mapped z hz hzheld
        · rw [hglobal]
          exact h.mapped x hx (hheld ▸ hzheld)
      · dsimp only
        rw [htable, hmem]
        exact h.ready
    cases init_outcome (.inl rfl) hinit with
    | mapped _ => exact hsame rfl rfl rfl rfl
    | unopened hshared hglobal hheld =>
      exact hsame hglobal hheld (by rw [hshared]) (by rw [hshared])
    | refused halloc hshared hglobal hheld =>
      refine hsame hglobal hheld ?_ (by rw [hshared])
      rw [hshared]
      exact table_refused law h.counted halloc
    | joined hnone halloc _ hshared hglobal hheld =>
      rw [hheld, h.not_held hx hnone] at hshares
      refine h.join law halloc (by rw [hshared]) (by rw [hshared]) hshares ?_ h.loaded
      intro z hz _
      refine (member_set hz).imp_right ?_
      rintro rfl
      exact hglobal

/-- `urt_exit` of a process. -/
theorem exact_exit {s s' : Setup c σ} {p : Nat} (h : Exact R table s) (hl : Once R s (.exit p))
    (hs : setupStep R s (.exit p) = some s') : Exact R table s' := by
  simp only [setupStep] at hs
  split at hs
  · cases hs
  · rename_i x hp
    have hx : s.Member x := .inl (List.mem_of_getElem? hp)
    cases hs
    cases hglobal : x.globalMem with
    | none =>
      have hexit : Urt.exit (userBackend R) { shared := s.shared, proc := x } =
          { shared := s.shared, proc := x } := by
        simp [Urt.exit, userBackend, hglobal]
      rw [hexit]
      have hshares := shares_set hp x s.shared
      refine h.keep rfl rfl (Nat.add_right_cancel hshares) ?_ h.loaded
      intro z hz _
      rcases member_set hz with hz | rfl
      · exact hz
      · exact hx
    | some adr =>
      have hexit : Urt.exit (userBackend R) { shared := s.shared, proc := x } =
          { shared := { s.shared with os := R.shmFree (globalNum R) s.shared.os }
            proc := { x with semOpen := false, held := false } } := by
        simp [Urt.exit, userBackend, memFree, hglobal]
      rw [hexit]
      have hshares := shares_set hp { x with semOpen := false, held := false }
        { s.shared with os := R.shmFree (globalNum R) s.shared.os }
      have hmember : ∀ z, Setup.Member { s with
          shared := { s.shared with os := R.shmFree (globalNum R) s.shared.os }
          procs := s.procs.set p { x with semOpen := false, held := false } } z →
          z.held = true → s.Member z := by
        intro z hz hheld
        rcases member_set hz with hz | rfl
        · exact hz
        · cases hheld
      rcases hl x (by rw [hp]; rfl) (by rw [hglobal]; rfl) with hheld | hgone
      · rw [hheld] at hshares
        exact h.leave law rfl rfl hshares.symm hmember
          (fun z hz hzheld => shares_pos hz hzheld) h.loaded
      · -- there is no segment, so nobody has a share
        rw [law.getAdr_eq, Option.map_eq_none_iff] at hgone
        have hzero : s.shares = 0 := by
          have := h.counted
          rw [hgone] at this
          exact this
        have hheld : x.held = false := by
          rw [← Bool.not_eq_true]
          intro hheld
          exact absurd (shares_pos hx hheld) (by omega)
        rw [hheld] at hshares
        refine ⟨?_, fun z hz hzheld => ?_, h.loaded, fun hsome => ?_⟩
        · dsimp only
          rw [table_freed law h.counted, hgone]
          dsimp only at hshares
          exact (Nat.add_right_cancel hshares).trans hzero
        · exact absurd (shares_pos (hmember z hz hzheld) hzheld) (by omega)
        · dsimp only at hsome
          rw [table_freed law h.counted, hgone] at hsome
          cases hsome

omit law in
@[simp] theorem kernExit_kernBackend (m : Machine c σ) : kernExit (kernBackend R) m = m := by
  unfold kernExit
  split <;> rfl

omit law in
/-- In kernel space `urt_init` does the same and answers differently in one case. -/
theorem kernInit_some {b : Backend (Machine c σ)} {m m' : Machine c σ} {r : Option InitError}
    (h : kernInit b m = some (r, m')) :
    ∃ r', Urt.init b m = some (r', m') ∧ (r' = r ∨ r' = some .ealready ∧ r = none) := by
  unfold kernInit at h
  split at h
  · rename_i hinit
    cases h
    exact ⟨_, hinit, .inr ⟨rfl, rfl⟩⟩
  · exact ⟨r, h, .inl rfl⟩

omit law in
theorem not_ealready {m m' : Machine c σ} (hm : m.proc.globalMem = none) :
    ¬ Outcome R m (some .ealready) m' := by
  intro h
  cases h with
  | mapped hmapped =>
    rw [hm] at hmapped
    cases hmapped
  | joined _ _ hr _ _ _ => split at hr <;> cases hr

omit law in
/-- The main kernel module is loaded exactly if its call of `urt_init` succeeds. -/
theorem mainInit_outcome {shared : Shared c σ} {sysfs ok : Bool} {m : Machine c σ}
    (h : mainInit R sysfs { shared := shared, proc := .fresh } = some (ok, m)) :
    ∃ r m', Outcome R { shared := { shared with count := 1 }, proc := .fresh } r m' ∧
      ok = r.isNone ∧ m.proc = m'.proc ∧ m.shared.os = m'.shared.os ∧
        m.shared.mem = m'.shared.mem := by
  unfold mainInit at h
  split at h
  · cases h
  · rename_i e m' hkern
    cases h
    obtain ⟨r, hinit, hr⟩ := kernInit_some hkern
    obtain rfl : r = some e := hr.resolve_right fun hr => by cases hr.2
    rw [kernExit_kernBackend]
    exact ⟨_, m', init_outcome (.inr rfl) hinit, rfl, rfl, rfl, rfl⟩
  · rename_i m' hkern
    cases h
    obtain ⟨r, hinit, hr⟩ := kernInit_some hkern
    have hout := init_outcome (.inr rfl) hinit
    rcases hr with rfl | ⟨rfl, -⟩
    · exact ⟨_, m', hout, rfl, rfl, rfl, rfl⟩
    · exact absurd hout (not_ealready rfl)

/-- Loading the main kernel module. -/
theorem exact_load {s s' : Setup c σ} {sysfs : Bool} (h : Exact R table s)
    (hs : setupStep R s (.load sysfs) = some s') : Exact R table s' := by
  simp only [setupStep] at hs
  split at hs
  · cases hs
  · rename_i hmain
    have hsame : ∀ (shared : Shared c σ), table shared.os = table s.shared.os →
        shared.mem = s.shared.mem → Exact R table { s with shared := shared } := by
      intro shared htable hmem
      exact h.keep htable hmem rfl (fun _ hx _ => hx) h.loaded
    split at hs
    · cases hs
    · rename_i m hload
      obtain ⟨r, m', hout, hok, hproc, hos, hmem⟩ := mainInit_outcome hload
      cases hs
      cases hout with
      | mapped _ | unopened _ _ _ | refused _ _ _ _ => cases hok
      | joined _ halloc _ hshared hglobal hheld =>
        refine h.join law halloc (by rw [hos, hshared]) (by rw [hmem, hshared]) ?_ ?_ ?_
        · unfold Setup.shares
          rw [hmain, hproc]
          simp [hheld]
        · rintro x (hx | hx) _
          · exact .inl (.inl hx)
          · obtain rfl := Option.some.inj hx
            exact .inr (hproc ▸ hglobal)
        · intro x hx
          obtain rfl := Option.some.inj hx
          exact hproc ▸ hheld
    · rename_i m hload
      obtain ⟨r, m', hout, hok, -, hos, hmem⟩ := mainInit_outcome hload
      cases hs
      cases hout with
      | mapped hmapped => cases hmapped
      | unopened hshared _ _ =>
        exact hsame m.shared (by rw [hos, hshared]) (by rw [hmem, hshared])
      | refused halloc hshared _ _ =>
        refine hsame m.shared ?_ (by rw [hmem, hshared])
        rw [hos, hshared]
        exact table_refused law h.counted halloc
      | joined _ _ hr _ _ _ =>
        rw [if_pos (h.content_ready law).1] at hr
        rw [hr] at hok
        cases hok

/-- `urt_init` of another kernel module, and unloading. -/
theorem exact_kernel {s s' : Setup c σ} {l : SetupLabel} (hl : l = .moduleInit ∨ l = .unload)
    (h : Exact R table s) (hs : setupStep R s l = some s') : Exact R table s' := by
  cases hmain : s.main with
  | none =>
    rcases hl with rfl | rfl <;>
    · simp only [setupStep, hmain] at hs
      cases hs
  | some x =>
    have hheld := h.loaded x hmain
    obtain ⟨e, he, hglobal⟩ := h.mapped x (.inr hmain) hheld
    rcases hl with rfl | rfl
    · have hkern : kernInit (kernBackend R) { shared := s.shared, proc := x } =
          some (none, { shared := s.shared, proc := x }) := by
        simp [kernInit, Urt.init, kernBackend, userBackend, hglobal]
      simp only [setupStep, hmain, hkern, Option.map_some, Option.some.injEq] at hs
      subst hs
      refine h.keep rfl rfl ?_ ?_ ?_
      · unfold Setup.shares
        rw [hmain]
      · rintro y (hy | hy) _
        · exact .inl hy
        · exact .inr (hmain.trans hy)
      · intro y hy
        exact h.loaded y (hmain.trans hy)
    · simp only [setupStep, hmain, Option.some.injEq] at hs
      subst hs
      have hexit : mainExit R { shared := s.shared, proc := x } =
          { shared := { s.shared with os := R.shmFree (globalNum R) s.shared.os, sysfs := false }
            proc := { x with held := false } } := by
        simp [mainExit, memFree, hglobal]
      rw [hexit]
      refine h.leave law rfl rfl ?_ ?_ (fun y hy hyheld => shares_pos hy hyheld) ?_
      · unfold Setup.shares
        rw [hmain]
        simp [hheld]
      · rintro y (hy | hy) _
        · exact .inl hy
        · cases hy
      · intro y hy
        cases hy

theorem exact_step {s s' : Setup c σ} {l : SetupLabel} (h : Exact R table s) (hl : Once R s l)
    (hs : setupStep R s l = some s') : Exact R table s' := by
  cases l with
  | load sysfs => exact exact_load law h hs
  | moduleInit => exact exact_kernel law (.inl rfl) h hs
  | unload => exact exact_kernel law (.inr rfl) h hs
  | spawn =>
    cases hs
    refine h.keep rfl rfl ?_ ?_ h.loaded
    · unfold Setup.shares
      dsimp only
      rw [Tally.countP_append_singleton]
      rfl
    · rintro x (hx | hx) hheld
      · rcases List.mem_append.mp hx with hx | hx
        · exact .inl hx
        · cases List.mem_singleton.mp hx
          cases hheld
      · exact .inr hx
  | init p => exact exact_init law h hs
  | exit p => exact exact_exit law h hl hs

/-- A second `urt_exit` takes a share from the others. -/
theorem not_exact_of_exit {s s' : Setup c σ} {l : SetupLabel} (h : Exact R table s)
    (hl : ¬ Once R s l) (hs : setupStep R s l = some s') : ¬ Exact R table s' := by
  intro h'
  cases l with
  | load _ | moduleInit | unload | spawn | init _ => exact hl trivial
  | exit p =>
    simp only [Once, not_forall, not_or] at hl
    obtain ⟨x, hp, hmapped, hheld, hthere⟩ := hl
    have hp : s.procs[p]? = some x := hp
    have hheld : x.held = false := Bool.not_eq_true _ ▸ hheld
    have hexit : Urt.exit (userBackend R) { shared := s.shared, proc := x } =
        { shared := { s.shared with os := R.shmFree (globalNum R) s.shared.os }
          proc := { x with semOpen := false, held := false } } := by
      simp [Urt.exit, userBackend, memFree, hmapped]
    simp only [setupStep, hp, hexit, Option.some.injEq] at hs
    subst hs
    have hshares := shares_set hp { x with semOpen := false, held := false }
      { s.shared with os := R.shmFree (globalNum R) s.shared.os }
    rw [hheld] at hshares
    have hsame := Nat.add_right_cancel hshares
    have hcounted' := h'.counted
    have hcounted := h.counted
    dsimp only at hcounted' hsame
    rw [hsame, table_freed law h.counted] at hcounted'
    rw [law.getAdr_eq, Option.map_eq_none_iff] at hthere
    cases he : table s.shared.os (globalNum R) with
    | none => exact hthere he
    | some e =>
      rw [he] at hcounted hcounted'
      have hpos := law.users_pos he
      have husers : e.users = s.shares := hcounted.2
      rw [Option.bind_some, Entry.less] at hcounted'
      split at hcounted'
      · have hzero : s.shares = 0 := hcounted'
        omega
      · have hless : e.users - 1 = s.shares := hcounted'.2
        omega

omit law in
theorem exact_start {os : σ} (hos : table os (globalNum R) = none) (mem : Internal c) :
    Exact R table (Setup.init os mem) where
  counted := by
    rw [show (Setup.init os mem).shared.os = os from rfl, hos]
    rfl
  mapped x hx := by
    rcases hx with hx | hx <;> cases hx
  loaded x hx := by cases hx
  ready hsome := by
    rw [show (Setup.init os mem).shared.os = os from rfl, hos] at hsome
    cases hsome

/-- **Shares are counted exactly.** From a system without the segment, RTAI counts the kernel
module and the processes that have a share, each of these has the segment mapped, and the
registry in it is one of this build, in every state of a run, if and only if no process calls
`urt_exit` again, with the segment still there, after it has given its share back. -/
theorem shares_exact_iff {os : σ} (hos : table os (globalNum R) = none) (mem : Internal c)
    {ls : List SetupLabel} {s : Setup c σ}
    (hrun : Lts.exec (setupStep R) (Setup.init os mem) ls = some s) :
    Lts.AllStates (setupStep R) (Exact R table) (Setup.init os mem) ls ↔
      Lts.AllSteps (setupStep R) (Once R) (Setup.init os mem) ls := by
  apply Lts.allStates_iff (I := Exact R table) (fun _ h => h) _ _ (exact_start hos mem) hrun
  · intro s l t h hs hl
    exact exact_step law h hl hs
  · intro s l t h hs hl
    exact not_exact_of_exit law h hl hs

omit law in
/-- Two processes come and go, and the module stays. -/
theorem shares_exact_iff_run :
    let ls : List SetupLabel :=
      [.load true, .spawn, .init 0, .spawn, .init 1, .init 1, .exit 0, .exit 1]
    Lts.AllStates (setupStep Simple.segments) (Exact Simple.segments Simple.table)
      (Setup.init (fun _ => none) (.zero .two)) ls := by
  intro ls
  have hsome : (Lts.exec (setupStep Simple.segments)
      (Setup.init (fun _ => none) (.zero .two)) ls).isSome = true := by decide
  obtain ⟨s, hs⟩ := Option.isSome_iff_exists.mp hsome
  exact (shares_exact_iff Simple.lawfulSegments rfl (.zero .two) hs).mpr (by decide)

/-- The registry that `urt_init` finds while anybody has a share is the one that is there. -/
theorem Exact.content_eq {s : Setup c σ} (h : Exact R table s) (hshares : 0 < s.shares) :
    (registryInit (content R s.shared.os s.shared.mem)).2 = s.shared.mem := by
  have hsome : (table s.shared.os (globalNum R)).isSome = true := by
    cases he : table s.shared.os (globalNum R) with
    | some e => rfl
    | none =>
      have hcounted := h.counted
      rw [he] at hcounted
      have hzero : s.shares = 0 := hcounted
      omega
  unfold content
  rw [law.getAdr_eq, Option.isSome_map, if_pos hsome, h.ready hsome]

/-- No step touches the registry while anybody has a share. -/
theorem mem_of_shares {s s' : Setup c σ} {l : SetupLabel} (h : Exact R table s)
    (hshares : 0 < s.shares) (hs : setupStep R s l = some s') :
    s'.shared.mem = s.shared.mem := by
  have houtcome : ∀ {m m' : Machine c σ} {r : Option InitError}, Outcome R m r m' →
      m.shared.os = s.shared.os → m.shared.mem = s.shared.mem →
      m'.shared.mem = s.shared.mem := by
    intro m m' r hout hos hmem
    cases hout with
    | mapped _ => exact hmem
    | unopened hshared _ _ => rw [hshared, hmem]
    | refused _ hshared _ _ => rw [hshared, hmem]
    | joined _ _ _ hshared _ _ =>
      rw [hshared]
      dsimp only
      rw [hos, hmem]
      exact h.content_eq law hshares
  cases l with
  | spawn =>
    cases hs
    rfl
  | load sysfs =>
    simp only [setupStep] at hs
    split at hs
    · cases hs
    · split at hs
      · cases hs
      all_goals
        rename_i m hload
        obtain ⟨r, m', hout, -, -, -, hmem⟩ := mainInit_outcome hload
        cases hs
        exact hmem.trans (houtcome hout rfl rfl)
  | moduleInit =>
    simp only [setupStep] at hs
    split at hs
    · cases hs
    · obtain ⟨⟨r, m⟩, hkern, rfl⟩ := Option.map_eq_some_iff.mp hs
      obtain ⟨r', hinit, -⟩ := kernInit_some hkern
      exact houtcome (init_outcome (.inr rfl) hinit) rfl rfl
  | unload =>
    simp only [setupStep] at hs
    split at hs
    · cases hs
    · cases hs
      simp only [mainExit, kernExit_kernBackend, memFree]
      split <;> rfl
  | init p =>
    simp only [setupStep] at hs
    split at hs
    · cases hs
    · obtain ⟨⟨r, m⟩, hinit, rfl⟩ := Option.map_eq_some_iff.mp hs
      exact houtcome (init_outcome (.inl rfl) hinit) rfl rfl
  | exit p =>
    simp only [setupStep] at hs
    split at hs
    · cases hs
    · cases hs
      simp only [Urt.exit, userBackend, memFree]
      split <;> rfl

omit law in
theorem shares_pos_iff {s : Setup c σ} : 0 < s.shares ↔ ∃ x, s.Member x ∧ x.held = true := by
  constructor
  · intro h
    unfold Setup.shares at h
    rcases Nat.eq_zero_or_pos (s.procs.countP Proc.held) with hzero | hpos
    · rw [hzero, Nat.zero_add] at h
      obtain ⟨x, hx, hheld⟩ := List.countP_pos_iff.mp h
      exact ⟨x, .inr (Option.mem_toList.mp hx), hheld⟩
    · obtain ⟨x, hx, hheld⟩ := List.countP_pos_iff.mp hpos
      exact ⟨x, .inl hx, hheld⟩
  · rintro ⟨x, hx, hheld⟩
    exact shares_pos hx hheld

theorem Exact.segment_iff {s : Setup c σ} (h : Exact R table s) :
    (table s.shared.os (globalNum R)).isSome = true ↔ 0 < s.shares := by
  have hcounted := h.counted
  cases he : table s.shared.os (globalNum R) with
  | none =>
    rw [he] at hcounted
    have hzero : s.shares = 0 := hcounted
    simp [hzero]
  | some e =>
    rw [he] at hcounted
    have husers : e.users = s.shares := hcounted.2
    have hpos := law.users_pos he
    simp only [Option.isSome_some, true_iff]
    omega

/-- **The registry lives as long as it is needed.** In every run in which no process exits
twice, the segment is there exactly if the kernel module or a process has a share of it; whoever
has one has it mapped and finds an initialised registry of this build in it; and no step of
anybody resets the registry while somebody has a share. -/
theorem registry_kept {os : σ} (hos : table os (globalNum R) = none) (mem : Internal c)
    {ls : List SetupLabel} {s : Setup c σ}
    (hrun : Lts.exec (setupStep R) (Setup.init os mem) ls = some s)
    (hall : Lts.AllSteps (setupStep R) (Once R) (Setup.init os mem) ls) :
    ((table s.shared.os (globalNum R)).isSome = true ↔ ∃ x, s.Member x ∧ x.held = true) ∧
      (∀ x, s.Member x → x.held = true →
        (∃ e, table s.shared.os (globalNum R) = some e ∧ x.globalMem = some e.adr) ∧
          s.shared.mem.initialized = true ∧ registryInit s.shared.mem = (0, s.shared.mem)) ∧
      Lts.AllSteps (setupStep R) (fun s l => (∃ x, s.Member x ∧ x.held = true) →
        ∀ s', setupStep R s l = some s' → s'.shared.mem = s.shared.mem)
        (Setup.init os mem) ls := by
  have h : Exact R table s := Lts.exec_invariant (fun _ _ _ h hl hs => exact_step law h hl hs)
    (exact_start hos mem) hrun hall
  refine ⟨(h.segment_iff law).trans shares_pos_iff, fun x hx hheld => ?_, ?_⟩
  · have hready := h.ready ((h.segment_iff law).mpr (shares_pos hx hheld))
    refine ⟨h.mapped x hx hheld, ?_, hready⟩
    have hmem : (registryInit s.shared.mem).2 = s.shared.mem := by rw [hready]
    rw [← hmem]
    unfold registryInit
    split
    · assumption
    · rfl
  · apply Lts.allSteps_of_invariant (I := Exact R table) _ _ (exact_start hos mem) hall
    · intro s l t h hl hs
      exact exact_step law h hl hs
    · intro s l h _ hheld s' hs
      exact mem_of_shares law h (shares_pos_iff.mpr hheld) hs

omit law in
/-- A process outlives the module; when it exits as well the segment is gone. -/
theorem registry_kept_run :
    let ls : List SetupLabel := [.load true, .spawn, .init 0, .unload, .exit 0]
    ∃ s : Setup .two Simple.State, Lts.exec (setupStep Simple.segments)
        (Setup.init (fun _ => none) (.zero .two)) ls = some s ∧
      Simple.table s.shared.os (globalNum Simple.segments) = none := by
  intro ls
  have hrun : (Lts.exec (setupStep Simple.segments)
      (Setup.init (fun _ => none) (.zero .two)) ls).map (fun s => (s.main, s.procs)) =
      some (none, [⟨some (globalNum Simple.segments + 1), false, false⟩]) := by
    decide
  obtain ⟨s, hs, hobs⟩ := Option.map_eq_some_iff.mp hrun
  rw [Prod.mk.injEq] at hobs
  have h := registry_kept Simple.lawfulSegments rfl (.zero .two) hs (by decide)
  refine ⟨s, hs, ?_⟩
  rw [← Option.not_isSome_iff_eq_none, h.1]
  rintro ⟨x, hx | hx, hheld⟩
  · rw [hobs.2] at hx
    cases List.mem_singleton.mp hx
    cases hheld
  · rw [hobs.1] at hx
    cases hx

end Urt.Rtai
