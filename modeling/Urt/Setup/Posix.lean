import Urt.Posix.Objects
import Urt.Setup.Basic

/-!
# Initialisation on POSIX

`urt_init` with the POSIX back end (`sys/posix/src/mem.c`, `lock.c`): the global semaphore and
the global segment are named objects like any other, opened with the functions that open
those. The segment of the registry is memory that processes of different builds may share, so
here its content is bytes, and each build has its own way to read a registry out of them.

The error exits of `_shmem_common` unlink the segment, which is right for a segment the call
has created but not for one that was there; and when the registry is not one of this build
`urt_init` leaves it mapped.
-/

namespace Urt

variable {c : Config}

/-- How a build lays `struct urt_internal` out in memory. -/
structure Layout (c : Config) where
  read : (Nat → UInt8) → Internal c
  write : Internal c → Nat → UInt8
  /-- zero bytes are a zero-filled structure -/
  read_zero : read (fun _ => 0) = .zero c

/-- A process and the system it runs on, as far as `urt_init` goes. -/
structure Machine (c : Config) where
  os : Os c
  /-- the bytes of each segment, up to its length; `Inode.value` is the count of a semaphore -/
  bytes : Nat → Nat → UInt8
  /-- `urt_global_mem`: the segment it maps -/
  globalMem : Option Nat
  /-- `urt_global_sem->sem_ptr` -/
  globalSem : Option Nat

/-- The OS name of the global segment, `/$URTGM`. -/
def globalMemOsName : OsName := [47, 36, 85, 82, 84, 71, 77]

namespace Machine

/-- `urt_global_sem_get` -/
def semGet (env : SysEnv) (m : Machine c) : Option Errno × Machine c :=
  match shsemCommon env globalLockName 1 true false m.os with
  | (.error e, os) => (some e, { m with os := os, globalSem := none })
  | (.ok sem, os) => (none, { m with os := os, globalSem := some sem })

/-- Add to the count of the global semaphore. -/
def addSem (m : Machine c) (f : UInt32 → UInt32) : Machine c :=
  match m.globalSem with
  | none => m
  | some sem =>
      { m with os := m.os.setInode sem { m.os.inode sem with value := f (m.os.inode sem).value } }

/-- `urt_global_sem_wait`; it does not return while the count is zero. -/
def semWait (m : Machine c) : Option (Machine c) :=
  match m.globalSem with
  | none => none
  | some sem => if (m.os.inode sem).value = 0 then none else some (m.addSem fun v => v - 1)

/-- `urt_global_sem_post` -/
def semPost (m : Machine c) : Machine c := m.addSem fun v => v + 1

/-- What can be read of a segment once its length may have grown: zero where it was not there
before, and nothing at all was there before it was created. -/
def grown (m : Machine c) : Nat → Nat → UInt8 :=
  match m.os.link .shm globalMemOsName with
  | none => Function.update m.bytes m.os.next fun _ => 0
  | some ino =>
      Function.update m.bytes ino fun j =>
        if j < (m.os.inode ino).size.toNat then m.bytes ino j else 0

/-- `urt_global_mem_get`, whose result `urt_init` stores in `urt_global_mem` -/
def memGet (env : SysEnv) (m : Machine c) : Option Errno × Machine c :=
  match shmemCommon env globalMemName c.sizeofInternal true false m.os with
  | (.error e, os) => (some e, { m with os := os, bytes := m.grown, globalMem := none })
  | (.ok mem, os) => (none, { m with os := os, bytes := m.grown, globalMem := some mem })

/-- `urt_registry_init` on the mapped segment -/
def registryInit (layout : Layout c) (m : Machine c) : Int × Machine c :=
  match m.globalMem with
  | none => (-1, m)
  | some mem =>
      let g := layout.read (m.bytes mem)
      let (r, g') := Urt.registryInit g
      if g.initialized then (r, m)
      else
        (r, { m with bytes := Function.update m.bytes mem fun j =>
          if j < c.sizeofInternal.toNat then layout.write g' j else m.bytes mem j })

/-- `urt_global_mem_free` -/
def memFree (m : Machine c) : Machine c :=
  match m.globalMem with
  | none => m
  | some mem => { m with os := m.os.munmap mem c.sizeofInternal, globalMem := none }

/-- `urt_global_sem_free` -/
def semFree (m : Machine c) : Machine c :=
  match m.globalSem with
  | none => m
  | some sem => { m with os := m.os.semClose sem, globalSem := none }

/-- The POSIX back end; there is nothing to calibrate, and `urt_sys_init` does nothing. -/
def backend (layout : Layout c) (env : SysEnv) : Backend (Machine c) where
  calibrate m := m
  sysInit m := (none, m)
  mapped m := m.globalMem.isSome
  semGet := semGet env
  semWait := semWait
  memGet := memGet env
  registryInit := registryInit layout
  semPost := semPost
  memFree := memFree
  semFree := semFree
  sysExit m := m

end Machine

/-! ## What each call does -/

theorem convertName_globalMemName : convertName globalMemName = some globalMemOsName := by decide

theorem convertName_globalLockName :
    convertName globalLockName = some [47, 36, 85, 82, 84, 71, 76] := by decide

namespace Machine

/-- The segments and what the process has mapped are as before; semaphores may have changed. -/
structure Quiet (m m' : Machine c) : Prop where
  link : m'.os.link .shm = m.os.link .shm
  size : ∀ ino < m.os.next, (m'.os.inode ino).size = (m.os.inode ino).size
  next : m.os.next ≤ m'.os.next
  bytes : m'.bytes = m.bytes
  mapped : m'.globalMem = m.globalMem

theorem Quiet.trans {m m' m'' : Machine c} (h : Quiet m m') (h' : Quiet m' m'') : Quiet m m'' where
  link := h'.link.trans h.link
  size ino hino := (h'.size ino (lt_of_lt_of_le hino h.next)).trans (h.size ino hino)
  next := h.next.trans h'.next
  bytes := h'.bytes.trans h.bytes
  mapped := h'.mapped.trans h.mapped

theorem addSem_size (m : Machine c) (f : UInt32 → UInt32) (ino : Nat) :
    ((m.addSem f).os.inode ino).size = (m.os.inode ino).size := by
  unfold addSem
  cases m.globalSem with
  | none => rfl
  | some sem =>
    dsimp only
    rw [Os.setInode_inode]
    by_cases h : ino = sem
    · rw [h, Function.update_self]
    · rw [Function.update_of_ne h]

theorem addSem_quiet (m : Machine c) (f : UInt32 → UInt32) : Quiet m (m.addSem f) := by
  have hsize := addSem_size m f
  unfold addSem at hsize ⊢
  cases hsem : m.globalSem with
  | none => exact ⟨rfl, fun _ _ => rfl, le_rfl, rfl, rfl⟩
  | some sem =>
    rw [hsem] at hsize
    exact ⟨rfl, fun ino _ => hsize ino, le_rfl, rfl, rfl⟩

theorem semPost_quiet (m : Machine c) : Quiet m m.semPost := addSem_quiet m _

theorem semWait_quiet {m m' : Machine c} (h : semWait m = some m') : Quiet m m' := by
  unfold semWait at h
  cases hsem : m.globalSem with
  | none =>
    rw [hsem] at h
    cases h
  | some sem =>
    rw [hsem] at h
    dsimp only at h
    split at h
    · cases h
    · cases h
      exact addSem_quiet m _

/-- The semaphore is opened, or created, unless `malloc` or `sem_open` fails. -/
theorem semGet_cases (env : SysEnv) (m : Machine c) :
    ∃ m', Quiet m m' ∧
      ((env.malloc = true ∨ env.semOpen ≠ none) ∧ (∃ e, semGet env m = (some e, m')) ∨
        env.malloc = false ∧ env.semOpen = none ∧ semGet env m = (none, m')) := by
  cases hmalloc : env.malloc with
  | true =>
    refine ⟨{ m with globalSem := none }, ⟨rfl, fun _ _ => rfl, le_rfl, rfl, rfl⟩, ?_⟩
    exact .inl ⟨.inl rfl, .enomem, by simp [semGet, shsemCommon, hmalloc]⟩
  | false =>
    have heq : semGet env m =
        match m.os.semOpen env.semOpen [47, 36, 85, 82, 84, 71, 76] true false 1 with
        | (.error e, os) => (some e, { m with os := os, globalSem := none })
        | (.ok sem, os) => (none, { m with os := os, globalSem := some sem }) := by
      simp [semGet, shsemCommon, hmalloc, convertName_globalLockName]
    rw [heq]
    unfold Os.semOpen
    cases env.semOpen with
    | some e =>
      refine ⟨{ m with globalSem := none }, ⟨rfl, fun _ _ => rfl, le_rfl, rfl, rfl⟩, ?_⟩
      exact .inl ⟨.inr (by simp), e, rfl⟩
    | none =>
      cases m.os.link .sem [47, 36, 85, 82, 84, 71, 76] with
      | some ino =>
        exact ⟨{ m with globalSem := some ino }, ⟨rfl, fun _ _ => rfl, le_rfl, rfl, rfl⟩,
          .inr ⟨rfl, rfl, rfl⟩⟩
      | none =>
        refine ⟨{ m with
            os := m.os.create .sem [47, 36, 85, 82, 84, 71, 76] { Inode.zero c with value := 1 }
            globalSem := some m.os.next },
          ⟨?_, ?_, Nat.le_succ _, rfl, rfl⟩, .inr ⟨rfl, rfl, rfl⟩⟩
        · funext n
          exact Os.create_link_of_ne _ _ (by simp)
        · intro ino hino
          exact congrArg Inode.size (Function.update_of_ne (by omega) _ _)

/-- Once `shm_open` has succeeded, a later failure unlinks the segment. -/
theorem shmemCommon_opened (size : UInt64) {env : SysEnv} {name : CString} {n : OsName}
    {excl : Bool} {os os₁ : Os c} {fd : Nat} (hn : convertName name = some n)
    (ho : os.shmOpen env.shmOpen n true excl = (.ok fd, os₁)) :
    (∃ e os', shmemCommon env name size true excl os = (.error e, os') ∧
      os'.link .shm n = none) ∨
    ∃ os', shmemCommon env name size true excl os = (.ok fd, os') := by
  unfold shmemCommon
  rw [hn]
  simp only [ho, if_true, Os.ftruncate]
  cases env.ftruncate with
  | some e => exact .inl ⟨e, _, rfl, Os.unlink_self _ _ _⟩
  | none =>
    dsimp only
    unfold Os.mmap
    cases env.mmap with
    | some e => exact .inl ⟨e, _, rfl, Os.unlink_self _ _ _⟩
    | none =>
      by_cases hsize : size = 0
      · simp only [hsize, if_true]
        exact .inl ⟨.einval, _, rfl, Os.unlink_self _ _ _⟩
      · simp only [hsize, if_false]
        exact .inr ⟨_, rfl⟩

/-- The segment is opened, or created, and given the length of a registry of this build; when a
call after `shm_open` fails it is unlinked. -/
theorem memGet_cases (env : SysEnv) (m : Machine c) :
    (∃ e, env.shmOpen = some e ∧
      memGet env m = (some e, { m with bytes := m.grown, globalMem := none })) ∨
    env.shmOpen = none ∧
      ((∃ e m', memGet env m = (some e, m') ∧ m'.os.link .shm globalMemOsName = none ∧
          m'.globalMem = none) ∨
        ∃ m', memGet env m = (none, m') ∧ m'.bytes = m.grown ∧
          m'.globalMem = some ((m.os.link .shm globalMemOsName).getD m.os.next)) := by
  cases hopen : env.shmOpen with
  | some e =>
    refine .inl ⟨e, rfl, ?_⟩
    simp [memGet, shmemCommon, convertName_globalMemName, Os.shmOpen, hopen]
  | none =>
    refine .inr ⟨rfl, ?_⟩
    obtain ⟨os₁, ho⟩ : ∃ os₁, m.os.shmOpen env.shmOpen globalMemOsName true false =
        (.ok ((m.os.link .shm globalMemOsName).getD m.os.next), os₁) := by
      unfold Os.shmOpen
      rw [hopen]
      cases m.os.link .shm globalMemOsName with
      | some ino => exact ⟨_, rfl⟩
      | none => exact ⟨_, rfl⟩
    unfold memGet
    rcases shmemCommon_opened c.sizeofInternal convertName_globalMemName ho with
      ⟨e, os', hfail, hunlinked⟩ | ⟨os', hok⟩
    · rw [hfail]
      exact .inl ⟨e, _, rfl, hunlinked, rfl⟩
    · rw [hok]
      exact .inr ⟨_, rfl, rfl, rfl⟩

/-- What the bytes of the segment are when it was there before, and when it is new. -/
theorem grown_of_link {m : Machine c} {ino : Nat} (h : m.os.link .shm globalMemOsName = some ino)
    {j : Nat} (hj : j < (m.os.inode ino).size.toNat) : m.grown ino j = m.bytes ino j := by
  unfold grown
  rw [h]
  dsimp only
  rw [Function.update_self, if_pos hj]

theorem grown_of_new {m : Machine c} (h : m.os.link .shm globalMemOsName = none) :
    m.grown m.os.next = fun _ => 0 := by
  unfold grown
  rw [h]
  exact Function.update_self _ _ _

/-- A registry whose segment is new is never refused. -/
theorem registryInit_zero (layout : Layout c) {m : Machine c} {mem : Nat}
    (hmem : m.globalMem = some mem) (hzero : m.bytes mem = fun _ => 0) :
    (registryInit layout m).1 = 0 := by
  unfold registryInit
  rw [hmem]
  dsimp only
  rw [hzero, layout.read_zero]
  rfl

/-- `urt_registry_init` leaves the mapping in place. -/
theorem registryInit_mapped (layout : Layout c) (m : Machine c) :
    (registryInit layout m).2.globalMem = m.globalMem := by
  unfold registryInit
  cases hmem : m.globalMem with
  | none => exact hmem
  | some mem =>
    dsimp only
    split
    · exact hmem
    · rfl

/-! ## A failed initialisation -/

/-- The segment of the registry, if there was one, is still linked under its name and has the
same length and bytes. -/
def SegmentKept (m m' : Machine c) : Prop :=
  ∀ ino, m.os.link .shm globalMemOsName = some ino →
    m'.os.link .shm globalMemOsName = some ino ∧
    (m'.os.inode ino).size = (m.os.inode ino).size ∧
    ∀ j < (m.os.inode ino).size.toNat, m'.bytes ino j = m.bytes ino j

theorem Quiet.segmentKept {m m' : Machine c} (h : Quiet m m')
    (hnumbered : ∀ ino, m.os.link .shm globalMemOsName = some ino → ino < m.os.next) :
    SegmentKept m m' := by
  intro ino hino
  refine ⟨?_, h.size ino (hnumbered ino hino), ?_⟩
  · rw [h.link]
    exact hino
  · intro j _
    rw [h.bytes]

theorem SegmentKept.trans {m m' m'' : Machine c} (h : SegmentKept m m')
    (h' : SegmentKept m' m'') : SegmentKept m m'' := by
  intro ino hino
  obtain ⟨hlink, hsize, hbytes⟩ := h ino hino
  obtain ⟨hlink', hsize', hbytes'⟩ := h' ino hlink
  refine ⟨hlink', hsize'.trans hsize, fun j hj => ?_⟩
  exact (hbytes' j (by rwa [hsize])).trans (hbytes j hj)

theorem semPost_segmentKept (m : Machine c) : SegmentKept m m.semPost := by
  have hquiet := semPost_quiet m
  intro ino hino
  refine ⟨?_, addSem_size m _ ino, fun j _ => ?_⟩
  · rw [hquiet.link]
    exact hino
  · rw [hquiet.bytes]

/-- A failed `urt_global_mem_get`: either it could not open the segment, or it has unlinked it. -/
theorem memGet_failed {env : SysEnv} {m m' : Machine c} {e : Errno}
    (h : memGet env m = (some e, m')) :
    m'.globalMem = none ∧ (env.shmOpen ≠ none ∧ SegmentKept m m' ∨
      env.shmOpen = none ∧ m'.os.link .shm globalMemOsName = none) := by
  rcases memGet_cases env m with ⟨e', hshm, hmem⟩ | ⟨hshm, ⟨e', m'', hmem, hunlinked, hunmapped⟩ |
    ⟨m'', hmem, -⟩⟩
  · cases hmem.symm.trans h
    refine ⟨rfl, .inl ⟨by simp [hshm], fun ino hino => ⟨hino, rfl, fun j hj => ?_⟩⟩⟩
    exact grown_of_link hino hj
  · cases hmem.symm.trans h
    exact ⟨hunmapped, .inr ⟨hshm, hunlinked⟩⟩
  · cases hmem.symm.trans h

/-- A registry that is not one of this build was there before, and stays mapped. -/
theorem registryInit_refused {layout : Layout c} {env : SysEnv} {m m' m'' : Machine c} {r : Int}
    (h : memGet env m = (none, m')) (hreg : registryInit layout m' = (r, m'')) (hr : r ≠ 0) :
    env.shmOpen = none ∧ m.os.link .shm globalMemOsName ≠ none ∧
      ∃ mem, m''.globalMem = some mem := by
  have hmapped := registryInit_mapped layout m'
  rw [hreg] at hmapped
  rcases memGet_cases env m with ⟨e, -, hmem⟩ | ⟨hshm, ⟨e, _, hmem, -⟩ | ⟨_, hmem, hbytes, hsome⟩⟩
  · cases hmem.symm.trans h
  · cases hmem.symm.trans h
  · cases hmem.symm.trans h
    refine ⟨hshm, fun hlink => ?_, _, hmapped.trans hsome⟩
    -- a new segment is zero-filled
    rw [hlink] at hsome
    apply hr
    have hzero := registryInit_zero layout hsome (by rw [hbytes]; exact grown_of_new hlink)
    rw [hreg] at hzero
    exact hzero

/-- A failed `urt_init` left no trace that matters: the process is not initialised, so that a
later `urt_init` tries again, and the registry of the other processes is as it was. -/
structure InitUndone (layout : Layout c) (m m' : Machine c) : Prop where
  retries : ∀ env r m'', init (backend layout env) m' = some (r, m'') → r ≠ some .ealready
  segment : SegmentKept m m'

/-- `urt_init` reports `EALREADY` exactly when the segment is mapped. -/
theorem init_ealready {layout : Layout c} {env : SysEnv} {m m' : Machine c}
    (h : m.globalMem = none) {r : Option InitError}
    (hinit : init (backend layout env) m = some (r, m')) : r ≠ some .ealready := by
  rintro rfl
  rcases init_failed hinit with ⟨e', -, he⟩ | ⟨s₁, hsys, hrest⟩
  · cases he
  · cases hsys
    rcases hrest with ⟨hmapped, -, -⟩ | ⟨-, ⟨e', -, he⟩ | ⟨s₂, s₃, -, -, ⟨e', s₄, -, he, -⟩ |
      ⟨s₄, r, s₅, -, -, -, he, -⟩⟩⟩
    · change m.globalMem.isSome = true at hmapped
      rw [h] at hmapped
      cases hmapped
    · cases he
    · cases he
    · cases he

theorem not_retries {layout : Layout c} {m : Machine c} {mem : Nat} (h : m.globalMem = some mem) :
    init (backend layout .ok) m = some (some .ealready, m) := by
  simp [init, backend, h]

/-- **A `urt_init` that fails, other than with `EALREADY`, leaves the process uninitialised and
the segment of the registry as it was exactly when it failed to open the semaphore or the
segment, or there was no segment.** -/
theorem init_failure_undone_iff {layout : Layout c} {env : SysEnv} {m m' : Machine c}
    {e : InitError}
    (hnumbered : ∀ ino, m.os.link .shm globalMemOsName = some ino → ino < m.os.next)
    (hinit : init (backend layout env) m = some (some e, m')) (he : e ≠ .ealready) :
    InitUndone layout m m' ↔
      env.malloc = true ∨ env.semOpen ≠ none ∨ env.shmOpen ≠ none ∨
        m.os.link .shm globalMemOsName = none := by
  rcases init_failed hinit with ⟨e', hsys, -⟩ | ⟨m₁, hsys, hrest⟩
  · cases hsys
  cases hsys
  rcases hrest with ⟨-, hready, -⟩ | ⟨hmapped, hrest⟩
  · exact absurd hready he
  have hnone : m.globalMem = none := by
    change m.globalMem.isSome = false at hmapped
    simpa using hmapped
  obtain ⟨m₂, hquiet, hsem⟩ := semGet_cases env m
  rcases hrest with ⟨e', hfail, -⟩ | ⟨m₂', m₃, hgot, hwait, hrest⟩
  · -- the semaphore could not be opened
    rcases hsem with ⟨hcause, e'', heq⟩ | ⟨-, -, heq⟩
    · cases heq.symm.trans hfail
      refine iff_of_true ⟨?_, hquiet.segmentKept hnumbered⟩ ?_
      · exact fun _ _ _ => init_ealready (hquiet.mapped.trans hnone)
      · rcases hcause with h | h
        · exact .inl h
        · exact .inr (.inl h)
    · cases heq.symm.trans hfail
  · rcases hsem with ⟨-, e'', heq⟩ | ⟨hmalloc, hopen, heq⟩
    · cases heq.symm.trans hgot
    cases heq.symm.trans hgot
    have hquiet₃ : Quiet m m₃ := hquiet.trans (semWait_quiet hwait)
    have hkept := hquiet₃.segmentKept hnumbered
    rcases hrest with ⟨e', m₄, hfail, -, rfl⟩ | ⟨m₄, r, m₅, hgot₄, hreg, hr, -, rfl⟩
    · obtain ⟨hunmapped, hmem⟩ := memGet_failed hfail
      have hpost := semPost_quiet m₄
      have hretries : ∀ env r m'', init (backend layout env) m₄.semPost = some (r, m'') →
          r ≠ some .ealready := fun _ _ _ => init_ealready (hpost.mapped.trans hunmapped)
      rcases hmem with ⟨hshm, hkept₄⟩ | ⟨hshm, hunlinked⟩
      · -- the segment could not be opened
        have hall := (hkept.trans hkept₄).trans (semPost_segmentKept m₄)
        exact iff_of_true ⟨hretries, hall⟩ (.inr (.inr (.inl hshm)))
      · -- a later call of `_shmem_common` failed, and the segment was unlinked
        cases hlink : m.os.link .shm globalMemOsName with
        | none =>
          refine iff_of_true ⟨hretries, fun ino hino => ?_⟩ (.inr (.inr (.inr rfl)))
          rw [hlink] at hino
          cases hino
        | some ino =>
          refine iff_of_false (fun hundone => ?_) (by simp [hmalloc, hopen, hshm])
          have hgone := (congrFun hpost.link _).trans hunlinked
          cases hgone.symm.trans (hundone.segment ino hlink).1
    · -- the registry is not one of this build, and stays mapped
      obtain ⟨hshm, hlink, mem, hmem⟩ := registryInit_refused hgot₄ hreg hr
      rw [hquiet₃.link] at hlink
      refine iff_of_false (fun hundone => ?_) (by simp [hmalloc, hopen, hshm, hlink])
      have hstays := (semPost_quiet m₅).mapped.trans hmem
      exact hundone.retries .ok _ _ (not_retries hstays) rfl

end Machine

/-- A layout that keeps the fields the check of the registry reads: the two sizes in the first
sixteen bytes, and the flag in the byte after them. -/
def Layout.check (c : Config) : Layout c where
  read b := { Internal.zero c with
    sizeofInternal := (b 0).toUInt64, sizeofRegisteredObject := (b 8).toUInt64
    initialized := b 16 != 0 }
  write g j :=
    if j = 0 then g.sizeofInternal.toUInt8 else if j = 8 then g.sizeofRegisteredObject.toUInt8
    else if j = 16 then (if g.initialized then 1 else 0) else 0
  read_zero := rfl

/-- A process on a system where another one has made a registry of the given sizes. -/
def Machine.joining (size object : UInt64) : Machine .two where
  os :=
    { link := fun sp n => if sp = .shm ∧ n = globalMemOsName then some 0 else none
      inode := fun _ => { Inode.zero .two with size := size }
      next := 1
      log := [] }
  bytes _ j :=
    if j = 0 then size.toUInt8 else if j = 8 then object.toUInt8 else if j = 16 then 1 else 0
  globalMem := none
  globalSem := none

/-- `sem_open` fails: the process may try again, and the registry is as it was. -/
theorem Machine.init_failure_undone_semOpen :
    ∃ m', init (backend (.check .two) { SysEnv.ok with semOpen := some .enomem })
        (Machine.joining 104 32) = some (some (.errno .enomem), m') ∧
      InitUndone (.check .two) (Machine.joining 104 32) m' :=
  ⟨_, rfl, (@init_failure_undone_iff .two (.check .two) { SysEnv.ok with semOpen := some .enomem }
    (Machine.joining 104 32) _ (.errno .enomem) (fun _ hino => by cases hino; decide) rfl
    (by simp)).mpr (.inr (.inl (by simp)))⟩

/-- `mmap` fails, and the registry of the other processes loses its name. The registry is of a
build with larger objects: it is cut to the length of the own one, `urt_init` answers `EBUSY`,
and the next one `EALREADY`. -/
theorem Machine.init_failure_not_undone :
    (∃ m', init (backend (.check .two) { SysEnv.ok with mmap := some .enomem })
        (Machine.joining 104 32) = some (some (.errno .enomem), m') ∧
      m'.os.link .shm globalMemOsName = none ∧
      ¬ InitUndone (.check .two) (Machine.joining 104 32) m') ∧
    ∃ m', init (backend (.check .two) .ok) (Machine.joining 120 40) = some (some .ebusy, m') ∧
      (m'.os.inode 0).size = 104 ∧
      init (backend (.check .two) .ok) m' = some (some .ealready, m') ∧
      ¬ InitUndone (.check .two) (Machine.joining 120 40) m' := by
  refine ⟨⟨_, rfl, rfl, ?_⟩, ⟨_, rfl, rfl, rfl, ?_⟩⟩
  · intro h
    cases (h.segment 0 rfl).1
  · intro h
    exact h.retries .ok _ _ rfl rfl

end Urt
