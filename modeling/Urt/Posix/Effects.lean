import Urt.Posix.Objects
import Urt.Registry.Sections

/-!
# What the calls of the back end do

One statement for each function of `Urt.Posix.Objects`, from which everything else is
derived. A creation either makes a new inode and links it, or leaves no name and no old
inode changed (`Os.Unmade`); an attachment changes nothing, unless it fails after
`shm_open`: then `_shmem_common` unlinks the segment as if it had created it; a detachment
is a deregistration, some effects on the mapping, and an unlink when the count is zero.
-/

namespace Urt

variable {c : Config}

/-! ## Kinds and name spaces -/

theorem Kind.space_of_isLock {k : Kind} (h : k.isLock = true) : k.space = .shm := by
  cases k <;> first | rfl | cases h

/-! ## Creation of a segment -/

/-- A creation that failed: no name and no inode that existed before has changed, and if a
segment was made, it was unlinked. -/
structure Os.Unmade (os os' : Os c) : Prop where
  link : os'.link = os.link
  inode : ∀ ino < os.next, os'.inode ino = os.inode ino
  log : os'.next = os.next ∧ os'.log = os.log ∨
    os'.next = os.next + 1 ∧ os'.log = os.log ++ [.unlink .shm os.next]

theorem Os.Unmade.refl (os : Os c) : os.Unmade os := ⟨rfl, fun _ _ => rfl, .inl ⟨rfl, rfl⟩⟩

theorem Os.Unmade.next {os os' : Os c} (h : os.Unmade os') : os.next ≤ os'.next := by
  rcases h.log with ⟨hnext, -⟩ | ⟨hnext, -⟩ <;> omega

/-- The calls of `_shmem_common` that make a segment named `n` all succeed. -/
def SegmentMade (env : SysEnv) (name : CString) (size : UInt64) (os : Os c) (n : OsName) : Prop :=
  convertName name = some n ∧ os.link .shm n = none ∧ size ≠ 0 ∧
    env.shmOpen = none ∧ env.ftruncate = none ∧ env.mmap = none

theorem sysShmemNew_of_made {env : SysEnv} {name : CString} {size : UInt64} {os : Os c}
    {n : OsName} (h : SegmentMade env name size os n) :
    sysShmemNew env name size os =
      (.ok os.next, os.create .shm n { Inode.zero c with size := size }) := by
  obtain ⟨hn, hlink, hsize, ho, ht, hm⟩ := h
  simp [sysShmemNew, shmemCommon, hn, Os.shmOpen, ho, hlink, Os.ftruncate, ht, Os.mmap, hm, hsize,
    Os.create, Os.setInode, Os.setLink]

/-- Unlinking the segment that was just made restores the names. -/
theorem unmade_of_unlink {os os' : Os c} {n : OsName} {x : Inode c}
    (hlink : os.link .shm n = none) (hos : os'.link = (os.create .shm n x).link)
    (hinode : ∀ ino < os.next, os'.inode ino = os.inode ino) (hnext : os'.next = os.next + 1)
    (hlog : os'.log = os.log) : os.Unmade (os'.shmUnlink n) := by
  have hself : os'.link .shm n = some os.next := by
    rw [hos, Os.create_link_self]
  refine ⟨?_, ?_, .inr ⟨?_, ?_⟩⟩
  · funext sp m
    by_cases he : (sp, m) = (.shm, n)
    · cases he
      rw [Os.shmUnlink, Os.unlink_self, hlink]
    · rw [Os.shmUnlink, Os.unlink_of_ne _ he, hos, Os.create_link_of_ne _ _ he]
  · intro ino hino
    rw [Os.shmUnlink, Os.unlink_inode, hinode ino hino]
  · rw [Os.shmUnlink, Os.unlink_next, hnext]
  · simp [Os.shmUnlink, Os.unlink, hself, Os.setLink, hlog]

theorem sysShmemNew_cases (env : SysEnv) (name : CString) (size : UInt64) (os : Os c) :
    (∃ n, SegmentMade env name size os n) ∨
      (∀ n, ¬ SegmentMade env name size os n) ∧
        ∃ e os', sysShmemNew env name size os = (.error e, os') ∧ os.Unmade os' := by
  by_cases hmade : ∃ n, SegmentMade env name size os n
  · exact .inl hmade
  refine .inr ⟨fun n hn => hmade ⟨n, hn⟩, ?_⟩
  cases hn : convertName name with
  | none => exact ⟨.einval, os, by simp [sysShmemNew, shmemCommon, hn], .refl os⟩
  | some n =>
    cases ho : env.shmOpen with
    | some e => exact ⟨e, os, by simp [sysShmemNew, shmemCommon, hn, Os.shmOpen, ho], .refl os⟩
    | none =>
      cases hlink : os.link .shm n with
      | some ino =>
        exact ⟨.eexist, os, by simp [sysShmemNew, shmemCommon, hn, Os.shmOpen, ho, hlink], .refl os⟩
      | none =>
        have hnew : os.shmOpen env.shmOpen n true true =
            (.ok os.next, os.create .shm n (.zero c)) := by
          simp [Os.shmOpen, ho, hlink]
        have hold : ∀ x : Inode c, ∀ ino < os.next,
            Function.update os.inode os.next x ino = os.inode ino :=
          fun x ino hino => Function.update_of_ne (by omega) _ _
        have hback : ∀ x y : Inode c,
            os.Unmade (((os.create .shm n x).setInode os.next y).shmUnlink n) := by
          intro x y
          refine unmade_of_unlink (x := x) hlink rfl (fun ino hino => ?_) rfl rfl
          rw [Os.setInode_inode, Function.update_of_ne (by omega)]
          exact hold x ino hino
        cases ht : env.ftruncate with
        | some e =>
          refine ⟨e, _, by simp only [sysShmemNew, shmemCommon, hn, hnew, ht]; rfl, ?_⟩
          exact unmade_of_unlink hlink rfl (hold _) rfl rfl
        | none =>
          cases hm : env.mmap with
          | some e =>
            exact ⟨e, _, by simp only [sysShmemNew, shmemCommon, hn, hnew, ht, hm]; rfl,
              hback _ _⟩
          | none =>
            have hsize : size = 0 := by
              by_contra hsize
              exact hmade ⟨n, hn, hlink, hsize, ho, ht, hm⟩
            exact ⟨.einval, _,
              by simp only [sysShmemNew, shmemCommon, hn, hnew, ht, hm, hsize]; rfl, hback _ _⟩

/-! ## Attachment to a segment -/

/-- `shm_open` of an existing segment succeeds. -/
def Opened (env : SysEnv) (name : CString) (os : Os c) (n : OsName) (ino : Nat) : Prop :=
  env.shmOpen = none ∧ convertName name = some n ∧ os.link .shm n = some ino

theorem sysShmemAttach_cases (env : SysEnv) (name : CString) (os : Os c) :
    ((∀ n ino, ¬ Opened env name os n ino) ∧
      ∃ e, sysShmemAttach env name os = (.error e, os)) ∨
    ∃ n ino, Opened env name os n ino ∧
      ((∃ e, sysShmemAttach env name os = (.error e, os.shmUnlink n)) ∨
        (os.inode ino).size ≠ 0 ∧ sysShmemAttach env name os = (.ok ino, os)) := by
  cases hn : convertName name with
  | none =>
    exact .inl ⟨by simp [Opened, hn], .einval, by simp [sysShmemAttach, shmemCommon, hn]⟩
  | some n =>
    cases ho : env.shmOpen with
    | some e =>
      exact .inl ⟨by simp [Opened, ho], e, by
        simp [sysShmemAttach, shmemCommon, hn, Os.shmOpen, ho]⟩
    | none =>
      cases hlink : os.link .shm n with
      | none =>
        refine .inl ⟨fun m ino hm => ?_, .enoent, by
          simp [sysShmemAttach, shmemCommon, hn, Os.shmOpen, ho, hlink]⟩
        obtain ⟨-, hnm, hl⟩ := hm
        rw [hn] at hnm
        cases hnm
        rw [hlink] at hl
        cases hl
      | some ino =>
        have hopen : os.shmOpen env.shmOpen n false false = (.ok ino, os) := by
          simp [Os.shmOpen, ho, hlink]
        refine .inr ⟨n, ino, ⟨ho, hn, hlink⟩, ?_⟩
        cases hs : env.fstat with
        | some e => exact .inl ⟨e, by simp [sysShmemAttach, shmemCommon, hn, hopen, Os.fstat, hs]⟩
        | none =>
          cases hm : env.mmap with
          | some e =>
            exact .inl ⟨e, by
              simp [sysShmemAttach, shmemCommon, hn, hopen, Os.fstat, hs, Os.mmap, hm]⟩
          | none =>
            by_cases hsize : (os.inode ino).size = 0
            · exact .inl ⟨.einval, by
                simp [sysShmemAttach, shmemCommon, hn, hopen, Os.fstat, hs, Os.mmap, hm, hsize]⟩
            · exact .inr ⟨hsize, by
                simp [sysShmemAttach, shmemCommon, hn, hopen, Os.fstat, hs, Os.mmap, hm, hsize]⟩

/-! ## The system calls of any kind -/

/-- `pthread_*_init` of a new lock is reached and fails. -/
def InitFails (k : Kind) (env : SysEnv) (name : CString) (os : Os c) : Prop :=
  k.isLock = true ∧ c.processShared = true ∧ env.init ≠ none ∧
    ∃ n, SegmentMade env name (c.sizeofLock k + 16) os n

theorem sysNew_of_isLock {k : Kind} (hk : k.isLock = true) (env : SysEnv) (name : CString)
    (size : UInt64) (value : UInt32) (w : World c) :
    sysNew k env name size value w = pthreadShlockNew env (c.sizeofLock k) name w := by
  cases k <;> first | rfl | cases hk

/-- The creation of a lock. -/
theorem sysNew_cases_of_isLock {k : Kind} (hl : k.isLock = true) (env : SysEnv) (name : CString)
    (size : UInt64) (value : UInt32) (w : World c) :
    (¬ InitFails k env name w.os ∧ ∃ e os',
      sysNew k env name size value w = (.error e, { w with os := os' }) ∧ w.os.Unmade os') ∨
    (∃ e n, InitFails k env name w.os ∧ SegmentMade env name (c.sizeofLock k + 16) w.os n ∧
      sysNew k env name size value w =
        (.error e, shmemDetach w.os.next { w with
          os := w.os.create .shm n { Inode.zero c with size := c.sizeofLock k + 16 } })) ∨
    ∃ n x, convertName name = some n ∧ w.os.link k.space n = none ∧
      (k.space = .shm → x.size ≠ 0) ∧
      sysNew k env name size value w =
        (.ok w.os.next, { w with os := w.os.create k.space n x }) := by
  rw [sysNew_of_isLock hl]
  by_cases hps : c.processShared = true
  · rcases sysShmemNew_cases env name (c.sizeofLock k + 16) w.os with
      ⟨n, hmade⟩ | ⟨hnot, e, os', he, hun⟩
    · have hrun := sysShmemNew_of_made hmade
      cases hi : env.init with
      | none =>
        refine .inr (.inr ⟨n, { Inode.zero c with size := c.sizeofLock k + 16 }, hmade.1, ?_,
          fun _ => hmade.2.2.1, ?_⟩)
        · rw [Kind.space_of_isLock hl]
          exact hmade.2.1
        · simp [pthreadShlockNew, hps, hrun, hi, Kind.space_of_isLock hl]
      | some e =>
        refine .inr (.inl ⟨e, n, ⟨hl, hps, by simp [hi], n, hmade⟩, hmade, ?_⟩)
        simp [pthreadShlockNew, hps, hrun, hi]
    · refine .inl ⟨?_, e, os', by simp [pthreadShlockNew, hps, he], hun⟩
      rintro ⟨-, -, -, n, hn⟩
      exact hnot n hn
  · refine .inl ⟨fun h => hps h.2.1, .enotsup, w.os, ?_, .refl _⟩
    simp [pthreadShlockNew, hps]

/-- The creation of a segment or a semaphore. -/
theorem sysNew_cases_of_not_isLock {k : Kind} (hl : ¬ k.isLock = true) (env : SysEnv)
    (name : CString) (size : UInt64) (value : UInt32) (w : World c) :
    (∃ e os', sysNew k env name size value w = (.error e, { w with os := os' }) ∧
      w.os.Unmade os') ∨
    ∃ n x, convertName name = some n ∧ w.os.link k.space n = none ∧
      (k.space = .shm → x.size ≠ 0) ∧
      sysNew k env name size value w =
        (.ok w.os.next, { w with os := w.os.create k.space n x }) := by
  cases k with
  | mutex | rwlock | cond => exact absurd rfl hl
  | mem =>
    rcases sysShmemNew_cases env name (size + 16) w.os with ⟨n, hmade⟩ | ⟨-, e, os', he, hun⟩
    · exact .inr ⟨n, _, hmade.1, hmade.2.1, fun _ => hmade.2.2.1, by
        simp only [sysNew, sysShmemNew_of_made hmade]
        rfl⟩
    · exact .inl ⟨e, os', by simp only [sysNew, he], hun⟩
  | sem =>
    simp only [sysNew, sysShsemNew, shsemCommon, Os.semOpen]
    by_cases hm : env.malloc = true
    · exact .inl ⟨.enomem, w.os, by simp [hm], .refl _⟩
    cases hn : convertName name with
    | none => exact .inl ⟨.einval, w.os, by simp [hm], .refl _⟩
    | some n =>
      cases ho : env.semOpen with
      | some e => exact .inl ⟨e, w.os, by simp [hm], .refl _⟩
      | none =>
        cases hlink : w.os.link .sem n with
        | some ino => exact .inl ⟨.eexist, w.os, by simp [hm, hlink], .refl _⟩
        | none =>
          exact .inr ⟨n, { Inode.zero c with value := value }, rfl, hlink,
            fun h => (by cases h), by simp [hm, hlink, Kind.space]⟩

/-- The system call of `SHOBJ_NEW` fails without effect, or fails in the initialisation of a
lock and deletes the segment, or makes an object. -/
theorem sysNew_cases (k : Kind) (env : SysEnv) (name : CString) (size : UInt64)
    (value : UInt32) (w : World c) :
    (¬ InitFails k env name w.os ∧ ∃ e os',
      sysNew k env name size value w = (.error e, { w with os := os' }) ∧ w.os.Unmade os') ∨
    (∃ e n, InitFails k env name w.os ∧ SegmentMade env name (c.sizeofLock k + 16) w.os n ∧
      sysNew k env name size value w =
        (.error e, shmemDetach w.os.next { w with
          os := w.os.create .shm n { Inode.zero c with size := c.sizeofLock k + 16 } })) ∨
    ∃ n x, convertName name = some n ∧ w.os.link k.space n = none ∧
      (k.space = .shm → x.size ≠ 0) ∧
      sysNew k env name size value w =
        (.ok w.os.next, { w with os := w.os.create k.space n x }) := by
  by_cases hl : k.isLock = true
  · exact sysNew_cases_of_isLock hl env name size value w
  · obtain hfailed | hmade := sysNew_cases_of_not_isLock hl env name size value w
    · exact .inl ⟨fun h => hl h.1, hfailed⟩
    · exact .inr (.inr hmade)

/-- A name that leads nowhere is no obstacle to a creation, unless a call fails for reasons of
its own. -/
theorem sysNew_ok {k : Kind} {name : CString} {size : UInt64} {w : World c} {n : OsName}
    (hn : convertName name = some n) (hlink : w.os.link k.space n = none)
    (hsize : k.space = .shm → k.sz c size + 16 ≠ 0)
    (hps : k.isLock = true → c.processShared = true) (value : UInt32) :
    (sysNew k .ok name size value w).1 = .ok w.os.next := by
  have hmade : ∀ z : UInt64, z ≠ 0 → w.os.link .shm n = none →
      sysShmemNew .ok name z w.os = (.ok w.os.next, w.os.create .shm n
        { Inode.zero c with size := z }) :=
    fun z hz hl => sysShmemNew_of_made ⟨hn, hl, hz, rfl, rfl, rfl⟩
  cases k with
  | mem =>
    have hrun := hmade (size + 16) (hsize rfl) hlink
    simp only [sysNew, hrun]
  | sem =>
    have hrun : w.os.semOpen none n true true value =
        (.ok w.os.next, w.os.create .sem n { Inode.zero c with value := value }) := by
      simp only [Os.semOpen, show w.os.link .sem n = none from hlink, if_true]
    simp [sysNew, sysShsemNew, shsemCommon, SysEnv.ok, hn, hrun]
  | mutex | rwlock | cond =>
    have hrun := hmade _ (hsize rfl) hlink
    rw [Kind.sz] at hrun
    rw [sysNew_of_isLock rfl]
    simp only [pthreadShlockNew, hps rfl, hrun, Bool.not_true, Bool.false_eq_true, if_false]
    rfl

theorem sysAttach_of_shm {k : Kind} (hk : k.space = .shm) (env : SysEnv) (name : CString)
    (os : Os c) : sysAttach k env name os = sysShmemAttach env name os := by
  cases k <;> first | rfl | cases hk

/-- The object an attacher of the given kind finds. -/
def Finds (k : Kind) (name : CString) (os : Os c) (n : OsName) (ino : Nat) : Prop :=
  convertName name = some n ∧ os.link k.space n = some ino ∧
    (k.space = .shm → (os.inode ino).size ≠ 0)

/-- The system call of `SHOBJ_ATTACH` fails without effect, or fails on a segment it has
opened and unlinks it, or returns the object without effect. -/
theorem sysAttach_cases (k : Kind) (env : SysEnv) (name : CString) (os : Os c) :
    ((∀ n ino, k.space = .shm → ¬ Opened env name os n ino) ∧
      ∃ e, sysAttach k env name os = (.error e, os)) ∨
    (∃ e n ino, k.space = .shm ∧ Opened env name os n ino ∧
      sysAttach k env name os = (.error e, os.shmUnlink n)) ∨
    ∃ n ino, Finds k name os n ino ∧ sysAttach k env name os = (.ok ino, os) := by
  by_cases hk : k.space = .shm
  · rw [sysAttach_of_shm hk]
    rcases sysShmemAttach_cases env name os with
      ⟨hno, e, he⟩ | ⟨n, ino, ho, ⟨e, he⟩ | ⟨hsize, he⟩⟩
    · exact .inl ⟨fun n ino _ => hno n ino, e, he⟩
    · exact .inr (.inl ⟨e, n, ino, hk, ho, he⟩)
    · exact .inr (.inr ⟨n, ino, ⟨ho.2.1, hk ▸ ho.2.2, fun _ => hsize⟩, he⟩)
  · cases k with
    | mem | mutex | rwlock | cond => exact absurd rfl hk
    | sem =>
      have hnot : ∀ n ino, Kind.sem.space = .shm → ¬ Opened env name os n ino :=
        fun n ino h => (by cases h)
      simp only [sysAttach, sysShsemAttach, shsemCommon, Os.semOpen]
      by_cases hm : env.malloc = true
      · exact .inl ⟨hnot, .enomem, by simp [hm]⟩
      cases hn : convertName name with
      | none => exact .inl ⟨hnot, .einval, by simp [hm]⟩
      | some n =>
        cases ho : env.semOpen with
        | some e => exact .inl ⟨hnot, e, by simp [hm]⟩
        | none =>
          cases hlink : os.link .sem n with
          | none => exact .inl ⟨hnot, .enoent, by simp [hm, hlink]⟩
          | some ino =>
            exact .inr (.inr ⟨n, ino, ⟨hn, hlink, fun h => (by cases h)⟩, by simp [hm, hlink]⟩)

/-- An object that is there is found, unless a call fails for reasons of its own. -/
theorem sysAttach_ok {k : Kind} {name : CString} {os : Os c} {n : OsName} {ino : Nat}
    (h : Finds k name os n ino) : sysAttach k .ok name os = (.ok ino, os) := by
  obtain ⟨hn, hlink, hsize⟩ := h
  cases k with
  | sem =>
    simp [sysAttach, sysShsemAttach, shsemCommon, SysEnv.ok, hn, Os.semOpen]
    rw [show os.link .sem n = some ino from hlink]
  | mem | mutex | rwlock | cond =>
    have hl : os.link .shm n = some ino := hlink
    rw [sysAttach_of_shm rfl]
    simp [sysShmemAttach, shmemCommon, SysEnv.ok, hn, Os.shmOpen, hl, Os.fstat, Os.mmap, hsize rfl]

/-! ## Bookkeeping -/

/-- The slot number is written to a segment; a semaphore has no room for it. -/
def Os.setId (os : Os c) (k : Kind) (ino : Nat) (id : Slot c) : Os c :=
  match k.space with
  | .shm => os.setInode ino { os.inode ino with id := id }
  | .sem => os

theorem sysAddBookKeeping_eq (k : Kind) (ino : Nat) (i : Slot c) (w : World c) :
    ∃ o, sysAddBookKeeping k ino i w =
        ({ kind := k, ino := ino, id := i },
          { mem := w.mem.setObject i o, os := w.os.setId k ino i }) ∧
      o.name = (w.mem.objects i).name ∧ o.reserved = (w.mem.objects i).reserved ∧
      o.count = (w.mem.objects i).count ∧ o.type = (w.mem.objects i).type := by
  cases k with
  | mem | mutex | rwlock | cond => exact ⟨_, rfl, rfl, rfl, rfl, rfl⟩
  | sem =>
    refine ⟨w.mem.objects i, ?_, rfl, rfl, rfl, rfl⟩
    simp [sysAddBookKeeping, Internal.setObject, Os.setId, Kind.space]

/-- Recording a new object writes its type and size, and leaves name, reservation and
count. -/
theorem recordNew_eq (k : Kind) (ino : Nat) (i : Slot c) (size : UInt64) (w : World c) :
    ∃ o, recordNew k ino i size w =
        ({ kind := k, ino := ino, id := i },
          { mem := w.mem.setObject i o, os := w.os.setId k ino i }) ∧
      o.name = (w.mem.objects i).name ∧ o.reserved = (w.mem.objects i).reserved ∧
      o.count = (w.mem.objects i).count ∧ o.type = k.type := by
  obtain ⟨o, ho, hname, hres, hcount, -⟩ := sysAddBookKeeping_eq k ino i
    { w with mem := w.mem.setObject i { w.mem.objects i with hasBookkeeping := false } }
  unfold recordNew
  simp only [ho, Internal.setObject_objects, Function.update_self] at hname hres hcount ⊢
  refine ⟨_, by simp only [Internal.setObject, Function.update_idem]; rfl, ?_⟩
  split <;> exact ⟨hname, hres, hcount, rfl⟩

theorem create_setId (os : Os c) (k : Kind) (n : OsName) (x : Inode c) (i : Slot c) :
    (os.create k.space n x).setId k os.next i =
      os.create k.space n (if k.space = .shm then { x with id := i } else x) := by
  unfold Os.setId
  cases hk : k.space with
  | shm => simp [Os.create, Os.setInode, Os.setLink]
  | sem => simp

/-! ## Detachment -/

/-- The slot number a handle carries when it is detached. -/
def Handle.slot (h : Handle c) (os : Os c) : Slot c :=
  match h.kind with
  | .sem => h.id
  | .mem | .mutex | .rwlock | .cond => (os.inode h.ino).id

/-- What a detachment does to the mapping, the lock or the open semaphore; `ro` is the
registered object after the decrement. -/
def closing (busy : List Bool) (h : Handle c) (ro : RegisteredObject) : List OsEvent :=
  match h.kind with
  | .sem => [.semClose h.ino]
  | .mem => [.munmap h.ino ro.size]
  | .mutex | .rwlock | .cond =>
      (if ro.count = 0 ∧ busy.all (fun fails => !fails) = true then [.destroy h.ino] else []) ++
        [.munmap h.ino ro.size]

/-- The system after a handle was released. -/
def released (busy : List Bool) (h : Handle c) (ro : RegisteredObject) (os : Os c) : Os c :=
  let os := { os with log := os.log ++ closing busy h ro }
  if ro.count = 0 then
    match convertName ro.name.str with
    | some n => os.unlink h.kind.space n
    | none => os
  else os

theorem destroyLoop_eq (lock : Nat) (busy : List Bool) (os : Os c) :
    destroyLoop lock busy os =
      if busy.all (fun fails => !fails) = true then os.emit (.destroy lock) else os := by
  induction busy with
  | nil => rfl
  | cons fails busy ih =>
    cases fails with
    | true => rfl
    | false => simpa [destroyLoop] using ih

theorem lockDestroy_eq (busy : List Bool) (lock : Nat) (count : UInt32) (os : Os c) :
    lockDestroy busy lock count os =
      if count = 0 ∧ busy.all (fun fails => !fails) = true then os.emit (.destroy lock)
      else os := by
  unfold lockDestroy
  rw [destroyLoop_eq]
  by_cases hc : count = 0
  · simp [hc]
  · have hpos : count > 0 := by
      rw [count_pos_iff]
      have : count.toNat ≠ 0 := fun h => hc (UInt32.toNat_inj.mp h)
      omega
    simp [hc, hpos]

/-- Destroying a lock and unmapping it, as one change of the log. -/
theorem munmap_destroy (p : Prop) [Decidable p] (os : Os c) (lock : Nat) (size : UInt64) :
    (if p then os.emit (.destroy lock) else os).munmap lock size =
      { os with
        log := os.log ++ ((if p then [.destroy lock] else []) ++ [.munmap lock size]) } := by
  split <;> simp [Os.emit, Os.munmap]

/-- Detaching is deregistering, with the release in between. -/
theorem detach_eq (busy : List Bool) (h : Handle c) (w : World c) :
    detach busy h w =
      { mem := decCount w.mem (h.slot w.os)
        os := released busy h (w.mem.objects (h.slot w.os)).dec w.os } := by
  obtain ⟨k, ino, id⟩ := h
  cases k with
  | sem =>
    simp only [detach, shsemDetach, decNameCount_eq, Release.shsemDetach, Handle.slot, released,
      closing, Kind.space]
    rfl
  | mem =>
    simp only [detach, shmemDetach, shmemDetachWithCallback, decNameCount_eq,
      Release.shmemDetach, Handle.slot, released, closing, Kind.space]
    rfl
  | mutex | rwlock | cond =>
    simp only [detach, shmutexDetach, shrwlockDetach, shcondDetach, pthreadShlockDetach,
      shmutexDestroy, shrwlockDestroy, shcondDestroy, shmemDetachWithCallback, decNameCount_eq,
      Release.shmemDetach, lockDestroy_eq, munmap_destroy, Handle.slot, released, closing,
      Kind.space]
    rfl

theorem closing_ne_unlink {busy : List Bool} {h : Handle c} {ro : RegisteredObject} {e : OsEvent}
    (he : e ∈ closing busy h ro) (sp : Space) (ino : Nat) : e ≠ .unlink sp ino := by
  rintro rfl
  unfold closing at he
  cases hk : h.kind with
  | sem | mem => simp [hk] at he
  | mutex | rwlock | cond =>
    simp only [hk] at he
    split at he <;> simp at he

@[simp] theorem released_inode (busy : List Bool) (h : Handle c) (ro : RegisteredObject)
    (os : Os c) : (released busy h ro os).inode = os.inode := by
  unfold released
  dsimp only
  split
  · split
    · exact Os.unlink_inode _ _ _
    · rfl
  · rfl

@[simp] theorem released_next (busy : List Bool) (h : Handle c) (ro : RegisteredObject)
    (os : Os c) : (released busy h ro os).next = os.next := by
  unfold released
  dsimp only
  split
  · split
    · exact Os.unlink_next _ _ _
    · rfl
  · rfl

/-- With references left, or a stored name that has no OS name, no name goes. -/
theorem released_link_of_count (busy : List Bool) (h : Handle c) {ro : RegisteredObject}
    (os : Os c) (hro : ro.count ≠ 0) : (released busy h ro os).link = os.link := by
  unfold released
  rw [if_neg hro]

theorem released_of_last (busy : List Bool) (h : Handle c) {ro : RegisteredObject} (os : Os c)
    {n : OsName} (hro : ro.count = 0) (hn : convertName ro.name.str = some n) :
    released busy h ro os =
      Os.unlink { os with log := os.log ++ closing busy h ro } h.kind.space n := by
  unfold released
  simp only [hro, hn, if_true]

/-- A release unlinks at most the name stored in the slot, in the name space of the handle. -/
theorem released_link_of_ne (busy : List Bool) (h : Handle c) (ro : RegisteredObject) (os : Os c)
    {sp : Space} {n : OsName} (hne : sp = h.kind.space → convertName ro.name.str ≠ some n) :
    (released busy h ro os).link sp n = os.link sp n := by
  unfold released
  dsimp only
  split
  · split
    · rename_i m hm
      apply Os.unlink_of_ne _
      intro he
      cases he
      exact hne rfl hm
    · rfl
  · rfl

/-- A release gives no name to anything. -/
theorem link_of_released {busy : List Bool} {h : Handle c} {ro : RegisteredObject} {os : Os c}
    {sp : Space} {n : OsName} {ino : Nat} (hl : (released busy h ro os).link sp n = some ino) :
    os.link sp n = some ino ∧
      (ro.count = 0 → sp = h.kind.space → convertName ro.name.str ≠ some n) := by
  by_cases hc : ro.count = 0
  · unfold released at hl
    rw [if_pos hc] at hl
    cases hn : convertName ro.name.str with
    | none =>
      rw [hn] at hl
      exact ⟨hl, fun _ _ => by simp⟩
    | some m =>
      rw [hn] at hl
      obtain ⟨hne, hl⟩ := Os.link_of_unlink hl
      refine ⟨hl, fun _ hsp he => hne ?_⟩
      cases he
      rw [hsp]
  · rw [released_link_of_count busy h os hc] at hl
    exact ⟨hl, fun h0 => absurd h0 hc⟩

/-! ## `urt_sys_force_clear_name` -/

@[simp] theorem sysForceClearName_inode (ro : RegisteredObject) (os : Os c) :
    (sysForceClearName ro os).inode = os.inode := by
  unfold sysForceClearName
  split
  · rfl
  · split <;> first | rfl | exact Os.unlink_inode _ _ _

theorem sysForceClearName_of_type {k : Kind} {ro : RegisteredObject} (ht : ro.type = k.type)
    {n : OsName} (hn : convertName ro.name.str = some n) (os : Os c) :
    sysForceClearName ro os = os.unlink k.space n := by
  simp only [sysForceClearName, hn, ht, Kind.ofType?_type]
  cases k <;> rfl

/-! ## `SHOBJ_NEW` and `SHOBJ_ATTACH` -/

/-- The world in which `SHOBJ_NEW` gives up after a failed lock initialisation. -/
def initFailed (k : Kind) (name : CString) (i : Slot c) (n : OsName) (w : World c) : World c :=
  shmemDetach w.os.next
    { mem := reserved w.mem i name
      os := w.os.create .shm n { Inode.zero c with size := c.sizeofLock k + 16 } }

theorem shobjNew_cases (k : Kind) (env : SysEnv) (name : CString) (size : UInt64)
    (value : UInt32) (w : World c) :
    ((findByName w.mem name ≠ none ∨ findFree w.mem = none) ∧ ∃ e,
      shobjNew k env name size value w = (.error e, w)) ∨
    ∃ i, findByName w.mem name = none ∧ findFree w.mem = some i ∧
      ((¬ InitFails k env name w.os ∧ ∃ e os', w.os.Unmade os' ∧
          shobjNew k env name size value w =
            (.error e, { mem := decCount (reserved w.mem i name) i, os := os' })) ∨
        (∃ e n, InitFails k env name w.os ∧
          SegmentMade env name (c.sizeofLock k + 16) w.os n ∧
          shobjNew k env name size value w =
            (.error e, { initFailed k name i n w with
              mem := decCount (initFailed k name i n w).mem i })) ∨
        ∃ n x o, convertName name = some n ∧ w.os.link k.space n = none ∧
          (k.space = .shm → x.size ≠ 0 ∧ x.id = i) ∧
          o.tname = truncName name ∧ convertName o.name.str = some n ∧ o.reserved = false ∧
          o.count = 1 ∧ o.type = k.type ∧
          shobjNew k env name size value w =
            (.ok { kind := k, ino := w.os.next, id := i },
              { mem := (reserved w.mem i name).setObject i o
                os := w.os.create k.space n x })) := by
  rcases reserveName_cases w.mem name with
    ⟨i, hfind, he⟩ | ⟨-, hfree, he⟩ | ⟨i, hfind, hfree, he⟩
  · exact .inl ⟨.inl (by simp [hfind]), .eexist, by simp only [shobjNew, he]⟩
  · exact .inl ⟨.inr hfree, .enospc, by simp only [shobjNew, he]⟩
  refine .inr ⟨i, hfind, hfree, ?_⟩
  rcases sysNew_cases k env name size value { w with mem := reserved w.mem i name } with
    ⟨hnf, e, os', hs, hun⟩ | ⟨e, n, hf, hmade, hs⟩ | ⟨n, x, hn, hlink, hsize, hs⟩
  · exact .inl ⟨hnf, e, os', hun, by simp only [shobjNew, he, hs, decNameCount_eq]⟩
  · exact .inr (.inl ⟨e, n, hf, hmade, by
      simp only [shobjNew, he, hs, decNameCount_eq]
      rfl⟩)
  · obtain ⟨o, ho, hname, hres, hcount, htype⟩ := recordNew_eq k w.os.next i size
      { mem := reserved w.mem i name, os := w.os.create k.space n x }
    simp only [reserved_objects, Function.update_self] at hname hres hcount
    have htname : o.tname = truncName name := by
      rw [RegisteredObject.tname, hname]
      exact RegisteredObject.reservedObject_tname name
    refine .inr (.inr ⟨n, if k.space = .shm then { x with id := i } else x, o.inc, hn, hlink,
      ?_, htname, ?_, rfl, ?_, htype, ?_⟩)
    · intro hk
      rw [if_pos hk]
      exact ⟨hsize hk, rfl⟩
    · rw [← hn]
      exact convertName_congr htname
    · rw [RegisteredObject.inc, hcount]
      rfl
    · simp only [shobjNew, he, hs, ho, create_setId, incNameCount, Internal.setObject,
        Function.update_self, Function.update_idem]

/-- A creation whose name is free in the registry and in the system succeeds, if there is a
slot and no call fails for reasons of its own. -/
theorem shobjNew_ok {k : Kind} {name : CString} {size : UInt64} {w : World c} {n : OsName}
    (hfind : findByName w.mem name = none) (hfree : findFree w.mem ≠ none)
    (hn : convertName name = some n) (hlink : w.os.link k.space n = none)
    (hsize : k.space = .shm → k.sz c size + 16 ≠ 0)
    (hps : k.isLock = true → c.processShared = true) (value : UInt32) :
    ∃ h, (shobjNew k .ok name size value w).1 = .ok h := by
  rcases reserveName_cases w.mem name with ⟨i, hi, -⟩ | ⟨-, hf, -⟩ | ⟨i, -, -, he⟩
  · rw [hfind] at hi
    cases hi
  · exact absurd hf hfree
  · have hrun := sysNew_ok (w := { w with mem := reserved w.mem i name }) hn hlink hsize hps value
    refine ⟨(recordNew k w.os.next i size (sysNew k .ok name size value
      { w with mem := reserved w.mem i name }).2).1, ?_⟩
    simp only [shobjNew, he]
    rw [show sysNew k .ok name size value { w with mem := reserved w.mem i name } =
      (.ok w.os.next, (sysNew k .ok name size value { w with mem := reserved w.mem i name }).2)
      from Prod.ext hrun rfl]

theorem shobjAttach_cases (k : Kind) (env : SysEnv) (name : CString) (w : World c) :
    (findByName w.mem name = none ∧ shobjAttach k env name w = (.error .enoent, w)) ∨
    ∃ i, findByName w.mem name = some i ∧
      (((∀ n ino, k.space = .shm → ¬ Opened env name w.os n ino) ∧ ∃ e,
          shobjAttach k env name w =
            (.error e, { w with mem := decCount (incNameCount w.mem i) i })) ∨
        (∃ e n ino, k.space = .shm ∧ Opened env name w.os n ino ∧
          shobjAttach k env name w =
            (.error e, { mem := decCount (incNameCount w.mem i) i, os := w.os.shmUnlink n })) ∨
        ∃ n ino o, Finds k name w.os n ino ∧ o.name = (w.mem.objects i).name ∧
          o.reserved = false ∧ o.count = (w.mem.objects i).inc.count ∧
          o.type = (w.mem.objects i).type ∧
          shobjAttach k env name w =
            (.ok { kind := k, ino := ino, id := i },
              { mem := w.mem.setObject i o, os := w.os.setId k ino i })) := by
  have hget := getObjectByNameAndIncCount_eq w.mem name
  cases hfind : findByName w.mem name with
  | none =>
    rw [hfind] at hget
    exact .inl ⟨rfl, by simp only [shobjAttach, hget]⟩
  | some i =>
    rw [hfind] at hget
    refine .inr ⟨i, rfl, ?_⟩
    rcases sysAttach_cases k env name w.os with ⟨hno, e, hs⟩ | ⟨e, n, ino, hk, ho, hs⟩ |
      ⟨n, ino, hf, hs⟩
    · exact .inl ⟨hno, e, by simp only [shobjAttach, hget, hs, decNameCount_eq]⟩
    · exact .inr (.inl ⟨e, n, ino, hk, ho, by
        simp only [shobjAttach, hget, hs, decNameCount_eq]⟩)
    · obtain ⟨o, hb, hname, hres, hcount, htype⟩ := sysAddBookKeeping_eq k ino i
        { mem := incNameCount w.mem i, os := w.os }
      simp only [incNameCount_objects, Function.update_self] at hname hres hcount htype
      refine .inr (.inr ⟨n, ino, o, hf, hname, hres, hcount, htype, ?_⟩)
      simp only [shobjAttach, hget, hs, hb]
      simp only [incNameCount, Internal.setObject, Function.update_idem]

end Urt
