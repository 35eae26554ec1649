import Urt.Posix.Os

/-!
# Shared objects on POSIX

`src/new_common.c` with the POSIX back end (`sys/posix/src/mem.c`, `lock.c`, `setup.c`,
`sys/posix/include/urt_sys_internal.h`), over the registry and the system's named objects
together. Memory, mutexes, read-write locks and condition variables are segments with 16
bytes of bookkeeping in front; a semaphore is a named semaphore and keeps its slot number
(`sem->id`) in memory of its process.

The operations of the five kinds differ in the system call, the size and the lock functions;
each is an instance of `shobjNew`, `shobjAttach` or `detach`. A pointer to a segment is the
inode of the segment.
-/

namespace Urt

variable {c : Config}

/-- The name space in which an object of a kind is created. -/
def Kind.space : Kind → Space
  | .sem => .sem
  | .mem | .mutex | .rwlock | .cond => .shm

/-- Whether objects of the kind are `pthread` locks. -/
def Kind.isLock : Kind → Bool
  | .mutex | .rwlock | .cond => true
  | .mem | .sem => false

/-- The registry and the system's objects. -/
structure World (c : Config) where
  mem : Internal c
  os : Os c

/-- What a process got from `urt_sh*_new` or `urt_sh*_attach`. `id` is the slot number the
call recorded: `sem->id` of a semaphore, and for the other kinds the word it wrote to the
segment, which `detach` reads from there. -/
structure Handle (c : Config) where
  kind : Kind
  ino : Nat
  id : Slot c
  deriving DecidableEq

/-! ## Segments -/

/-- `_shmem_common` -/
def shmemCommon (env : SysEnv) (name : CString) (size : UInt64) (creat excl : Bool) (os : Os c) :
    Except Errno Nat × Os c :=
  match convertName name with
  | none => (.error .einval, os)
  | some n =>
      match os.shmOpen env.shmOpen n creat excl with
      | (.error e, os) => (.error e, os)
      | (.ok fd, os) =>
          match if creat then os.ftruncate env.ftruncate fd size else os.fstat env.fstat fd with
          | (.error e, os) => (.error e, os.shmUnlink n)
          | (.ok size, os) =>
              match Os.mmap env.mmap fd size with
              | .error e => (.error e, os.shmUnlink n)
              | .ok mem => (.ok mem, os)

/-- `urt_sys_shmem_new` -/
def sysShmemNew (env : SysEnv) (name : CString) (size : UInt64) (os : Os c) :
    Except Errno Nat × Os c := shmemCommon env name size true true os

/-- `urt_sys_shmem_attach` -/
def sysShmemAttach (env : SysEnv) (name : CString) (os : Os c) : Except Errno Nat × Os c :=
  shmemCommon env name 0 false false os

/-- `_shmem_detach`, the release callback; `callback` is its `user_data`. -/
def Release.shmemDetach (callback : Option (Nat → UInt32 → Os c → Os c)) (address : Nat)
    (ro : RegisteredObject) (os : Os c) : Os c :=
  let os := match callback with
    | some f => f address ro.count os
    | none => os
  let os := os.munmap address ro.size
  if ro.count = 0 then
    match convertName ro.name.str with
    | some n => os.shmUnlink n
    | none => os
  else os

/-- `urt_shmem_detach_with_callback` -/
def shmemDetachWithCallback (callback : Option (Nat → UInt32 → Os c → Os c)) (mem : Nat)
    (w : World c) : World c :=
  let id := (w.os.inode mem).id
  let (g, os) := decNameCount (some (Release.shmemDetach callback mem)) w.mem id w.os
  { mem := g, os := os }

/-- `urt_shmem_detach`, which `urt_shmem_delete` only calls. -/
def shmemDetach (mem : Nat) (w : World c) : World c := shmemDetachWithCallback none mem w

/-! ## Semaphores -/

/-- `_shsem_common` -/
def shsemCommon (env : SysEnv) (name : CString) (value : UInt32) (creat excl : Bool) (os : Os c) :
    Except Errno Nat × Os c :=
  if env.malloc then (.error .enomem, os)
  else
    match convertName name with
    | none => (.error .einval, os)
    | some n => os.semOpen env.semOpen n creat excl value

/-- `urt_sys_shsem_new` -/
def sysShsemNew (env : SysEnv) (name : CString) (value : UInt32) (os : Os c) :
    Except Errno Nat × Os c := shsemCommon env name value true true os

/-- `urt_sys_shsem_attach` -/
def sysShsemAttach (env : SysEnv) (name : CString) (os : Os c) : Except Errno Nat × Os c :=
  shsemCommon env name 0 false false os

/-- `_shsem_detach`, the release callback -/
def Release.shsemDetach (address : Nat) (ro : RegisteredObject) (os : Os c) : Os c :=
  let os := os.semClose address
  if ro.count = 0 then
    match convertName ro.name.str with
    | some n => os.semUnlink n
    | none => os
  else os

/-- `urt_shsem_detach` -/
def shsemDetach (sem : Nat) (id : Slot c) (w : World c) : World c :=
  let (g, os) := decNameCount (some (Release.shsemDetach sem)) w.mem id w.os
  { mem := g, os := os }

/-! ## Locks -/

/-- `_pthread_shlock_new`; `size` is that of the lock and `env.init` the outcome of its
`_sh*_init`. After a failed initialisation it deletes the segment, whose bookkeeping has not
been written. -/
def pthreadShlockNew (env : SysEnv) (size : UInt64) (name : CString) (w : World c) :
    Except Errno Nat × World c :=
  if !c.processShared then (.error .enotsup, w)
  else
    match sysShmemNew env name (size + 16) w.os with
    | (.error e, os) => (.error e, { w with os := os })
    | (.ok lock, os) =>
        match env.init with
        | none => (.ok lock, { w with os := os })
        | some e => (.error e, shmemDetach lock { w with os := os })

/-- The loop of `_sh*_destroy`. Each entry of the list is an `EBUSY` and says whether the
unlock that follows it fails. -/
def destroyLoop (lock : Nat) : List Bool → Os c → Os c
  | [], os => os.emit (.destroy lock)
  | fails :: busy, os => if fails then os else destroyLoop lock busy os

/-- The common body of `_shmutex_destroy`, `_shrwlock_destroy` and `_shcond_destroy`. -/
def lockDestroy (busy : List Bool) (lock : Nat) (count : UInt32) (os : Os c) : Os c :=
  if count > 0 then os else destroyLoop lock busy os

/-- `_shmutex_destroy` -/
def shmutexDestroy (busy : List Bool) : Nat → UInt32 → Os c → Os c := lockDestroy busy

/-- `_shrwlock_destroy` -/
def shrwlockDestroy (busy : List Bool) : Nat → UInt32 → Os c → Os c := lockDestroy busy

/-- `_shcond_destroy` -/
def shcondDestroy (busy : List Bool) : Nat → UInt32 → Os c → Os c := lockDestroy busy

/-- `_pthread_shlock_detach` -/
def pthreadShlockDetach (destroy : Nat → UInt32 → Os c → Os c) (lock : Nat) (w : World c) :
    World c := shmemDetachWithCallback (some destroy) lock w

/-- `urt_sys_shmutex_new` -/
def sysShmutexNew (env : SysEnv) (name : CString) (w : World c) : Except Errno Nat × World c :=
  pthreadShlockNew env (c.sizeofLock .mutex) name w

/-- `urt_sys_shrwlock_new` -/
def sysShrwlockNew (env : SysEnv) (name : CString) (w : World c) : Except Errno Nat × World c :=
  pthreadShlockNew env (c.sizeofLock .rwlock) name w

/-- `urt_sys_shcond_new` -/
def sysShcondNew (env : SysEnv) (name : CString) (w : World c) : Except Errno Nat × World c :=
  pthreadShlockNew env (c.sizeofLock .cond) name w

/-- `urt_sys_shmutex_attach` -/
def sysShmutexAttach (env : SysEnv) (name : CString) (os : Os c) : Except Errno Nat × Os c :=
  sysShmemAttach env name os

/-- `urt_sys_shrwlock_attach` -/
def sysShrwlockAttach (env : SysEnv) (name : CString) (os : Os c) : Except Errno Nat × Os c :=
  sysShmemAttach env name os

/-- `urt_sys_shcond_attach` -/
def sysShcondAttach (env : SysEnv) (name : CString) (os : Os c) : Except Errno Nat × Os c :=
  sysShmemAttach env name os

/-- `urt_shmutex_detach` -/
def shmutexDetach (busy : List Bool) (mutex : Nat) (w : World c) : World c :=
  pthreadShlockDetach (shmutexDestroy busy) mutex w

/-- `urt_shrwlock_detach` -/
def shrwlockDetach (busy : List Bool) (rwl : Nat) (w : World c) : World c :=
  pthreadShlockDetach (shrwlockDestroy busy) rwl w

/-- `urt_shcond_detach` -/
def shcondDetach (busy : List Bool) (cond : Nat) (w : World c) : World c :=
  pthreadShlockDetach (shcondDestroy busy) cond w

/-! ## Creation, attachment and detachment of any kind -/

/-- The system call of `SHOBJ_NEW`; `size` is used by memory and `value` by semaphores. -/
def sysNew (k : Kind) (env : SysEnv) (name : CString) (size : UInt64) (value : UInt32)
    (w : World c) : Except Errno Nat × World c :=
  match k with
  | .mem =>
      let (r, os) := sysShmemNew env name (size + 16) w.os
      (r, { w with os := os })
  | .sem =>
      let (r, os) := sysShsemNew env name value w.os
      (r, { w with os := os })
  | .mutex => sysShmutexNew env name w
  | .rwlock => sysShrwlockNew env name w
  | .cond => sysShcondNew env name w

/-- The system call of `SHOBJ_ATTACH`. -/
def sysAttach (k : Kind) (env : SysEnv) (name : CString) (os : Os c) : Except Errno Nat × Os c :=
  match k with
  | .mem => sysShmemAttach env name os
  | .sem => sysShsemAttach env name os
  | .mutex => sysShmutexAttach env name os
  | .rwlock => sysShrwlockAttach env name os
  | .cond => sysShcondAttach env name os

/-- `urt_sys_add_*_book_keeping`: the slot number goes to the segment or into the handle. -/
def sysAddBookKeeping (k : Kind) (ino : Nat) (id : Slot c) (w : World c) :
    Handle c × World c :=
  match k with
  | .sem => ({ kind := k, ino := ino, id := id }, w)
  | .mem | .mutex | .rwlock | .cond =>
      ({ kind := k, ino := ino, id := id },
        { mem := w.mem.setObject id { w.mem.objects id with hasBookkeeping := true }
          os := w.os.setInode ino { w.os.inode ino with id := id } })

/-- The `sz` that the uses of `SHOBJ_NEW` pass. -/
def Kind.sz (c : Config) (k : Kind) (size : UInt64) : UInt64 :=
  match k with
  | .mem => size
  | .sem | .mutex | .rwlock | .cond => c.sizeofLock k

/-- What `SHOBJ_NEW` records after the system call and before `urt_inc_name_count`. -/
def recordNew (k : Kind) (ino : Nat) (id : Slot c) (size : UInt64) (w : World c) :
    Handle c × World c :=
  let w := { w with mem := w.mem.setObject id { w.mem.objects id with hasBookkeeping := false } }
  let (obj, w) := sysAddBookKeeping k ino id w
  let ro := { w.mem.objects id with type := k.type, size := k.sz c size }
  let ro := if ro.hasBookkeeping then { ro with size := ro.size + 16 } else ro
  (obj, { w with mem := w.mem.setObject id ro })

/-- `SHOBJ_NEW` -/
def shobjNew (k : Kind) (env : SysEnv) (name : CString) (size : UInt64) (value : UInt32)
    (w : World c) : Except Errno (Handle c) × World c :=
  match reserveName w.mem name with
  | (.error e, g) => (.error e, { w with mem := g })
  | (.ok i, g) =>
      match sysNew k env name size value { w with mem := g } with
      | (.error e, w) =>
          (.error e, { w with mem := (decNameCount (σ := Unit) none w.mem i ()).1 })
      | (.ok ino, w) =>
          let (obj, w) := recordNew k ino i size w
          (.ok obj, { w with mem := incNameCount w.mem i })

/-- `SHOBJ_ATTACH` -/
def shobjAttach (k : Kind) (env : SysEnv) (name : CString) (w : World c) :
    Except Errno (Handle c) × World c :=
  match getObjectByNameAndIncCount w.mem name with
  | (none, g) => (.error .enoent, { w with mem := g })
  | (some i, g) =>
      match sysAttach k env name w.os with
      | (.error e, os) =>
          (.error e, { mem := (decNameCount (σ := Unit) none g i ()).1, os := os })
      | (.ok ino, os) =>
          let (obj, w) := sysAddBookKeeping k ino i { mem := g, os := os }
          (.ok obj, w)

/-- `urt_sh*_detach` of a handle. -/
def detach (busy : List Bool) (h : Handle c) (w : World c) : World c :=
  match h.kind with
  | .mem => shmemDetach h.ino w
  | .sem => shsemDetach h.ino h.id w
  | .mutex => shmutexDetach busy h.ino w
  | .rwlock => shrwlockDetach busy h.ino w
  | .cond => shcondDetach busy h.ino w

/-! ## The public functions -/

/-- `urt_shmem_new` -/
def shmemNew (env : SysEnv) (name : CString) (size : UInt64) (w : World c) :
    Except Errno (Handle c) × World c := shobjNew .mem env name size 0 w

/-- `urt_shmem_attach` -/
def shmemAttach (env : SysEnv) (name : CString) (w : World c) :
    Except Errno (Handle c) × World c := shobjAttach .mem env name w

/-- `urt_shsem_new` -/
def shsemNew (env : SysEnv) (name : CString) (value : UInt32) (w : World c) :
    Except Errno (Handle c) × World c := shobjNew .sem env name 0 value w

/-- `urt_shsem_attach` -/
def shsemAttach (env : SysEnv) (name : CString) (w : World c) :
    Except Errno (Handle c) × World c := shobjAttach .sem env name w

/-- `urt_shmutex_new` -/
def shmutexNew (env : SysEnv) (name : CString) (w : World c) :
    Except Errno (Handle c) × World c := shobjNew .mutex env name 0 0 w

/-- `urt_shmutex_attach` -/
def shmutexAttach (env : SysEnv) (name : CString) (w : World c) :
    Except Errno (Handle c) × World c := shobjAttach .mutex env name w

/-- `urt_shrwlock_new` -/
def shrwlockNew (env : SysEnv) (name : CString) (w : World c) :
    Except Errno (Handle c) × World c := shobjNew .rwlock env name 0 0 w

/-- `urt_shrwlock_attach` -/
def shrwlockAttach (env : SysEnv) (name : CString) (w : World c) :
    Except Errno (Handle c) × World c := shobjAttach .rwlock env name w

/-- `urt_shcond_new` -/
def shcondNew (env : SysEnv) (name : CString) (w : World c) :
    Except Errno (Handle c) × World c := shobjNew .cond env name 0 0 w

/-- `urt_shcond_attach` -/
def shcondAttach (env : SysEnv) (name : CString) (w : World c) :
    Except Errno (Handle c) × World c := shobjAttach .cond env name w

/-- `urt_sys_force_clear_name` -/
def sysForceClearName (ro : RegisteredObject) (os : Os c) : Os c :=
  match convertName ro.name.str with
  | none => os
  | some n =>
      match Kind.ofType? ro.type with
      | some .mem | some .mutex | some .rwlock | some .cond => os.shmUnlink n
      | some .sem => os.semUnlink n
      | none => os

end Urt
