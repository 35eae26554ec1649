import Urt.Registry.Sections
import Urt.Rtai.Services

/-!
# Shared objects on RTAI

`src/new_common.c` with the RTAI back end (`sys/rtai/src/mem.c`, `lock.c`, `setup.c`,
`sys/rtai/include/urt_sys_internal.h`), over the registry and the named objects of RTAI.
Shared memory is a segment with 16 bytes of bookkeeping in front; the locks are named
semaphores and read-write locks of RTAI, and a process keeps their address and slot number in
memory of its own.

RTAI counts the users of a segment, since attaching calls `rt_shm_alloc` again. Attaching to a
lock only asks for its address, so a lock has one user however many handles there are.
-/

namespace Urt.Rtai

variable {c : Config} {σ : Type}

/-- The registry, the state of RTAI and the `unsigned int` at the start of each segment. -/
structure World (c : Config) (σ : Type) where
  mem : Internal c
  os : σ
  word : Nat → Slot c

/-- What a process got from `urt_sh*_new` or `urt_sh*_attach`. `id` is the slot number the
call recorded, for memory in the segment. -/
structure Handle (c : Config) where
  kind : Kind
  adr : Nat
  id : Slot c
  deriving DecidableEq

variable (R : Services σ)

/-! ## Segments -/

/-- `urt_sys_shmem_new` -/
def sysShmemNew (name : CString) (size : UInt64) (os : σ) : Except Errno Nat × σ :=
  let num := R.nam2num name
  match R.getAdr num os with
  | some _ => (.error .eexist, os)
  | none =>
      match R.shmAlloc num size os with
      | (none, os) => (.error .enomem, os)
      | (some mem, os) => (.ok mem, os)

/-- `urt_sys_shmem_attach` -/
def sysShmemAttach (name : CString) (os : σ) : Except Errno Nat × σ :=
  match R.shmAlloc (R.nam2num name) 0 os with
  | (none, os) => (.error .enoent, os)
  | (some mem, os) => (.ok mem, os)

/-- The first half of `urt_shmem_detach`: the slot that the bookkeeping names, and
`rt_shm_free`. The second half is `urt_deregister` of the slot. -/
def shmemFree (mem : Nat) (w : World c σ) : Slot c × World c σ :=
  let id := w.word mem
  (id, { w with os := R.shmFree (R.nam2num (w.mem.objects id).name.str) w.os })

/-- `urt_shmem_detach` -/
def shmemDetach (mem : Nat) (w : World c σ) : World c σ :=
  let (id, w) := shmemFree R mem w
  { w with mem := (decNameCount (σ := Unit) none w.mem id ()).1 }

/-! ## Locks -/

/-- The common body of `_shsem_common`, `urt_sys_shrwlock_new` and `urt_sys_shcond_new`;
`malloc` says whether `urt_mem_new` fails. -/
def namedNew (malloc : Bool) (init : σ → Option Nat × σ) (os : σ) : Except Errno Nat × σ :=
  if malloc then (.error .enomem, os)
  else
    match init os with
    | (none, os) => (.error .enomem, os)
    | (some adr, os) => (.ok adr, os)

/-- `_shsem_common` -/
def shsemCommon (malloc : Bool) (name : CString) (value : UInt32) (type : SemType) (os : σ) :
    Except Errno Nat × σ := namedNew malloc (R.semInit (R.nam2num name) value type) os

/-- `urt_sys_shsem_new` -/
def sysShsemNew (malloc : Bool) (name : CString) (value : UInt32) (os : σ) :
    Except Errno Nat × σ := shsemCommon R malloc name value .cnt os

/-- `urt_sys_shmutex_new` -/
def sysShmutexNew (malloc : Bool) (name : CString) (os : σ) : Except Errno Nat × σ :=
  shsemCommon R malloc name 1 .res os

/-- `urt_sys_shrwlock_new` -/
def sysShrwlockNew (malloc : Bool) (name : CString) (os : σ) : Except Errno Nat × σ :=
  namedNew malloc (R.rwlInit (R.nam2num name)) os

/-- `urt_sys_shcond_new` -/
def sysShcondNew (malloc : Bool) (name : CString) (os : σ) : Except Errno Nat × σ :=
  namedNew malloc (R.semInit (R.nam2num name) 0 .binPrio) os

/-- The common body of `urt_sys_shsem_attach`, `urt_sys_shrwlock_attach` and
`urt_sys_shcond_attach`. -/
def namedAttach (malloc : Bool) (name : CString) (os : σ) : Except Errno Nat × σ :=
  if malloc then (.error .enomem, os)
  else
    match R.getAdr (R.nam2num name) os with
    | none => (.error .enoent, os)
    | some adr => (.ok adr, os)

/-- `urt_sys_shsem_attach` -/
def sysShsemAttach (malloc : Bool) (name : CString) (os : σ) : Except Errno Nat × σ :=
  namedAttach R malloc name os

/-- `urt_sys_shmutex_attach` -/
def sysShmutexAttach (malloc : Bool) (name : CString) (os : σ) : Except Errno Nat × σ :=
  sysShsemAttach R malloc name os

/-- `urt_sys_shrwlock_attach` -/
def sysShrwlockAttach (malloc : Bool) (name : CString) (os : σ) : Except Errno Nat × σ :=
  namedAttach R malloc name os

/-- `urt_sys_shcond_attach` -/
def sysShcondAttach (malloc : Bool) (name : CString) (os : σ) : Except Errno Nat × σ :=
  namedAttach R malloc name os

/-- The common body of the release callbacks of locks. -/
def Release.named (delete : Nat → σ → σ) (address : Nat) (ro : RegisteredObject) (os : σ) : σ :=
  if ro.count = 0 then delete address os else os

/-- `_shsem_detach` -/
def Release.shsemDetach (address : Nat) (ro : RegisteredObject) (os : σ) : σ :=
  Release.named R.semDelete address ro os

/-- `_shrwlock_detach` -/
def Release.shrwlockDetach (address : Nat) (ro : RegisteredObject) (os : σ) : σ :=
  Release.named R.rwlDelete address ro os

/-- `_shcond_detach` -/
def Release.shcondDetach (address : Nat) (ro : RegisteredObject) (os : σ) : σ :=
  Release.named R.semDelete address ro os

/-- The common body of `urt_shsem_detach`, `urt_shrwlock_detach` and `urt_shcond_detach`. -/
def namedDetach (release : RegisteredObject → σ → σ) (id : Slot c) (w : World c σ) :
    World c σ :=
  let (g, os) := decNameCount (some release) w.mem id w.os
  { w with mem := g, os := os }

/-- `urt_shsem_detach` -/
def shsemDetach (sem : Nat) (id : Slot c) (w : World c σ) : World c σ :=
  namedDetach (Release.shsemDetach R sem) id w

/-- `urt_shmutex_detach` -/
def shmutexDetach (mutex : Nat) (id : Slot c) (w : World c σ) : World c σ :=
  shsemDetach R mutex id w

/-- `urt_shrwlock_detach` -/
def shrwlockDetach (rwl : Nat) (id : Slot c) (w : World c σ) : World c σ :=
  namedDetach (Release.shrwlockDetach R rwl) id w

/-- `urt_shcond_detach` -/
def shcondDetach (cond : Nat) (id : Slot c) (w : World c σ) : World c σ :=
  namedDetach (Release.shcondDetach R cond) id w

/-! ## Creation, attachment and detachment of any kind -/

/-- The system call of `SHOBJ_NEW`; `size` is used by memory and `value` by semaphores. -/
def sysNew (k : Kind) (malloc : Bool) (name : CString) (size : UInt64) (value : UInt32)
    (os : σ) : Except Errno Nat × σ :=
  match k with
  | .mem => sysShmemNew R name (size + 16) os
  | .sem => sysShsemNew R malloc name value os
  | .mutex => sysShmutexNew R malloc name os
  | .rwlock => sysShrwlockNew R malloc name os
  | .cond => sysShcondNew R malloc name os

/-- The system call of `SHOBJ_ATTACH`. -/
def sysAttach (k : Kind) (malloc : Bool) (name : CString) (os : σ) : Except Errno Nat × σ :=
  match k with
  | .mem => sysShmemAttach R name os
  | .sem => sysShsemAttach R malloc name os
  | .mutex => sysShmutexAttach R malloc name os
  | .rwlock => sysShrwlockAttach R malloc name os
  | .cond => sysShcondAttach R malloc name os

/-- `urt_sys_add_*_book_keeping` -/
def sysAddBookKeeping (k : Kind) (adr : Nat) (id : Slot c) (w : World c σ) :
    Handle c × World c σ :=
  ({ kind := k, adr := adr, id := id },
    match k with
    | .mem =>
        { w with
          mem := w.mem.setObject id { w.mem.objects id with hasBookkeeping := true }
          word := Function.update w.word adr id }
    | .sem | .mutex | .rwlock | .cond => w)

/-- The `sz` that the uses of `SHOBJ_NEW` pass. -/
def sz (c : Config) (k : Kind) (size : UInt64) : UInt64 :=
  match k with
  | .mem => size
  | .sem | .mutex | .rwlock | .cond => c.sizeofLock k

/-- What `SHOBJ_NEW` records after the system call and before `urt_inc_name_count`. -/
def recordNew (k : Kind) (adr : Nat) (id : Slot c) (size : UInt64) (w : World c σ) :
    Handle c × World c σ :=
  let w := { w with mem := w.mem.setObject id { w.mem.objects id with hasBookkeeping := false } }
  let (obj, w) := sysAddBookKeeping k adr id w
  let ro := { w.mem.objects id with type := k.type, size := sz c k size }
  let ro := if ro.hasBookkeeping then { ro with size := ro.size + 16 } else ro
  (obj, { w with mem := w.mem.setObject id ro })

/-- `SHOBJ_NEW` -/
def shobjNew (k : Kind) (malloc : Bool) (name : CString) (size : UInt64) (value : UInt32)
    (w : World c σ) : Except Errno (Handle c) × World c σ :=
  match reserveName w.mem name with
  | (.error e, g) => (.error e, { w with mem := g })
  | (.ok i, g) =>
      match sysNew R k malloc name size value w.os with
      | (.error e, os) =>
          (.error e, { w with mem := (decNameCount (σ := Unit) none g i ()).1, os := os })
      | (.ok adr, os) =>
          let (obj, w) := recordNew k adr i size { w with mem := g, os := os }
          (.ok obj, { w with mem := incNameCount w.mem i })

/-- `SHOBJ_ATTACH` -/
def shobjAttach (k : Kind) (malloc : Bool) (name : CString) (w : World c σ) :
    Except Errno (Handle c) × World c σ :=
  match getObjectByNameAndIncCount w.mem name with
  | (none, g) => (.error .enoent, { w with mem := g })
  | (some i, g) =>
      match sysAttach R k malloc name w.os with
      | (.error e, os) =>
          (.error e, { w with mem := (decNameCount (σ := Unit) none g i ()).1, os := os })
      | (.ok adr, os) =>
          let (obj, w) := sysAddBookKeeping k adr i { w with mem := g, os := os }
          (.ok obj, w)

/-- `urt_sh*_detach` of a handle to a lock; memory is detached in two pieces. -/
def detachLock (h : Handle c) (w : World c σ) : World c σ :=
  match h.kind with
  | .mem => w
  | .sem => shsemDetach R h.adr h.id w
  | .mutex => shmutexDetach R h.adr h.id w
  | .rwlock => shrwlockDetach R h.adr h.id w
  | .cond => shcondDetach R h.adr h.id w

/-! ## Force clear -/

/-- A loop of `urt_sys_force_clear_name`, for at most the given number of rounds; `none` if it
needs more. -/
def clearNamed (num : Nat) (free : Nat → σ → σ) : Nat → σ → Option σ
  | 0, _ => none
  | k + 1, os =>
      match R.getAdr num os with
      | none => some os
      | some adr => clearNamed num free k (free adr os)

/-- `urt_sys_force_clear_name` in user space, with the given number of rounds for its loop. -/
def sysForceClearName (rounds : Nat) (ro : RegisteredObject) (os : σ) : Option σ :=
  let num := R.nam2num ro.name.str
  match Kind.ofType? ro.type with
  | some .mem => clearNamed R num (fun _ => R.shmFree num) rounds os
  | some .sem | some .mutex | some .cond => clearNamed R num R.semDelete rounds os
  | some .rwlock => clearNamed R num R.rwlDelete rounds os
  | none => some os

/-- `urt_sys_force_clear_name` in kernel space -/
def kernSysForceClearName (rounds : Nat) (ro : RegisteredObject) (os : σ) : Option σ :=
  let num := R.nam2num ro.name.str
  clearNamed R num (fun _ => R.drgOnName num) rounds os

end Urt.Rtai
