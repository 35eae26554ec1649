import Urt.Registry.Basic

/-!
# Named objects of the system

What `shm_open`, `sem_open` and the calls around them do, as far as the POSIX back end uses
it. A segment or a named semaphore is an inode; a name space links OS names to inodes.
Unlinking removes the name only, so whoever has the object mapped or open keeps it. File
descriptors, mappings and open semaphores are represented by the inode they refer to.

Calls that can fail for reasons of their own take the error as an argument (`SysEnv`). `log`
lists the effects that leave no other trace. The segment and the semaphore of the registry
itself have reserved names (`$URTGM`, `$URTGL`); `urt_init` opens them (`Urt.Setup.Posix`).
-/

namespace Urt

/-- The name spaces of `shm_open` and of `sem_open`. -/
inductive Space where
  | shm
  | sem
  deriving DecidableEq, Repr

/-- A segment, or a named semaphore. -/
structure Inode (c : Config) where
  /-- the length of a segment -/
  size : UInt64
  /-- the `unsigned int` at the start of a segment, where the bookkeeping is -/
  id : Slot c
  /-- the initial value of a semaphore -/
  value : UInt32

/-- A new segment: empty, and zero-filled when it grows. -/
def Inode.zero (c : Config) : Inode c := { size := 0, id := 0, value := 0 }

inductive OsEvent where
  | unlink (space : Space) (ino : Nat)
  | munmap (ino : Nat) (size : UInt64)
  | semClose (ino : Nat)
  /-- a `pthread_*_destroy` that succeeded -/
  | destroy (ino : Nat)
  deriving DecidableEq, Repr

structure Os (c : Config) where
  link : Space → OsName → Option Nat
  inode : Nat → Inode c
  /-- the first inode number never used -/
  next : Nat
  log : List OsEvent

/-- A system without named objects. -/
def Os.empty (c : Config) : Os c :=
  { link := fun _ _ => none, inode := fun _ => .zero c, next := 0, log := [] }

/-- The errors the calls of one operation return for reasons of their own. -/
structure SysEnv where
  /-- whether `malloc` fails -/
  malloc : Bool
  shmOpen : Option Errno
  semOpen : Option Errno
  ftruncate : Option Errno
  fstat : Option Errno
  mmap : Option Errno
  /-- `pthread_mutex_init`, `pthread_rwlock_init` or `pthread_cond_init` -/
  init : Option Errno
  deriving DecidableEq

/-- No call fails for reasons of its own. -/
def SysEnv.ok : SysEnv :=
  { malloc := false, shmOpen := none, semOpen := none, ftruncate := none, fstat := none,
    mmap := none, init := none }

namespace Os

variable {c : Config}

/-! ## Links and inodes -/

/-- Link an OS name to an inode, or remove the name. -/
def setLink (os : Os c) (sp : Space) (n : OsName) (v : Option Nat) : Os c :=
  { os with link := fun sp' n' => if sp' = sp ∧ n' = n then v else os.link sp' n' }

def setInode (os : Os c) (ino : Nat) (x : Inode c) : Os c :=
  { os with inode := Function.update os.inode ino x }

def emit (os : Os c) (e : OsEvent) : Os c := { os with log := os.log ++ [e] }

/-- A new inode under a name. -/
def create (os : Os c) (sp : Space) (n : OsName) (x : Inode c) : Os c :=
  { (os.setInode os.next x).setLink sp n (some os.next) with next := os.next + 1 }

/-! ## Calls -/

/-- `shm_open` with `O_RDWR`, and `O_CREAT`, `O_EXCL` if so told -/
def shmOpen (os : Os c) (err : Option Errno) (n : OsName) (creat excl : Bool) :
    Except Errno Nat × Os c :=
  match err with
  | some e => (.error e, os)
  | none =>
      match os.link .shm n with
      | some ino => if creat && excl then (.error .eexist, os) else (.ok ino, os)
      | none => if creat then (.ok os.next, os.create .shm n (.zero c)) else (.error .enoent, os)

/-- `sem_open`, likewise -/
def semOpen (os : Os c) (err : Option Errno) (n : OsName) (creat excl : Bool) (value : UInt32) :
    Except Errno Nat × Os c :=
  match err with
  | some e => (.error e, os)
  | none =>
      match os.link .sem n with
      | some ino => if creat && excl then (.error .eexist, os) else (.ok ino, os)
      | none =>
          if creat then (.ok os.next, os.create .sem n { Inode.zero c with value := value })
          else (.error .enoent, os)

/-- `ftruncate`; the length it leaves -/
def ftruncate (os : Os c) (err : Option Errno) (fd : Nat) (size : UInt64) :
    Except Errno UInt64 × Os c :=
  match err with
  | some e => (.error e, os)
  | none => (.ok size, os.setInode fd { os.inode fd with size := size })

/-- `fstat`; the length it reports -/
def fstat (os : Os c) (err : Option Errno) (fd : Nat) : Except Errno UInt64 × Os c :=
  match err with
  | some e => (.error e, os)
  | none => (.ok (os.inode fd).size, os)

/-- `mmap` of a whole segment; the length must not be zero. -/
def mmap (err : Option Errno) (fd : Nat) (size : UInt64) : Except Errno Nat :=
  match err with
  | some e => .error e
  | none => if size = 0 then .error .einval else .ok fd

/-- `munmap` -/
def munmap (os : Os c) (ino : Nat) (size : UInt64) : Os c := os.emit (.munmap ino size)

/-- `sem_close` -/
def semClose (os : Os c) (ino : Nat) : Os c := os.emit (.semClose ino)

/-- `shm_unlink` and `sem_unlink`; a name that does not exist is an error without effect. -/
def unlink (os : Os c) (sp : Space) (n : OsName) : Os c :=
  match os.link sp n with
  | none => os
  | some ino => (os.setLink sp n none).emit (.unlink sp ino)

/-- `shm_unlink` -/
def shmUnlink (os : Os c) (n : OsName) : Os c := os.unlink .shm n

/-- `sem_unlink` -/
def semUnlink (os : Os c) (n : OsName) : Os c := os.unlink .sem n

/-! ## Fields after each operation -/

@[simp] theorem setLink_self (os : Os c) (sp : Space) (n : OsName) (v : Option Nat) :
    (os.setLink sp n v).link sp n = v := by
  simp [setLink]

theorem setLink_of_ne (os : Os c) {sp sp' : Space} {n n' : OsName} (v : Option Nat)
    (h : (sp', n') ≠ (sp, n)) : (os.setLink sp n v).link sp' n' = os.link sp' n' := by
  unfold setLink
  refine if_neg fun hc => h ?_
  rw [hc.1, hc.2]

@[simp] theorem setLink_inode (os : Os c) (sp : Space) (n : OsName) (v : Option Nat) :
    (os.setLink sp n v).inode = os.inode := rfl

@[simp] theorem setInode_link (os : Os c) (ino : Nat) (x : Inode c) :
    (os.setInode ino x).link = os.link := rfl

@[simp] theorem setInode_inode (os : Os c) (ino : Nat) (x : Inode c) :
    (os.setInode ino x).inode = Function.update os.inode ino x := rfl

@[simp] theorem setInode_next (os : Os c) (ino : Nat) (x : Inode c) :
    (os.setInode ino x).next = os.next := rfl

@[simp] theorem setInode_log (os : Os c) (ino : Nat) (x : Inode c) :
    (os.setInode ino x).log = os.log := rfl

@[simp] theorem emit_link (os : Os c) (e : OsEvent) : (os.emit e).link = os.link := rfl

@[simp] theorem emit_inode (os : Os c) (e : OsEvent) : (os.emit e).inode = os.inode := rfl

@[simp] theorem emit_next (os : Os c) (e : OsEvent) : (os.emit e).next = os.next := rfl

@[simp] theorem emit_log (os : Os c) (e : OsEvent) : (os.emit e).log = os.log ++ [e] := rfl

@[simp] theorem unlink_inode (os : Os c) (sp : Space) (n : OsName) :
    (os.unlink sp n).inode = os.inode := by
  unfold unlink
  cases os.link sp n <;> rfl

@[simp] theorem unlink_next (os : Os c) (sp : Space) (n : OsName) :
    (os.unlink sp n).next = os.next := by
  unfold unlink
  cases os.link sp n <;> rfl

@[simp] theorem unlink_self (os : Os c) (sp : Space) (n : OsName) :
    (os.unlink sp n).link sp n = none := by
  unfold unlink
  cases h : os.link sp n with
  | none => exact h
  | some ino => exact setLink_self os sp n none

theorem unlink_of_ne (os : Os c) {sp sp' : Space} {n n' : OsName}
    (h : (sp', n') ≠ (sp, n)) : (os.unlink sp n).link sp' n' = os.link sp' n' := by
  unfold unlink
  cases os.link sp n with
  | none => rfl
  | some ino => exact setLink_of_ne os none h

/-- Unlinking takes names away and gives none. -/
theorem link_of_unlink {os : Os c} {sp sp' : Space} {n n' : OsName} {ino : Nat}
    (h : (os.unlink sp n).link sp' n' = some ino) :
    (sp', n') ≠ (sp, n) ∧ os.link sp' n' = some ino := by
  by_cases he : (sp', n') = (sp, n)
  · cases he
    rw [unlink_self] at h
    cases h
  · exact ⟨he, by rwa [unlink_of_ne os he] at h⟩

theorem create_link_self (os : Os c) (sp : Space) (n : OsName) (x : Inode c) :
    (os.create sp n x).link sp n = some os.next := setLink_self _ sp n _

theorem create_link_of_ne (os : Os c) {sp sp' : Space} {n n' : OsName} (x : Inode c)
    (h : (sp', n') ≠ (sp, n)) : (os.create sp n x).link sp' n' = os.link sp' n' :=
  setLink_of_ne _ _ h

end Os

end Urt
