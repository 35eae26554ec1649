import Mathlib.Algebra.GroupWithZero.Nat
import Urt.Lib.Scan
import Urt.Names

/-!
# The registry of shared objects

The shared segment `urt_internal` (`src/urt_internal.h`) and the critical sections of
`src/registry.c` over it. Every function here runs under the global semaphore, so each is
one atomic step. A pointer to a `urt_registered_object` is its index in `objects`.

The release callback of `_dec_count_common` and the system part of `urt_force_clear_name`
act on the state of the back end, a parameter `σ`; they never write the registry.
-/

namespace Urt

/-! ## Build configuration -/

/-- The kinds of shared objects, `URT_TYPE_*`. -/
inductive Kind where
  | mem
  | sem
  | mutex
  | rwlock
  | cond
  deriving DecidableEq, Repr

/-- The value of `URT_TYPE_*`. -/
def Kind.type : Kind → UInt8
  | .mem => 1
  | .sem => 2
  | .mutex => 3
  | .rwlock => 4
  | .cond => 5

theorem Kind.type_injective : Function.Injective Kind.type := by
  intro a b h
  cases a <;> cases b <;> first | rfl | exact absurd h (by decide)

/-- The kind with the given `URT_TYPE_*`; zero-filled slots have none. -/
def Kind.ofType? (t : UInt8) : Option Kind :=
  [Kind.mem, .sem, .mutex, .rwlock, .cond].find? fun k => k.type == t

theorem Kind.ofType?_type (k : Kind) : Kind.ofType? k.type = some k := by
  cases k <;> rfl

theorem Kind.ofType?_eq_some_iff {t : UInt8} {k : Kind} :
    Kind.ofType? t = some k ↔ t = k.type := by
  constructor
  · intro h
    have hk := List.find?_some h
    exact (beq_iff_eq.mp hk).symm
  · rintro rfl
    exact Kind.ofType?_type k

/-- The constants a build fixes. -/
structure Config where
  /-- `URT_MAX_OBJECTS` -/
  maxObjects : Nat
  maxObjects_pos : 0 < maxObjects
  /-- `NDEBUG`, which compiles `_internal_mem_check` away -/
  ndebug : Bool
  /-- `_POSIX_THREAD_PROCESS_SHARED > 0` -/
  processShared : Bool
  /-- `sizeof(urt_sem)`, `sizeof(urt_mutex)` and so on; not used for `mem` -/
  sizeofLock : Kind → UInt64
  /-- `sizeof(struct urt_internal)` -/
  sizeofInternal : UInt64
  /-- `sizeof(struct urt_registered_object)` -/
  sizeofRegisteredObject : UInt64

/-- A build with two slots, for concrete runs. -/
def Config.two : Config :=
  { maxObjects := 2, maxObjects_pos := by decide, ndebug := false, processShared := true,
    sizeofLock := fun _ => 40, sizeofInternal := 104, sizeofRegisteredObject := 32 }

/-- The index of a slot of `objects`. -/
abbrev Slot (c : Config) : Type := Fin c.maxObjects

instance (c : Config) : NeZero c.maxObjects := ⟨c.maxObjects_pos.ne'⟩

/-- The values of `errno` the code names; `sys` is any other one the system returns. -/
inductive Errno where
  | eexist
  | enospc
  | enoent
  | einval
  | enomem
  | enotsup
  | sys (code : Nat)
  deriving DecidableEq, Repr

/-! ## Data -/

/-- `urt_registered_object` -/
structure RegisteredObject where
  name : NameBuf
  reserved : Bool
  hasBookkeeping : Bool
  type : UInt8
  count : UInt32
  size : UInt64
  deriving DecidableEq

/-- A zero-filled object. -/
def RegisteredObject.zero : RegisteredObject :=
  { name := NameBuf.zero, reserved := false, hasBookkeeping := false, type := 0, count := 0,
    size := 0 }

/-- `ro->reserved || ro->count != 0` -/
def RegisteredObject.inUse (o : RegisteredObject) : Bool := o.reserved || o.count != 0

/-- What the registry sees of the stored name. -/
def RegisteredObject.tname (o : RegisteredObject) : List UInt8 := truncName o.name.str

/-- `urt_internal` -/
structure Internal (c : Config) where
  sizeofInternal : UInt64
  sizeofRegisteredObject : UInt64
  objects : Slot c → RegisteredObject
  objectsMaxIndex : Nat
  nextFreeName : NameBuf
  namesExhausted : Bool
  initialized : Bool

/-- A zero-filled segment. -/
def Internal.zero (c : Config) : Internal c :=
  { sizeofInternal := 0, sizeofRegisteredObject := 0, objects := fun _ => .zero,
    objectsMaxIndex := 0, nextFreeName := NameBuf.zero, namesExhausted := false,
    initialized := false }

variable {c : Config} {σ : Type}

namespace Internal

/-- Whether a slot is in use. -/
def used (g : Internal c) (i : Slot c) : Bool := (g.objects i).inUse

/-- Write one slot. -/
def setObject (g : Internal c) (i : Slot c) (o : RegisteredObject) : Internal c :=
  { g with objects := Function.update g.objects i o }

@[simp] theorem setObject_objects (g : Internal c) (i : Slot c) (o : RegisteredObject) :
    (g.setObject i o).objects = Function.update g.objects i o := rfl

@[simp] theorem setObject_objectsMaxIndex (g : Internal c) (i : Slot c) (o : RegisteredObject) :
    (g.setObject i o).objectsMaxIndex = g.objectsMaxIndex := rfl

theorem used_setObject (g : Internal c) (i : Slot c) (o : RegisteredObject) :
    (g.setObject i o).used = Function.update g.used i o.inUse := by
  funext j
  by_cases hj : j = i
  · subst hj
    simp [used]
  · simp [used, hj]

end Internal

/-! ## Initialisation -/

/-- The first value of `next_free_name`: underscores and a dollar sign. -/
def firstFreeName : NameBuf :=
  ((List.range (nameLen - 1)).foldl (fun b i => b.setIfInBounds i 95) NameBuf.zero).setIfInBounds
    (nameLen - 1) 36

/-- `urt_registry_init` and its return value -/
def registryInit (g : Internal c) : Int × Internal c :=
  if g.initialized then
    (if g.sizeofInternal = c.sizeofInternal ∧
        g.sizeofRegisteredObject = c.sizeofRegisteredObject then 0 else -1, g)
  else
    (0,
      { sizeofInternal := c.sizeofInternal
        sizeofRegisteredObject := c.sizeofRegisteredObject
        objects := fun _ => .zero
        objectsMaxIndex := 0
        nextFreeName := firstFreeName
        namesExhausted := false
        initialized := true })

/-! ## Critical sections -/

/-- `_find_by_name` -/
def findByName (g : Internal c) (name : CString) : Option (Slot c) :=
  SlotScan.first (fun i => g.used i && nameEq (g.objects i).name.str name) (g.objectsMaxIndex + 1)

/-- The search for a free slot in `urt_reserve_name`. -/
def findFree (g : Internal c) : Option (Slot c) :=
  SlotScan.first (fun i => !g.used i) c.maxObjects

/-- The object `urt_reserve_name` writes into the slot it found. -/
def reservedObject (name : CString) : RegisteredObject :=
  { RegisteredObject.zero with reserved := true, name := nameCpy NameBuf.zero name }

/-- `urt_reserve_name` -/
def reserveName (g : Internal c) (name : CString) : Except Errno (Slot c) × Internal c :=
  match findByName g name with
  | some _ => (.error .eexist, g)
  | none =>
      match findFree g with
      | none => (.error .enospc, g)
      | some i =>
          (.ok i,
            { g.setObject i (reservedObject name) with
              objectsMaxIndex := if i.val > g.objectsMaxIndex then i.val else g.objectsMaxIndex })

/-- `++ro->count; ro->reserved = false;` -/
def RegisteredObject.inc (o : RegisteredObject) : RegisteredObject :=
  { o with count := o.count + 1, reserved := false }

/-- `if (ro->count > 0) --ro->count; ro->reserved = false;` -/
def RegisteredObject.dec (o : RegisteredObject) : RegisteredObject :=
  { o with count := if o.count > 0 then o.count - 1 else o.count, reserved := false }

/-- `urt_inc_name_count` -/
def incNameCount (g : Internal c) (i : Slot c) : Internal c := g.setObject i (g.objects i).inc

/-- `_internal_mem_check` -/
def internalMemCheck (g : Internal c) : Internal c :=
  if c.ndebug then g
  else { g with objectsMaxIndex := SlotScan.raise g.used g.objectsMaxIndex }

/-- `_dec_count_common`; `release` may be `NULL`. -/
def decCountCommon (release : Option (RegisteredObject → σ → σ)) (g : Internal c) (i : Slot c)
    (s : σ) : Internal c × σ :=
  let g := g.setObject i (g.objects i).dec
  let s := match release with
    | some f => f (g.objects i) s
    | none => s
  if (g.objects i).count > 0 then (g, s)
  else
    let g := if i.val = g.objectsMaxIndex then
        { g with objectsMaxIndex := SlotScan.down g.used i.val }
      else g
    (internalMemCheck g, s)

/-- `urt_dec_name_count`, which `urt_deregister` only calls. -/
def decNameCount (release : Option (RegisteredObject → σ → σ)) (g : Internal c) (i : Slot c)
    (s : σ) : Internal c × σ := decCountCommon release g i s

/-- What `_dec_count_common` does to the registry. -/
def decCount (g : Internal c) (i : Slot c) : Internal c :=
  (decCountCommon (σ := Unit) none g i ()).1

/-- The `do ... while (ro->count > 0)` loop of `urt_force_clear_name`, for at most the given
number of rounds; `none` if it needs more. -/
def clearLoop : Nat → Internal c → Slot c → Option (Internal c)
  | 0, _, _ => none
  | k + 1, g, i =>
      let g := decCount g i
      if (g.objects i).count > 0 then clearLoop k g i else some g

/-- `urt_force_clear_name`, where `sysClear` is `urt_sys_force_clear_name`. -/
def forceClearName (sysClear : RegisteredObject → σ → σ) (g : Internal c) (name : CString)
    (s : σ) : Option (Internal c × σ) :=
  match findByName g name with
  | none => some (g, s)
  | some i =>
      (clearLoop ((g.objects i).count.toNat + 1) g i).map fun g' => (g', sysClear (g.objects i) s)

/-- `urt_get_object_by_name_and_inc_count` -/
def getObjectByNameAndIncCount (g : Internal c) (name : CString) :
    Option (Slot c) × Internal c :=
  match findByName g name with
  | none => (none, g)
  | some i => (some i, g.setObject i (g.objects i).inc)

/-- The part of `urt_recover` that runs on the mapped registry. -/
def recoverIndex (g : Internal c) : Internal c :=
  { g with objectsMaxIndex := SlotScan.raise g.used 0 }

/-- `urt_recover`: the outcomes of `urt_sys_init`, `urt_global_sem_get` and
`urt_global_mem_get` (`true` for failure) decide whether the registry is reached. -/
def recover (sysInit semGet memGet : Bool) (g : Internal c) : Internal c :=
  if sysInit then g
  else if semGet then g
  else if memGet then g
  else recoverIndex g

end Urt
