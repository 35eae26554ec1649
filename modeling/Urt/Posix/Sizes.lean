import Mathlib.Data.List.TakeWhile
import Urt.Posix.Effects

/-!
# The size of shared memory

`urt_shmem_new` asks the system for 16 bytes more than its caller, records the size in the
registry and adds 16 to it there, and `urt_dump_memory` (`src/registry.c`) takes 16 off again,
each in the arithmetic of `size_t`. A segment is mapped as a whole, so the length of a mapping
is that of its inode.

`mappingFits_iff` says when a mapping that was made has room for what was asked for.
-/

namespace Urt

variable {c : Config}

/-! ## `urt_dump_memory` -/

/-- The `size` of `urt_dump_memory`. -/
def dumpSize (ro : RegisteredObject) : UInt64 :=
  if ro.hasBookkeeping then ro.size - 16 else ro.size

def dumpStart (size start : UInt64) : UInt64 := if start > size then size else start

def dumpEnd (size stop : UInt64) : UInt64 := if stop = 0 ∨ stop > size then size else stop

/-- The bytes of the row that begins at `i`. -/
def dumpRow (i stop : UInt64) : List UInt64 :=
  ((List.range 16).map fun j => i + .ofNat j).takeWhile (· < stop)

/-- The rows from `i` on, for at most the given number of rounds. -/
def dumpRows : Nat → UInt64 → UInt64 → Option (List (List UInt64))
  | 0, _, _ => none
  | k + 1, i, stop =>
      if i < stop then (dumpRows k (i + 16) stop).map (dumpRow i stop :: ·) else some []

/-- `urt_dump_memory`: which bytes of the object it reads, row by row. Errors are only
printed. -/
def dumpMemory (k : Nat) (env : SysEnv) (busy : List Bool) (name : CString)
    (start stop : UInt64) (w : World c) : Option (List (List UInt64) × World c) :=
  match findByName w.mem name with
  | none => some ([], w)
  | some i =>
      match Kind.ofType? (w.mem.objects i).type with
      | none => some ([], w)
      | some kind =>
          let size := dumpSize (w.mem.objects i)
          match shobjAttach kind env name w with
          | (.error _, w) => some ([], w)
          | (.ok obj, w) =>
              (dumpRows k (dumpStart size start) (dumpEnd size stop)).map fun rows =>
                (rows, detach busy obj w)

theorem dumpEnd_le (size stop : UInt64) : dumpEnd size stop ≤ size := by
  unfold dumpEnd
  split
  · exact UInt64.le_refl size
  · rename_i h
    rw [not_or] at h
    exact UInt64.not_lt.mp h.2

theorem lt_of_mem_dumpRows {k : Nat} {i stop : UInt64} {rows : List (List UInt64)}
    (h : dumpRows k i stop = some rows) : ∀ row ∈ rows, ∀ j ∈ row, j < stop := by
  induction k generalizing i rows with
  | zero => cases h
  | succ k ih =>
    rw [dumpRows] at h
    split at h
    · obtain ⟨rest, hrest, rfl⟩ := Option.map_eq_some_iff.mp h
      intro row hrow j hj
      obtain rfl | hrow := List.mem_cons.mp hrow
      · exact of_decide_eq_true (List.mem_takeWhile_imp (p := (decide <| · < stop)) hj)
      · exact ih hrest row hrow j hj
    · cases h
      exact fun row hrow => absurd hrow List.not_mem_nil

/-- `urt_dump_memory` keeps to the size it has computed. -/
theorem dumpMemory_lt {k : Nat} {env : SysEnv} {busy : List Bool} {name : CString}
    {start stop : UInt64} {w w' : World c} {rows : List (List UInt64)} {i : Slot c}
    (hfind : findByName w.mem name = some i)
    (h : dumpMemory k env busy name start stop w = some (rows, w')) :
    ∀ row ∈ rows, ∀ j ∈ row, j < dumpSize (w.mem.objects i) := by
  have hnone : ∀ row ∈ ([] : List (List UInt64)), ∀ j ∈ row, j < dumpSize (w.mem.objects i) :=
    fun row hrow => absurd hrow List.not_mem_nil
  rw [dumpMemory, hfind] at h
  dsimp only at h
  split at h
  · cases h
    exact hnone
  · split at h
    · cases h
      exact hnone
    · obtain ⟨rows', hrows, he⟩ := Option.map_eq_some_iff.mp h
      cases he
      intro row hrow j hj
      exact UInt64.lt_of_lt_of_le (lt_of_mem_dumpRows hrows row hrow j hj) (dumpEnd_le _ _)

/-! ## `urt_shmem_new` -/

/-- The lengths that `ftruncate` and `mmap` accept: from 1 to the largest `off_t`. -/
def IsLength (len : UInt64) : Prop := 1 ≤ len.toNat ∧ len.toNat < 2 ^ 63

instance (len : UInt64) : Decidable (IsLength len) := inferInstanceAs (Decidable (_ ∧ _))

/-- The environment of a call that asks for a segment of this length: `ftruncate` and `mmap`
succeed exactly for the lengths they accept. -/
def SysEnv.forLength (env : SysEnv) (len : UInt64) : SysEnv :=
  { env with
    ftruncate := if IsLength len then none else some .einval
    mmap := if IsLength len then none else some .einval }

/-- What `_shmem_common` has done when it has created a segment. -/
theorem shmemCommon_creat {env : SysEnv} {name : CString} {size : UInt64} {os os' : Os c}
    {ino : Nat} (h : shmemCommon env name size true true os = (.ok ino, os')) :
    env.ftruncate = none ∧ (os'.inode ino).size = size := by
  unfold shmemCommon at h
  cases hname : convertName name with
  | none =>
    rw [hname] at h
    cases h
  | some n =>
    rw [hname] at h
    dsimp only at h
    cases hopen : os.shmOpen env.shmOpen n true true with
    | mk r os₁ =>
      rw [hopen] at h
      cases r with
      | error e => cases h
      | ok fd =>
        cases htrunc : env.ftruncate with
        | some e =>
          simp [Os.ftruncate, htrunc] at h
        | none =>
          simp only [Os.ftruncate, htrunc, if_true, Os.mmap] at h
          split at h
          · cases h
          · rename_i hmap
            cases h
            split at hmap
            · cases hmap
            · split at hmap
              · cases hmap
              · cases hmap
                exact ⟨rfl, by rw [Os.setInode_inode, Function.update_self]⟩

/-- What `urt_shmem_new` has done when it succeeds: the segment has 16 bytes more than asked
for, modulo the word size, and so has the record. -/
theorem shmemNew_ok {env : SysEnv} {name : CString} {size : UInt64} {w w' : World c}
    {h : Handle c} (hnew : shmemNew env name size w = (.ok h, w')) :
    h.kind = .mem ∧ env.ftruncate = none ∧ (w'.os.inode h.ino).size = size + 16 ∧
      (w'.mem.objects h.id).size = size + 16 ∧ (w'.mem.objects h.id).hasBookkeeping = true := by
  unfold shmemNew shobjNew at hnew
  cases hres : reserveName w.mem name with
  | mk r g =>
    rw [hres] at hnew
    cases r with
    | error e => cases hnew
    | ok i =>
      cases hshm : shmemCommon env name (size + 16) true true w.os with
      | mk r os =>
        simp only [sysNew, sysShmemNew, hshm] at hnew
        cases r with
        | error e => cases hnew
        | ok ino =>
          obtain ⟨htrunc, hsize⟩ := shmemCommon_creat hshm
          cases hnew
          refine ⟨rfl, htrunc, ?_, ?_, ?_⟩
          · show (Function.update os.inode ino _ ino).size = _
            rw [Function.update_self]
            exact hsize
          · simp [incNameCount, recordNew, sysAddBookKeeping, Internal.setObject, Kind.sz,
              RegisteredObject.inc]
          · simp [incNameCount, recordNew, sysAddBookKeeping, Internal.setObject,
              RegisteredObject.inc]

/-! ## The size and the mapping -/

/-- The memory `h` of `size` bytes that a creation has left in the world `w` fits its mapping.
A later world in which the record is as the creation left it does not matter otherwise. -/
structure MappingFits (size : UInt64) (h : Handle c) (w : World c) : Prop where
  /-- the mapping has room for the bookkeeping and for what was asked for -/
  long : size.toNat + 16 ≤ (w.os.inode h.ino).size.toNat
  /-- its length is recorded -/
  recorded : (w.mem.objects h.id).size = (w.os.inode h.ino).size
  /-- a later detachment unmaps this length -/
  unmapped : ∀ (busy : List Bool) (w' : World c), (w'.os.inode h.ino).id = h.id →
    (w'.mem.objects h.id).size = (w.mem.objects h.id).size →
    .munmap h.ino (w.os.inode h.ino).size ∈ (detach busy h w').os.log
  /-- it is the bound of `urt_dump_memory`, which counts without the bookkeeping -/
  bound : (dumpSize (w.mem.objects h.id)).toNat + 16 = (w.os.inode h.ino).size.toNat
  /-- a later `urt_dump_memory` reads within the mapping -/
  dumped : ∀ (k : Nat) (env : SysEnv) (busy : List Bool) (name : CString) (start stop : UInt64)
    (w' w'' : World c) (rows : List (List UInt64)), findByName w'.mem name = some h.id →
    (w'.mem.objects h.id).size = (w.mem.objects h.id).size →
    (w'.mem.objects h.id).hasBookkeeping = (w.mem.objects h.id).hasBookkeeping →
    dumpMemory k env busy name start stop w' = some (rows, w'') →
    ∀ row ∈ rows, ∀ i ∈ row, 16 + i.toNat < (w.os.inode h.ino).size.toNat

/-- A release logs what it closes. -/
theorem mem_released_log {busy : List Bool} {h : Handle c} {ro : RegisteredObject} {e : OsEvent}
    (he : e ∈ closing busy h ro) (os : Os c) : e ∈ (released busy h ro os).log := by
  have hlog : e ∈ os.log ++ closing busy h ro := List.mem_append_right _ he
  unfold released
  dsimp only
  split
  · split
    · unfold Os.unlink
      split
      · exact hlog
      · exact List.mem_append_left _ hlog
    · exact hlog
  · exact hlog

theorem toNat_add_sixteen {size : UInt64} (h : size.toNat + 16 < 2 ^ 64) :
    (size + 16).toNat = size.toNat + 16 := by
  rw [UInt64.toNat_add]
  exact Nat.mod_eq_of_lt h

/-- **A segment that `urt_shmem_new` has created has room for the bookkeeping and for the bytes
asked for, and its length is the one that is recorded, unmapped and dumped, exactly if 16 more
bytes than asked for are less than `2 ^ 64`.** -/
theorem mappingFits_iff {env : SysEnv} {name : CString} {size : UInt64} {w w' : World c}
    {h : Handle c} (hnew : shmemNew (env.forLength (size + 16)) name size w = (.ok h, w')) :
    MappingFits size h w' ↔ size.toNat + 16 < 2 ^ 64 := by
  obtain ⟨hkind, -, hsize, hrecorded, hbook⟩ := shmemNew_ok hnew
  constructor
  · intro hfits
    exact Nat.lt_of_le_of_lt hfits.long (UInt64.toNat_lt _)
  · intro hlt
    have hexact := toNat_add_sixteen hlt
    have hdump : dumpSize (w'.mem.objects h.id) = size := by
      rw [dumpSize, hbook, if_pos rfl, hrecorded, UInt64.add_sub_cancel]
    constructor
    · rw [hsize, hexact]
    · rw [hrecorded, hsize]
    · intro busy w₂ hid hsame
      rw [detach_eq]
      apply mem_released_log
      rw [closing, hkind, Handle.slot, hkind, hid, RegisteredObject.dec_size, hsame, hrecorded,
        hsize]
      exact List.mem_cons_self
    · rw [hdump, hsize, hexact]
    · intro k env busy name start stop w₂ w₃ rows hfind hsame hflag hrows row hrow i hi
      have hbound := dumpMemory_lt hfind hrows row hrow i hi
      have hsizes : dumpSize (w₂.mem.objects h.id) = size := by
        rw [← hdump, dumpSize, dumpSize, hsame, hflag]
      rw [hsizes, UInt64.lt_iff_toNat_lt] at hbound
      rw [hsize, hexact]
      omega

/-- A world without objects. -/
def World.empty (c : Config) : World c := { mem := Internal.zero c, os := Os.empty c }

/-- 100 bytes under the name `A`. -/
theorem mappingFits_hundred :
    ∃ h w, shmemNew (SysEnv.ok.forLength (100 + 16)) (.ofBytes [65]) 100 (World.empty .two) =
        (.ok h, w) ∧ MappingFits 100 h w := by
  have hrun : ∃ h w, shmemNew (SysEnv.ok.forLength (100 + 16)) (.ofBytes [65]) 100
      (World.empty .two) = (.ok h, w) := ⟨_, _, rfl⟩
  obtain ⟨h, w, hnew⟩ := hrun
  exact ⟨h, w, hnew, (mappingFits_iff hnew).mpr (by decide)⟩

/-- For `2 ^ 64 - 15` bytes the system is asked for a segment of one byte, and the call
succeeds. -/
theorem not_mappingFits :
    ∃ h w, shmemNew (SysEnv.ok.forLength (18446744073709551601 + 16)) (.ofBytes [65])
        18446744073709551601 (World.empty .two) = (.ok h, w) ∧
      (w.os.inode h.ino).size = 1 ∧ ¬ MappingFits 18446744073709551601 h w := by
  refine ⟨_, _, rfl, rfl, ?_⟩
  intro hfits
  exact absurd hfits.long (by decide)

end Urt
