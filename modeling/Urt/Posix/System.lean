import Urt.Lib.Lts
import Urt.Posix.Effects
import Urt.Registry.Index

/-!
# Processes on POSIX

Any number of processes create, attach, detach and force-clear shared objects. A call runs in
the pieces between which other processes can act: the critical sections, and the system call
between them. `new` runs a whole creation at once. A call in progress is what it has left to
do; a handle is gone once detached.

`born` is not part of the program: it remembers for each inode the kind of the creation that
made it.
-/

namespace Urt.Posix

variable {c : Config}

/-- A call in progress. -/
inductive Call (c : Config) where
  /-- `SHOBJ_NEW` got slot `i`; the system call is next. -/
  | reserved (k : Kind) (name : CString) (size : UInt64) (value : UInt32) (i : Slot c)
  /-- The object is made and recorded; `urt_inc_name_count` is next. -/
  | created (h : Handle c)
  /-- The system call failed; `urt_deregister` is next. -/
  | failed (i : Slot c)
  /-- `SHOBJ_ATTACH` counted a reference to slot `i`; the system call is next. -/
  | referenced (k : Kind) (name : CString) (i : Slot c)
  /-- The system call failed; `urt_deregister` is next. -/
  | attachFailed (i : Slot c)
  | done

/-- The shared state, the calls in progress and the handles. -/
structure Sys (c : Config) where
  world : World c
  calls : List (Call c)
  handles : List (Option (Handle c))
  born : Nat → Option Kind

/-- No objects: a freshly initialised registry and an empty system. -/
def Sys.init (g : Internal c) : Sys c :=
  { world := { mem := (registryInit g).2, os := .empty c }, calls := [], handles := [],
    born := fun _ => none }

inductive Label where
  /-- a whole `urt_sh*_new` -/
  | new (k : Kind) (env : SysEnv) (name : CString) (size : UInt64) (value : UInt32)
  /-- `urt_reserve_name` of a new `urt_sh*_new` -/
  | reserve (k : Kind) (name : CString) (size : UInt64) (value : UInt32)
  /-- the system call of creator `p` -/
  | create (p : Nat) (env : SysEnv)
  /-- `urt_inc_name_count` of creator `p` -/
  | publish (p : Nat)
  /-- `urt_deregister` of creator `p` -/
  | abort (p : Nat)
  /-- `urt_get_object_by_name_and_inc_count` of a new `urt_sh*_attach` -/
  | lookup (k : Kind) (name : CString)
  /-- the system call of attacher `p` -/
  | attach (p : Nat) (env : SysEnv)
  /-- `urt_deregister` of attacher `p` -/
  | drop (p : Nat)
  /-- `urt_sh*_detach` of handle `q` -/
  | detach (q : Nat) (busy : List Bool)
  | forceClear (name : CString)

/-- One step of the system; `none` if the label cannot happen. -/
def step (s : Sys c) : Label → Option (Sys c)
  | .new k env name size value =>
      match shobjNew k env name size value s.world with
      | (.error _, w) => some { s with world := w }
      | (.ok h, w) =>
          some { s with
            world := w
            handles := s.handles ++ [some h]
            born := Function.update s.born h.ino (some k) }
  | .reserve k name size value =>
      match reserveName s.world.mem name with
      | (.error _, g) =>
          some { s with world := { s.world with mem := g }, calls := s.calls ++ [.done] }
      | (.ok i, g) =>
          some { s with
            world := { s.world with mem := g }
            calls := s.calls ++ [.reserved k name size value i] }
  | .create p env =>
      match s.calls[p]? with
      | some (.reserved k name size value i) =>
          match sysNew k env name size value s.world with
          | (.error _, w) => some { s with world := w, calls := s.calls.set p (.failed i) }
          | (.ok ino, w) =>
              let (h, w) := recordNew k ino i size w
              some { s with
                world := w
                calls := s.calls.set p (.created h)
                born := Function.update s.born ino (some k) }
      | _ => none
  | .publish p =>
      match s.calls[p]? with
      | some (.created h) =>
          some { s with
            world := { s.world with mem := incNameCount s.world.mem h.id }
            calls := s.calls.set p .done
            handles := s.handles ++ [some h] }
      | _ => none
  | .abort p =>
      match s.calls[p]? with
      | some (.failed i) =>
          some { s with
            world := { s.world with mem := (decNameCount (σ := Unit) none s.world.mem i ()).1 }
            calls := s.calls.set p .done }
      | _ => none
  | .lookup k name =>
      match getObjectByNameAndIncCount s.world.mem name with
      | (none, g) =>
          some { s with world := { s.world with mem := g }, calls := s.calls ++ [.done] }
      | (some i, g) =>
          some { s with
            world := { s.world with mem := g }
            calls := s.calls ++ [.referenced k name i] }
  | .attach p env =>
      match s.calls[p]? with
      | some (.referenced k name i) =>
          match sysAttach k env name s.world.os with
          | (.error _, os) =>
              some { s with
                world := { s.world with os := os }
                calls := s.calls.set p (.attachFailed i) }
          | (.ok ino, os) =>
              let (h, w) := sysAddBookKeeping k ino i { s.world with os := os }
              some { s with
                world := w
                calls := s.calls.set p .done
                handles := s.handles ++ [some h] }
      | _ => none
  | .drop p =>
      match s.calls[p]? with
      | some (.attachFailed i) =>
          some { s with
            world := { s.world with mem := (decNameCount (σ := Unit) none s.world.mem i ()).1 }
            calls := s.calls.set p .done }
      | _ => none
  | .detach q busy =>
      match s.handles[q]? with
      | some (some h) =>
          some { s with world := detach busy h s.world, handles := s.handles.set q none }
      | _ => none
  | .forceClear name =>
      (forceClearName sysForceClearName s.world.mem name s.world.os).map fun r =>
        { s with world := { mem := r.1, os := r.2 } }

/-! ## What a step can do -/

/-- What one step does, case by case. -/
inductive Trans (s : Sys c) : Label → Sys c → Prop where
  | newRefused {k : Kind} {env : SysEnv} {name : CString} {size : UInt64} {value : UInt32}
      (hno : findByName s.world.mem name ≠ none ∨ findFree s.world.mem = none) :
      Trans s (.new k env name size value) s
  | newFailed {k : Kind} {env : SysEnv} {name : CString} {size : UInt64} {value : UInt32}
      {i : Slot c} {os' : Os c} (hfind : findByName s.world.mem name = none)
      (hfree : findFree s.world.mem = some i) (hnf : ¬ InitFails k env name s.world.os)
      (hos : s.world.os.Unmade os') :
      Trans s (.new k env name size value)
        { s with world := { mem := decCount (reserved s.world.mem i name) i, os := os' } }
  | newInit {k : Kind} {env : SysEnv} {name : CString} {size : UInt64} {value : UInt32}
      {i : Slot c} {n : OsName} (hfree : findFree s.world.mem = some i)
      (hf : InitFails k env name s.world.os)
      (hmade : SegmentMade env name (c.sizeofLock k + 16) s.world.os n) :
      Trans s (.new k env name size value)
        { s with
          world := { initFailed k name i n s.world with
            mem := decCount (initFailed k name i n s.world).mem i } }
  | newDone {k : Kind} {env : SysEnv} {name : CString} {size : UInt64} {value : UInt32}
      {i : Slot c} {n : OsName} {x : Inode c} {o : RegisteredObject}
      (hfind : findByName s.world.mem name = none) (hfree : findFree s.world.mem = some i)
      (hn : convertName name = some n) (hlink : s.world.os.link k.space n = none)
      (hx : k.space = .shm → x.size ≠ 0 ∧ x.id = i) (hname : o.tname = truncName name)
      (hon : convertName o.name.str = some n) (hres : o.reserved = false) (hcount : o.count = 1)
      (htype : o.type = k.type) :
      Trans s (.new k env name size value)
        { s with
          world :=
            { mem := (reserved s.world.mem i name).setObject i o
              os := s.world.os.create k.space n x }
          handles := s.handles ++ [some { kind := k, ino := s.world.os.next, id := i }]
          born := Function.update s.born s.world.os.next (some k) }
  | refused {k : Kind} {name : CString} {size : UInt64} {value : UInt32} :
      Trans s (.reserve k name size value) { s with calls := s.calls ++ [.done] }
  | reserve {k : Kind} {name : CString} {size : UInt64} {value : UInt32} {i : Slot c}
      (hfind : findByName s.world.mem name = none) (hfree : findFree s.world.mem = some i) :
      Trans s (.reserve k name size value)
        { s with
          world := { s.world with mem := reserved s.world.mem i name }
          calls := s.calls ++ [.reserved k name size value i] }
  | createFailed {p : Nat} {env : SysEnv} {k : Kind} {name : CString} {size : UInt64}
      {value : UInt32} {i : Slot c} {os' : Os c}
      (hp : s.calls[p]? = some (.reserved k name size value i)) (hos : s.world.os.Unmade os') :
      Trans s (.create p env)
        { s with world := { s.world with os := os' }, calls := s.calls.set p (.failed i) }
  | createInit {p : Nat} {env : SysEnv} {k : Kind} {name : CString} {size : UInt64}
      {value : UInt32} {i : Slot c} {n : OsName}
      (hp : s.calls[p]? = some (.reserved k name size value i))
      (hmade : SegmentMade env name (c.sizeofLock k + 16) s.world.os n) :
      Trans s (.create p env)
        { s with
          world := shmemDetach s.world.os.next { s.world with
            os := s.world.os.create .shm n { Inode.zero c with size := c.sizeofLock k + 16 } }
          calls := s.calls.set p (.failed i) }
  | created {p : Nat} {env : SysEnv} {k : Kind} {name : CString} {size : UInt64}
      {value : UInt32} {i : Slot c} {n : OsName} {x : Inode c} {o : RegisteredObject}
      (hp : s.calls[p]? = some (.reserved k name size value i)) (hn : convertName name = some n)
      (hlink : s.world.os.link k.space n = none)
      (ho : SameEntry (s.world.mem.objects i) o) (htype : o.type = k.type) :
      Trans s (.create p env)
        { s with
          world := { mem := s.world.mem.setObject i o, os := s.world.os.create k.space n x }
          calls := s.calls.set p (.created { kind := k, ino := s.world.os.next, id := i })
          born := Function.update s.born s.world.os.next (some k) }
  | publish {p : Nat} {h : Handle c} (hp : s.calls[p]? = some (.created h)) :
      Trans s (.publish p)
        { s with
          world := { s.world with mem := incNameCount s.world.mem h.id }
          calls := s.calls.set p .done
          handles := s.handles ++ [some h] }
  | abort {p : Nat} {i : Slot c} (hp : s.calls[p]? = some (.failed i)) :
      Trans s (.abort p)
        { s with
          world := { s.world with mem := decCount s.world.mem i }
          calls := s.calls.set p .done }
  | missing {k : Kind} {name : CString} (hfind : findByName s.world.mem name = none) :
      Trans s (.lookup k name) { s with calls := s.calls ++ [.done] }
  | lookup {k : Kind} {name : CString} {i : Slot c}
      (hfind : findByName s.world.mem name = some i) :
      Trans s (.lookup k name)
        { s with
          world := { s.world with mem := incNameCount s.world.mem i }
          calls := s.calls ++ [.referenced k name i] }
  | attached {p : Nat} {env : SysEnv} {k : Kind} {name : CString} {i : Slot c} {n : OsName}
      {ino : Nat} {o : RegisteredObject} (hp : s.calls[p]? = some (.referenced k name i))
      (hf : Finds k name s.world.os n ino) (ho : SameEntry (s.world.mem.objects i) o)
      (htype : o.type = (s.world.mem.objects i).type) :
      Trans s (.attach p env)
        { s with
          world := { mem := s.world.mem.setObject i o, os := s.world.os.setId k ino i }
          calls := s.calls.set p .done
          handles := s.handles ++ [some { kind := k, ino := ino, id := i }] }
  | attachFailed {p : Nat} {env : SysEnv} {k : Kind} {name : CString} {i : Slot c}
      (hp : s.calls[p]? = some (.referenced k name i)) {e : Errno}
      (he : sysAttach k env name s.world.os = (.error e, s.world.os)) :
      Trans s (.attach p env) { s with calls := s.calls.set p (.attachFailed i) }
  | attachLost {p : Nat} {env : SysEnv} {k : Kind} {name : CString} {i : Slot c} {n : OsName}
      {ino : Nat} (hp : s.calls[p]? = some (.referenced k name i)) (hk : k.space = .shm)
      (ho : Opened env name s.world.os n ino) {e : Errno}
      (he : sysAttach k env name s.world.os = (.error e, s.world.os.unlink .shm n)) :
      Trans s (.attach p env)
        { s with
          world := { s.world with os := s.world.os.unlink .shm n }
          calls := s.calls.set p (.attachFailed i) }
  | drop {p : Nat} {i : Slot c} (hp : s.calls[p]? = some (.attachFailed i)) :
      Trans s (.drop p)
        { s with
          world := { s.world with mem := decCount s.world.mem i }
          calls := s.calls.set p .done }
  | detach {q : Nat} {busy : List Bool} {h : Handle c} (hq : s.handles[q]? = some (some h)) :
      Trans s (.detach q busy)
        { s with
          world :=
            { mem := decCount s.world.mem (h.slot s.world.os)
              os := released busy h (s.world.mem.objects (h.slot s.world.os)).dec s.world.os }
          handles := s.handles.set q none }
  | clearMissing {name : CString} (hfind : findByName s.world.mem name = none) :
      Trans s (.forceClear name) s
  | forceClear {name : CString} {i : Slot c} {g' : Internal c}
      (hfind : findByName s.world.mem name = some i)
      (hother : ∀ j, j ≠ i → g'.objects j = s.world.mem.objects j) (hfree : g'.used i = false) :
      Trans s (.forceClear name)
        { s with
          world := { mem := g', os := sysForceClearName (s.world.mem.objects i) s.world.os } }

theorem trans_new {s s' : Sys c} {k : Kind} {env : SysEnv} {name : CString} {size : UInt64}
    {value : UInt32} (h : step s (.new k env name size value) = some s') :
    Trans s (.new k env name size value) s' := by
  simp only [step] at h
  rcases shobjNew_cases k env name size value s.world with
    ⟨hno, e, he⟩ | ⟨i, hfind, hfree, ⟨hnf, e, os', hun, he⟩ | ⟨e, n, hf, hmade, he⟩ |
      ⟨n, x, o, hn, hlink, hx, hname, hon, hres, hcount, htype, he⟩⟩
  · rw [he] at h
    cases h
    exact .newRefused hno
  · rw [he] at h
    cases h
    exact .newFailed hfind hfree hnf hun
  · rw [he] at h
    cases h
    exact .newInit hfree hf hmade
  · rw [he] at h
    cases h
    exact .newDone hfind hfree hn hlink hx hname hon hres hcount htype

theorem trans_create {s s' : Sys c} {p : Nat} {env : SysEnv}
    (h : step s (.create p env) = some s') : Trans s (.create p env) s' := by
  simp only [step] at h
  split at h
  · rename_i k name size value i hp
    rcases sysNew_cases k env name size value s.world with
      ⟨-, e, os', he, hun⟩ | ⟨e, n, -, hmade, he⟩ | ⟨n, x, hn, hlink, -, he⟩
    · rw [he] at h
      cases h
      exact .createFailed hp hun
    · rw [he] at h
      cases h
      exact .createInit hp hmade
    · obtain ⟨o, ho, hname, hres, hcount, htype⟩ := recordNew_eq k s.world.os.next i size
        { s.world with os := s.world.os.create k.space n x }
      rw [he] at h
      simp only [ho, create_setId] at h
      cases h
      exact .created hp hn hlink ⟨hname, hres, hcount⟩ htype
  · cases h

theorem trans_attach {s s' : Sys c} {p : Nat} {env : SysEnv}
    (h : step s (.attach p env) = some s') : Trans s (.attach p env) s' := by
  simp only [step] at h
  split at h
  · rename_i k name i hp
    rcases sysAttach_cases k env name s.world.os with
      ⟨-, e, he⟩ | ⟨e, n, ino, hk, ho, he⟩ | ⟨n, ino, hf, he⟩
    · rw [he] at h
      cases h
      exact .attachFailed hp he
    · rw [he] at h
      cases h
      exact .attachLost hp hk ho he
    · obtain ⟨o, hb, hname, hres, hcount, htype⟩ := sysAddBookKeeping_eq k ino i s.world
      rw [he] at h
      simp only [hb] at h
      cases h
      exact .attached hp hf ⟨hname, hres, hcount⟩ htype
  · cases h

theorem trans_forceClear {s s' : Sys c} {name : CString}
    (h : step s (.forceClear name) = some s') : Trans s (.forceClear name) s' := by
  simp only [step, forceClearName] at h
  cases hfind : findByName s.world.mem name with
  | none =>
    rw [hfind] at h
    cases h
    exact .clearMissing hfind
  | some i =>
    obtain ⟨g', hloop, hother, hfree, -⟩ := clearLoop_spec s.world.mem i (le_refl _)
    simp only [hfind, hloop] at h
    cases h
    exact .forceClear hfind hother hfree

theorem trans_of_step {s s' : Sys c} {l : Label} (h : step s l = some s') : Trans s l s' := by
  cases l with
  | new k env name size value => exact trans_new h
  | reserve k name size value =>
    simp only [step] at h
    rcases reserveName_cases s.world.mem name with
      ⟨i, -, he⟩ | ⟨-, -, he⟩ | ⟨i, hfind, hfree, he⟩
    · rw [he] at h
      cases h
      exact .refused
    · rw [he] at h
      cases h
      exact .refused
    · rw [he] at h
      cases h
      exact .reserve hfind hfree
  | create p env => exact trans_create h
  | publish p =>
    simp only [step] at h
    split at h
    · rename_i hp
      cases h
      exact .publish hp
    · cases h
  | abort p =>
    simp only [step, decNameCount_eq] at h
    split at h
    · rename_i hp
      cases h
      exact .abort hp
    · cases h
  | lookup k name =>
    simp only [step, getObjectByNameAndIncCount_eq] at h
    cases hfind : findByName s.world.mem name with
    | none =>
      rw [hfind] at h
      cases h
      exact .missing hfind
    | some i =>
      rw [hfind] at h
      cases h
      exact .lookup hfind
  | attach p env => exact trans_attach h
  | drop p =>
    simp only [step, decNameCount_eq] at h
    split at h
    · rename_i hp
      cases h
      exact .drop hp
    · cases h
  | detach q busy =>
    simp only [step, detach_eq] at h
    split at h
    · rename_i hq
      cases h
      exact .detach hq
    · cases h
  | forceClear name => exact trans_forceClear h

end Urt.Posix
