import Urt.Protocol.Orderly
import Urt.Rtai.Objects

/-!
# Processes on RTAI

Any number of processes create, attach and detach shared objects. A call runs in the pieces
between which other processes can act: the critical sections, the services of RTAI between
them, and what `SHOBJ_NEW` writes to the slot after the service (`record`). A lock is detached in
one critical section; memory is given back to RTAI first (`free`), and its slot is deregistered
in a step of its own.

The registry is itself in a named segment of RTAI. Here the named objects are those of RTAI
without it, and nobody asks for an object under its number.

`Sys.view` forgets RTAI, and the fields of a slot that the registry does not look at: what is
left is a state of the protocol, and every step is a step of the protocol or, giving back
memory, none (`view_step`).
-/

namespace Urt

variable {c : Config}

/-! ## What the registry does not look at -/

/-- The object without its type, its size and its bookkeeping flag. -/
def RegisteredObject.plain (o : RegisteredObject) : RegisteredObject :=
  { o with hasBookkeeping := false, type := 0, size := 0 }

namespace Internal

/-- The registry with plain objects. -/
def plain (g : Internal c) : Internal c := { g with objects := fun i => (g.objects i).plain }

@[simp] theorem plain_used (g : Internal c) : g.plain.used = g.used := rfl

@[simp] theorem plain_objectsMaxIndex (g : Internal c) :
    g.plain.objectsMaxIndex = g.objectsMaxIndex := rfl

theorem plain_setObject (g : Internal c) (i : Slot c) (o : RegisteredObject) :
    (g.setObject i o).plain = g.plain.setObject i o.plain := by
  unfold plain setObject
  congr 1
  funext j
  by_cases hj : j = i
  · subst hj
    simp only [Function.update_self]
  · simp only [Function.update_of_ne hj]

/-- Only the fields that the registry does not look at are written. -/
theorem plain_setObject_of_eq {g : Internal c} {i : Slot c} {o : RegisteredObject}
    (h : o.plain = (g.objects i).plain) : (g.setObject i o).plain = g.plain := by
  have hobj : Function.update g.plain.objects i o.plain = g.plain.objects := by
    rw [h]
    exact Function.update_eq_self i g.plain.objects
  rw [plain_setObject, setObject, hobj]

end Internal

@[simp] theorem findByName_plain (g : Internal c) (name : CString) :
    findByName g.plain name = findByName g name := rfl

@[simp] theorem findFree_plain (g : Internal c) : findFree g.plain = findFree g := rfl

theorem reserved_plain (g : Internal c) (i : Slot c) (name : CString) :
    (reserved g i name).plain = reserved g.plain i name := by
  have h := g.plain_setObject i (reservedObject name)
  exact congrArg (fun g' : Internal c => { g' with
    objectsMaxIndex := max g.objectsMaxIndex i.val }) h

theorem reserveName_plain (g : Internal c) (name : CString) :
    reserveName g.plain name = ((reserveName g name).1, (reserveName g name).2.plain) := by
  rcases reserveName_cases g name with ⟨i, hfind, he⟩ | ⟨hfind, hfree, he⟩ |
    ⟨i, hfind, hfree, he⟩
  · rw [he, reserveName, findByName_plain, hfind]
  · rw [he, reserveName, findByName_plain, hfind, findFree_plain, hfree]
  · rcases reserveName_cases g.plain name with ⟨j, hfind', -⟩ | ⟨-, hfree', -⟩ |
      ⟨j, -, hfree', he'⟩
    · rw [findByName_plain, hfind] at hfind'
      cases hfind'
    · rw [findFree_plain, hfree] at hfree'
      cases hfree'
    · rw [findFree_plain, hfree] at hfree'
      cases hfree'
      rw [he, he', reserved_plain]

theorem incNameCount_plain (g : Internal c) (i : Slot c) :
    (incNameCount g i).plain = incNameCount g.plain i := g.plain_setObject i _

theorem internalMemCheck_plain (g : Internal c) :
    (internalMemCheck g).plain = internalMemCheck g.plain := by
  unfold internalMemCheck
  split <;> rfl

theorem decCount_plain (g : Internal c) (i : Slot c) :
    (decCount g i).plain = decCount g.plain i := by
  have hset := g.plain_setObject i (g.objects i).dec
  have hdec : (g.objects i).dec.plain = (g.plain.objects i).dec := rfl
  by_cases hc : 1 < (g.objects i).count.toNat
  · rw [decCount_of_count hc, decCount_of_count (g := g.plain) hc, hset, hdec]
  · rw [decCount_of_last (not_lt.mp hc), decCount_of_last (g := g.plain) (not_lt.mp hc),
      internalMemCheck_plain, ← hdec, ← hset]
    congr 1
    split
    · rename_i hi
      rw [if_pos (show i.val = g.plain.objectsMaxIndex from hi)]
      rfl
    · rename_i hi
      rw [if_neg (show ¬ i.val = g.plain.objectsMaxIndex from hi)]

end Urt

namespace Urt.Rtai

variable {c : Config} {σ : Type}

/-! ## Steps -/

/-- A call in progress. -/
inductive Call (c : Config) where
  /-- `SHOBJ_NEW` got slot `i`; the service of RTAI is next. -/
  | reserved (k : Kind) (name : CString) (size : UInt64) (value : UInt32) (i : Slot c)
  /-- The object is at `adr`; the bookkeeping and the fields of the slot are next. -/
  | made (k : Kind) (name : CString) (size : UInt64) (i : Slot c) (adr : Nat)
  /-- The object is recorded; `urt_inc_name_count` is next. -/
  | created (name : CString) (h : Handle c)
  /-- The service failed; `urt_deregister` is next. -/
  | failed (name : CString) (i : Slot c)
  /-- `SHOBJ_ATTACH` counted a reference to slot `i`; the service of RTAI is next. -/
  | referenced (k : Kind) (name : CString) (i : Slot c)
  /-- The service failed; `urt_deregister` is next. -/
  | attachFailed (k : Kind) (i : Slot c)
  | done

/-- What has become of a handle. -/
inductive Holding (c : Config) where
  | live (h : Handle c)
  /-- The memory was given back; `urt_deregister` is next. -/
  | freed (i : Slot c)
  | gone

/-- The shared state, the calls in progress and the handles. -/
structure Sys (c : Config) (σ : Type) where
  world : World c σ
  calls : List (Call c)
  handles : List (Holding c)

/-- A freshly initialised registry. -/
def Sys.init (g : Internal c) (os : σ) (word : Nat → Slot c) : Sys c σ :=
  { world := { mem := (registryInit g).2, os := os, word := word }, calls := [], handles := [] }

inductive Label where
  /-- `urt_reserve_name` of a new `urt_sh*_new` -/
  | reserve (k : Kind) (name : CString) (size : UInt64) (value : UInt32)
  /-- the services of creator `p`; `malloc` says whether `urt_mem_new` fails -/
  | create (p : Nat) (malloc : Bool)
  /-- what creator `p` writes to the segment and to its slot -/
  | record (p : Nat)
  /-- `urt_inc_name_count` of creator `p` -/
  | publish (p : Nat)
  /-- `urt_deregister` of creator `p` -/
  | abort (p : Nat)
  /-- `urt_get_object_by_name_and_inc_count` of a new `urt_sh*_attach` -/
  | lookup (k : Kind) (name : CString)
  /-- the services of attacher `p` -/
  | attach (p : Nat) (malloc : Bool)
  /-- `urt_deregister` of attacher `p` -/
  | drop (p : Nat)
  /-- `rt_shm_free` of the memory handle `q` -/
  | free (q : Nat)
  /-- `urt_sh*_detach` of the lock handle `q`, or `urt_deregister` of freed memory -/
  | detach (q : Nat)

variable (R : Services σ)

/-- One step of the system; `none` if the label cannot happen. -/
def step (s : Sys c σ) : Label → Option (Sys c σ)
  | .reserve k name size value =>
      match reserveName s.world.mem name with
      | (.error _, g) =>
          some { s with world := { s.world with mem := g }, calls := s.calls ++ [.done] }
      | (.ok i, g) =>
          some { s with
            world := { s.world with mem := g }
            calls := s.calls ++ [.reserved k name size value i] }
  | .create p malloc =>
      match s.calls[p]? with
      | some (.reserved k name size value i) =>
          match sysNew R k malloc name size value s.world.os with
          | (.error _, os) =>
              some { s with
                world := { s.world with os := os }
                calls := s.calls.set p (.failed name i) }
          | (.ok adr, os) =>
              some { s with
                world := { s.world with os := os }
                calls := s.calls.set p (.made k name size i adr) }
      | _ => none
  | .record p =>
      match s.calls[p]? with
      | some (.made k name size i adr) =>
          let (h, w) := recordNew k adr i size s.world
          some { s with world := w, calls := s.calls.set p (.created name h) }
      | _ => none
  | .publish p =>
      match s.calls[p]? with
      | some (.created _ h) =>
          some
            { world := { s.world with mem := incNameCount s.world.mem h.id }
              calls := s.calls.set p .done
              handles := s.handles ++ [.live h] }
      | _ => none
  | .abort p =>
      match s.calls[p]? with
      | some (.failed _ i) =>
          some { s with
            world := { s.world with mem := (decNameCount (σ := Unit) none s.world.mem i ()).1 }
            calls := s.calls.set p .done }
      | _ => none
  | .lookup k name =>
      match getObjectByNameAndIncCount s.world.mem name with
      | (none, g) =>
          some { s with world := { s.world with mem := g }, calls := s.calls ++ [.done] }
      | (some i, g) =>
          some { s with
            world := { s.world with mem := g }
            calls := s.calls ++ [.referenced k name i] }
  | .attach p malloc =>
      match s.calls[p]? with
      | some (.referenced k name i) =>
          match sysAttach R k malloc name s.world.os with
          | (.error _, os) =>
              some { s with
                world := { s.world with os := os }
                calls := s.calls.set p (.attachFailed k i) }
          | (.ok adr, os) =>
              let (h, w) := sysAddBookKeeping k adr i { s.world with os := os }
              some
                { world := w
                  calls := s.calls.set p .done
                  handles := s.handles ++ [.live h] }
      | _ => none
  | .drop p =>
      match s.calls[p]? with
      | some (.attachFailed _ i) =>
          some { s with
            world := { s.world with mem := (decNameCount (σ := Unit) none s.world.mem i ()).1 }
            calls := s.calls.set p .done }
      | _ => none
  | .free q =>
      match s.handles[q]? with
      | some (.live h) =>
          if h.kind = .mem then
            let (i, w) := shmemFree R h.adr s.world
            some { s with world := w, handles := s.handles.set q (.freed i) }
          else none
      | _ => none
  | .detach q =>
      match s.handles[q]? with
      | some (.live h) =>
          if h.kind = .mem then none
          else some { s with world := detachLock R h s.world, handles := s.handles.set q .gone }
      | some (.freed i) =>
          some { s with
            world := { s.world with mem := (decNameCount (σ := Unit) none s.world.mem i ()).1 }
            handles := s.handles.set q .gone }
      | _ => none

/-! ## What the pieces do -/

/-- The object after `SHOBJ_NEW` has recorded what it created. -/
def recorded (k : Kind) (size : UInt64) (o : RegisteredObject) : RegisteredObject :=
  { o with
    hasBookkeeping := decide (k = .mem)
    type := k.type
    size := if k = .mem then size + 16 else sz c k size }

/-- The object after bookkeeping was added. -/
def marked (k : Kind) (o : RegisteredObject) : RegisteredObject :=
  { o with hasBookkeeping := o.hasBookkeeping || decide (k = .mem) }

/-- The words of segments after bookkeeping was added. -/
def markWord (k : Kind) (adr : Nat) (i : Slot c) (word : Nat → Slot c) : Nat → Slot c :=
  if k = .mem then Function.update word adr i else word

theorem markWord_self {k : Kind} (hk : k = .mem) (adr : Nat) (i : Slot c) (word : Nat → Slot c) :
    markWord k adr i word adr = i := by
  rw [markWord, if_pos hk, Function.update_self]

theorem markWord_of_ne {adr a : Nat} (h : a ≠ adr) (k : Kind) (i : Slot c) (word : Nat → Slot c) :
    markWord k adr i word a = word a := by
  unfold markWord
  split
  · exact Function.update_of_ne h i word
  · rfl

theorem recordNew_eq (k : Kind) (adr : Nat) (i : Slot c) (size : UInt64) (w : World c σ) :
    recordNew k adr i size w =
      ({ kind := k, adr := adr, id := i },
        { w with
          mem := w.mem.setObject i (recorded (c := c) k size (w.mem.objects i))
          word := markWord k adr i w.word }) := by
  cases k <;>
    simp [recordNew, sysAddBookKeeping, recorded, markWord, sz, Internal.setObject]

theorem sysAddBookKeeping_eq (k : Kind) (adr : Nat) (i : Slot c) (w : World c σ) :
    sysAddBookKeeping k adr i w =
      ({ kind := k, adr := adr, id := i },
        { w with
          mem := w.mem.setObject i (marked k (w.mem.objects i))
          word := markWord k adr i w.word }) := by
  cases k <;> simp [sysAddBookKeeping, marked, markWord, Internal.setObject]

/-- The service that deletes a lock. -/
def deleteLock (k : Kind) : Nat → σ → σ :=
  match k with
  | .rwlock => R.rwlDelete
  | .mem | .sem | .mutex | .cond => R.semDelete

theorem detachLock_eq {h : Handle c} (hk : h.kind ≠ .mem) (w : World c σ) :
    detachLock R h w =
      { w with
        mem := decCount w.mem h.id
        os := Release.named (deleteLock R h.kind) h.adr (w.mem.objects h.id).dec w.os } := by
  obtain ⟨kind, adr, id⟩ := h
  cases kind with
  | mem => exact absurd rfl hk
  | sem | mutex | rwlock | cond =>
    simp only [detachLock, shsemDetach, shmutexDetach, shrwlockDetach, shcondDetach, namedDetach,
      decNameCount_eq, deleteLock]
    rfl

/-- What one step does, case by case. -/
inductive Trans (s : Sys c σ) : Label → Sys c σ → Prop where
  | refused {k : Kind} {name : CString} {size : UInt64} {value : UInt32} {e : Errno}
      (hfail : reserveName s.world.mem name = (.error e, s.world.mem)) :
      Trans s (.reserve k name size value) { s with calls := s.calls ++ [.done] }
  | reserve {k : Kind} {name : CString} {size : UInt64} {value : UInt32} {i : Slot c}
      (hfind : findByName s.world.mem name = none) (hfree : findFree s.world.mem = some i) :
      Trans s (.reserve k name size value)
        { s with
          world := { s.world with mem := reserved s.world.mem i name }
          calls := s.calls ++ [.reserved k name size value i] }
  | createFailed {p : Nat} {malloc : Bool} {k : Kind} {name : CString} {size : UInt64}
      {value : UInt32} {i : Slot c} {e : Errno} {os : σ}
      (hp : s.calls[p]? = some (.reserved k name size value i))
      (hnew : sysNew R k malloc name size value s.world.os = (.error e, os)) :
      Trans s (.create p malloc)
        { s with world := { s.world with os := os }, calls := s.calls.set p (.failed name i) }
  | made {p : Nat} {malloc : Bool} {k : Kind} {name : CString} {size : UInt64}
      {value : UInt32} {i : Slot c} {adr : Nat} {os : σ}
      (hp : s.calls[p]? = some (.reserved k name size value i))
      (hnew : sysNew R k malloc name size value s.world.os = (.ok adr, os)) :
      Trans s (.create p malloc)
        { s with
          world := { s.world with os := os }
          calls := s.calls.set p (.made k name size i adr) }
  | record {p : Nat} {k : Kind} {name : CString} {size : UInt64} {i : Slot c} {adr : Nat}
      (hp : s.calls[p]? = some (.made k name size i adr)) :
      Trans s (.record p)
        { s with
          world :=
            { s.world with
              mem := s.world.mem.setObject i (recorded (c := c) k size (s.world.mem.objects i))
              word := markWord k adr i s.world.word }
          calls := s.calls.set p (.created name { kind := k, adr := adr, id := i }) }
  | publish {p : Nat} {name : CString} {h : Handle c} (hp : s.calls[p]? = some (.created name h)) :
      Trans s (.publish p)
        { world := { s.world with mem := incNameCount s.world.mem h.id }
          calls := s.calls.set p .done
          handles := s.handles ++ [.live h] }
  | abort {p : Nat} {name : CString} {i : Slot c} (hp : s.calls[p]? = some (.failed name i)) :
      Trans s (.abort p)
        { s with
          world := { s.world with mem := decCount s.world.mem i }
          calls := s.calls.set p .done }
  | missing {k : Kind} {name : CString} (hfind : findByName s.world.mem name = none) :
      Trans s (.lookup k name) { s with calls := s.calls ++ [.done] }
  | lookup {k : Kind} {name : CString} {i : Slot c}
      (hfind : findByName s.world.mem name = some i) :
      Trans s (.lookup k name)
        { s with
          world := { s.world with mem := incNameCount s.world.mem i }
          calls := s.calls ++ [.referenced k name i] }
  | attachFailed {p : Nat} {malloc : Bool} {k : Kind} {name : CString} {i : Slot c} {e : Errno}
      {os : σ} (hp : s.calls[p]? = some (.referenced k name i))
      (hattach : sysAttach R k malloc name s.world.os = (.error e, os)) :
      Trans s (.attach p malloc)
        { s with world := { s.world with os := os }, calls := s.calls.set p (.attachFailed k i) }
  | attached {p : Nat} {malloc : Bool} {k : Kind} {name : CString} {i : Slot c} {adr : Nat}
      {os : σ} (hp : s.calls[p]? = some (.referenced k name i))
      (hattach : sysAttach R k malloc name s.world.os = (.ok adr, os)) :
      Trans s (.attach p malloc)
        { world :=
            { mem := s.world.mem.setObject i (marked k (s.world.mem.objects i))
              os := os
              word := markWord k adr i s.world.word }
          calls := s.calls.set p .done
          handles := s.handles ++ [.live { kind := k, adr := adr, id := i }] }
  | drop {p : Nat} {k : Kind} {i : Slot c} (hp : s.calls[p]? = some (.attachFailed k i)) :
      Trans s (.drop p)
        { s with
          world := { s.world with mem := decCount s.world.mem i }
          calls := s.calls.set p .done }
  | free {q : Nat} {h : Handle c} (hq : s.handles[q]? = some (.live h)) (hk : h.kind = .mem) :
      Trans s (.free q)
        { s with
          world := (shmemFree R h.adr s.world).2
          handles := s.handles.set q (.freed (s.world.word h.adr)) }
  | detach {q : Nat} {h : Handle c} (hq : s.handles[q]? = some (.live h)) (hk : h.kind ≠ .mem) :
      Trans s (.detach q)
        { s with
          world :=
            { s.world with
              mem := decCount s.world.mem h.id
              os := Release.named (deleteLock R h.kind) h.adr (s.world.mem.objects h.id).dec
                s.world.os }
          handles := s.handles.set q .gone }
  | deregister {q : Nat} {i : Slot c} (hq : s.handles[q]? = some (.freed i)) :
      Trans s (.detach q)
        { s with
          world := { s.world with mem := decCount s.world.mem i }
          handles := s.handles.set q .gone }

variable {R}

theorem trans_reserve {s s' : Sys c σ} {k : Kind} {name : CString} {size : UInt64}
    {value : UInt32} (h : step R s (.reserve k name size value) = some s') :
    Trans R s (.reserve k name size value) s' := by
  simp only [step] at h
  rcases reserveName_cases s.world.mem name with
    ⟨i, -, he⟩ | ⟨-, -, he⟩ | ⟨i, hfind, hfree, he⟩
  · rw [he] at h
    cases h
    exact .refused he
  · rw [he] at h
    cases h
    exact .refused he
  · rw [he] at h
    cases h
    exact .reserve hfind hfree

theorem trans_create {s s' : Sys c σ} {p : Nat} {malloc : Bool}
    (h : step R s (.create p malloc) = some s') : Trans R s (.create p malloc) s' := by
  simp only [step] at h
  split at h
  · rename_i hp
    split at h
    · rename_i hnew
      cases h
      exact .createFailed hp hnew
    · rename_i hnew
      cases h
      exact .made hp hnew
  · cases h

theorem trans_lookup {s s' : Sys c σ} {k : Kind} {name : CString}
    (h : step R s (.lookup k name) = some s') : Trans R s (.lookup k name) s' := by
  simp only [step, getObjectByNameAndIncCount_eq] at h
  cases hfind : findByName s.world.mem name with
  | none =>
    rw [hfind] at h
    cases h
    exact .missing hfind
  | some i =>
    rw [hfind] at h
    cases h
    exact .lookup hfind

theorem trans_attach {s s' : Sys c σ} {p : Nat} {malloc : Bool}
    (h : step R s (.attach p malloc) = some s') : Trans R s (.attach p malloc) s' := by
  simp only [step] at h
  split at h
  · rename_i hp
    split at h
    · rename_i hattach
      cases h
      exact .attachFailed hp hattach
    · rename_i hattach
      rw [sysAddBookKeeping_eq] at h
      cases h
      exact .attached hp hattach
  · cases h

theorem trans_detach {s s' : Sys c σ} {q : Nat} (h : step R s (.detach q) = some s') :
    Trans R s (.detach q) s' := by
  simp only [step, decNameCount_eq] at h
  split at h
  · rename_i hq
    split at h
    · cases h
    · rename_i hk
      rw [detachLock_eq R hk] at h
      cases h
      exact .detach hq hk
  · rename_i hq
    cases h
    exact .deregister hq
  · cases h

theorem trans_of_step {s s' : Sys c σ} {l : Label} (h : step R s l = some s') :
    Trans R s l s' := by
  cases l with
  | reserve k name size value => exact trans_reserve h
  | create p malloc => exact trans_create h
  | record p =>
    simp only [step, recordNew_eq] at h
    split at h
    · rename_i hp
      cases h
      exact .record hp
    · cases h
  | publish p =>
    simp only [step] at h
    split at h
    · rename_i hp
      cases h
      exact .publish hp
    · cases h
  | abort p =>
    simp only [step, decNameCount_eq] at h
    split at h
    · rename_i hp
      cases h
      exact .abort hp
    · cases h
  | lookup k name => exact trans_lookup h
  | attach p malloc => exact trans_attach h
  | drop p =>
    simp only [step, decNameCount_eq] at h
    split at h
    · rename_i hp
      cases h
      exact .drop hp
    · cases h
  | free q =>
    simp only [step, shmemFree] at h
    split at h
    · rename_i hq
      split at h
      · rename_i hk
        cases h
        exact .free hq hk
      · cases h
    · cases h
  | detach q => exact trans_detach h

/-! ## The protocol underneath -/

/-- What the protocol sees of a call. -/
def Call.view : Call c → Protocol.Call c
  | reserved _ name _ _ i => .reserved name i
  | made _ name _ i _ => .made name i none
  | created name h => .created name h.id none
  | failed name i => .failed name i true
  | referenced _ _ i => .referenced i
  | attachFailed _ i => .attachFailed i
  | done => .done

/-- What the protocol sees of a handle. As long as the bookkeeping names its slot, it might have
the number for itself. -/
def Holding.view : Holding c → Option (Protocol.Handle c)
  | live h => some (.own h.id)
  | freed i => some (.own i)
  | gone => none

/-- What the protocol sees of a state. -/
def Sys.view (s : Sys c σ) : Protocol.Sys c :=
  { mem := s.world.mem.plain
    calls := s.calls.map Call.view
    handles := s.handles.map Holding.view
    ids := fun _ => 0 }

variable (R) in
/-- The steps of the protocol that a step stands for. -/
def event (s : Sys c σ) : Label → List Protocol.Label
  | .reserve _ name _ _ => [.reserve name]
  | .create p malloc =>
      match s.calls[p]? with
      | some (.reserved k name size value _) =>
          match (sysNew R k malloc name size value s.world.os).1 with
          | .ok _ => [.create p (.ok none)]
          | .error _ => [.create p .failed]
      | _ => []
  | .record p => [.record p]
  | .publish p => [.publish p]
  | .abort p => [.abort p]
  | .lookup _ name => [.lookup name]
  | .attach p malloc =>
      match s.calls[p]? with
      | some (.referenced k name _) =>
          match (sysAttach R k malloc name s.world.os).1 with
          | .ok _ => [.attach p (.ok none)]
          | .error _ => [.attach p .failed]
      | _ => []
  | .drop p => [.drop p]
  | .free _ => []
  | .detach q => [.detach q]

/-- The bookkeeping of every segment in use names the slot of its handles. -/
def Marked (s : Sys c σ) : Prop :=
  ∀ h, .live h ∈ s.handles → h.kind = .mem → s.world.word h.adr = h.id

theorem view_call {s : Sys c σ} {p : Nat} {call : Call c} (hp : s.calls[p]? = some call) :
    s.view.calls[p]? = some call.view := by
  rw [Sys.view, List.getElem?_map, hp]
  rfl

theorem view_handle {s : Sys c σ} {q : Nat} {x : Holding c} (hq : s.handles[q]? = some x) :
    s.view.handles[q]? = some x.view := by
  rw [Sys.view, List.getElem?_map, hq]
  rfl

theorem exec_singleton {s t : Protocol.Sys c} {l : Protocol.Label}
    (h : Protocol.step s l = some t) : Lts.exec Protocol.step s [l] = some t := by
  rw [Lts.exec_cons h]
  rfl

/-- Recording and bookkeeping write nothing that the registry looks at. -/
theorem plain_recorded (g : Internal c) (i : Slot c) (k : Kind) (size : UInt64) :
    (g.setObject i (recorded (c := c) k size (g.objects i))).plain = g.plain :=
  Internal.plain_setObject_of_eq rfl

theorem plain_marked (g : Internal c) (i : Slot c) (k : Kind) :
    (g.setObject i (marked k (g.objects i))).plain = g.plain :=
  Internal.plain_setObject_of_eq rfl

/-- Every step is a step of the protocol, or none. -/
theorem view_step {s s' : Sys c σ} {l : Label} (hmark : Marked s) (hs : step R s l = some s') :
    Lts.exec Protocol.step s.view (event R s l) = some s'.view := by
  cases trans_of_step hs with
  | @refused k name size value e hfail =>
    apply exec_singleton
    simp only [Protocol.step, Sys.view, reserveName_plain, hfail, List.map_append]
    rfl
  | @reserve k name size value i hfind hfree =>
    apply exec_singleton
    rcases reserveName_cases s.world.mem name with ⟨j, hfind', -⟩ | ⟨-, hfree', -⟩ |
      ⟨j, -, hfree', he⟩
    · rw [hfind] at hfind'
      cases hfind'
    · rw [hfree] at hfree'
      cases hfree'
    · rw [hfree] at hfree'
      cases hfree'
      simp only [Protocol.step, Sys.view, reserveName_plain, he, List.map_append]
      rfl
  | createFailed hp hnew =>
    simp only [event, hp, hnew]
    apply exec_singleton
    simp only [Protocol.step, view_call hp, Call.view]
    rw [if_pos (by rintro m ⟨⟩)]
    simp only [Sys.view, List.map_set, Call.view]
    rfl
  | made hp hnew =>
    simp only [event, hp, hnew]
    apply exec_singleton
    simp only [Protocol.step, view_call hp, Call.view]
    rw [if_pos (by rintro m ⟨⟩)]
    simp only [Sys.view, List.map_set, Call.view]
    rfl
  | record hp =>
    apply exec_singleton
    simp only [Protocol.step, view_call hp, Call.view]
    simp only [Sys.view, List.map_set, plain_recorded]
    rfl
  | publish hp =>
    apply exec_singleton
    simp only [Protocol.step, view_call hp, Call.view]
    simp only [Sys.view, List.map_set, List.map_append, incNameCount_plain]
    rfl
  | abort hp =>
    apply exec_singleton
    simp only [Protocol.step, view_call hp, Call.view, decNameCount_eq]
    simp only [Sys.view, List.map_set, decCount_plain]
    rfl
  | missing hfind =>
    apply exec_singleton
    simp only [Protocol.step, Sys.view, getObjectByNameAndIncCount_eq, findByName_plain, hfind,
      List.map_append]
    rfl
  | lookup hfind =>
    apply exec_singleton
    simp only [Protocol.step, Sys.view, getObjectByNameAndIncCount_eq, findByName_plain, hfind,
      List.map_append, incNameCount_plain]
    rfl
  | attachFailed hp hattach =>
    simp only [event, hp, hattach]
    apply exec_singleton
    simp only [Protocol.step, view_call hp, Call.view]
    simp only [Sys.view, List.map_set]
    rfl
  | attached hp hattach =>
    simp only [event, hp, hattach]
    apply exec_singleton
    simp only [Protocol.step, view_call hp, Call.view]
    simp only [Sys.view, List.map_set, List.map_append, plain_marked]
    rfl
  | drop hp =>
    apply exec_singleton
    simp only [Protocol.step, view_call hp, Call.view, decNameCount_eq]
    simp only [Sys.view, List.map_set, decCount_plain]
    rfl
  | @free q h hq hk =>
    have hword : s.world.word h.adr = h.id := hmark h (List.mem_of_getElem? hq) hk
    have hsame : s.view.handles.set q (some (.own h.id)) = s.view.handles := by
      apply List.ext_getElem?
      intro j
      by_cases hj : q = j
      · subst hj
        have hv := view_handle hq
        rw [List.getElem?_set_self (List.getElem?_eq_some_iff.mp hv).1, hv]
        rfl
      · rw [List.getElem?_set_ne hj]
    simp only [event, Lts.exec, Sys.view, shmemFree, List.map_set, Holding.view, hword]
    simp only [Sys.view] at hsame
    rw [hsame]
  | detach hq hk =>
    apply exec_singleton
    simp only [Protocol.step, view_handle hq, Holding.view, decNameCount_eq]
    simp only [Sys.view, List.map_set, decCount_plain]
    rfl
  | deregister hq =>
    apply exec_singleton
    simp only [Protocol.step, view_handle hq, Holding.view, decNameCount_eq]
    simp only [Sys.view, List.map_set, decCount_plain]
    rfl

end Urt.Rtai
