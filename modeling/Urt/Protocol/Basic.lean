import Urt.Registry.Index

/-!
# Creation, attachment and detachment, cut at the global lock

`SHOBJ_NEW` and `SHOBJ_ATTACH` (`src/new_common.c`) take the global lock once to reserve or
find a name and once more to publish or give up; the system call lies between, unlocked.
`step` runs any number of such calls, and of detaches, in any interleaving of these pieces.
A call in progress is what it has left to do (`Call`); its index in `calls` is its identity.

A handle carries the number of its slot. A semaphore has it in memory of the process, but
memory, and a lock of POSIX, at the start of the shared segment (`Sys.ids`): whoever creates or
attaches writes the number of the slot it found by name, whoever detaches reads what is there.
Different names can lead to one segment, so the number may be another's.

The outcome of the system call, and the segment it maps, is up to the label. On POSIX the call
that creates a lock can also fail in `pthread_*_init`; it then runs `urt_shmem_delete` on the
new segment, which deregisters the slot whose number the bookkeeping holds, slot `0` as long as
it is zero-filled, before `SHOBJ_NEW` deregisters its own slot.
-/

namespace Urt.Protocol

variable {c : Config}

/-- Where a handle has the number of its slot. -/
inductive Handle (c : Config) where
  | own (i : Slot c)
  | segment (m : Nat)
  deriving DecidableEq

namespace Handle

/-- A handle to slot `i`, in segment `m` if there is one. -/
def new (i : Slot c) : Option Nat → Handle c
  | none => .own i
  | some m => .segment m

/-- The slot the handle carries; `ids` are the numbers in the segments. -/
def slot (ids : Nat → Slot c) : Handle c → Slot c
  | own i => i
  | segment m => ids m

end Handle

/-- `urt_sys_add_*_book_keeping`: the number is written to the segment, if there is one. -/
def mark (ids : Nat → Slot c) (i : Slot c) : Option Nat → Nat → Slot c
  | none => ids
  | some m => Function.update ids m i

theorem slot_mark_new (ids : Nat → Slot c) (i : Slot c) (m : Option Nat) :
    (Handle.new i m).slot (mark ids i m) = i := by
  cases m with
  | none => rfl
  | some m => exact Function.update_self m i ids

/-- A call in progress. -/
inductive Call (c : Config) where
  /-- `SHOBJ_NEW` got slot `i` for `name`; the system call is next. -/
  | reserved (name : CString) (i : Slot c)
  /-- The system call succeeded; the bookkeeping is next. -/
  | made (name : CString) (i : Slot c) (m : Option Nat)
  /-- The slot number was written; `urt_inc_name_count` is next. -/
  | created (name : CString) (i : Slot c) (m : Option Nat)
  /-- `pthread_*_init` failed; `urt_shmem_delete` is next. -/
  | initFailed (name : CString) (i : Slot c) (m : Nat)
  /-- The system call failed; `urt_deregister` is next. `first` says that it is the first
  time this call deregisters slot `i`. -/
  | failed (name : CString) (i : Slot c) (first : Bool)
  /-- `SHOBJ_ATTACH` counted a reference to slot `i`; the system call is next. -/
  | referenced (i : Slot c)
  /-- The system call failed; `urt_deregister` is next. -/
  | attachFailed (i : Slot c)
  | done

namespace Call

/-- The name and slot of a creator that has neither published nor deregistered the slot. -/
def holds : Call c → Option (CString × Slot c)
  | reserved name i | made name i _ | created name i _ | initFailed name i _
  | failed name i true => some (name, i)
  | failed _ _ false | referenced _ | attachFailed _ | done => none

/-- The new segment of a creator. -/
def segment : Call c → Option Nat
  | made _ _ m | created _ _ m => m
  | initFailed _ _ m => some m
  | reserved _ _ | failed _ _ _ | referenced _ | attachFailed _ | done => none

/-- Whether the call is an attacher that took a reference to slot `i` and has not finished. -/
def refers (i : Slot c) : Call c → Bool
  | referenced j | attachFailed j => j == i
  | reserved _ _ | made _ _ _ | created _ _ _ | initFailed _ _ _ | failed _ _ _ | done => false

@[simp] theorem refers_referenced (i j : Slot c) : (referenced j).refers i = (j == i) := rfl

@[simp] theorem refers_attachFailed (i j : Slot c) : (attachFailed j).refers i = (j == i) := rfl

@[simp] theorem refers_done (i : Slot c) : (done : Call c).refers i = false := rfl

end Call

/-- How the system call of a creator ends; `m` is the new segment, if it is one. -/
inductive CreateOutcome where
  | ok (m : Option Nat)
  | failed
  | initFailed (m : Nat)
  deriving DecidableEq

namespace CreateOutcome

/-- What a creator does next. -/
def next (name : CString) (i : Slot c) : CreateOutcome → Call c
  | ok m => .made name i m
  | failed => .failed name i true
  | initFailed m => .initFailed name i m

def segment : CreateOutcome → Option Nat
  | ok m => m
  | failed => none
  | initFailed m => some m

end CreateOutcome

/-- How the system call of an attacher ends; `m` is the segment it maps, if it is one. -/
inductive AttachOutcome where
  | ok (m : Option Nat)
  | failed
  deriving DecidableEq

/-- The shared registry, the calls in progress, the handles, and the slot numbers in the shared
segments. -/
structure Sys (c : Config) where
  mem : Internal c
  calls : List (Call c)
  handles : List (Option (Handle c))
  ids : Nat → Slot c

/-- Nobody has the segment. -/
def Sys.Fresh (s : Sys c) (m : Nat) : Prop :=
  (∀ call ∈ s.calls, call.segment ≠ some m) ∧ ∀ x ∈ s.handles, x ≠ some (.segment m)

instance (s : Sys c) (m : Nat) : Decidable (s.Fresh m) := inferInstanceAs (Decidable (_ ∧ _))

/-- The system over a freshly initialised registry. -/
def Sys.init (g : Internal c) : Sys c :=
  { mem := (registryInit g).2, calls := [], handles := [], ids := fun _ => 0 }

inductive Label where
  /-- a new `urt_sh*_new`: `urt_reserve_name` -/
  | reserve (name : CString)
  /-- the system call of creator `p` -/
  | create (p : Nat) (o : CreateOutcome)
  /-- `urt_shmem_delete` after a failed lock initialisation -/
  | cleanup (p : Nat)
  /-- the bookkeeping of creator `p` -/
  | record (p : Nat)
  /-- `urt_inc_name_count` -/
  | publish (p : Nat)
  /-- `urt_deregister` of creator `p` -/
  | abort (p : Nat)
  /-- a new `urt_sh*_attach`: `urt_get_object_by_name_and_inc_count` -/
  | lookup (name : CString)
  /-- the system call of attacher `p`, and its bookkeeping -/
  | attach (p : Nat) (o : AttachOutcome)
  /-- `urt_deregister` of attacher `p` -/
  | drop (p : Nat)
  /-- `urt_sh*_detach` of handle `h` -/
  | detach (h : Nat)

/-- One step of the system; `none` if the label cannot happen. -/
def step (s : Sys c) : Label → Option (Sys c)
  | .reserve name =>
      match reserveName s.mem name with
      | (.error _, mem) => some { s with mem := mem, calls := s.calls ++ [.done] }
      | (.ok i, mem) => some { s with mem := mem, calls := s.calls ++ [.reserved name i] }
  | .create p o =>
      match s.calls[p]? with
      | some (.reserved name i) =>
          -- a new segment is nobody else's, and zero-filled
          if ∀ m ∈ o.segment, s.Fresh m then
            some { s with calls := s.calls.set p (o.next name i), ids := mark s.ids 0 o.segment }
          else none
      | _ => none
  | .cleanup p =>
      match s.calls[p]? with
      | some (.initFailed name i m) =>
          some { s with
            mem := (decNameCount (σ := Unit) none s.mem (s.ids m) ()).1
            calls := s.calls.set p (.failed name i (i != s.ids m)) }
      | _ => none
  | .record p =>
      match s.calls[p]? with
      | some (.made name i m) =>
          some { s with calls := s.calls.set p (.created name i m), ids := mark s.ids i m }
      | _ => none
  | .publish p =>
      match s.calls[p]? with
      | some (.created _ i m) =>
          some { s with
            mem := incNameCount s.mem i
            calls := s.calls.set p .done
            handles := s.handles ++ [some (.new i m)] }
      | _ => none
  | .abort p =>
      match s.calls[p]? with
      | some (.failed _ i _) =>
          some { s with
            mem := (decNameCount (σ := Unit) none s.mem i ()).1
            calls := s.calls.set p .done }
      | _ => none
  | .lookup name =>
      match getObjectByNameAndIncCount s.mem name with
      | (none, mem) => some { s with mem := mem, calls := s.calls ++ [.done] }
      | (some i, mem) => some { s with mem := mem, calls := s.calls ++ [.referenced i] }
  | .attach p o =>
      match s.calls[p]? with
      | some (.referenced i) =>
          match o with
          | .failed => some { s with calls := s.calls.set p (.attachFailed i) }
          | .ok m =>
              some { s with
                calls := s.calls.set p .done
                handles := s.handles ++ [some (.new i m)]
                ids := mark s.ids i m }
      | _ => none
  | .drop p =>
      match s.calls[p]? with
      | some (.attachFailed i) =>
          some { s with
            mem := (decNameCount (σ := Unit) none s.mem i ()).1
            calls := s.calls.set p .done }
      | _ => none
  | .detach h =>
      match s.handles[h]? with
      | some (some x) =>
          some { s with
            mem := (decNameCount (σ := Unit) none s.mem (x.slot s.ids) ()).1
            handles := s.handles.set h none }
      | _ => none

/-- What one step does, case by case. -/
inductive Trans (s : Sys c) : Label → Sys c → Prop where
  | refused {name : CString} {e : Errno} (hfail : reserveName s.mem name = (.error e, s.mem)) :
      Trans s (.reserve name) { s with calls := s.calls ++ [.done] }
  | reserve {name : CString} {i : Slot c} (hfind : findByName s.mem name = none)
      (hfree : findFree s.mem = some i) :
      Trans s (.reserve name)
        { s with mem := reserved s.mem i name, calls := s.calls ++ [.reserved name i] }
  | create {p : Nat} {o : CreateOutcome} {name : CString} {i : Slot c}
      (hp : s.calls[p]? = some (.reserved name i)) (hnew : ∀ m ∈ o.segment, s.Fresh m) :
      Trans s (.create p o)
        { s with calls := s.calls.set p (o.next name i), ids := mark s.ids 0 o.segment }
  | cleanup {p : Nat} {name : CString} {i : Slot c} {m : Nat}
      (hp : s.calls[p]? = some (.initFailed name i m)) :
      Trans s (.cleanup p)
        { s with
          mem := decCount s.mem (s.ids m)
          calls := s.calls.set p (.failed name i (i != s.ids m)) }
  | record {p : Nat} {name : CString} {i : Slot c} {m : Option Nat}
      (hp : s.calls[p]? = some (.made name i m)) :
      Trans s (.record p)
        { s with calls := s.calls.set p (.created name i m), ids := mark s.ids i m }
  | publish {p : Nat} {name : CString} {i : Slot c} {m : Option Nat}
      (hp : s.calls[p]? = some (.created name i m)) :
      Trans s (.publish p)
        { s with
          mem := incNameCount s.mem i
          calls := s.calls.set p .done
          handles := s.handles ++ [some (.new i m)] }
  | abort {p : Nat} {name : CString} {i : Slot c} {first : Bool}
      (hp : s.calls[p]? = some (.failed name i first)) :
      Trans s (.abort p) { s with mem := decCount s.mem i, calls := s.calls.set p .done }
  | missing {name : CString} (hfind : findByName s.mem name = none) :
      Trans s (.lookup name) { s with calls := s.calls ++ [.done] }
  | lookup {name : CString} {i : Slot c} (hfind : findByName s.mem name = some i) :
      Trans s (.lookup name)
        { s with mem := incNameCount s.mem i, calls := s.calls ++ [.referenced i] }
  | attached {p : Nat} {i : Slot c} {m : Option Nat} (hp : s.calls[p]? = some (.referenced i)) :
      Trans s (.attach p (.ok m))
        { s with
          calls := s.calls.set p .done
          handles := s.handles ++ [some (.new i m)]
          ids := mark s.ids i m }
  | attachFailed {p : Nat} {i : Slot c} (hp : s.calls[p]? = some (.referenced i)) :
      Trans s (.attach p .failed) { s with calls := s.calls.set p (.attachFailed i) }
  | drop {p : Nat} {i : Slot c} (hp : s.calls[p]? = some (.attachFailed i)) :
      Trans s (.drop p) { s with mem := decCount s.mem i, calls := s.calls.set p .done }
  | detach {h : Nat} {x : Handle c} (hh : s.handles[h]? = some (some x)) :
      Trans s (.detach h)
        { s with mem := decCount s.mem (x.slot s.ids), handles := s.handles.set h none }

theorem trans_of_step {s s' : Sys c} {l : Label} (h : step s l = some s') : Trans s l s' := by
  cases l with
  | reserve name =>
    simp only [step] at h
    rcases reserveName_cases s.mem name with ⟨i, -, he⟩ | ⟨-, -, he⟩ | ⟨i, hfind, hfree, he⟩
    · rw [he] at h
      cases h
      exact .refused he
    · rw [he] at h
      cases h
      exact .refused he
    · rw [he] at h
      cases h
      exact .reserve hfind hfree
  | create p o =>
    simp only [step] at h
    split at h
    · rename_i hp
      split at h
      · rename_i hnew
        cases h
        exact .create hp hnew
      · cases h
    · cases h
  | cleanup p =>
    simp only [step, decNameCount_eq] at h
    split at h
    · rename_i hp
      cases h
      exact .cleanup hp
    · cases h
  | record p =>
    simp only [step] at h
    split at h
    · rename_i hp
      cases h
      exact .record hp
    · cases h
  | publish p =>
    simp only [step] at h
    split at h
    · rename_i hp
      cases h
      exact .publish hp
    · cases h
  | abort p =>
    simp only [step, decNameCount_eq] at h
    split at h
    · rename_i hp
      cases h
      exact .abort hp
    · cases h
  | lookup name =>
    simp only [step, getObjectByNameAndIncCount_eq] at h
    cases hfind : findByName s.mem name with
    | none =>
      rw [hfind] at h
      cases h
      exact .missing hfind
    | some i =>
      rw [hfind] at h
      cases h
      exact .lookup hfind
  | attach p o =>
    simp only [step] at h
    split at h
    · rename_i hp
      cases o with
      | ok m =>
        cases h
        exact .attached hp
      | failed =>
        cases h
        exact .attachFailed hp
    · cases h
  | drop p =>
    simp only [step, decNameCount_eq] at h
    split at h
    · rename_i hp
      cases h
      exact .drop hp
    · cases h
  | detach k =>
    simp only [step, decNameCount_eq] at h
    split at h
    · rename_i hh
      cases h
      exact .detach hh
    · cases h

end Urt.Protocol
