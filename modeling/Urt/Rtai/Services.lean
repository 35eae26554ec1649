import Mathlib.Logic.Function.Basic
import Urt.Names

/-!
# The services of RTAI

RTAI keeps a table of named objects. A name is a number that `nam2num` makes of at most six
characters; an object has an address and a usage count. The services that create an object
under a name attach to the one that exists, counting one more user; those that delete it count
one user less, and the last one frees it.

RTAI is not part of the repository, so its services are a parameter (`Services`) and what its
manual says of them is a hypothesis (`Lawful`): `table` reads the named objects off a state.
`Simple` is a small system with these services that has the laws.
-/

namespace Urt.Rtai

/-- The semaphore types `CNT_SEM`, `RES_SEM` and `BIN_SEM | PRIO_Q`. -/
inductive SemType where
  | cnt
  | res
  | binPrio
  deriving DecidableEq, Repr

/-- The shapes of named objects. -/
inductive Shape where
  | segment
  | sem
  | rwl
  deriving DecidableEq, Repr

/-- What an object was made as. -/
inductive Made where
  | segment (size : UInt64)
  | sem (value : UInt32) (type : SemType)
  | rwl
  deriving DecidableEq, Repr

def Made.shape : Made → Shape
  | segment _ => .segment
  | sem _ _ => .sem
  | rwl => .rwl

/-- A named object. -/
structure Entry where
  adr : Nat
  /-- the usage count -/
  users : Nat
  made : Made
  deriving DecidableEq

namespace Entry

/-- One more user. -/
def more (e : Entry) : Entry := { e with users := e.users + 1 }

/-- One user less; the last one takes the object away. -/
def less (e : Entry) : Option Entry :=
  if e.users ≤ 1 then none else some { e with users := e.users - 1 }

theorem less_more {e : Entry} (h : 0 < e.users) : e.more.less = some e := by
  unfold less more
  rw [if_neg (by dsimp only; omega)]
  rfl

end Entry

/-- The services that the back end calls. -/
structure Services (σ : Type) where
  nam2num : CString → Nat
  /-- `rt_get_adr` -/
  getAdr : Nat → σ → Option Nat
  /-- `rt_shm_alloc` -/
  shmAlloc : Nat → UInt64 → σ → Option Nat × σ
  /-- `rt_shm_free` -/
  shmFree : Nat → σ → σ
  /-- `rt_typed_named_sem_init` on the number of its name -/
  semInit : Nat → UInt32 → SemType → σ → Option Nat × σ
  /-- `rt_named_sem_delete` -/
  semDelete : Nat → σ → σ
  /-- `rt_named_rwl_init` on the number of its name -/
  rwlInit : Nat → σ → Option Nat × σ
  /-- `rt_named_rwl_delete` -/
  rwlDelete : Nat → σ → σ
  /-- `rt_drg_on_name` -/
  drgOnName : Nat → σ → σ

variable {σ : Type}

/-- The outcome `r` of a service that makes an object or attaches to one of its shape. A new
object can be refused, and is if `can` is false. -/
structure Acquires (table : σ → Nat → Option Entry) (n : Nat) (made : Made) (can : Prop) (s : σ)
    (r : Option Nat × σ) : Prop where
  found : ∀ e, table s n = some e → e.made.shape = made.shape →
    r.1 = some e.adr ∧ table r.2 = Function.update (table s) n (some e.more)
  made : table s n = none →
    (r.1 = none ∧ table r.2 = table s) ∨
      (can ∧ ∃ a, r.1 = some a ∧ table r.2 = Function.update (table s) n (some ⟨a, 1, made⟩))

/-- What the manual says of the services. -/
structure Lawful (R : Services σ) (table : σ → Nat → Option Entry) : Prop where
  /-- a number is made of the first six characters -/
  nam2num_congr : ∀ {n m : CString}, truncName n = truncName m → R.nam2num n = R.nam2num m
  /-- objects have addresses of their own -/
  adr_inj : ∀ {s n m e e'}, table s n = some e → table s m = some e' → e.adr = e'.adr → n = m
  users_pos : ∀ {s n e}, table s n = some e → 0 < e.users
  getAdr_eq : ∀ n s, R.getAdr n s = (table s n).map Entry.adr
  shmAlloc : ∀ n size s, Acquires table n (.segment size) (size ≠ 0) s (R.shmAlloc n size s)
  shmFree : ∀ n s, (∀ e, table s n = some e → e.made.shape = .segment) →
    table (R.shmFree n s) = Function.update (table s) n ((table s n).bind Entry.less)
  semInit : ∀ n value type s, Acquires table n (.sem value type) True s (R.semInit n value type s)
  semDelete : ∀ {n e s}, table s n = some e → e.made.shape = .sem →
    table (R.semDelete e.adr s) = Function.update (table s) n e.less
  rwlInit : ∀ n s, Acquires table n .rwl True s (R.rwlInit n s)
  rwlDelete : ∀ {n e s}, table s n = some e → e.made.shape = .rwl →
    table (R.rwlDelete e.adr s) = Function.update (table s) n e.less
  drgOnName : ∀ n s, table (R.drgOnName n s) = Function.update (table s) n none

/-! ## A system that has the laws -/

namespace Simple

/-- The named objects; an object of number `n` has address `n + 1`. -/
abbrev State : Type := Nat → Option (Nat × Made)

/-- The named objects with their addresses. -/
def table (s : State) (n : Nat) : Option Entry :=
  (s n).bind fun x => if x.1 = 0 then none else some ⟨n + 1, x.1, x.2⟩

/-- Make an object or attach to it. -/
def acquire (n : Nat) (made : Made) (can : Bool) (s : State) : Option Nat × State :=
  match table s n with
  | some e => (some e.adr, Function.update s n (some (e.users + 1, e.made)))
  | none => if can then (some (n + 1), Function.update s n (some (1, made))) else (none, s)

/-- One user less. -/
def release (n : Nat) (s : State) : State :=
  Function.update s n ((s n).map fun x => (x.1 - 1, x.2))

/-- The digit of a character in `nam2num`. -/
def digit (ch : UInt8) : Nat :=
  if 97 ≤ ch ∧ ch ≤ 122 then ch.toNat - 97 + 11
  else if 65 ≤ ch ∧ ch ≤ 90 then ch.toNat - 65 + 11
  else if 48 ≤ ch ∧ ch ≤ 57 then ch.toNat - 48 + 1
  else if ch = 95 then 37
  else 38

/-- The services on this system. -/
def services : Services State where
  nam2num name := (truncName name).foldl (fun v ch => v * 39 + digit ch) 0
  getAdr n s := (table s n).map Entry.adr
  shmAlloc n size s := acquire n (.segment size) (size != 0) s
  shmFree n s := release n s
  semInit n value type s := acquire n (.sem value type) true s
  semDelete a s := release (a - 1) s
  rwlInit n s := acquire n .rwl true s
  rwlDelete a s := release (a - 1) s
  drgOnName n s := Function.update s n none

theorem table_update (s : State) (n : Nat) (x : Option (Nat × Made)) :
    table (Function.update s n x) =
      Function.update (table s) n
        (x.bind fun x => if x.1 = 0 then none else some ⟨n + 1, x.1, x.2⟩) := by
  funext m
  unfold table
  by_cases hm : m = n
  · subst hm
    simp only [Function.update_self]
  · simp only [Function.update_of_ne hm]

theorem table_some {s : State} {n : Nat} {e : Entry} (h : table s n = some e) :
    s n = some (e.users, e.made) ∧ e.adr = n + 1 ∧ 0 < e.users := by
  obtain ⟨⟨k, made⟩, hs, hx⟩ := Option.bind_eq_some_iff.mp h
  dsimp only at hx
  split at hx
  · cases hx
  · cases hx
    exact ⟨hs, rfl, by dsimp only; omega⟩

theorem acquire_acquires (n : Nat) (made : Made) (can : Bool) (s : State) {P : Prop}
    (hcan : can = true → P) : Acquires table n made P s (acquire n made can s) := by
  constructor
  · intro e he _
    obtain ⟨-, hadr, -⟩ := table_some he
    unfold acquire
    rw [he]
    refine ⟨rfl, ?_⟩
    rw [table_update]
    simp [Entry.more, hadr]
  · intro hnone
    unfold acquire
    rw [hnone]
    cases can with
    | true => exact .inr ⟨hcan rfl, n + 1, rfl, by rw [if_pos rfl, table_update]; rfl⟩
    | false => exact .inl ⟨rfl, rfl⟩

theorem table_release (n : Nat) (s : State) :
    table (release n s) = Function.update (table s) n ((table s n).bind Entry.less) := by
  rw [release, table_update]
  congr 1
  unfold table
  cases s n with
  | none => rfl
  | some x =>
    obtain ⟨k, made⟩ := x
    simp only [Option.map_some, Option.bind_some]
    unfold Entry.less
    by_cases hk : k = 0
    · rw [if_pos (by omega), if_pos hk]
      rfl
    · rw [if_neg hk, Option.bind_some]
      by_cases h1 : k ≤ 1
      · rw [if_pos (by omega), if_pos h1]
      · rw [if_neg (by omega), if_neg h1]

theorem table_release_some {s : State} {n : Nat} {e : Entry} (h : table s n = some e) :
    table (release (e.adr - 1) s) = Function.update (table s) n e.less := by
  obtain ⟨-, hadr, -⟩ := table_some h
  rw [hadr, Nat.add_sub_cancel, table_release, h]
  rfl

theorem lawful : Lawful services table where
  nam2num_congr h := by
    simp only [services, h]
  adr_inj h h' he := by
    have := (table_some h).2.1
    have := (table_some h').2.1
    omega
  users_pos h := (table_some h).2.2
  getAdr_eq n s := rfl
  shmAlloc n size s := acquire_acquires n _ _ s (by simp)
  shmFree n s _ := table_release n s
  semInit n value type s := acquire_acquires n _ _ s fun _ => trivial
  semDelete h _ := table_release_some h
  rwlInit n s := acquire_acquires n _ _ s fun _ => trivial
  rwlDelete h _ := table_release_some h
  drgOnName n s := table_update s n none

end Simple

end Urt.Rtai
