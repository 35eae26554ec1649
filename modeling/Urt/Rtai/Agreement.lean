import Urt.Rtai.System

/-!
# Whether the registry and RTAI agree

RTAI knows an object by the number of its name and counts its users; the registry knows it by
its slot and counts its references. `Agreed` relates the two: every named object belongs to one
slot, recorded there or about to be recorded by its creator, a segment has as many users as there
are processes that have it mapped, a lock has one, and a handle finds its object at its address.

`Regular` is what a program keeps to: names in use together have different numbers, attachers
ask for published objects and for their kind, and a lock's last reference is not one that a
failed attach gives back, since that error path deletes nothing.
-/

namespace Urt.Rtai

variable {c : Config} {σ : Type}

/-! ## Objects and their holders -/

/-- The object is what creators of the kind ask RTAI for. -/
def Fits : Kind → Made → Prop
  | .mem, .segment _ => True
  | .sem, .sem _ type => type = .cnt
  | .mutex, .sem value type => value = 1 ∧ type = .res
  | .cond, .sem value type => value = 0 ∧ type = .binPrio
  | .rwlock, .rwl => True
  | _, _ => False

/-- The shape of the objects of a kind. -/
def shape : Kind → Shape
  | .mem => .segment
  | .sem | .mutex | .cond => .sem
  | .rwlock => .rwl

theorem Fits.shape_eq {k : Kind} {m : Made} (h : Fits k m) : m.shape = shape k := by
  cases k <;> cases m <;> first | rfl | exact h.elim

/-- The handle has the object of slot `i`. -/
def Holding.has (i : Slot c) : Holding c → Bool
  | live h => h.id == i
  | freed _ | gone => false

/-- The creator has recorded the object of slot `i` and has not published it. -/
def Call.has (i : Slot c) : Call c → Bool
  | created _ h => h.id == i
  | reserved _ _ _ _ _ | made _ _ _ _ _ | failed _ _ | referenced _ _ _ | attachFailed _ _
  | done => false

namespace Sys

/-- How many have the object of slot `i`. -/
def holders (s : Sys c σ) (i : Slot c) : Nat :=
  s.handles.countP (Holding.has i) + s.calls.countP (Call.has i)

/-- Somebody has the object through this handle. -/
def Has (s : Sys c σ) (h : Handle c) : Prop :=
  .live h ∈ s.handles ∨ ∃ name, .created name h ∈ s.calls

/-- An object was made for slot `i` and recorded there. -/
def Recorded (s : Sys c σ) (i : Slot c) : Prop :=
  0 < (s.world.mem.objects i).count.toNat ∨ ∃ name h, Call.created name h ∈ s.calls ∧ h.id = i

/-- An object was made for slot `i` and is not recorded there yet. -/
def Unrecorded (s : Sys c σ) (i : Slot c) : Prop :=
  ∃ k name size adr, Call.made k name size i adr ∈ s.calls

/-- The users that RTAI counts for slot `i`. -/
def users (s : Sys c σ) (k : Kind) (i : Slot c) : Nat := if k = .mem then s.holders i else 1

/-- The number of the name of slot `i`. -/
def num (R : Services σ) (s : Sys c σ) (i : Slot c) : Nat :=
  R.nam2num (s.world.mem.objects i).name.str

end Sys

/-- An entry for an object of the kind with so many users. -/
def Entered (k : Kind) (users : Nat) : Option Entry → Prop
  | none => users = 0
  | some e => Fits k e.made ∧ e.users = users

/-- What a call in progress knows of its slot. -/
def CallOk (g : Internal c) : Call c → Prop
  | .referenced k name i => (g.objects i).type = k.type ∧ (g.objects i).tname = truncName name
  | .attachFailed k i => (g.objects i).type = k.type
  | .reserved _ _ _ _ _ | .made _ _ _ _ _ | .created _ _ | .failed _ _ | .done => True

/-- Only memory is detached in two steps. -/
def HoldingOk (g : Internal c) : Holding c → Prop
  | .freed i => (g.objects i).type = Kind.mem.type
  | .live _ | .gone => True

variable (R : Services σ) (table : σ → Nat → Option Entry)

/-- A handle finds its object, and memory the slot that its bookkeeping names. -/
structure HandleOk (s : Sys c σ) (h : Handle c) : Prop where
  type : (s.world.mem.objects h.id).type = h.kind.type
  object : ∃ e, table s.world.os (s.num R h.id) = some e ∧ e.adr = h.adr
  word : h.kind = .mem → s.world.word h.adr = h.id

/-- The registry and RTAI agree. -/
structure Agreed (s : Sys c σ) : Prop where
  settled : Protocol.Settled s.view
  distinct : ∀ i j, s.world.mem.used i = true → s.world.mem.used j = true →
    s.num R i = s.num R j → i = j
  entry : ∀ i, s.Recorded i → ∃ k : Kind, (s.world.mem.objects i).type = k.type ∧
    Entered k (s.users k i) (table s.world.os (s.num R i))
  owned : ∀ n e, table s.world.os n = some e →
    ∃ i, (s.Recorded i ∨ s.Unrecorded i) ∧ s.num R i = n
  made : ∀ k name size i adr, Call.made k name size i adr ∈ s.calls →
    ∃ m, Fits k m ∧ table s.world.os (s.num R i) = some ⟨adr, 1, m⟩
  handle : ∀ h, s.Has h → HandleOk R table s h
  call : ∀ call ∈ s.calls, CallOk s.world.mem call
  holding : ∀ x ∈ s.handles, HoldingOk s.world.mem x

/-- What a program keeps to. -/
def Regular (s : Sys c σ) : Label → Prop
  | .reserve _ name _ _ => findByName s.world.mem name = none →
      (findFree s.world.mem).isSome = true →
        ∀ i, s.world.mem.used i = true → s.num R i ≠ R.nam2num name
  | .lookup k name => ∀ i ∈ findByName s.world.mem name,
      (s.world.mem.objects i).reserved = false ∧ (s.world.mem.objects i).type = k.type ∧
        s.view.refs i + 1 < 2 ^ 32
  | .drop p =>
      match s.calls[p]? with
      | some (.attachFailed k i) => k = .mem ∨ 1 < (s.world.mem.objects i).count.toNat
      | _ => True
  | .create _ _ | .record _ | .publish _ | .abort _ | .attach _ _ | .free _ | .detach _ => True

instance (s : Sys c σ) (l : Label) : Decidable (Regular R s l) := by
  cases l with
  | drop p =>
    unfold Regular
    dsimp only
    split <;> infer_instance
  | reserve _ _ _ _ | create _ _ | record _ | publish _ | abort _ | lookup _ _ | attach _ _
  | free _ | detach _ =>
    unfold Regular
    infer_instance

/-! ## Lists of calls and handles -/

theorem mem_set_of_ne {α : Type} {l : List α} {p : Nat} {x y z : α} (hx : x ∈ l)
    (hp : l[p]? = some z) (hne : x ≠ z) : x ∈ l.set p y := by
  obtain ⟨q, hq⟩ := List.mem_iff_getElem?.mp hx
  have hqp : p ≠ q := by
    rintro rfl
    rw [hp] at hq
    exact hne (Option.some.inj hq).symm
  rw [← List.getElem?_set_ne (a := y) hqp] at hq
  exact List.mem_of_getElem? hq

/-! ## Recorded slots -/

section Recorded

variable {s : Sys c σ} (hs : Protocol.Settled s.view)

/-- The creator that made the object of slot `i` holds the slot. -/
theorem holds_of_created {name : CString} {x : Handle c} (hx : Call.created name x ∈ s.calls) :
    ∃ p, s.calls[p]? = some (.created name x) ∧ s.view.holds p = some (name, x.id) := by
  obtain ⟨p, hp⟩ := List.mem_iff_getElem?.mp hx
  exact ⟨p, hp, Protocol.holds_of_call (view_call hp)⟩

/-- The creator that has not recorded its object holds the slot. -/
theorem holds_of_made {k : Kind} {name : CString} {size : UInt64} {i : Slot c} {adr : Nat}
    (hx : Call.made k name size i adr ∈ s.calls) :
    ∃ p, s.calls[p]? = some (.made k name size i adr) ∧ s.view.holds p = some (name, i) := by
  obtain ⟨p, hp⟩ := List.mem_iff_getElem?.mp hx
  exact ⟨p, hp, Protocol.holds_of_call (view_call hp)⟩

theorem refs_of_handle {x : Holding c} (hx : x ∈ s.handles) {i : Slot c}
    (hi : x.view = some (.own i)) : 0 < s.view.refs i := by
  obtain ⟨q, hq⟩ := List.mem_iff_getElem?.mp hx
  have hv := view_handle hq
  rw [hi] at hv
  exact Protocol.refs_pos_of_handle hv

theorem refs_of_call {call : Call c} (hc : call ∈ s.calls) {i : Slot c}
    (hi : call.view.refers i = true) : 0 < s.view.refs i := by
  obtain ⟨p, hp⟩ := List.mem_iff_getElem?.mp hc
  exact Protocol.Settled.refs_pos_of_call s.view (view_call hp) hi

include hs

theorem used_of_recorded {i : Slot c} (hi : s.Recorded i) : s.world.mem.used i = true := by
  rcases hi with hpos | ⟨name, x, hx, rfl⟩
  · exact RegisteredObject.inUse_iff.mpr (.inr hpos)
  · obtain ⟨p, -, hp⟩ := holds_of_created hx
    exact hs.kept.inUse p name x.id hp

/-- Whoever refers to a slot refers to a recorded one. -/
theorem recorded_of_refs {i : Slot c} (hi : 0 < s.view.refs i) : s.Recorded i := by
  rw [← hs.counted i] at hi
  exact .inl hi

theorem recorded_of_has {x : Handle c} (hx : s.Has x) : s.Recorded x.id := by
  rcases hx with hx | ⟨name, hx⟩
  · exact recorded_of_refs hs (refs_of_handle hx rfl)
  · exact .inr ⟨name, x, hx, rfl⟩

/-- A slot that is not recorded has no holders. -/
theorem holders_eq_zero {i : Slot c} (hi : ¬ s.Recorded i) : s.holders i = 0 := by
  have hh : s.handles.countP (Holding.has i) = 0 := by
    rw [List.countP_eq_zero]
    intro x hx hxi
    cases x with
    | live y =>
      rw [Holding.has, beq_iff_eq] at hxi
      exact hi (recorded_of_refs hs (refs_of_handle hx (by rw [Holding.view, hxi])))
    | freed _ | gone => cases hxi
  have hc : s.calls.countP (Call.has i) = 0 := by
    rw [List.countP_eq_zero]
    intro call hcall hxi
    cases call with
    | created name y =>
      rw [Call.has, beq_iff_eq] at hxi
      exact hi (.inr ⟨name, y, hcall, hxi⟩)
    | reserved _ _ _ _ _ | made _ _ _ _ _ | failed _ _ | referenced _ _ _ | attachFailed _ _
    | done => cases hxi
  rw [Sys.holders, hh, hc]

/-- The slot of a creator at work, whose object is not made yet. -/
theorem not_recorded_of_holds {p : Nat} {call : Call c} {name : CString} {i : Slot c}
    (hp : s.calls[p]? = some call) (hc : call.view.holds = some (name, i))
    (hne : ∀ name' x, call ≠ .created name' x) : ¬ s.Recorded i := by
  have hpi : s.view.holds p = some (name, i) := by
    rw [Protocol.holds_of_call (view_call hp), hc]
  rintro (hpos | ⟨name', x, hx, rfl⟩)
  · have h0 : (s.world.mem.objects i).count = 0 := (hs.refs_zero hpi).1
    rw [h0] at hpos
    exact absurd hpos (by decide)
  · obtain ⟨q, hq, hqi⟩ := holds_of_created hx
    have hpq := hs.kept.sole p q name name' x.id hpi hqi
    subst hpq
    rw [hp] at hq
    exact hne name' x (Option.some.inj hq)

/-- The slot of a creator that has not recorded its object. -/
theorem not_recorded_of_made {k : Kind} {name : CString} {size : UInt64} {i : Slot c} {adr : Nat}
    (hx : Call.made k name size i adr ∈ s.calls) : ¬ s.Recorded i := by
  obtain ⟨p, hp, -⟩ := holds_of_made hx
  exact not_recorded_of_holds hs hp rfl (by rintro _ _ ⟨⟩)

theorem used_of_unrecorded {i : Slot c} (hi : s.Unrecorded i) : s.world.mem.used i = true := by
  obtain ⟨k, name, size, adr, hx⟩ := hi
  obtain ⟨p, -, hp⟩ := holds_of_made hx
  exact hs.kept.inUse p name i hp

theorem used_of_owned {i : Slot c} (hi : s.Recorded i ∨ s.Unrecorded i) :
    s.world.mem.used i = true :=
  hi.elim (used_of_recorded hs) (used_of_unrecorded hs)

/-- A slot with references has no creator at work. -/
theorem not_created_of_count {i : Slot c} (hi : 0 < (s.world.mem.objects i).count.toNat)
    {name : CString} {x : Handle c} (hx : Call.created name x ∈ s.calls) : x.id ≠ i := by
  rintro rfl
  obtain ⟨q, -, hq⟩ := holds_of_created hx
  have h0 : (s.world.mem.objects x.id).count = 0 := (hs.refs_zero hq).1
  rw [h0] at hi
  exact absurd hi (by decide)

end Recorded

theorem holders_pos_of_has {s : Sys c σ} {x : Handle c} (hx : s.Has x) : 0 < s.holders x.id := by
  rw [Sys.holders]
  rcases hx with hx | ⟨name, hx⟩
  · have := List.countP_pos_iff (p := Holding.has x.id).mpr ⟨_, hx, by simp [Holding.has]⟩
    omega
  · have := List.countP_pos_iff (p := Call.has x.id).mpr ⟨_, hx, by simp [Call.has]⟩
    omega

/-! ## What services do to the table -/

section Services

variable {R} {table} (law : Lawful R table)

include law

/-- The outcome of making an object under a number that has none. -/
theorem sysNew_cases (k : Kind) (malloc : Bool) (name : CString) (size : UInt64)
    (value : UInt32) {os : σ} (hnone : table os (R.nam2num name) = none) :
    (∃ e os', sysNew R k malloc name size value os = (.error e, os') ∧ table os' = table os) ∨
    ∃ adr os' m, sysNew R k malloc name size value os = (.ok adr, os') ∧ Fits k m ∧
      table os' = Function.update (table os) (R.nam2num name) (some ⟨adr, 1, m⟩) := by
  have hnamed : ∀ (m : Made) (P : Prop) (init : σ → Option Nat × σ),
      Acquires table (R.nam2num name) m P os (init os) → Fits k m →
      (∃ e os', namedNew malloc init os = (.error e, os') ∧ table os' = table os) ∨
      ∃ adr os' m, namedNew malloc init os = (.ok adr, os') ∧ Fits k m ∧
        table os' = Function.update (table os) (R.nam2num name) (some ⟨adr, 1, m⟩) := by
    intro m P init hacq hfits
    unfold namedNew
    split
    · exact .inl ⟨_, os, rfl, rfl⟩
    · rcases hacq.made hnone with ⟨hr, ht⟩ | ⟨-, a, hr, ht⟩
      · rw [show init os = (none, (init os).2) from Prod.ext hr rfl]
        exact .inl ⟨_, _, rfl, ht⟩
      · rw [show init os = (some a, (init os).2) from Prod.ext hr rfl]
        exact .inr ⟨a, _, m, rfl, hfits, ht⟩
  cases k with
  | mem =>
    unfold sysNew sysShmemNew
    dsimp only
    rw [law.getAdr_eq, hnone]
    rcases (law.shmAlloc (R.nam2num name) (size + 16) os).made hnone with
      ⟨hr, ht⟩ | ⟨-, a, hr, ht⟩
    · rw [show R.shmAlloc (R.nam2num name) (size + 16) os = (none, _) from Prod.ext hr rfl]
      exact .inl ⟨_, _, rfl, ht⟩
    · rw [show R.shmAlloc (R.nam2num name) (size + 16) os = (some a, _) from Prod.ext hr rfl]
      exact .inr ⟨a, _, .segment (size + 16), rfl, trivial, ht⟩
  | sem => exact hnamed _ _ _ (law.semInit _ value .cnt os) rfl
  | mutex => exact hnamed _ _ _ (law.semInit _ 1 .res os) ⟨rfl, rfl⟩
  | rwlock => exact hnamed _ _ _ (law.rwlInit _ os) trivial
  | cond => exact hnamed _ _ _ (law.semInit _ 0 .binPrio os) ⟨rfl, rfl⟩

/-- The outcome of attaching to an object of the kind. -/
theorem sysAttach_cases (k : Kind) (malloc : Bool) (name : CString) {os : σ} {users : Nat}
    (hentry : Entered k users (table os (R.nam2num name))) :
    (∃ e os', sysAttach R k malloc name os = (.error e, os') ∧ table os' = table os) ∨
    ∃ e os', table os (R.nam2num name) = some e ∧
      sysAttach R k malloc name os = (.ok e.adr, os') ∧
      table os' = Function.update (table os) (R.nam2num name)
        (some (if k = .mem then e.more else e)) := by
  have hnamed : k ≠ .mem →
      (∃ e os', namedAttach R malloc name os = (.error e, os') ∧ table os' = table os) ∨
      ∃ e os', table os (R.nam2num name) = some e ∧
        namedAttach R malloc name os = (.ok e.adr, os') ∧
        table os' = Function.update (table os) (R.nam2num name)
          (some (if k = .mem then e.more else e)) := by
    intro hk
    unfold namedAttach
    split
    · exact .inl ⟨_, os, rfl, rfl⟩
    · rw [law.getAdr_eq]
      cases he : table os (R.nam2num name) with
      | none => exact .inl ⟨_, os, rfl, rfl⟩
      | some e =>
        refine .inr ⟨e, os, rfl, rfl, ?_⟩
        rw [← he, Function.update_eq_self]
  cases k with
  | mem =>
    unfold sysAttach sysShmemAttach
    dsimp only
    have hacq := law.shmAlloc (R.nam2num name) 0 os
    cases he : table os (R.nam2num name) with
    | none =>
      rcases hacq.made he with ⟨hr, ht⟩ | ⟨hcan, -⟩
      · rw [show R.shmAlloc (R.nam2num name) 0 os = (none, _) from Prod.ext hr rfl]
        exact .inl ⟨_, _, rfl, ht⟩
      · exact absurd rfl hcan
    | some e =>
      rw [he] at hentry
      obtain ⟨hr, ht⟩ := hacq.found e he hentry.1.shape_eq
      rw [show R.shmAlloc (R.nam2num name) 0 os = (some e.adr, _) from Prod.ext hr rfl]
      exact .inr ⟨e, _, rfl, rfl, ht⟩
  | sem | mutex | rwlock | cond => exact hnamed (by simp)

/-- Deleting the only user of a lock takes it away. -/
theorem deleteLock_table {k : Kind} (hk : k ≠ .mem) {os : σ} {n : Nat} {e : Entry}
    (he : table os n = some e) (hentry : Entered k 1 (some e)) :
    table (deleteLock R k e.adr os) = Function.update (table os) n none := by
  have hless : e.less = none := by
    rw [Entry.less, if_pos (by rw [hentry.2])]
  have hshape := hentry.1.shape_eq
  cases k with
  | mem => exact absurd rfl hk
  | rwlock => rw [deleteLock, law.rwlDelete he hshape, hless]
  | sem | mutex | cond => rw [deleteLock, law.semDelete he hshape, hless]

end Services

variable {R} {table}

theorem Entered.congr {k : Kind} {users users' : Nat} {x : Option Entry} (h : Entered k users x)
    (hu : users' = users) : Entered k users' x := hu ▸ h

/-- What calls know of their slots stays true. -/
theorem callOk_mono {g g' : Internal c} {call : Call c} (h : CallOk g call)
    (hobj : ∀ i, (call.view.refers i) = true →
      (g'.objects i).type = (g.objects i).type ∧ (g'.objects i).name = (g.objects i).name) :
    CallOk g' call := by
  cases call with
  | referenced k name i =>
    obtain ⟨ht, hn⟩ := hobj i (by simp [Call.view])
    refine ⟨ht.trans h.1, ?_⟩
    rw [RegisteredObject.tname, hn]
    exact h.2
  | attachFailed k i => exact (hobj i (by simp [Call.view])).1.trans h
  | reserved _ _ _ _ _ | made _ _ _ _ _ | created _ _ | failed _ _ | done => trivial

theorem holdingOk_mono {g g' : Internal c} {x : Holding c} (h : HoldingOk g x)
    (hobj : ∀ i, x.view = some (.own i) → (g'.objects i).type = (g.objects i).type) :
    HoldingOk g' x := by
  cases x with
  | freed i => exact (hobj i rfl).trans h
  | live _ | gone => trivial

theorem handleOk_mono {s s' : Sys c σ} {x : Handle c} (h : HandleOk R table s x)
    (htype : (s'.world.mem.objects x.id).type = (s.world.mem.objects x.id).type)
    (hobject : ∀ e, table s.world.os (s.num R x.id) = some e →
      ∃ e', table s'.world.os (s'.num R x.id) = some e' ∧ e'.adr = e.adr)
    (hword : x.kind = .mem → s'.world.word x.adr = s.world.word x.adr) :
    HandleOk R table s' x := by
  obtain ⟨e, he, hadr⟩ := h.object
  obtain ⟨e', he', hadr'⟩ := hobject e he
  exact ⟨htype.trans h.type, ⟨e', he', hadr'.trans hadr⟩, fun hk => (hword hk).trans (h.word hk)⟩

namespace Agreed

variable {s s' : Sys c σ}

theorem tight (h : Agreed R table s) : s.world.mem.Tight := h.settled.tight

theorem words (h : Agreed R table s) : Marked s := fun x hx hk =>
  (h.handle x (.inl hx)).word hk

/-- The kind of a recorded slot is the one its type names. -/
theorem entry_of_type (h : Agreed R table s) {i : Slot c} (hi : s.Recorded i) {k : Kind}
    (hk : (s.world.mem.objects i).type = k.type) :
    Entered k (s.users k i) (table s.world.os (s.num R i)) := by
  obtain ⟨k', hk', hentry⟩ := h.entry i hi
  have hkk : k' = k := Kind.type_injective (hk'.symm.trans hk)
  subst hkk
  exact hentry

/-- RTAI has no object under a number that no slot in use has. -/
theorem table_none (h : Agreed R table s) {n : Nat}
    (hn : ∀ i, s.world.mem.used i = true → s.num R i ≠ n) : table s.world.os n = none := by
  cases he : table s.world.os n with
  | none => rfl
  | some e =>
    obtain ⟨i, hi, hin⟩ := h.owned n e he
    exact absurd hin (hn i (used_of_owned h.settled hi))

theorem calls_ok (h : Agreed R table s) {g' : Internal c}
    (hobj : ∀ i, s.Recorded i → (g'.objects i).type = (s.world.mem.objects i).type ∧
      (g'.objects i).name = (s.world.mem.objects i).name) :
    ∀ call ∈ s.calls, CallOk g' call := by
  intro call hc
  exact callOk_mono (h.call call hc) fun i hi =>
    hobj i (recorded_of_refs h.settled (refs_of_call hc hi))

theorem holdings_ok (h : Agreed R table s) {g' : Internal c}
    (hobj : ∀ i, s.Recorded i → (g'.objects i).type = (s.world.mem.objects i).type ∧
      (g'.objects i).name = (s.world.mem.objects i).name) :
    ∀ x ∈ s.handles, HoldingOk g' x := by
  intro x hx
  exact holdingOk_mono (h.holding x hx) fun i hi =>
    (hobj i (recorded_of_refs h.settled (refs_of_handle hx hi))).1

section Steps

variable (law : Lawful R table)

include law

/-- RTAI is not called, no object is made, and only memory that nobody holds any more loses
its slot. -/
theorem of_quiet (h : Agreed R table s) (hsettled : Protocol.Settled s'.view)
    (htable : table s'.world.os = table s.world.os) (hword : s'.world.word = s.world.word)
    (hobj : ∀ j, (s'.world.mem.objects j).type = (s.world.mem.objects j).type ∧
      (s'.world.mem.objects j).name = (s.world.mem.objects j).name)
    (hused : ∀ j, s'.world.mem.used j = true → s.world.mem.used j = true)
    (hrec : ∀ j, s'.Recorded j → s.Recorded j)
    (hlost : ∀ j, s.Recorded j → s'.Recorded j ∨
      (s.world.mem.objects j).type = Kind.mem.type)
    (hmade : ∀ k name size j adr, Call.made k name size j adr ∈ s'.calls ↔
      Call.made k name size j adr ∈ s.calls)
    (hholders : ∀ j, s'.holders j = s.holders j) (hhas : ∀ x, s'.Has x → s.Has x)
    (hcalls : ∀ call ∈ s'.calls, CallOk s'.world.mem call)
    (hholdings : ∀ x ∈ s'.handles, HoldingOk s'.world.mem x) : Agreed R table s' := by
  have hnum : ∀ j, s'.num R j = s.num R j := by
    intro j
    rw [Sys.num, Sys.num, (hobj j).2]
  refine ⟨hsettled, ?_, ?_, ?_, ?_, ?_, hcalls, hholdings⟩
  · intro i j hi hj hij
    rw [hnum, hnum] at hij
    exact h.distinct i j (hused i hi) (hused j hj) hij
  · intro i hi
    obtain ⟨k, hk, hentry⟩ := h.entry i (hrec i hi)
    refine ⟨k, (hobj i).1.trans hk, ?_⟩
    rw [htable, hnum]
    refine hentry.congr ?_
    rw [Sys.users, Sys.users, hholders]
  · intro n e he
    rw [htable] at he
    obtain ⟨i, hi | ⟨k, name, size, adr, hi⟩, hn⟩ := h.owned n e he
    · rcases hlost i hi with hi' | hmem
      · exact ⟨i, .inl hi', (hnum i).trans hn⟩
      · by_cases hi' : s'.Recorded i
        · exact ⟨i, .inl hi', (hnum i).trans hn⟩
        · exfalso
          have hentry := h.entry_of_type hi (k := .mem) hmem
          rw [hn, he, Entered, Sys.users, if_pos rfl, ← hholders i,
            holders_eq_zero hsettled hi'] at hentry
          exact absurd hentry.2 (law.users_pos he).ne'
    · exact ⟨i, .inr ⟨k, name, size, adr, (hmade k name size i adr).mpr hi⟩, (hnum i).trans hn⟩
  · intro k name size i adr hx
    rw [htable, hnum]
    exact h.made k name size i adr ((hmade k name size i adr).mp hx)
  · intro x hx
    refine handleOk_mono (h.handle x (hhas x hx)) (hobj x.id).1 ?_ fun _ => by rw [hword]
    intro e he
    rw [htable, hnum]
    exact ⟨e, he, rfl⟩

omit law in
/-- One slot and the entry of its number change. -/
theorem of_slot (h : Agreed R table s) (hsettled : Protocol.Settled s'.view) {i : Slot c}
    {x : Option Entry}
    (htable : table s'.world.os = Function.update (table s.world.os) (s'.num R i) x)
    (hobj : ∀ j, j ≠ i → (s'.world.mem.objects j).type = (s.world.mem.objects j).type ∧
      (s'.world.mem.objects j).name = (s.world.mem.objects j).name)
    (hused : ∀ j, j ≠ i → s'.world.mem.used j = true → s.world.mem.used j = true)
    (hapart : ∀ j, j ≠ i → s.world.mem.used j = true → s.num R j ≠ s'.num R i)
    (hold : s.Recorded i ∨ s.Unrecorded i → s.num R i = s'.num R i)
    (hrec : ∀ j, j ≠ i → (s'.Recorded j ↔ s.Recorded j))
    (hholders : ∀ j, j ≠ i → s'.holders j = s.holders j)
    (hentry : s'.Recorded i → ∃ k : Kind, (s'.world.mem.objects i).type = k.type ∧
      Entered k (s'.users k i) x)
    (hgone : ¬ s'.Recorded i → ¬ s'.Unrecorded i → x = none)
    (hmade : ∀ k name size j adr, j ≠ i → (Call.made k name size j adr ∈ s'.calls ↔
      Call.made k name size j adr ∈ s.calls))
    (hfresh : ∀ k name size adr, Call.made k name size i adr ∈ s'.calls →
      ∃ m, Fits k m ∧ x = some ⟨adr, 1, m⟩)
    (hhas : ∀ y, s'.Has y → y.id ≠ i →
      s.Has y ∧ (y.kind = .mem → s'.world.word y.adr = s.world.word y.adr))
    (hhandle : ∀ y, s'.Has y → y.id = i → HandleOk R table s' y)
    (hcalls : ∀ call ∈ s'.calls, CallOk s'.world.mem call)
    (hholdings : ∀ y ∈ s'.handles, HoldingOk s'.world.mem y) : Agreed R table s' := by
  have hnum : ∀ j, j ≠ i → s'.num R j = s.num R j := by
    intro j hj
    rw [Sys.num, Sys.num, (hobj j hj).2]
  have hsame : ∀ j, j ≠ i → s.Recorded j ∨ s.Unrecorded j →
      table s'.world.os (s'.num R j) = table s.world.os (s.num R j) := by
    intro j hj hr
    rw [htable, hnum j hj, Function.update_of_ne (hapart j hj (used_of_owned h.settled hr))]
  refine ⟨hsettled, ?_, ?_, ?_, ?_, ?_, hcalls, hholdings⟩
  · intro j k hj hk hjk
    by_cases hji : j = i
    · by_cases hki : k = i
      · rw [hji, hki]
      · rw [hji, hnum k hki] at hjk
        exact absurd hjk.symm (hapart k hki (hused k hki hk))
    · by_cases hki : k = i
      · rw [hki, hnum j hji] at hjk
        exact absurd hjk (hapart j hji (hused j hji hj))
      · rw [hnum j hji, hnum k hki] at hjk
        exact h.distinct j k (hused j hji hj) (hused k hki hk) hjk
  · intro j hj
    by_cases hji : j = i
    · subst hji
      rw [htable, Function.update_self]
      exact hentry hj
    · have hr := (hrec j hji).mp hj
      obtain ⟨k, hk, he⟩ := h.entry j hr
      refine ⟨k, (hobj j hji).1.trans hk, ?_⟩
      rw [hsame j hji (.inl hr)]
      refine he.congr ?_
      rw [Sys.users, Sys.users, hholders j hji]
  · intro n e he
    rw [htable] at he
    by_cases hn : n = s'.num R i
    · refine ⟨i, ?_, hn.symm⟩
      by_contra hi
      rw [not_or] at hi
      rw [hn, Function.update_self, hgone hi.1 hi.2] at he
      cases he
    · rw [Function.update_of_ne hn] at he
      obtain ⟨j, hj, rfl⟩ := h.owned n e he
      have hji : j ≠ i := by
        rintro rfl
        exact hn (hold hj)
      refine ⟨j, ?_, hnum j hji⟩
      rcases hj with hj | ⟨k, name, size, adr, hj⟩
      · exact .inl ((hrec j hji).mpr hj)
      · exact .inr ⟨k, name, size, adr, (hmade k name size j adr hji).mpr hj⟩
  · intro k name size j adr hx
    by_cases hji : j = i
    · subst hji
      rw [htable, Function.update_self]
      exact hfresh k name size adr hx
    · have hold' := (hmade k name size j adr hji).mp hx
      rw [hsame j hji (.inr ⟨k, name, size, adr, hold'⟩)]
      exact h.made k name size j adr hold'
  · intro y hy
    by_cases hyi : y.id = i
    · exact hhandle y hy hyi
    · obtain ⟨hys, hword⟩ := hhas y hy hyi
      refine handleOk_mono (h.handle y hys) (hobj y.id hyi).1 ?_ hword
      intro e he
      exact ⟨e, (hsame y.id hyi (.inl (recorded_of_has h.settled hys))).trans he, rfl⟩

end Steps

end Agreed

/-! ## Calls and registry fields after a step -/

/-- The call has made an object and not published it. -/
def Call.makes : Call c → Bool
  | made _ _ _ _ _ | created _ _ => true
  | reserved _ _ _ _ _ | failed _ _ | referenced _ _ _ | attachFailed _ _ | done => false

theorem Call.has_of_makes {call : Call c} (h : call.makes = false) (i : Slot c) :
    call.has i = false := by
  cases call with
  | created name y => cases h
  | reserved _ _ _ _ _ | made _ _ _ _ _ | failed _ _ | referenced _ _ _ | attachFailed _ _
  | done => rfl

/-- The same objects are made and not published. -/
def SameMade (calls calls' : List (Call c)) : Prop :=
  (∀ call : Call c, call.makes = true → (call ∈ calls' ↔ call ∈ calls)) ∧
    ∀ i, calls'.countP (Call.has i) = calls.countP (Call.has i)

theorem SameMade.created {calls calls' : List (Call c)} (h : SameMade calls calls')
    (name : CString) (y : Handle c) : Call.created name y ∈ calls' ↔ Call.created name y ∈ calls :=
  h.1 _ rfl

theorem sameMade_append {call : Call c} (hc : call.makes = false) (calls : List (Call c)) :
    SameMade calls (calls ++ [call]) := by
  constructor
  · intro call' hm
    rw [List.mem_append, List.mem_singleton]
    refine ⟨fun h => h.resolve_right ?_, .inl⟩
    rintro rfl
    rw [hc] at hm
    cases hm
  · intro i
    rw [Tally.countP_append_singleton, Call.has_of_makes hc]
    rfl

/-- Only calls of the kinds that are replaced come and go. -/
theorem mem_set_iff {calls : List (Call c)} {p : Nat} {call call' x : Call c}
    (hp : calls[p]? = some call) (hx : x ≠ call) (hx' : x ≠ call') :
    x ∈ calls.set p call' ↔ x ∈ calls :=
  ⟨fun h => (List.mem_or_eq_of_mem_set h).resolve_right hx', fun h => mem_set_of_ne h hp hx⟩

theorem sameMade_set {calls : List (Call c)} {p : Nat} {call call' : Call c}
    (hp : calls[p]? = some call) (hc : call.makes = false) (hc' : call'.makes = false) :
    SameMade calls (calls.set p call') := by
  constructor
  · intro x hx
    apply mem_set_iff hp
    · rintro rfl
      rw [hc] at hx
      cases hx
    · rintro rfl
      rw [hc'] at hx
      cases hx
  · intro i
    have hset := Tally.countP_set hp (Call.has i) call'
    rw [Call.has_of_makes hc, Call.has_of_makes hc'] at hset
    simpa using hset

theorem fields_of_update {g g' : Internal c} {i : Slot c} {o : RegisteredObject}
    (hg : g'.objects = Function.update g.objects i o) (ht : o.type = (g.objects i).type)
    (hn : o.name = (g.objects i).name) (j : Slot c) :
    (g'.objects j).type = (g.objects j).type ∧ (g'.objects j).name = (g.objects j).name := by
  rw [hg]
  by_cases hj : j = i
  · subst hj
    rw [Function.update_self]
    exact ⟨ht, hn⟩
  · rw [Function.update_of_ne hj]
    exact ⟨rfl, rfl⟩

theorem fields_inc (g : Internal c) (i j : Slot c) :
    ((incNameCount g i).objects j).type = (g.objects j).type ∧
      ((incNameCount g i).objects j).name = (g.objects j).name :=
  fields_of_update (incNameCount_objects g i) rfl rfl j

theorem fields_dec (g : Internal c) (i j : Slot c) :
    ((decCount g i).objects j).type = (g.objects j).type ∧
      ((decCount g i).objects j).name = (g.objects j).name :=
  fields_of_update (decCount_objects g i) rfl rfl j

namespace Agreed

variable {s s' : Sys c σ} (law : Lawful R table)

include law

/-- The handles stay, and so do the objects that creators have. -/
theorem of_calls (h : Agreed R table s) (hsettled : Protocol.Settled s'.view)
    (htable : table s'.world.os = table s.world.os) (hword : s'.world.word = s.world.word)
    (hhandles : s'.handles = s.handles) (hmade : SameMade s.calls s'.calls)
    (hobj : ∀ j, (s'.world.mem.objects j).type = (s.world.mem.objects j).type ∧
      (s'.world.mem.objects j).name = (s.world.mem.objects j).name)
    (hused : ∀ j, s'.world.mem.used j = true → s.world.mem.used j = true)
    (hcount : ∀ j, 0 < (s'.world.mem.objects j).count.toNat →
      0 < (s.world.mem.objects j).count.toNat)
    (hlost : ∀ j, 0 < (s.world.mem.objects j).count.toNat →
      0 < (s'.world.mem.objects j).count.toNat ∨
        (s.world.mem.objects j).type = Kind.mem.type)
    (hcalls : ∀ call ∈ s'.calls, CallOk s'.world.mem call) : Agreed R table s' := by
  refine h.of_quiet law hsettled htable hword hobj hused ?_ ?_ (fun _ _ _ _ _ => hmade.1 _ rfl)
    ?_ ?_ hcalls ?_
  · rintro j (hpos | ⟨name, y, hy, rfl⟩)
    · exact .inl (hcount j hpos)
    · exact .inr ⟨name, y, (hmade.1 _ rfl).mp hy, rfl⟩
  · rintro j (hpos | ⟨name, y, hy, rfl⟩)
    · exact (hlost j hpos).imp_left .inl
    · exact .inl (.inr ⟨name, y, (hmade.1 _ rfl).mpr hy, rfl⟩)
  · intro j
    rw [Sys.holders, Sys.holders, hhandles, hmade.2]
  · rintro x (hx | ⟨name, hx⟩)
    · exact .inl (hhandles ▸ hx)
    · exact .inr ⟨name, (hmade.1 _ rfl).mp hx⟩
  · rw [hhandles]
    exact h.holdings_ok fun j _ => hobj j

/-- Neither the registry nor RTAI changes. -/
theorem of_idle (h : Agreed R table s) (hsettled : Protocol.Settled s'.view)
    (hmem : s'.world.mem = s.world.mem) (htable : table s'.world.os = table s.world.os)
    (hword : s'.world.word = s.world.word) (hhandles : s'.handles = s.handles)
    (hmade : SameMade s.calls s'.calls)
    (hcalls : ∀ call ∈ s'.calls, CallOk s.world.mem call) : Agreed R table s' := by
  refine h.of_calls law hsettled htable hword hhandles hmade ?_ ?_ ?_ ?_ ?_
  · intro j
    rw [hmem]
    exact ⟨rfl, rfl⟩
  · intro j
    rw [hmem]
    exact id
  · intro j
    rw [hmem]
    exact id
  · intro j hj
    rw [hmem]
    exact .inl hj
  · rw [hmem]
    exact hcalls

end Agreed

theorem calls_append {g : Internal c} {calls : List (Call c)} {call : Call c}
    (h : ∀ x ∈ calls, CallOk g x) (hc : CallOk g call) :
    ∀ x ∈ calls ++ [call], CallOk g x := by
  intro x hx
  rcases List.mem_append.mp hx with hx | hx
  · exact h x hx
  · rw [List.mem_singleton.mp hx]
    exact hc

theorem calls_set {g : Internal c} {calls : List (Call c)} {call : Call c}
    (h : ∀ x ∈ calls, CallOk g x) (p : Nat) (hc : CallOk g call) :
    ∀ x ∈ calls.set p call, CallOk g x := by
  intro x hx
  rcases List.mem_or_eq_of_mem_set hx with hx | rfl
  · exact h x hx
  · exact hc

theorem used_of_dec {g : Internal c} {i j : Slot c} (h : (decCount g i).used j = true) :
    g.used j = true := used_of_decCount_used h

end Urt.Rtai
