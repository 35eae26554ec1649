import Urt.Lib.Tally
import Urt.Posix.Lifetime

/-!
# References and objects in step

While attachments do not fail, the registry and the system can be tied together more closely.
`Synced` says that counts are references, that every OS name leads to the object of a slot in
use, whose bookkeeping carries the number of the slot, that no two slots in use have the same
OS name, and that handles carry the slot they were obtained for. Each lemma of the last section
is one step; what the steps need is met by the runs of `Urt.Posix.Agreement`.
-/

namespace Urt.Posix

variable {c : Config}

open RegisteredObject

/-! ## References -/

/-- Whether a handle was obtained for slot `i`. -/
def carries (i : Slot c) : Option (Handle c) → Bool
  | some h => h.id == i
  | none => false

/-- Whether the call is an attacher that took a reference to slot `i` and has not finished. -/
def Call.refers (i : Slot c) : Call c → Bool
  | .referenced _ _ j | .attachFailed j => j == i
  | .reserved .. | .created _ | .failed _ | .done => false

/-- The references to slot `i` that live handles and unfinished attachers stand for. -/
def Sys.refs (s : Sys c) (i : Slot c) : Nat :=
  s.handles.countP (carries i) + s.calls.countP (Call.refers i)

@[simp] theorem carries_some (i : Slot c) (h : Handle c) :
    (carries i (some h)).toNat = if i = h.id then 1 else 0 := Tally.toNat_beq _ _

@[simp] theorem carries_none (i : Slot c) : carries i none = false := rfl

@[simp] theorem refers_referenced (i j : Slot c) (k : Kind) (name : CString) :
    ((Call.referenced k name j).refers i).toNat = if i = j then 1 else 0 := Tally.toNat_beq _ _

@[simp] theorem refers_attachFailed (i j : Slot c) :
    ((Call.attachFailed j).refers i).toNat = if i = j then 1 else 0 := Tally.toNat_beq _ _

@[simp] theorem refers_done (i : Slot c) : (Call.done : Call c).refers i = false := rfl

theorem refs_append_call (s : Sys c) (call : Call c) (i : Slot c) :
    s.handles.countP (carries i) + (s.calls ++ [call]).countP (Call.refers i) =
      s.refs i + (call.refers i).toNat := by
  rw [Tally.countP_append_singleton, Sys.refs]
  omega

theorem refs_append_handle (s : Sys c) (h : Handle c) (i : Slot c) :
    (s.handles ++ [some h]).countP (carries i) + s.calls.countP (Call.refers i) =
      s.refs i + if i = h.id then 1 else 0 := by
  rw [Tally.countP_append_singleton, carries_some, Sys.refs]
  omega

theorem refs_set_call {s : Sys c} {p : Nat} {call : Call c} (hp : s.calls[p]? = some call)
    (call' : Call c) (i : Slot c) :
    s.handles.countP (carries i) + (s.calls.set p call').countP (Call.refers i) +
        (call.refers i).toNat =
      s.refs i + (call'.refers i).toNat := by
  have := Tally.countP_set hp (Call.refers i) call'
  rw [Sys.refs]
  omega

theorem refs_set_handle {s : Sys c} {q : Nat} {h : Handle c} (hq : s.handles[q]? = some (some h))
    (i : Slot c) :
    (s.handles.set q none).countP (carries i) + s.calls.countP (Call.refers i) +
        (if i = h.id then 1 else 0) =
      s.refs i := by
  have := Tally.countP_set hq (carries i) none
  rw [carries_some, carries_none, Bool.toNat_false] at this
  rw [Sys.refs]
  omega

theorem refs_pos_of_handle {s : Sys c} {h : Handle c} (hh : some h ∈ s.handles) :
    0 < s.refs h.id := by
  have : 0 < s.handles.countP (carries h.id) :=
    List.countP_pos_iff.mpr ⟨some h, hh, by simp [carries]⟩
  rw [Sys.refs]
  omega

theorem refs_pos_of_call {s : Sys c} {call : Call c} {i : Slot c} (hc : call ∈ s.calls)
    (hi : call.refers i = true) : 0 < s.refs i := by
  have : 0 < s.calls.countP (Call.refers i) := List.countP_pos_iff.mpr ⟨call, hc, hi⟩
  rw [Sys.refs]
  omega

/-! ## The invariant -/

/-- The handle carries the slot it was obtained for, which holds an object of its kind. -/
structure HandleOk (w : World c) (h : Handle c) : Prop where
  slot : h.slot w.os = h.id
  bound : h.ino < w.os.next
  type : (w.mem.objects h.id).type = h.kind.type

/-- An attacher looks for the name and the kind that it found in the registry; no call has
failed, and there are no creators. -/
def CallOk (g : Internal c) : Call c → Prop
  | .referenced k name i => (g.objects i).tname = truncName name ∧ (g.objects i).type = k.type
  | .done => True
  | .attachFailed _ | .reserved .. | .created _ | .failed _ => False

/-- Slot `i` is in use for the object that an OS name leads to. -/
structure Owner (w : World c) (sp : Space) (n : OsName) (ino : Nat) (i : Slot c) : Prop
    extends Named w.mem sp n i where
  id : sp = .shm → (w.os.inode ino).id = i

/-- A handle stays good while its inode and the type in its slot stay. -/
theorem HandleOk.mono {w w' : World c} {x : Handle c} (h : HandleOk w x)
    (hnext : w.os.next ≤ w'.os.next) (hinode : w'.os.inode x.ino = w.os.inode x.ino)
    (htype : (w'.mem.objects x.id).type = (w.mem.objects x.id).type) : HandleOk w' x := by
  refine ⟨?_, lt_of_lt_of_le h.bound hnext, by rw [htype, h.type]⟩
  have hslot := h.slot
  unfold Handle.slot at hslot ⊢
  rw [hinode]
  exact hslot

/-- A slot owns a name while it is in use with the same name and type. -/
theorem Owner.mono {w w' : World c} {sp : Space} {n : OsName} {ino : Nat} {i : Slot c}
    (h : Owner w sp n ino i) (hu : w'.mem.used i = true)
    (hname : (w'.mem.objects i).name = (w.mem.objects i).name)
    (htype : (w'.mem.objects i).type = (w.mem.objects i).type)
    (hinode : w'.os.inode ino = w.os.inode ino) : Owner w' sp n ino i := by
  refine ⟨⟨hu, by rw [htype]; exact h.space, ?_⟩, by rw [hinode]; exact h.id⟩
  rw [osName, hname]
  exact h.name

/-- The name a slot owns is the one that its entry leads to. -/
theorem Owner.objectOf_eq {w : World c} {sp : Space} {n : OsName} {ino : Nat} {i : Slot c}
    (h : Owner w sp n ino i) (hl : w.os.link sp n = some ino) : objectOf w i = some ino := by
  obtain ⟨k, hk, rfl⟩ := h.space
  exact (objectOf_iff hk ino).mpr ⟨n, h.name, hl⟩

/-- A call stays good while the name and the type in its slot stay. -/
theorem CallOk.mono {g g' : Internal c} {call : Call c} (h : CallOk g call)
    (hkeep : ∀ i, call.refers i = true → (g'.objects i).name = (g.objects i).name ∧
      (g'.objects i).type = (g.objects i).type) : CallOk g' call := by
  cases call with
  | referenced k name i =>
    obtain ⟨hname, htype⟩ := hkeep i (by simp [Call.refers])
    refine ⟨?_, htype.trans h.2⟩
    rw [tname, hname]
    exact h.1
  | done => trivial
  | attachFailed _ | reserved _ _ _ _ _ | created _ | failed _ => exact h.elim

/-- The registry and the system are in step. -/
structure Synced (s : Sys c) : Prop where
  sound : s.world.os.Sound
  tight : s.world.mem.Tight
  unreserved : ∀ i, (s.world.mem.objects i).reserved = false
  counted : ∀ i, (s.world.mem.objects i).count.toNat = s.refs i
  owned : ∀ sp n ino, s.world.os.link sp n = some ino → ∃ i, Owner s.world sp n ino i
  apart : ∀ i j n, s.world.mem.used i = true → s.world.mem.used j = true →
    osName s.world.mem i = some n → osName s.world.mem j = some n → i = j
  handles : ∀ h, some h ∈ s.handles → HandleOk s.world h
  calls : ∀ call ∈ s.calls, CallOk s.world.mem call

/-! ### Creation -/

/-- The world after a whole creation in slot `i`. -/
def created (w : World c) (k : Kind) (name : CString) (i : Slot c) (n : OsName) (x : Inode c)
    (o : RegisteredObject) : World c :=
  { mem := (reserved w.mem i name).setObject i o, os := w.os.create k.space n x }

theorem created_objects (w : World c) (k : Kind) (name : CString) (i : Slot c) (n : OsName)
    (x : Inode c) (o : RegisteredObject) :
    (created w k name i n x o).mem.objects = Function.update w.mem.objects i o := by
  rw [created, Internal.setObject_objects, reserved_objects, Function.update_idem]

section Created

variable {w : World c} {k : Kind} {name : CString} {i : Slot c} {n : OsName} {x : Inode c}
  {o : RegisteredObject}

theorem created_self : (created w k name i n x o).mem.objects i = o := by
  rw [created_objects, Function.update_self]

theorem created_of_ne {j : Slot c} (hj : j ≠ i) :
    (created w k name i n x o).mem.objects j = w.mem.objects j := by
  rw [created_objects, Function.update_of_ne hj]

theorem created_used_of_ne {j : Slot c} (hj : j ≠ i) :
    (created w k name i n x o).mem.used j = w.mem.used j := by
  rw [Internal.used, created_of_ne hj, Internal.used]

/-- A slot in use has the new name, or it was in use and has the name it had. -/
theorem created_osName (hon : convertName o.name.str = some n) {j : Slot c} {m : OsName}
    (hu : (created w k name i n x o).mem.used j = true)
    (hm : osName (created w k name i n x o).mem j = some m) :
    j = i ∧ m = n ∨ w.mem.used j = true ∧ osName w.mem j = some m := by
  by_cases hj : j = i
  · rw [osName, hj, created_self, hon] at hm
    exact .inl ⟨hj, (Option.some.inj hm).symm⟩
  · rw [osName, created_of_ne hj] at hm
    exact .inr ⟨(created_used_of_ne hj).symm.trans hu, hm⟩

/-- With a name that no slot had, the names are still apart. -/
theorem created_apart (hon : convertName o.name.str = some n)
    (hfresh : ∀ j, w.mem.used j = true → osName w.mem j ≠ some n)
    (hapart : ∀ j j' m, w.mem.used j = true → w.mem.used j' = true → osName w.mem j = some m →
      osName w.mem j' = some m → j = j') {j j' : Slot c} {m : OsName}
    (hj : (created w k name i n x o).mem.used j = true)
    (hj' : (created w k name i n x o).mem.used j' = true)
    (hjm : osName (created w k name i n x o).mem j = some m)
    (hj'm : osName (created w k name i n x o).mem j' = some m) : j = j' := by
  obtain ⟨rfl, rfl⟩ | ⟨hu, hm⟩ := created_osName hon hj hjm
  · obtain ⟨rfl, -⟩ | ⟨hu', hm'⟩ := created_osName hon hj' hj'm
    · rfl
    · exact absurd hm' (hfresh j' hu')
  · obtain ⟨-, rfl⟩ | ⟨hu', hm'⟩ := created_osName hon hj' hj'm
    · exact absurd hm (hfresh j hu)
    · exact hapart j j' m hu hu' hm hm'

/-- The new slot owns the new name. -/
theorem created_owner (hou : o.inUse = true) (hon : convertName o.name.str = some n)
    (htype : o.type = k.type) (hx : k.space = .shm → x.id = i) :
    Owner (created w k name i n x o) k.space n w.os.next i := by
  refine ⟨⟨?_, ⟨k, by rw [created_self, htype], rfl⟩, ?_⟩, ?_⟩
  · rw [Internal.used, created_self, hou]
  · rw [osName, created_self, hon]
  · intro hk
    rw [created, Os.create_inode_self]
    exact hx hk

/-- The creator's handle is good. -/
theorem created_handleOk (htype : o.type = k.type) (hx : k.space = .shm → x.id = i) :
    HandleOk (created w k name i n x o) { kind := k, ino := w.os.next, id := i } := by
  refine ⟨?_, Nat.lt_succ_self _, by rw [created_self, htype]⟩
  have hid : k.space = .shm → ((created w k name i n x o).os.inode w.os.next).id = i := by
    intro hk
    rw [created, Os.create_inode_self]
    exact hx hk
  cases k with
  | sem => rfl
  | mem | mutex | rwlock | cond => exact hid rfl

end Created

/-! ### Preservation -/

namespace Synced

variable {s s' : Sys c}

theorem used_iff (h : Synced s) (i : Slot c) :
    s.world.mem.used i = true ↔ 0 < s.refs i := by
  rw [Internal.used, inUse_iff, h.unreserved i, h.counted i]
  simp

/-- The rule for steps that register nothing: names and types of the slots in use stay, no
name is linked, and whoever owns a name that stays linked stays in use. -/
theorem of_kept (h : Synced s) (hsound : s'.world.os.Sound)
    (hnext : s.world.os.next ≤ s'.world.os.next)
    (hinode : ∀ ino < s.world.os.next, s'.world.os.inode ino = s.world.os.inode ino)
    (htight : s'.world.mem.Tight) (hres : ∀ i, (s'.world.mem.objects i).reserved = false)
    (hcount : ∀ i, (s'.world.mem.objects i).count.toNat = s'.refs i)
    (hkeep : Kept s.world.mem s'.world.mem)
    (hlink : ∀ sp n ino, s'.world.os.link sp n = some ino → s.world.os.link sp n = some ino ∧
      ∀ i, Owner s.world sp n ino i → s'.world.mem.used i = true)
    (hhandles : ∀ x, some x ∈ s'.handles → some x ∈ s.handles ∨ HandleOk s'.world x)
    (hcalls : ∀ call ∈ s'.calls, call ∈ s.calls ∨ CallOk s'.world.mem call) : Synced s' := by
  have hused : ∀ i, 0 < s'.refs i → s'.world.mem.used i = true := by
    intro i hi
    rw [← hcount i] at hi
    exact inUse_iff.mpr (.inr hi)
  refine ⟨hsound, htight, hres, hcount, ?_, ?_, ?_, ?_⟩
  · intro sp n ino hl
    obtain ⟨hl, hown⟩ := hlink sp n ino hl
    obtain ⟨i, hi⟩ := h.owned sp n ino hl
    obtain ⟨-, hname, htype⟩ := hkeep i (hown i hi)
    exact ⟨i, hi.mono (hown i hi) hname htype (hinode ino (h.sound.bound sp n ino hl))⟩
  · intro i j n hi hj hin hjn
    obtain ⟨hui, hni, -⟩ := hkeep i hi
    obtain ⟨huj, hnj, -⟩ := hkeep j hj
    rw [osName, hni] at hin
    rw [osName, hnj] at hjn
    exact h.apart i j n hui huj hin hjn
  · intro x hx
    rcases hhandles x hx with hx₀ | hok
    · have hok := h.handles x hx₀
      obtain ⟨-, -, htype⟩ := hkeep x.id (hused x.id (refs_pos_of_handle hx))
      exact hok.mono hnext (hinode x.ino hok.bound) htype
    · exact hok
  · intro call hc
    rcases hcalls call hc with hc₀ | hok
    · exact (h.calls call hc₀).mono fun i hi => (hkeep i (hused i (refs_pos_of_call hc hi))).2
    · exact hok

/-- The rule for a deregistration: if the slot is freed, it owns no name that stays. -/
theorem of_dec (h : Synced s) {i : Slot c} (hmem : s'.world.mem = decCount s.world.mem i)
    (hrefs : ∀ j, s'.refs j + (if j = i then 1 else 0) = s.refs j) (hsound : s'.world.os.Sound)
    (hnext : s.world.os.next ≤ s'.world.os.next) (hinode : s'.world.os.inode = s.world.os.inode)
    (hlink : ∀ sp n ino, s'.world.os.link sp n = some ino → s.world.os.link sp n = some ino ∧
      ((s.world.mem.objects i).count.toNat ≤ 1 → ¬ Owner s.world sp n ino i))
    (hhandles : ∀ x, some x ∈ s'.handles → some x ∈ s.handles)
    (hcalls : ∀ call ∈ s'.calls, call ∈ s.calls ∨ call = .done) : Synced s' := by
  have hobj : s'.world.mem.objects =
      Function.update s.world.mem.objects i (s.world.mem.objects i).dec := by
    rw [hmem, decCount_objects]
  refine h.of_kept hsound hnext (fun _ _ => by rw [hinode])
    (by rw [hmem]; exact decCount_tight h.tight i) ?_ ?_
    (by rw [hmem]; exact kept_dec _ i)
    (fun sp n ino hl => ⟨(hlink sp n ino hl).1, ?_⟩)
    (fun x hx => .inl (hhandles x hx)) ?_
  · intro j
    rw [hobj]
    by_cases hj : j = i
    · rw [hj, Function.update_self, dec_reserved]
    · rw [Function.update_of_ne hj]
      exact h.unreserved j
  · intro j
    have := hrefs j
    rw [hmem, count_decCount, h.counted j]
    omega
  · intro j hown
    rw [hmem]
    by_cases hj : j = i
    · subst hj
      rw [used_dec_iff]
      by_contra hc
      exact (hlink sp n ino hl).2 (by omega) hown
    · rw [used_dec_of_ne _ hj]
      exact hown.used
  · intro call hc
    rcases hcalls call hc with hc | rfl
    · exact .inl hc
    · exact .inr trivial

/-! ### The steps -/

/-- A creation that failed without effect. -/
theorem newFailed (h : Synced s) {i : Slot c} {name : CString} {os' : Os c}
    (hfree : findFree s.world.mem = some i) (hos : s.world.os.Unmade os') :
    Synced { s with world := { mem := decCount (reserved s.world.mem i name) i, os := os' } } := by
  have hui := (findFree_some hfree).1
  have hobj := failed_objects s.world.mem i name
  refine h.of_kept (Os.unmade_later hos h.sound).1 hos.next hos.inode
    (decCount_tight (reserved_tight h.tight i name) i) ?_ ?_
    (kept_failed hui name)
    (fun sp n ino hl => ⟨by rwa [← hos.link], ?_⟩)
    (fun x hx => .inl hx) fun call hc => .inl hc
  · intro j
    change ((decCount _ _).objects j).reserved = false
    rw [hobj]
    by_cases hj : j = i
    · rw [hj, Function.update_self, dec_reserved]
    · rw [Function.update_of_ne hj]
      exact h.unreserved j
  · intro j
    change ((decCount _ _).objects j).count.toNat = s.refs j
    rw [← h.counted j, hobj]
    by_cases hj : j = i
    · rw [hj, Function.update_self, (inUse_eq_false_iff.mp hui).2]
      rfl
    · rw [Function.update_of_ne hj]
  · intro j hown
    exact (failed_used hui name j).trans hown.used

/-- An attacher takes its reference. -/
theorem lookup (h : Synced s) {k : Kind} {name : CString} {i : Slot c}
    (hfind : findByName s.world.mem name = some i)
    (hk : (s.world.mem.objects i).type = k.type)
    (hi : (s.world.mem.objects i).count.toNat + 1 < 2 ^ 32) :
    Synced { s with
      world := { s.world with mem := incNameCount s.world.mem i }
      calls := s.calls ++ [.referenced k name i] } := by
  obtain ⟨hui, hname, -⟩ := findByName_some hfind
  have hobj : ∀ j, ((incNameCount s.world.mem i).objects j).reserved = false := by
    intro j
    rw [incNameCount_objects]
    by_cases hj : j = i
    · rw [hj, Function.update_self]
      rfl
    · rw [Function.update_of_ne hj]
      exact h.unreserved j
  refine h.of_kept h.sound (le_refl _) (fun _ _ => rfl) (incNameCount_tight h.tight hui hi)
    hobj ?_ (kept_inc hui)
    (fun sp n ino hl => ⟨hl, fun j hown => (used_inc hui hi j).trans hown.used⟩)
    (fun x hx => .inl hx) ?_
  · intro j
    refine Eq.trans ?_ (refs_append_call s (.referenced k name i) j).symm
    rw [count_incNameCount hi, h.counted j, refers_referenced]
  · intro call hc
    rcases List.mem_append.mp hc with hc | hc
    · exact .inl hc
    · rw [List.mem_singleton.mp hc]
      refine .inr ?_
      change ((incNameCount _ _).objects i).tname = _ ∧ ((incNameCount _ _).objects i).type = _
      rw [incNameCount_objects, Function.update_self]
      exact ⟨hname, hk⟩

/-- An object found under the name of a slot in use is the one the slot owns. -/
theorem owner_of_finds (h : Synced s) {k : Kind} {name : CString} {i : Slot c} {n : OsName}
    {ino : Nat} (hu : s.world.mem.used i = true)
    (hname : (s.world.mem.objects i).tname = truncName name) (hn : convertName name = some n)
    (hl : s.world.os.link k.space n = some ino) : Owner s.world k.space n ino i := by
  obtain ⟨j, hj⟩ := h.owned _ _ _ hl
  have hij : j = i := h.apart j i n hj.used hu hj.name ((osName_of_tname hname).trans hn)
  rwa [hij] at hj

/-- An attacher has the name and the kind of its slot, which is in use. -/
theorem referenced (h : Synced s) {p : Nat} {k : Kind} {name : CString} {i : Slot c}
    (hp : s.calls[p]? = some (.referenced k name i)) :
    s.world.mem.used i = true ∧ (s.world.mem.objects i).tname = truncName name ∧
      (s.world.mem.objects i).type = k.type := by
  have hmem := List.mem_of_getElem? hp
  exact ⟨(h.used_iff i).mpr (refs_pos_of_call hmem (by simp [Call.refers])), h.calls _ hmem⟩

/-- An attacher gets its handle; the bookkeeping it writes is there already. -/
theorem attached (h : Synced s) {p : Nat} {k : Kind} {name : CString} {i : Slot c} {n : OsName}
    {ino : Nat} {o : RegisteredObject} (hp : s.calls[p]? = some (.referenced k name i))
    (hf : Finds k name s.world.os n ino) (ho : SameEntry (s.world.mem.objects i) o)
    (htype : o.type = (s.world.mem.objects i).type) :
    Synced { s with
      world := { mem := s.world.mem.setObject i o, os := s.world.os.setId k ino i }
      calls := s.calls.set p .done
      handles := s.handles ++ [some { kind := k, ino := ino, id := i }] } := by
  obtain ⟨hui, hname, hk⟩ := h.referenced hp
  have hown := h.owner_of_finds hui hname hf.1 hf.2.1
  have hos : s.world.os.setId k ino i = s.world.os := Os.setId_self hown.id
  have hobj : ∀ j, SameEntry (s.world.mem.objects j) ((s.world.mem.setObject i o).objects j) := by
    intro j
    rw [Internal.setObject_objects]
    by_cases hj : j = i
    · subst hj
      rw [Function.update_self]
      exact ho
    · rw [Function.update_of_ne hj]
      exact .refl _
  rw [hos]
  refine h.of_kept h.sound (le_refl _) (fun _ _ => rfl)
    (setObject_tight h.tight hui (by rw [ho.inUse_eq]; exact hui))
    (fun j => (hobj j).2.1.trans (h.unreserved j)) ?_ (kept_setObject ho htype)
    (fun sp m x hl => ⟨hl, fun j hj => (used_setObject ho j).trans hj.used⟩) ?_
    ?_
  · intro j
    change _ = (s.handles ++ [some _]).countP (carries j) +
      (s.calls.set p .done).countP (Call.refers j)
    have hset := refs_set_call hp .done j
    rw [refers_referenced, refers_done, Bool.toNat_false, Sys.refs] at hset
    have hcount := h.counted j
    rw [Sys.refs] at hcount
    rw [(hobj j).2.2, Tally.countP_append_singleton, carries_some]
    dsimp only
    omega
  · intro x hx
    rcases List.mem_append.mp hx with hx | hx
    · exact .inl hx
    · cases List.mem_singleton.mp hx
      refine .inr ⟨?_, h.sound.bound _ _ _ hf.2.1, ?_⟩
      · have hid := hown.id
        cases k with
        | sem => rfl
        | mem | mutex | rwlock | cond => exact hid rfl
      · change ((s.world.mem.setObject i o).objects i).type = _
        rw [Internal.setObject_objects, Function.update_self, htype, hk]
  · intro call hc
    rcases List.mem_or_eq_of_mem_set hc with hc | rfl
    · exact .inl hc
    · exact .inr trivial

/-- A handle is detached; the last one takes the name of the object with it. -/
theorem detach (h : Synced s) {q : Nat} {busy : List Bool} {x : Handle c}
    (hq : s.handles[q]? = some (some x)) :
    Synced { s with
      world :=
        { mem := decCount s.world.mem (x.slot s.world.os)
          os := released busy x (s.world.mem.objects (x.slot s.world.os)).dec s.world.os }
      handles := s.handles.set q none } := by
  have hx := h.handles x (List.mem_of_getElem? hq)
  rw [hx.slot]
  refine h.of_dec (i := x.id) rfl (refs_set_handle hq) (Os.released_later h.sound _ _ _).1
    (released_next _ _ _ _).ge (released_inode _ _ _ _) ?_ ?_
    fun call hc => .inl hc
  · intro sp n ino hl
    obtain ⟨hl, hne⟩ := link_of_released hl
    refine ⟨hl, fun hc hown => ?_⟩
    have hzero : (s.world.mem.objects x.id).dec.count = 0 := by
      rw [← UInt32.toNat_inj, dec_count, UInt32.toNat_zero]
      omega
    obtain ⟨k, hk, hsp⟩ := hown.space
    cases Kind.type_injective (hk.symm.trans hx.type)
    exact hne hzero hsp.symm hown.name
  · intro y hy
    rcases List.mem_or_eq_of_mem_set hy with hy | hy
    · exact hy
    · cases hy

/-- The lookup of an attacher finds nothing. -/
theorem missing (h : Synced s) : Synced { s with calls := s.calls ++ [.done] } := by
  refine h.of_kept h.sound (le_refl _) (fun _ _ => rfl) h.tight h.unreserved ?_
    (.refl _) (fun sp n ino hl => ⟨hl, fun j hj => hj.used⟩)
    (fun x hx => .inl hx) ?_
  · intro j
    exact (h.counted j).trans (refs_append_call s .done j).symm
  · intro call hc
    rcases List.mem_append.mp hc with hc | hc
    · exact .inl hc
    · rw [List.mem_singleton.mp hc]
      exact .inr trivial

/-- No slot in use has the OS name of a new object: it would have been found by its name. -/
theorem fresh (h : Synced s) {name : CString} {n : OsName}
    (hfind : findByName s.world.mem name = none) (hn : convertName name = some n)
    (hapart : ∀ j m, s.world.mem.used j = true → osName s.world.mem j = some m →
      convertName name = some m → (s.world.mem.objects j).tname = truncName name)
    {j : Slot c} (hj : s.world.mem.used j = true) : osName s.world.mem j ≠ some n :=
  fun hjn => findByName_none hfind (h.tight.le_index hj) hj (hapart j n hj hjn hn)

/-- An object is created and published. -/
theorem newDone (h : Synced s) {k : Kind} {name : CString} {i : Slot c} {n : OsName}
    {x : Inode c} {o : RegisteredObject} (hfind : findByName s.world.mem name = none)
    (hfree : findFree s.world.mem = some i) (hn : convertName name = some n)
    (hlink : s.world.os.link k.space n = none)
    (hx : k.space = .shm → x.size ≠ 0 ∧ x.id = i) (hon : convertName o.name.str = some n)
    (hres : o.reserved = false) (hcount : o.count = 1) (htype : o.type = k.type)
    (hapart : ∀ j m, s.world.mem.used j = true → osName s.world.mem j = some m →
      convertName name = some m → (s.world.mem.objects j).tname = truncName name)
    {s' : Sys c} (hw : s'.world = created s.world k name i n x o)
    (hcalls : s'.calls = s.calls)
    (hhandles : s'.handles = s.handles ++ [some { kind := k, ino := s.world.os.next, id := i }]) :
    Synced s' := by
  have hui := (findFree_some hfree).1
  have hou : o.inUse = true := inUse_iff.mpr (.inr (by rw [hcount]; decide))
  have hold : ∀ j, s.world.mem.used j = true → j ≠ i := fun j hj => ne_of_findFree hfree hj
  have hself : s'.world.mem.objects i = o := by rw [hw, created_self]
  have hne : ∀ j, j ≠ i → s'.world.mem.objects j = s.world.mem.objects j := by
    intro j hj
    rw [hw, created_of_ne hj]
  have hused : ∀ j, j ≠ i → s'.world.mem.used j = s.world.mem.used j := by
    intro j hj
    rw [hw, created_used_of_ne hj]
  have hinode : ∀ ino < s.world.os.next, s'.world.os.inode ino = s.world.os.inode ino := by
    intro ino hlt
    rw [hw]
    exact Os.create_inode _ _ _ hlt
  have hfresh : ∀ j, s.world.mem.used j = true → osName s.world.mem j ≠ some n :=
    fun j hj => h.fresh hfind hn hapart hj
  refine ⟨by rw [hw]; exact (Os.create_later h.sound _ hlink).1, ?_, ?_, ?_, ?_, ?_, ?_, ?_⟩
  · rw [hw]
    refine setObject_tight (reserved_tight h.tight i name) ?_ hou
    rw [reserved_used, Function.update_self]
  · intro j
    by_cases hj : j = i
    · rw [hj, hself, hres]
    · rw [hne j hj]
      exact h.unreserved j
  · intro j
    have hrefs := refs_append_handle s { kind := k, ino := s.world.os.next, id := i } j
    rw [Sys.refs, hcalls, hhandles, hrefs, ← h.counted j]
    dsimp only
    by_cases hj : j = i
    · rw [hj, hself, hcount, if_pos rfl, (inUse_eq_false_iff.mp hui).2]
      rfl
    · rw [hne j hj, if_neg hj, Nat.add_zero]
  · intro sp m ino hl
    rw [hw] at hl
    rcases Os.link_of_create hl with ⟨he, rfl⟩ | ⟨-, hl⟩
    · cases he
      rw [hw]
      exact ⟨i, created_owner hou hon htype fun hk => (hx hk).2⟩
    · obtain ⟨j, hj⟩ := h.owned sp m ino hl
      have hji := hold j hj.used
      exact ⟨j, hj.mono ((hused j hji).trans hj.used) (by rw [hne j hji]) (by rw [hne j hji])
        (hinode ino (h.sound.bound sp m ino hl))⟩
  · intro j j' m hj hj' hjm hj'm
    rw [hw] at hj hj' hjm hj'm
    exact created_apart hon hfresh h.apart hj hj' hjm hj'm
  · intro y hy
    rw [hhandles] at hy
    rcases List.mem_append.mp hy with hy | hy
    · have hok := h.handles y hy
      have hyi := hold y.id ((h.used_iff _).mpr (refs_pos_of_handle hy))
      refine hok.mono ?_ (hinode y.ino hok.bound) (by rw [hne y.id hyi])
      rw [hw]
      exact Nat.le_succ _
    · cases List.mem_singleton.mp hy
      rw [hw]
      exact created_handleOk htype fun hk => (hx hk).2
  · intro call hc
    rw [hcalls] at hc
    apply (h.calls call hc).mono
    intro j hj
    rw [hne j (hold j ((h.used_iff j).mpr (refs_pos_of_call hc hj)))]
    exact ⟨rfl, rfl⟩

end Synced

/-! ### The initial state -/

theorem synced_init {g : Internal c} (hg : g.initialized = false) : Synced (Sys.init g) := by
  have hobj : ∀ i, (Sys.init g).world.mem.objects i = .zero := by
    intro i
    simp [Sys.init, registryInit, hg]
  have hused : ∀ i, (Sys.init g).world.mem.used i = false := by
    intro i
    rw [Internal.used, hobj i]
    rfl
  refine ⟨Os.sound_empty, registryInit_tight hg, ?_, ?_, ?_, ?_, ?_, ?_⟩
  · intro i
    rw [hobj i]
    rfl
  · intro i
    rw [hobj i]
    rfl
  · rintro sp n ino ⟨⟩
  · intro i j n hi
    rw [hused i] at hi
    cases hi
  · rintro x ⟨⟩
  · rintro call ⟨⟩

end Urt.Posix
