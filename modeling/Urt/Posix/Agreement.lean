import Urt.Posix.References

/-!
# The registry and the system agree

In ordinary use names are documented ones, an attachment asks for the kind that the registry
has for the name, and system calls fail only because a name exists or is missing. In such runs
every OS name leads to the object of a slot in use (`Synced`). `Agreed` adds the converse: the
object of every slot in use is still linked, so whoever holds a reference finds it. The lock of
an object has been destroyed once if the object has lost its name, and never before.
-/

namespace Urt

variable {c : Config}

/-! ## Destroyed locks -/

/-- Whether an event destroys the lock in the given segment. -/
def OsEvent.destroys (ino : Nat) : OsEvent → Bool
  | .destroy j => j == ino
  | .unlink .. | .munmap .. | .semClose _ => false

namespace Os

/-- How often the lock in a segment was destroyed. -/
def destroys (os : Os c) (ino : Nat) : Nat := os.log.countP (OsEvent.destroys ino)

/-- Some name leads to the inode. -/
def Linked (os : Os c) (ino : Nat) : Prop := ∃ sp n, os.link sp n = some ino

/-- The lock of an object of kind `k` is destroyed once its name is gone. -/
def Closed (os : Os c) (k : Kind) (ino : Nat) : Prop :=
  (os.Linked ino → os.destroys ino = 0) ∧
    (¬ os.Linked ino → os.destroys ino = if k.isLock then 1 else 0)

theorem Closed.congr {os os' : Os c} {k : Kind} {ino : Nat} (h : os.Closed k ino)
    (hlinked : os'.Linked ino ↔ os.Linked ino) (hdestroys : os'.destroys ino = os.destroys ino) :
    os'.Closed k ino := by
  unfold Closed
  rw [hlinked, hdestroys]
  exact h

theorem linked_congr {os os' : Os c} (h : os'.link = os.link) (ino : Nat) :
    os'.Linked ino ↔ os.Linked ino := by
  unfold Linked
  rw [h]

/-- An inode other than the new one is linked as before. -/
theorem linked_create {os : Os c} {sp : Space} {n : OsName} (x : Inode c)
    (hfree : os.link sp n = none) {ino : Nat} (hne : ino ≠ os.next) :
    (os.create sp n x).Linked ino ↔ os.Linked ino := by
  constructor
  · rintro ⟨sp', n', hl⟩
    rcases link_of_create hl with ⟨-, rfl⟩ | ⟨-, hl⟩
    · exact absurd rfl hne
    · exact ⟨sp', n', hl⟩
  · rintro ⟨sp', n', hl⟩
    refine ⟨sp', n', ?_⟩
    rw [create_link_of_ne, hl]
    rintro he
    cases he
    rw [hfree] at hl
    cases hl

theorem linked_unlink {os : Os c} (hs : os.Sound) {sp : Space} {n : OsName} {j : Nat}
    (hl : os.link sp n = some j) (ino : Nat) :
    (os.unlink sp n).Linked ino ↔ os.Linked ino ∧ ino ≠ j := by
  constructor
  · rintro ⟨sp', n', hl'⟩
    obtain ⟨hne, hl'⟩ := link_of_unlink hl'
    refine ⟨⟨sp', n', hl'⟩, ?_⟩
    rintro rfl
    exact hne (hs.single sp n sp' n' ino hl hl')
  · rintro ⟨⟨sp', n', hl'⟩, hne⟩
    refine ⟨sp', n', ?_⟩
    rw [unlink_of_ne, hl']
    rintro he
    cases he
    exact hne (Option.some.inj (hl'.symm.trans hl))

theorem unmade_destroys {os os' : Os c} (h : os.Unmade os') (ino : Nat) :
    os'.destroys ino = os.destroys ino := by
  rcases h.log with ⟨-, hlog⟩ | ⟨-, hlog⟩
  · rw [destroys, hlog, destroys]
  · rw [destroys, hlog, List.countP_append]
    rfl

theorem unlink_destroys (os : Os c) (sp : Space) (n : OsName) (ino : Nat) :
    (os.unlink sp n).destroys ino = os.destroys ino := by
  unfold unlink
  cases os.link sp n with
  | none => rfl
  | some j =>
    rw [destroys, emit_log, List.countP_append]
    rfl

end Os

/-- The mapping or the open semaphore of a handle is given up. -/
def closeEvent (h : Handle c) (size : UInt64) : OsEvent :=
  match h.kind with
  | .sem => .semClose h.ino
  | .mem | .mutex | .rwlock | .cond => .munmap h.ino size

/-- If no unlock fails, the last detachment destroys the lock and then unmaps it. -/
theorem closing_eq {busy : List Bool} (hbusy : busy.all (fun fails => !fails) = true)
    (h : Handle c) (ro : RegisteredObject) :
    closing busy h ro =
      (if h.kind.isLock = true ∧ ro.count = 0 then [.destroy h.ino] else []) ++
        [closeEvent h ro.size] := by
  unfold closing closeEvent
  cases h.kind <;> simp [Kind.isLock, hbusy]

theorem closing_destroys {busy : List Bool} (hbusy : busy.all (fun fails => !fails) = true)
    (h : Handle c) (ro : RegisteredObject) (ino : Nat) :
    (closing busy h ro).countP (OsEvent.destroys ino) =
      if h.kind.isLock = true ∧ ro.count = 0 ∧ h.ino = ino then 1 else 0 := by
  have hclose : OsEvent.destroys ino (closeEvent h ro.size) = false := by
    unfold closeEvent
    cases h.kind <;> rfl
  rw [closing_eq hbusy, List.countP_append, List.countP_singleton, hclose]
  by_cases hd : h.kind.isLock = true ∧ ro.count = 0
  · simp [hd, OsEvent.destroys]
  · have hd' : ¬ (h.kind.isLock = true ∧ ro.count = 0 ∧ h.ino = ino) :=
      fun he => hd ⟨he.1, he.2.1⟩
    rw [if_neg hd, if_neg hd']
    rfl

theorem released_destroys {busy : List Bool} (hbusy : busy.all (fun fails => !fails) = true)
    (h : Handle c) (ro : RegisteredObject) (os : Os c) (ino : Nat) :
    (released busy h ro os).destroys ino =
      os.destroys ino + if h.kind.isLock = true ∧ ro.count = 0 ∧ h.ino = ino then 1 else 0 := by
  have hlog : Os.destroys { os with log := os.log ++ closing busy h ro } ino =
      os.destroys ino + if h.kind.isLock = true ∧ ro.count = 0 ∧ h.ino = ino then 1 else 0 := by
    rw [← closing_destroys hbusy h ro ino]
    exact List.countP_append
  unfold released
  dsimp only
  split
  · split
    · rw [Os.unlink_destroys, hlog]
    · exact hlog
  · exact hlog

namespace Posix

open RegisteredObject

/-! ## The invariant -/

theorem objectOf_congr {w w' : World c} {i : Slot c}
    (hname : (w'.mem.objects i).name = (w.mem.objects i).name)
    (htype : (w'.mem.objects i).type = (w.mem.objects i).type)
    (hlink : ∀ n, osName w.mem i = some n → ∀ sp, w'.os.link sp n = w.os.link sp n) :
    objectOf w' i = objectOf w i := by
  have hos : osName w'.mem i = osName w.mem i := by rw [osName, hname, osName]
  rw [objectOf, htype, hos, objectOf]
  cases hn : osName w.mem i with
  | none => rfl
  | some n => simp only [Option.bind_some, hlink n hn]

/-- Slot `i` is for an object of kind `k`, created as such and still under its name. -/
structure Holds (s : Sys c) (k : Kind) (ino : Nat) (i : Slot c) : Prop where
  type : (s.world.mem.objects i).type = k.type
  object : objectOf s.world i = some ino
  born : s.born ino = some k
  size : k.space = .shm → (s.world.os.inode ino).size ≠ 0

section Created

variable {w : World c} {k : Kind} {name : CString} {i : Slot c} {n : OsName} {x : Inode c}
  {o : RegisteredObject}

/-- The object of the new slot is the one that was made. -/
theorem created_objectOf_self (hon : convertName o.name.str = some n) (htype : o.type = k.type) :
    objectOf (created w k name i n x o) i = some w.os.next := by
  refine (objectOf_iff (k := k) (by rw [created_self, htype]) _).mpr ⟨n, ?_, ?_⟩
  · rw [osName, created_self, hon]
  · exact Os.create_link_self _ _ _ _

/-- The other slots keep their objects. -/
theorem created_objectOf_of_ne {j : Slot c} (hj : j ≠ i) (hfresh : osName w.mem j ≠ some n) :
    objectOf (created w k name i n x o) j = objectOf w j := by
  apply objectOf_congr (by rw [created_of_ne hj]) (by rw [created_of_ne hj])
  intro m hm sp
  apply Os.create_link_of_ne _ _
  intro he
  cases he
  exact hfresh hm

variable {s s' : Sys c}

/-- The new slot is for the new object. -/
theorem holds_created_self (hw : s'.world = created s.world k name i n x o)
    (hborn : s'.born = Function.update s.born s.world.os.next (some k))
    (hon : convertName o.name.str = some n) (htype : o.type = k.type)
    (hsize : k.space = .shm → x.size ≠ 0) : Holds s' k s.world.os.next i := by
  constructor
  · rw [hw, created_self, htype]
  · rw [hw, created_objectOf_self hon htype]
  · rw [hborn, Function.update_self]
  · intro hk
    rw [hw, created, Os.create_inode_self]
    exact hsize hk

/-- The other slots are for the objects they were for. -/
theorem Holds.of_created {k' : Kind} {ino : Nat} {j : Slot c} (h : Holds s k' ino j)
    (hj : j ≠ i) (hfresh : osName s.world.mem j ≠ some n) (hlt : ino < s.world.os.next)
    (hw : s'.world = created s.world k name i n x o)
    (hborn : s'.born = Function.update s.born s.world.os.next (some k)) : Holds s' k' ino j := by
  constructor
  · rw [hw, created_of_ne hj, h.type]
  · rw [hw, created_objectOf_of_ne hj hfresh, h.object]
  · rw [hborn, Function.update_of_ne (by omega), h.born]
  · intro hk
    rw [hw, created, Os.create_inode _ _ _ hlt]
    exact h.size hk

end Created

/-- Every slot in use has its object, and every handle is to the object of its slot; locks are
destroyed when their objects lose their names. -/
structure Agreed (s : Sys c) : Prop where
  synced : Synced s
  documented : ∀ i, s.world.mem.used i = true → Documented (s.world.mem.objects i).name.str
  present : ∀ i, s.world.mem.used i = true → ∃ k ino, Holds s k ino i
  handles : ∀ h, some h ∈ s.handles → objectOf s.world h.id = some h.ino
  bound : ∀ ino k, s.born ino = some k → ino < s.world.os.next
  closed : ∀ ino k, s.born ino = some k → s.world.os.Closed k ino
  beyond : ∀ ino, s.world.os.next ≤ ino → s.world.os.destroys ino = 0

/-- Creations have documented names and locks that initialise; lookups are for the kind that
the registry has and wrap no count; system calls do not fail for reasons of their own. -/
def Regular (s : Sys c) : Label → Prop
  | .new _ env name _ _ => Documented name ∧ env.init = none
  | .lookup k name => ∀ i, findByName s.world.mem name = some i →
      (s.world.mem.objects i).type = k.type ∧ s.refs i + 1 < 2 ^ 32
  | .attach _ env => env = .ok
  | .drop _ => True
  | .detach _ busy => busy.all (fun fails => !fails) = true
  | .reserve .. | .create .. | .publish _ | .abort _ | .forceClear _ => False

instance (s : Sys c) : (l : Label) → Decidable (Regular s l)
  | .new _ env name _ _ => inferInstanceAs (Decidable (Documented name ∧ env.init = none))
  | .lookup k name => inferInstanceAs (Decidable (∀ i, findByName s.world.mem name = some i →
      (s.world.mem.objects i).type = k.type ∧ s.refs i + 1 < 2 ^ 32))
  | .attach _ env => inferInstanceAs (Decidable (env = .ok))
  | .detach _ busy => inferInstanceAs (Decidable (busy.all (fun fails => !fails) = true))
  | .drop _ => isTrue trivial
  | .reserve .. | .create .. | .publish _ | .abort _ | .forceClear _ => isFalse id

namespace Agreed

variable {s s' : Sys c}

theorem holds_of_handle (h : Agreed s) {x : Handle c} (hx : some x ∈ s.handles) :
    Holds s x.kind x.ino x.id := by
  obtain ⟨k, ino, hk⟩ := h.present x.id ((h.synced.used_iff _).mpr (refs_pos_of_handle hx))
  have hkind : k = x.kind :=
    Kind.type_injective (hk.type.symm.trans (h.synced.handles x hx).type)
  have hino : ino = x.ino := Option.some.inj (hk.object.symm.trans (h.handles x hx))
  rwa [hkind, hino] at hk

/-- An attacher finds the object of the slot it has a reference to. -/
theorem finds (h : Agreed s) {p : Nat} {k : Kind} {name : CString} {i : Slot c}
    (hp : s.calls[p]? = some (.referenced k name i)) :
    ∃ n ino, Finds k name s.world.os n ino ∧ Holds s k ino i := by
  obtain ⟨hu, hname, hk⟩ := h.synced.referenced hp
  obtain ⟨k', ino, hi⟩ := h.present i hu
  cases Kind.type_injective (hi.type.symm.trans hk)
  obtain ⟨n, hn, hl⟩ := (objectOf_iff hk ino).mp hi.object
  exact ⟨n, ino, ⟨(osName_of_tname hname).symm.trans hn, hl, hi.size⟩, hi⟩

/-! ### The steps -/

/-- The rule for steps that register nothing: the names of the slots still in use are linked
as before. -/
theorem of_kept (h : Agreed s) (hsync : Synced s') (hborn : s'.born = s.born)
    (hnext : s.world.os.next ≤ s'.world.os.next)
    (hinode : ∀ ino < s.world.os.next, s'.world.os.inode ino = s.world.os.inode ino)
    (hkeep : Kept s.world.mem s'.world.mem)
    (hlink : ∀ i n, s'.world.mem.used i = true → osName s.world.mem i = some n →
      ∀ sp, s'.world.os.link sp n = s.world.os.link sp n)
    (hhandles : ∀ x, some x ∈ s'.handles → objectOf s.world x.id = some x.ino)
    (hclosed : ∀ ino k, s.born ino = some k → s'.world.os.Closed k ino)
    (hbeyond : ∀ ino, s'.world.os.next ≤ ino → s'.world.os.destroys ino = 0) : Agreed s' := by
  have hobj : ∀ i, s'.world.mem.used i = true → objectOf s'.world i = objectOf s.world i := by
    intro i hu
    obtain ⟨-, hname, htype⟩ := hkeep i hu
    exact objectOf_congr hname htype fun n hn => hlink i n hu hn
  refine ⟨hsync, ?_, ?_, ?_, ?_, ?_, hbeyond⟩
  · intro i hu
    obtain ⟨hu, hname, -⟩ := hkeep i hu
    rw [hname]
    exact h.documented i hu
  · intro i hu
    obtain ⟨hu₀, -, htype⟩ := hkeep i hu
    obtain ⟨k, ino, hk⟩ := h.present i hu₀
    refine ⟨k, ino, by rw [htype, hk.type], by rw [hobj i hu, hk.object],
      by rw [hborn, hk.born], ?_⟩
    rw [hinode ino (h.bound ino k hk.born)]
    exact hk.size
  · intro x hx
    have hu := (hsync.used_iff x.id).mpr (refs_pos_of_handle hx)
    rw [hobj x.id hu, hhandles x hx]
  · intro ino k hb
    rw [hborn] at hb
    exact lt_of_lt_of_le (h.bound ino k hb) hnext
  · intro ino k hb
    rw [hborn] at hb
    exact hclosed ino k hb

/-- A creation that failed without effect. -/
theorem newFailed (h : Agreed s) {i : Slot c} {name : CString} {os' : Os c}
    (hfree : findFree s.world.mem = some i) (hos : s.world.os.Unmade os') :
    Agreed { s with world := { mem := decCount (reserved s.world.mem i name) i, os := os' } } := by
  refine h.of_kept (h.synced.newFailed hfree hos) rfl hos.next hos.inode
    (kept_failed (findFree_some hfree).1 name) (fun _ _ _ _ sp => by rw [hos.link])
    h.handles ?_ ?_
  · intro ino k hb
    exact (h.closed ino k hb).congr (Os.linked_congr hos.link ino) (Os.unmade_destroys hos ino)
  · intro ino hge
    exact (Os.unmade_destroys hos ino).trans (h.beyond ino (hos.next.trans hge))

/-- The lookup of an attacher finds nothing. -/
theorem missing (h : Agreed s) : Agreed { s with calls := s.calls ++ [.done] } :=
  h.of_kept h.synced.missing rfl (le_refl _) (fun _ _ => rfl) (.refl _) (fun _ _ _ _ _ => rfl)
    h.handles h.closed h.beyond

/-- An attacher takes its reference. -/
theorem lookup (h : Agreed s) {k : Kind} {name : CString} {i : Slot c}
    (hfind : findByName s.world.mem name = some i)
    (hk : (s.world.mem.objects i).type = k.type) (hi : s.refs i + 1 < 2 ^ 32) :
    Agreed { s with
      world := { s.world with mem := incNameCount s.world.mem i }
      calls := s.calls ++ [.referenced k name i] } := by
  rw [← h.synced.counted i] at hi
  exact h.of_kept (h.synced.lookup hfind hk hi) rfl (le_refl _) (fun _ _ => rfl)
    (kept_inc (findByName_some hfind).1) (fun _ _ _ _ _ => rfl) h.handles h.closed h.beyond

/-- An attacher gets its handle. -/
theorem attached (h : Agreed s) {p : Nat} {k : Kind} {name : CString} {i : Slot c} {n : OsName}
    {ino : Nat} {o : RegisteredObject} (hp : s.calls[p]? = some (.referenced k name i))
    (hf : Finds k name s.world.os n ino) (ho : SameEntry (s.world.mem.objects i) o)
    (htype : o.type = (s.world.mem.objects i).type) :
    Agreed { s with
      world := { mem := s.world.mem.setObject i o, os := s.world.os.setId k ino i }
      calls := s.calls.set p .done
      handles := s.handles ++ [some { kind := k, ino := ino, id := i }] } := by
  have hsync := h.synced.attached hp hf ho htype
  obtain ⟨hu, hname, hk⟩ := h.synced.referenced hp
  have hos : s.world.os.setId k ino i = s.world.os :=
    Os.setId_self (h.synced.owner_of_finds hu hname hf.1 hf.2.1).id
  rw [hos] at hsync ⊢
  refine h.of_kept hsync rfl (le_refl _) (fun _ _ => rfl) (kept_setObject ho htype)
    (fun _ _ _ _ _ => rfl) (fun x hx => ?_) h.closed h.beyond
  rcases List.mem_append.mp hx with hx | hx
  · exact h.handles x hx
  · cases List.mem_singleton.mp hx
    exact (objectOf_iff hk ino).mpr ⟨n, (osName_of_tname hname).trans hf.1, hf.2.1⟩

/-- The object of a handle is linked under the name in its slot. -/
theorem link_of_handle (h : Agreed s) {x : Handle c} (hx : some x ∈ s.handles) :
    ∃ n, osName s.world.mem x.id = some n ∧ s.world.os.link x.kind.space n = some x.ino :=
  (objectOf_iff (h.synced.handles x hx).type x.ino).mp (h.handles x hx)

/-- The last detachment takes the name of its object, and no other. -/
theorem linked_released (h : Agreed s) {x : Handle c} (hx : some x ∈ s.handles)
    (busy : List Bool) (hc : (s.world.mem.objects x.id).dec.count = 0) (ino : Nat) :
    (released busy x (s.world.mem.objects x.id).dec s.world.os).Linked ino ↔
      s.world.os.Linked ino ∧ ino ≠ x.ino := by
  obtain ⟨n, hn, hl⟩ := h.link_of_handle hx
  rw [released_of_last busy x s.world.os hc (by rwa [dec_name])]
  exact Os.linked_unlink (Os.log_later h.synced.sound fun e he => closing_ne_unlink he).1 hl ino

/-- A detachment destroys the lock of the object that loses its name. -/
theorem released_closed (h : Agreed s) {x : Handle c} (hx : some x ∈ s.handles)
    {busy : List Bool} (hbusy : busy.all (fun fails => !fails) = true) {ino : Nat} {k : Kind}
    (hb : s.born ino = some k) :
    (released busy x (s.world.mem.objects x.id).dec s.world.os).Closed k ino := by
  by_cases hc : (s.world.mem.objects x.id).dec.count = 0
  · unfold Os.Closed
    rw [h.linked_released hx busy hc, released_destroys hbusy]
    by_cases hi : ino = x.ino
    · obtain ⟨n, -, hl⟩ := h.link_of_handle hx
      rw [hi] at hb ⊢
      rw [(h.closed x.ino k hb).1 ⟨_, n, hl⟩]
      cases hb.symm.trans (h.holds_of_handle hx).born
      exact ⟨fun hL => absurd rfl hL.2, fun _ => by simp [hc]⟩
    · have hcl := h.closed ino k hb
      rw [if_neg fun hd => hi hd.2.2.symm, Nat.add_zero]
      exact ⟨fun hL => hcl.1 hL.1, fun hL => hcl.2 fun hL' => hL ⟨hL', hi⟩⟩
  · refine (h.closed ino k hb).congr (Os.linked_congr (released_link_of_count _ _ _ hc) ino) ?_
    rw [released_destroys hbusy, if_neg fun hd => hc hd.2.1, Nat.add_zero]

/-- A handle is detached. -/
theorem detach (h : Agreed s) {q : Nat} {busy : List Bool} {x : Handle c}
    (hq : s.handles[q]? = some (some x)) (hbusy : busy.all (fun fails => !fails) = true) :
    Agreed { s with
      world :=
        { mem := decCount s.world.mem (x.slot s.world.os)
          os := released busy x (s.world.mem.objects (x.slot s.world.os)).dec s.world.os }
      handles := s.handles.set q none } := by
  have hx := List.mem_of_getElem? hq
  have hsync := @Synced.detach c s h.synced q busy x hq
  rw [(h.synced.handles x hx).slot] at hsync ⊢
  refine h.of_kept hsync rfl (released_next _ _ _ _).ge (fun _ _ => by rw [released_inode])
    (kept_dec _ _) ?_ ?_
    (fun ino k hb => h.released_closed hx hbusy hb) ?_
  · intro i m hu hm sp
    by_cases hc : (s.world.mem.objects x.id).dec.count = 0
    · -- the slot is freed, and no other has its OS name
      apply released_link_of_ne busy x _ _
      intro _ hn
      rw [dec_name] at hn
      have hux := (h.synced.used_iff x.id).mpr (refs_pos_of_handle hx)
      cases h.synced.apart i x.id m (kept_dec _ _ i hu).1 hux hm hn
      have hcount := (used_dec_iff s.world.mem x.id).mp hu
      rw [← UInt32.toNat_inj, dec_count, UInt32.toNat_zero] at hc
      omega
    · exact congrFun (congrFun (released_link_of_count busy x _ hc) sp) m
  · intro y hy
    rcases List.mem_or_eq_of_mem_set hy with hy | hy
    · exact h.handles y hy
    · cases hy
  · intro ino hge
    have hge : s.world.os.next ≤ ino := (released_next _ _ _ _).ge.trans hge
    have hlt := h.bound x.ino _ (h.holds_of_handle hx).born
    change (released busy x _ s.world.os).destroys ino = 0
    rw [released_destroys hbusy, h.beyond ino hge, if_neg]
    rintro ⟨-, -, rfl⟩
    omega

/-- An object is created and published. -/
theorem newDone (h : Agreed s) {k : Kind} {name : CString} {i : Slot c} {n : OsName}
    {x : Inode c} {o : RegisteredObject} (hdoc : Documented name)
    (hfind : findByName s.world.mem name = none) (hfree : findFree s.world.mem = some i)
    (hn : convertName name = some n) (hlink : s.world.os.link k.space n = none)
    (hx : k.space = .shm → x.size ≠ 0 ∧ x.id = i) (hname : o.tname = truncName name)
    (hon : convertName o.name.str = some n) (hres : o.reserved = false) (hcount : o.count = 1)
    (htype : o.type = k.type) (hw : s'.world = created s.world k name i n x o)
    (hcalls : s'.calls = s.calls)
    (hhandles : s'.handles = s.handles ++ [some { kind := k, ino := s.world.os.next, id := i }])
    (hborn : s'.born = Function.update s.born s.world.os.next (some k)) : Agreed s' := by
  have hapart : ∀ j m, s.world.mem.used j = true → osName s.world.mem j = some m →
      convertName name = some m → (s.world.mem.objects j).tname = truncName name :=
    fun j m hu hjm hm => truncName_of_convertName (h.documented j hu) hdoc (Eq.trans hjm hm.symm)
  have hsync := h.synced.newDone hfind hfree hn hlink hx hon hres hcount htype hapart hw hcalls
    hhandles
  have hold : ∀ j, s.world.mem.used j = true → j ≠ i := fun j hj => ne_of_findFree hfree hj
  have hself : s'.world.mem.objects i = o := by rw [hw, created_self]
  have hne : ∀ j, j ≠ i → s'.world.mem.objects j = s.world.mem.objects j := by
    intro j hj
    rw [hw, created_of_ne hj]
  have hused : ∀ j, j ≠ i → s'.world.mem.used j = true → s.world.mem.used j = true := by
    intro j hj hu
    rwa [hw, created_used_of_ne hj] at hu
  have hfresh : ∀ j, s.world.mem.used j = true → osName s.world.mem j ≠ some n :=
    fun j hj => h.synced.fresh hfind hn hapart hj
  -- the slots that were in use keep their objects
  have hobj : ∀ j, s.world.mem.used j = true → objectOf s'.world j = objectOf s.world j := by
    intro j hj
    rw [hw, created_objectOf_of_ne (hold j hj) (hfresh j hj)]
  have hnew : Holds s' k s.world.os.next i :=
    holds_created_self hw hborn hon htype fun hk => (hx hk).1
  refine ⟨hsync, ?_, ?_, ?_, ?_, ?_, ?_⟩
  · intro j hu
    by_cases hj : j = i
    · rw [hj, hself]
      exact (documented_congr hname).mpr hdoc
    · rw [hne j hj]
      exact h.documented j (hused j hj hu)
  · intro j hu
    by_cases hj : j = i
    · subst hj
      exact ⟨k, s.world.os.next, hnew⟩
    · have hu := hused j hj hu
      obtain ⟨k', ino, hk⟩ := h.present j hu
      exact ⟨k', ino, hk.of_created hj (hfresh j hu) (h.bound ino k' hk.born) hw hborn⟩
  · intro y hy
    rw [hhandles] at hy
    rcases List.mem_append.mp hy with hy | hy
    · have hu := (h.synced.used_iff y.id).mpr (refs_pos_of_handle hy)
      rw [hobj y.id hu, h.handles y hy]
    · cases List.mem_singleton.mp hy
      exact hnew.object
  · intro ino k' hb
    rw [hw]
    change ino < s.world.os.next + 1
    rw [hborn] at hb
    by_cases hi : ino = s.world.os.next
    · omega
    · rw [Function.update_of_ne hi] at hb
      have := h.bound ino k' hb
      omega
  · intro ino k' hb
    rw [hw, created]
    rw [hborn] at hb
    by_cases hi : ino = s.world.os.next
    · rw [hi]
      refine ⟨fun _ => h.beyond _ (le_refl _), fun hL => absurd ?_ hL⟩
      exact ⟨k.space, n, Os.create_link_self _ _ _ _⟩
    · rw [Function.update_of_ne hi] at hb
      exact (h.closed ino k' hb).congr (Os.linked_create x hlink hi) rfl
  · intro ino hge
    rw [hw] at hge ⊢
    exact h.beyond ino (Nat.le_of_succ_le hge)

end Agreed

/-- Every regular step keeps the registry and the system in agreement. -/
theorem agreed_step {s s' : Sys c} {l : Label} (h : Agreed s) (hl : Regular s l)
    (hs : step s l = some s') : Agreed s' := by
  cases trans_of_step hs with
  | newRefused hno => exact h
  | newFailed hfind hfree hnf hos => exact h.newFailed hfree hos
  | newInit hfree hf hmade => exact absurd hl.2 hf.2.2.1
  | newDone hfind hfree hn hlink hx hname hon hres hcount htype =>
    exact h.newDone hl.1 hfind hfree hn hlink hx hname hon hres hcount htype rfl rfl rfl
      rfl
  | refused | reserve _ _ | createFailed _ _ | createInit _ _ | created _ _ _ _ _ | publish _
  | abort _ | clearMissing _ | forceClear _ _ _ => exact hl.elim
  | missing hfind => exact h.missing
  | lookup hfind => exact h.lookup hfind (hl _ hfind).1 (hl _ hfind).2
  | attached hp hf ho htype => exact h.attached hp hf ho htype
  | attachFailed hp he =>
    obtain ⟨n, ino, hf, -⟩ := h.finds hp
    cases hl
    cases (sysAttach_ok hf).symm.trans he
  | attachLost hp hk ho he =>
    obtain ⟨n, ino, hf, -⟩ := h.finds hp
    cases hl
    cases (sysAttach_ok hf).symm.trans he
  | drop hp => exact (h.synced.calls _ (List.mem_of_getElem? hp)).elim
  | detach hq => exact h.detach hq hl

/-! ## What agreement gives -/

namespace Agreed

variable {s s' : Sys c}

/-- An object is linked under a documented name while a slot is in use under it. -/
theorem linked_iff_used (h : Agreed s) {name : CString} {n : OsName} (hdoc : Documented name)
    (hn : convertName name = some n) :
    (∃ sp ino, s.world.os.link sp n = some ino) ↔
      ∃ i, s.world.mem.used i = true ∧ (s.world.mem.objects i).tname = truncName name := by
  constructor
  · rintro ⟨sp, ino, hl⟩
    obtain ⟨i, hi⟩ := h.synced.owned sp n ino hl
    refine ⟨i, hi.used, ?_⟩
    exact truncName_of_convertName (h.documented i hi.used) hdoc (hi.name.trans hn.symm)
  · rintro ⟨i, hu, hname⟩
    obtain ⟨k, ino, hk⟩ := h.present i hu
    obtain ⟨m, hm, hl⟩ := (objectOf_iff hk.type ino).mp hk.object
    cases hm.symm.trans ((osName_of_tname hname).trans hn)
    exact ⟨k.space, ino, hl⟩

/-- An object is linked while there are references to it. -/
theorem linked_iff_referenced (h : Agreed s) (ino : Nat) :
    s.world.os.Linked ino ↔ ∃ i, 0 < s.refs i ∧ objectOf s.world i = some ino := by
  constructor
  · rintro ⟨sp, n, hl⟩
    obtain ⟨i, hi⟩ := h.synced.owned sp n ino hl
    exact ⟨i, (h.synced.used_iff i).mp hi.used, hi.objectOf_eq hl⟩
  · rintro ⟨i, hi, hobj⟩
    obtain ⟨k, ino', hk⟩ := h.present i ((h.synced.used_iff i).mpr hi)
    obtain ⟨n, -, hl⟩ := (objectOf_iff hk.type ino).mp hobj
    exact ⟨k.space, n, hl⟩

/-- What the detachment of a handle does to the system, in order. -/
theorem detach_log (h : Agreed s) {q : Nat} {busy : List Bool} {x : Handle c}
    (hq : s.handles[q]? = some (some x)) (hbusy : busy.all (fun fails => !fails) = true)
    (hs : step s (.detach q busy) = some s') :
    s'.world.os.log = s.world.os.log ++
      if s.refs x.id = 1 then
        (if x.kind.isLock then [.destroy x.ino] else []) ++
          [closeEvent x (s.world.mem.objects x.id).size, .unlink x.kind.space x.ino]
      else [closeEvent x (s.world.mem.objects x.id).size] := by
  have hx := List.mem_of_getElem? hq
  obtain ⟨n, hn, hl⟩ := h.link_of_handle hx
  have hpos := refs_pos_of_handle hx
  have hlast : (s.world.mem.objects x.id).dec.count = 0 ↔ s.refs x.id = 1 := by
    rw [← UInt32.toNat_inj, dec_count, UInt32.toNat_zero, h.synced.counted x.id]
    omega
  simp only [step, hq, detach_eq, (h.synced.handles x hx).slot] at hs
  cases hs
  by_cases hc : (s.world.mem.objects x.id).dec.count = 0
  · rw [if_pos (hlast.mp hc)]
    change (released busy x _ _).log = _
    rw [released_of_last busy x _ hc (by rwa [dec_name]), closing_eq hbusy]
    simp [Os.unlink, hl, Os.setLink, hc]
  · rw [if_neg fun h1 => hc (hlast.mpr h1)]
    change (released busy x _ _).log = _
    simp [released, hc, closing_eq hbusy]

end Agreed

/-! ## Runs -/

theorem agreed_init {g : Internal c} (hg : g.initialized = false) : Agreed (Sys.init g) := by
  have hsync := synced_init hg
  have hused : ∀ i, (Sys.init g).world.mem.used i = false := by
    intro i
    rw [Bool.eq_false_iff]
    intro hu
    have := (hsync.used_iff i).mp hu
    simp [Sys.refs, Sys.init] at this
  refine ⟨hsync, ?_, ?_, ?_, ?_, ?_, fun _ _ => rfl⟩
  · intro i hu
    rw [hused i] at hu
    cases hu
  · intro i hu
    rw [hused i] at hu
    cases hu
  · rintro x ⟨⟩
  · rintro ino k ⟨⟩
  · rintro ino k ⟨⟩

/-- **Agreement.** In every regular run an object is linked under a name exactly while a slot
is in use under that name; it is the one created for the slot. An attacher that has its
reference finds it. The last detachment of an object destroys the lock, unmaps the object and
unlinks it, in this order, and the others only unmap it; so every object created was unlinked
once, and its lock destroyed once, if no reference is left, and neither before. -/
theorem objects_agree {g : Internal c} (hg : g.initialized = false) {ls : List Label} {s : Sys c}
    (hrun : Lts.exec step (Sys.init g) ls = some s)
    (hall : Lts.AllSteps step Regular (Sys.init g) ls) :
    (∀ name n, Documented name → convertName name = some n →
      ((∃ sp ino, s.world.os.link sp n = some ino) ↔
        ∃ i, s.world.mem.used i = true ∧ (s.world.mem.objects i).tname = truncName name)) ∧
    (∀ i, s.world.mem.used i = true → ∃ k ino, Holds s k ino i) ∧
    (∀ (p : Nat) k name i, s.calls[p]? = some (.referenced k name i) →
      ∃ ino, sysAttach k .ok name s.world.os = (.ok ino, s.world.os) ∧ Holds s k ino i) ∧
    (∀ (q : Nat) busy x s', s.handles[q]? = some (some x) →
      busy.all (fun fails => !fails) = true → step s (.detach q busy) = some s' →
      s'.world.os.log = s.world.os.log ++
        if s.refs x.id = 1 then
          (if x.kind.isLock then [.destroy x.ino] else []) ++
            [closeEvent x (s.world.mem.objects x.id).size, .unlink x.kind.space x.ino]
        else [closeEvent x (s.world.mem.objects x.id).size]) ∧
    ∀ ino k, s.born ino = some k →
      (s.world.os.Linked ino ↔ ∃ i, 0 < s.refs i ∧ objectOf s.world i = some ino) ∧
      (s.world.os.Linked ino → s.world.os.unlinks ino = 0 ∧ s.world.os.destroys ino = 0) ∧
      (¬ s.world.os.Linked ino → s.world.os.unlinks ino = 1 ∧
        s.world.os.destroys ino = if k.isLock then 1 else 0) := by
  have h : Agreed s :=
    Lts.exec_invariant (fun _ _ _ h hl hs => agreed_step h hl hs) (agreed_init hg) hrun hall
  refine ⟨fun name n hdoc hn => h.linked_iff_used hdoc hn, h.present, ?_,
    fun q busy x s' hq hbusy hs => h.detach_log hq hbusy hs, fun ino k hb =>
      ⟨h.linked_iff_referenced ino, fun hl => ⟨?_, (h.closed ino k hb).1 hl⟩,
        fun hl => ⟨?_, (h.closed ino k hb).2 hl⟩⟩⟩
  · intro p k name i hp
    obtain ⟨n, ino, hf, hi⟩ := h.finds hp
    exact ⟨ino, sysAttach_ok hf, hi⟩
  · obtain ⟨sp, n, hl⟩ := hl
    exact h.synced.sound.live sp n ino hl
  · exact h.synced.sound.dead ino (h.bound ino k hb) fun sp n hl' => hl ⟨sp, n, hl'⟩

/-- A memory whose owner detaches while an attacher waits, a mutex, and a semaphore under the
first name again. -/
theorem objects_agree_two :
    let ls : List Label := [.new .mem .ok (.ofBytes [65]) 84 0, .lookup .mem (.ofBytes [65]),
      .detach 0 [], .attach 0 .ok, .new .mutex .ok (.ofBytes [66]) 0 0, .detach 2 [false],
      .detach 1 [], .new .sem .ok (.ofBytes [65]) 0 1]
    ∃ s : Sys .two, Lts.exec step (Sys.init (.zero .two)) ls = some s ∧
      ∀ i, s.world.mem.used i = true → ∃ k ino, Holds s k ino i := by
  intro ls
  have hsome : (Lts.exec step (Sys.init (.zero .two)) ls).isSome = true := by decide
  obtain ⟨s, hs⟩ := Option.isSome_iff_exists.mp hsome
  have hall : Lts.AllSteps step Regular (Sys.init (.zero .two)) ls := by decide
  exact ⟨s, hs, (objects_agree rfl hs hall).2.1⟩

end Posix

end Urt
