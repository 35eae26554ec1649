import Urt.Posix.Effects
import Urt.Registry.Index

/-!
# Failed creations and failed attachments

`SHOBJ_NEW` unwinds in layers: the system call removes what it made, then the reservation is
given up. `NewUndone` says that nothing is left of a failed creation. One layer uses
`urt_shmem_delete` on a segment whose bookkeeping is still zero, so a failed lock
initialisation deregisters slot `0`, whoever has it. And where `objects_max_index` was not exact
before, giving up the reservation can move it (`IndexFits`).

`SHOBJ_ATTACH` has counted its reference, and cleared `reserved`, before it opens the object;
and it shares `_shmem_common` with creation, whose error path unlinks what was opened.
`AttachUndone` says that a failed attachment leaves everything as it was.
-/

namespace Urt

variable {c : Config}

open RegisteredObject

/-- Nobody uses the name. -/
def Unregistered (g : Internal c) (name : CString) : Prop :=
  ∀ i, g.used i = true → (g.objects i).tname ≠ truncName name

/-! ## Creation -/

/-- Nothing is left of a failed creation: all slots but the free one it reserved hold what
they held, the index is the same, the name is as unregistered as before, and so are the OS
names. -/
structure NewUndone (name : CString) (w w' : World c) : Prop where
  others : ∀ i, findFree w.mem ≠ some i → SameEntry (w.mem.objects i) (w'.mem.objects i)
  index : w'.mem.objectsMaxIndex = w.mem.objectsMaxIndex
  unregistered : Unregistered w.mem name → Unregistered w'.mem name
  links : w'.os.link = w.os.link

theorem NewUndone.refl (name : CString) (w : World c) : NewUndone name w w :=
  ⟨fun _ _ => .refl _, rfl, id, rfl⟩

/-- The first free slot is below `objects_max_index`, the next one after it, or both are `0`; and
a build that checks the index finds no slot in use above it. -/
def IndexFits (g : Internal c) : Prop :=
  ∀ i ∈ findFree g,
    (i.val < g.objectsMaxIndex ∨ i.val = g.objectsMaxIndex + 1 ∨
      i.val = 0 ∧ g.objectsMaxIndex = 0) ∧
    (c.ndebug = false → g.Covered)

/-- An exact index fits. -/
theorem Internal.Tight.indexFits {g : Internal c} (h : g.Tight) : IndexFits g := by
  intro i hi
  obtain ⟨hfree, hlow⟩ := findFree_some hi
  refine ⟨?_, fun _ => h.covered⟩
  by_cases h0 : i.val = 0
  · omega
  · have hlt : i.val - 1 < c.maxObjects := by omega
    have hpred : g.used ⟨i.val - 1, hlt⟩ = true := by
      apply hlow
      rw [Fin.lt_def]
      dsimp only
      omega
    have hle := h.le_index hpred
    dsimp only at hle
    obtain ⟨j, hj, htop⟩ := SlotScan.top_attained hpred
    have hji : j.val ≠ i.val := by
      intro he
      rw [Fin.ext he, hfree] at hj
      cases hj
    rw [← h] at htop
    omega

/-- Where the index is when a slot has lost its last reference. -/
theorem index_decCount_of_last {g : Internal c} {i : Slot c}
    (h : (g.objects i).count.toNat ≤ 1) :
    (decCount g i).objectsMaxIndex =
      let used := (g.setObject i (g.objects i).dec).used
      let m := if i.val = g.objectsMaxIndex then SlotScan.down used i.val else g.objectsMaxIndex
      if c.ndebug then m else max m (SlotScan.top used) := by
  rw [decCount_of_last h, internalMemCheck]
  dsimp only
  simp only [SlotScan.raise_eq]
  split <;> split <;> rfl

/-- A reserved slot that is deregistered is as free as before. -/
theorem used_given_up {g : Internal c} {i : Slot c} (hfree : findFree g = some i)
    (name : CString) :
    ((reserved g i name).setObject i ((reserved g i name).objects i).dec).used = g.used := by
  funext j
  rw [Internal.used_setObject]
  by_cases hj : j = i
  · subst hj
    rw [Function.update_self, reserved_objects, Function.update_self, (findFree_some hfree).1]
    rfl
  · rw [Function.update_of_ne hj, reserved_used, Function.update_of_ne hj]

theorem indexFits_iff {g : Internal c} {i : Slot c} (hfree : findFree g = some i) :
    IndexFits g ↔
      (i.val < g.objectsMaxIndex ∨ i.val = g.objectsMaxIndex + 1 ∨
        i.val = 0 ∧ g.objectsMaxIndex = 0) ∧
      (c.ndebug = false → SlotScan.top g.used ≤ g.objectsMaxIndex) := by
  have hcov : g.Covered ↔ SlotScan.top g.used ≤ g.objectsMaxIndex := SlotScan.top_le_iff.symm
  rw [← hcov]
  exact ⟨fun h => h i hfree, fun h j hj => by rwa [← Option.some.inj (hfree.symm.trans hj)]⟩

/-- Where the index ends when the first free slot is reserved and given up. -/
theorem index_given_up {g : Internal c} {i : Slot c} (hfree : findFree g = some i)
    (name : CString) :
    (decCount (reserved g i name) i).objectsMaxIndex = g.objectsMaxIndex ↔ IndexFits g := by
  obtain ⟨hunused, hlow⟩ := findFree_some hfree
  have hcount : ((reserved g i name).objects i).count.toNat ≤ 1 := by
    rw [reserved_objects, Function.update_self]
    exact Nat.zero_le 1
  rw [indexFits_iff hfree, index_decCount_of_last hcount]
  simp only [used_given_up hfree, reserved_objectsMaxIndex,
    SlotScan.down_first_miss hunused hlow]
  -- nothing is in use below slot `0`, and slot `i - 1` below any other first free slot `i`
  have htop : SlotScan.top g.used ≠ i.val ∧ i.val - 1 ≤ SlotScan.top g.used ∨ i.val = 0 := by
    by_cases h0 : i.val = 0
    · exact .inr h0
    · have hlt : i.val - 1 < c.maxObjects := by omega
      have hpred : g.used ⟨i.val - 1, hlt⟩ = true := by
        apply hlow
        rw [Fin.lt_def]
        dsimp only
        omega
      refine .inl ⟨fun he => ?_, SlotScan.le_top hpred⟩
      obtain ⟨j, hj, hjtop⟩ := SlotScan.top_attained hpred
      rw [Fin.ext (hjtop.trans he), hunused] at hj
      cases hj
  rcases Nat.lt_or_ge i.val g.objectsMaxIndex with hlt | hge
  · rw [max_eq_left hlt.le, if_neg hlt.ne]
    cases c.ndebug
    · simp only [Bool.false_eq_true, if_false, forall_const]
      omega
    · simp only [if_true, Bool.true_eq_false, false_implies, and_true, true_iff]
      omega
  · rw [max_eq_right hge, if_pos rfl]
    cases c.ndebug
    · simp only [Bool.false_eq_true, if_false, forall_const]
      omega
    · simp only [if_true, Bool.true_eq_false, false_implies, and_true]
      omega

/-- Slot `0` is the first free one, and is reserved and given up twice. -/
theorem index_given_up_twice {g : Internal c} (hfree : findFree g = some 0) (name : CString) :
    (decCount (decCount (reserved g 0 name) 0) 0).objectsMaxIndex = g.objectsMaxIndex ↔
      IndexFits g := by
  have hdown : ∀ used : Slot c → Bool, SlotScan.down used 0 = 0 := fun _ => rfl
  have h0 : (0 : Slot c).val = 0 := rfl
  have hif : ∀ m : ℕ, (if 0 = m then 0 else m) = m := fun m => by split <;> omega
  set g' := decCount (reserved g 0 name) 0 with hg'
  have hself : g'.objects 0 = (reservedObject name).dec := by
    rw [hg', decCount_objects, Function.update_self, reserved_objects, Function.update_self]
  have hused : (g'.setObject 0 (g'.objects 0).dec).used = g.used := by
    rw [← used_given_up hfree name, Internal.used_setObject, Internal.used_setObject, hself, hg',
      decCount_used, reserved_objects, Function.update_self, Function.update_idem]
    rfl
  have hcount : ((reserved g 0 name).objects 0).count.toNat ≤ 1 := by
    rw [reserved_objects, Function.update_self]
    exact Nat.zero_le 1
  have hcount' : (g'.objects 0).count.toNat ≤ 1 := by
    rw [hself]
    exact Nat.zero_le 1
  rw [indexFits_iff hfree, index_decCount_of_last hcount', hg', index_decCount_of_last hcount]
  rw [hg'] at hused
  simp only [hused, used_given_up hfree, reserved_objectsMaxIndex, hdown, h0, Nat.max_zero, hif]
  cases c.ndebug
  · simp only [Bool.false_eq_true, if_false, forall_const, true_and]
    omega
  · simp only [if_true, Bool.true_eq_false, false_implies, true_and, and_true, true_iff]
    omega

/-- Giving back a free slot that was written to leaves nothing but perhaps another index. -/
theorem newUndone_iff_of_free {name : CString} {w w' : World c} {i : Slot c}
    (hfree : findFree w.mem = some i)
    (hother : ∀ j, j ≠ i → w'.mem.objects j = w.mem.objects j) (hi : w'.mem.used i = false)
    (hlink : w'.os.link = w.os.link)
    (hindex : w'.mem.objectsMaxIndex = w.mem.objectsMaxIndex ↔ IndexFits w.mem) :
    NewUndone name w w' ↔ IndexFits w.mem := by
  refine ⟨fun h => hindex.mp h.index, fun h => ⟨?_, hindex.mpr h, ?_, hlink⟩⟩
  · intro j hj
    have hji : j ≠ i := by
      rintro rfl
      exact hj hfree
    rw [hother j hji]
    exact .refl _
  · intro hname j hu
    have hji : j ≠ i := by
      rintro rfl
      rw [hi] at hu
      cases hu
    have hsame := hother j hji
    rw [Internal.used, hsame] at hu
    rw [hsame]
    exact hname j hu

/-- After a failed lock initialisation slot `0` has been deregistered. -/
theorem initFailed_mem (k : Kind) (name : CString) (i : Slot c) (n : OsName) (w : World c) :
    (initFailed k name i n w).mem = decCount (reserved w.mem i name) 0 := by
  simp [initFailed, shmemDetach, shmemDetachWithCallback, decNameCount_eq, Os.create,
    Os.setInode, Os.setLink, Inode.zero]

/-- If slot `0` is the one that was reserved, its own segment is unlinked. -/
theorem initFailed_link {k : Kind} {name : CString} {n : OsName} {w : World c}
    (hn : convertName name = some n) (hlink : w.os.link .shm n = none) :
    (initFailed k name 0 n w).os.link = w.os.link := by
  have hname : convertName (reservedObject name).dec.name.str = some n := by
    rw [← hn]
    exact convertName_congr (reservedObject_tname name)
  have hcount : (reservedObject name).dec.count = 0 := rfl
  simp only [initFailed, shmemDetach, shmemDetachWithCallback, decNameCount_eq,
    Release.shmemDetach, reserved_objects, Os.create, Os.setInode, Os.setLink,
    Function.update_self, Inode.zero, hcount, if_true, hname]
  funext sp m
  by_cases he : (sp, m) = (.shm, n)
  · cases he
    rw [Os.shmUnlink, Os.unlink_self, hlink]
  · rw [Os.shmUnlink, Os.unlink_of_ne _ he]
    exact if_neg fun hc => he (by rw [hc.1, hc.2])

/-- A slot in use is not the same after one more deregistration. -/
theorem not_sameEntry_dec {o : RegisteredObject} (hu : o.inUse = true) : ¬ SameEntry o o.dec := by
  rintro ⟨-, hres, hcount⟩
  rw [dec_reserved] at hres
  have hc : o.count.toNat - 1 = o.count.toNat := by rw [← dec_count, hcount]
  rcases inUse_iff.mp hu with hr | hpos
  · rw [hr] at hres
    cases hres
  · omega

/-- The outcome when the system call fails without effect. -/
theorem newUndone_of_unmade {name : CString} {w : World c} {i : Slot c} {os' : Os c}
    (hfree : findFree w.mem = some i) (hos : w.os.Unmade os') :
    NewUndone name w { mem := decCount (reserved w.mem i name) i, os := os' } ↔
      IndexFits w.mem := by
  refine newUndone_iff_of_free hfree ?_ ?_ hos.link (index_given_up hfree name)
  · intro j hj
    rw [decCount_objects, Function.update_of_ne hj, reserved_objects, Function.update_of_ne hj]
  · rw [decCount_used, Function.update_self, reserved_objects, Function.update_self]
    rfl

/-- The outcome when a lock initialisation fails on slot `0`. -/
theorem newUndone_of_initFailed {k : Kind} {name : CString} {n : OsName} {w : World c}
    (hfree : findFree w.mem = some 0) (hn : convertName name = some n)
    (hlink : w.os.link .shm n = none) {g : Internal c}
    (hg : g = decCount (initFailed k name 0 n w).mem 0) :
    NewUndone name w { initFailed k name 0 n w with mem := g } ↔ IndexFits w.mem := by
  rw [initFailed_mem] at hg
  refine newUndone_iff_of_free hfree ?_ ?_ (initFailed_link hn hlink) ?_
  · intro j hj
    change g.objects j = _
    rw [hg, decCount_objects, Function.update_of_ne hj, decCount_objects,
      Function.update_of_ne hj, reserved_objects, Function.update_of_ne hj]
  · change g.used 0 = false
    rw [hg, decCount_used, Function.update_self, decCount_objects, Function.update_self,
      reserved_objects, Function.update_self]
    rfl
  · change g.objectsMaxIndex = _ ↔ _
    rw [hg]
    exact index_given_up_twice hfree name

/-- The outcome when a lock initialisation fails on another slot. -/
theorem not_newUndone_of_initFailed {k : Kind} {name : CString} {n : OsName} {w : World c}
    {i : Slot c} (hfree : findFree w.mem = some i) (hi : i ≠ 0) (hu : w.mem.used 0 = true)
    {g : Internal c} (hg : g = decCount (initFailed k name i n w).mem i) :
    ¬ NewUndone name w { initFailed k name i n w with mem := g } := by
  intro h
  have h0 : SameEntry (w.mem.objects 0) (g.objects 0) :=
    h.others 0 fun hc => hi (Option.some.inj (hfree.symm.trans hc))
  have hi' : (0 : Slot c) ≠ i := hi.symm
  rw [hg, initFailed_mem, decCount_objects, Function.update_of_ne hi', decCount_objects,
    Function.update_self, reserved_objects, Function.update_of_ne hi'] at h0
  exact not_sameEntry_dec hu h0

/-- **Failed creations.** With any registry and any named objects in the system, a failed
`urt_sh*_new` leaves nothing behind exactly if it reserved no slot, or the index fits and it did
not fail in the initialisation of a lock on a slot other than `0`: then slot `0`, which is in
use, loses a reference or its reservation. -/
theorem new_failure_undone_iff (k : Kind) (env : SysEnv) (name : CString) (size : UInt64)
    (value : UInt32) {w w' : World c} {e : Errno}
    (hrun : shobjNew k env name size value w = (.error e, w')) :
    NewUndone name w w' ↔
      (findByName w.mem name = none → IndexFits w.mem) ∧
      ¬ (InitFails k env name w.os ∧ findByName w.mem name = none ∧ findFree w.mem ≠ none ∧
        w.mem.used 0 = true) := by
  rcases shobjNew_cases k env name size value w with
    ⟨hno, e', he⟩ | ⟨i, hfind, hfree, ⟨hnf, e', os', hun, he⟩ | ⟨e', n, hf, hmade, he⟩ |
      ⟨n, x, o, -, -, -, -, -, -, -, -, he⟩⟩
  · obtain rfl : w = w' := (Prod.mk.inj (he.symm.trans hrun)).2
    refine iff_of_true (.refl _ _) ⟨fun hfind i hi => ?_, ?_⟩
    · rw [hno.resolve_left (absurd hfind)] at hi
      cases hi
    · rintro ⟨-, hfind, hfree, -⟩
      exact hno.elim (absurd hfind) (fun h => absurd h hfree)
  · obtain rfl := (Prod.mk.inj (he.symm.trans hrun)).2
    rw [newUndone_of_unmade hfree hun]
    exact ⟨fun h => ⟨fun _ => h, fun hf => hnf hf.1⟩, fun h => h.1 hfind⟩
  · obtain rfl := (Prod.mk.inj (he.symm.trans hrun)).2
    by_cases hi : i = 0
    · subst hi
      rw [newUndone_of_initFailed hfree hmade.1 hmade.2.1 rfl]
      refine ⟨fun h => ⟨fun _ => h, fun hf => ?_⟩, fun h => h.1 hfind⟩
      rw [(findFree_some hfree).1] at hf
      cases hf.2.2.2
    · have hu : w.mem.used 0 = true := (findFree_some hfree).2 0 (Fin.pos_iff_ne_zero.mpr hi)
      apply iff_of_false (not_newUndone_of_initFailed hfree hi hu rfl)
      intro h
      exact h.2 ⟨hf, hfind, by simp [hfree], hu⟩
  · cases he.symm.trans hrun

/-- A world with one published object, `A` in slot `0`. -/
def oneObject (k : Kind) : World .two :=
  (shobjNew k .ok (.ofBytes [65]) 84 0 { mem := (registryInit (.zero .two)).2, os := .empty _ }).2

theorem oneObject_tight (k : Kind) : (oneObject k).mem.Tight := by
  have h : ∀ k : Kind, SlotScan.top (oneObject k).mem.used ≤ 0 := by
    intro k
    rw [SlotScan.top_le_iff]
    cases k <;> decide
  have hindex : (oneObject k).mem.objectsMaxIndex = 0 := by cases k <;> rfl
  exact hindex.trans (Nat.le_zero.mp (h k)).symm

/-- A condition variable whose segment cannot be mapped, next to a memory in slot `0`. -/
theorem new_failure_undone_iff_mmap :
    let run := shobjNew .cond { SysEnv.ok with mmap := some .enomem } (.ofBytes [66]) 0 0
      (oneObject .mem)
    run.1 = .error .enomem ∧ NewUndone (.ofBytes [66]) (oneObject .mem) run.2 := by
  intro run
  have hrun : run = (.error .enomem, run.2) := rfl
  refine ⟨rfl, (new_failure_undone_iff _ _ _ _ _ hrun).mpr
    ⟨fun _ => (oneObject_tight .mem).indexFits, ?_⟩⟩
  rintro ⟨⟨-, -, hinit, -⟩, -⟩
  exact hinit rfl

/-- A mutex `B` whose initialisation fails takes the memory `A` in slot `0` away: the slot is
free and the segment is unlinked, although its owner still has it. -/
theorem new_failure_not_undone :
    ∃ w', shobjNew .mutex { SysEnv.ok with init := some .enomem } (.ofBytes [66]) 0 0
        (oneObject .mem) = (.error .enomem, w') ∧
      ((oneObject .mem).mem.objects 0).count = 1 ∧ w'.mem.used 0 = false ∧
      (oneObject .mem).os.link .shm [47, 65] = some 0 ∧ w'.os.link .shm [47, 65] = none ∧
      ¬ NewUndone (.ofBytes [66]) (oneObject .mem) w' := by
  refine ⟨_, rfl, by decide, by decide, by decide, by decide, fun h => ?_⟩
  have hlink := congrFun (congrFun h.links .shm) [47, 65]
  exact absurd hlink (by decide)

/-! ## Attachment -/

/-- A failed attachment leaves every slot, the index and every OS name as they were. -/
structure AttachUndone (w w' : World c) : Prop where
  objects : ∀ i, SameEntry (w.mem.objects i) (w'.mem.objects i)
  index : w'.mem.objectsMaxIndex = w.mem.objectsMaxIndex
  links : ∀ sp n ino, w.os.link sp n = some ino → w'.os.link sp n = some ino

/-- Whether an attacher of kind `k` opens the segment it looks for. -/
def Opens (k : Kind) (env : SysEnv) (name : CString) (os : Os c) : Prop :=
  k.space = .shm ∧ ∃ n ino, Opened env name os n ino

/-- Counting a reference and giving it back changes nothing, unless the slot was only reserved
or the count wraps. -/
theorem dec_inc_sameEntry_iff {o : RegisteredObject} (hu : o.inUse = true) :
    SameEntry o o.inc.dec ↔ o.reserved = false ∧ o.count.toNat + 1 < 2 ^ 32 := by
  constructor
  · rintro ⟨-, hres, hcount⟩
    have hr : o.reserved = false := hres.symm
    refine ⟨hr, ?_⟩
    have hpos : 0 < o.count.toNat := (inUse_iff.mp hu).resolve_left (by simp [hr])
    have hc : o.inc.count.toNat - 1 = o.count.toNat := by rw [← dec_count, hcount]
    have hlt := o.inc.count.toNat_lt
    omega
  · rintro ⟨hr, hc⟩
    rw [dec_inc hr hc]
    exact .refl o

theorem decCount_incNameCount_index {g : Internal c} {i : Slot c} (hu : g.used i = true)
    (hr : (g.objects i).reserved = false) (hc : (g.objects i).count.toNat + 1 < 2 ^ 32) :
    (decCount (incNameCount g i) i).objectsMaxIndex = g.objectsMaxIndex := by
  have hpos : 0 < (g.objects i).count.toNat := (inUse_iff.mp hu).resolve_left (by simp [hr])
  have hmore : 1 < ((incNameCount g i).objects i).count.toNat := by
    rw [incNameCount_objects, Function.update_self, inc_count hc]
    omega
  rw [decCount_of_count hmore]
  rfl

/-- **Failed attachments.** In every world, a failed `urt_sh*_attach` leaves everything as it
was exactly if the entry it found, if any, was published and had room for one more reference,
and it did not fail on a segment that it had opened. -/
theorem attach_failure_undone_iff (k : Kind) (env : SysEnv) (name : CString) {w w' : World c}
    {e : Errno} (hrun : shobjAttach k env name w = (.error e, w')) :
    AttachUndone w w' ↔
      ∀ i, findByName w.mem name = some i →
        (w.mem.objects i).reserved = false ∧ (w.mem.objects i).count.toNat + 1 < 2 ^ 32 ∧
          ¬ Opens k env name w.os := by
  have hobj : ∀ i, (decCount (incNameCount w.mem i) i).objects =
      Function.update w.mem.objects i (w.mem.objects i).inc.dec := by
    intro i
    rw [decCount_objects, incNameCount_objects, Function.update_self, Function.update_idem]
  have hsame : ∀ i, SameEntry (w.mem.objects i) (w.mem.objects i).inc.dec →
      ∀ j, SameEntry (w.mem.objects j) ((decCount (incNameCount w.mem i) i).objects j) := by
    intro i hi j
    rw [hobj]
    by_cases hj : j = i
    · rw [hj, Function.update_self]
      exact hi
    · rw [Function.update_of_ne hj]
      exact .refl _
  rcases shobjAttach_cases k env name w with ⟨hfind, he⟩ | ⟨i, hfind, ⟨hno, e', he⟩ |
    ⟨e', n, ino, hk, ho, he⟩ | ⟨n, ino, o, -, -, -, -, -, he⟩⟩
  · obtain rfl : w = w' := (Prod.mk.inj (he.symm.trans hrun)).2
    apply iff_of_true ⟨fun _ => .refl _, rfl, fun _ _ _ h => h⟩
    intro i hi
    rw [hfind] at hi
    cases hi
  · obtain rfl := (Prod.mk.inj (he.symm.trans hrun)).2
    have hu : w.mem.used i = true := (findByName_some hfind).1
    have hclosed : ¬ Opens k env name w.os := fun ⟨hk, n, ino, ho⟩ => hno n ino hk ho
    constructor
    · intro h j hj
      obtain rfl : i = j := Option.some.inj (hfind.symm.trans hj)
      have hi := h.objects i
      change SameEntry _ ((decCount (incNameCount w.mem i) i).objects i) at hi
      rw [hobj, Function.update_self] at hi
      obtain ⟨hr, hc⟩ := (dec_inc_sameEntry_iff hu).mp hi
      exact ⟨hr, hc, hclosed⟩
    · intro h
      obtain ⟨hr, hc, -⟩ := h i hfind
      exact ⟨hsame i ((dec_inc_sameEntry_iff hu).mpr ⟨hr, hc⟩),
        decCount_incNameCount_index hu hr hc, fun _ _ _ hl => hl⟩
  · obtain rfl := (Prod.mk.inj (he.symm.trans hrun)).2
    refine iff_of_false (fun h => ?_) fun h => (h i hfind).2.2 ⟨hk, n, ino, ho⟩
    have hl := h.links .shm n ino ho.2.2
    rw [Os.shmUnlink, Os.unlink_self] at hl
    cases hl
  · cases he.symm.trans hrun

/-- A semaphore attachment that runs out of memory, next to a published semaphore. -/
theorem attach_failure_undone_iff_malloc :
    let run := shobjAttach .sem { SysEnv.ok with malloc := true } (.ofBytes [65]) (oneObject .sem)
    run.1 = .error .enomem ∧ AttachUndone (oneObject .sem) run.2 := by
  intro run
  have hrun : run = (.error .enomem, run.2) := rfl
  refine ⟨rfl, (attach_failure_undone_iff _ _ _ hrun).mpr fun i hi => ?_⟩
  have h0 : findByName (oneObject .sem).mem (.ofBytes [65]) = some 0 := by decide
  obtain rfl : (0 : Slot .two) = i := Option.some.inj (h0.symm.trans hi)
  refine ⟨by decide, by decide, ?_⟩
  rintro ⟨hk, -⟩
  cases hk

/-- A failed attachment to a name that is only reserved frees the slot of the creator, and one
that cannot map a published segment unlinks it. -/
theorem attach_failure_not_undone :
    (∃ (g : Internal .two) (w' : World .two),
      reserveName (registryInit (.zero .two)).2 (.ofBytes [65]) = (.ok 0, g) ∧
      shobjAttach .mem .ok (.ofBytes [65]) { mem := g, os := .empty _ } = (.error .enoent, w') ∧
      g.used 0 = true ∧ w'.mem.used 0 = false ∧
      ¬ AttachUndone { mem := g, os := .empty _ } w') ∧
    ∃ w', shobjAttach .mem { SysEnv.ok with mmap := some .enomem } (.ofBytes [65])
        (oneObject .mem) = (.error .enomem, w') ∧
      (oneObject .mem).os.link .shm [47, 65] = some 0 ∧ w'.os.link .shm [47, 65] = none ∧
      ¬ AttachUndone (oneObject .mem) w' := by
  refine ⟨⟨_, _, rfl, rfl, by decide, by decide, ?_⟩, ⟨_, rfl, by decide, by decide, ?_⟩⟩
  · intro h
    exact absurd (h.objects 0) (by decide)
  · intro h
    exact absurd (h.links .shm [47, 65] 0 (by decide)) (by decide)

end Urt
