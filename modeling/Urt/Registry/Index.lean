import Urt.Registry.Sections

/-!
# `objects_max_index`

`_find_by_name` scans the slots `0 .. objects_max_index` only. The index is raised by
`urt_reserve_name` and lowered by `_dec_count_common` when the slot that was released is the
highest one. `Tight` says that it is always the highest index of a slot in use, or `0`:
`urt_registry_init` and `urt_recover` establish it, every critical section preserves it
(`sectionStep_tight`), and so the bounded scan misses nothing
(`Tight.findByName_eq_findAnywhere`).
-/

namespace Urt

variable {c : Config}

open RegisteredObject

/-- `objects_max_index` is the highest index of a slot in use, or `0`. -/
def Internal.Tight (g : Internal c) : Prop := g.objectsMaxIndex = SlotScan.top g.used

/-- Every slot in use is within `objects_max_index`. -/
def Internal.Covered (g : Internal c) : Prop :=
  ∀ i, g.used i = true → i.val ≤ g.objectsMaxIndex

/-- `_find_by_name` with all `URT_MAX_OBJECTS` slots scanned. -/
def findAnywhere (g : Internal c) (name : CString) : Option (Slot c) :=
  SlotScan.first (fun i => g.used i && nameEq (g.objects i).name.str name) c.maxObjects

namespace Internal.Tight

variable {g : Internal c}

theorem le_index (h : g.Tight) {i : Slot c} (hu : g.used i = true) :
    i.val ≤ g.objectsMaxIndex := h ▸ SlotScan.le_top hu

theorem covered (h : g.Tight) : g.Covered := fun _ => h.le_index

theorem lt_maxObjects (h : g.Tight) : g.objectsMaxIndex < c.maxObjects :=
  h ▸ SlotScan.top_lt g.used c.maxObjects_pos

theorem findByName_eq_findAnywhere (h : g.Tight) (name : CString) :
    findByName g name = findAnywhere g name := by
  apply SlotScan.first_eq_full
  intro i hi
  have hle := h.le_index (Bool.and_eq_true _ _ ▸ hi).1
  omega

end Internal.Tight

/-! ## Establishing the index -/

theorem registryInit_tight {g : Internal c} (h : g.initialized = false) :
    (registryInit g).2.Tight := by
  have hu : ∀ i, (registryInit g).2.used i = false := by
    intro i
    unfold registryInit
    rw [h]
    rfl
  unfold Internal.Tight
  rw [SlotScan.top_eq_zero hu, registryInit, h]
  rfl

theorem recoverIndex_tight (g : Internal c) : (recoverIndex g).Tight := by
  change SlotScan.raise g.used 0 = SlotScan.top g.used
  rw [SlotScan.raise_eq, Nat.zero_max]

/-! ## Preserving the index -/

theorem reserved_tight {g : Internal c} (h : g.Tight) (i : Slot c) (name : CString) :
    (reserved g i name).Tight := by
  unfold Internal.Tight
  rw [reserved_used, SlotScan.top_update_true, reserved_objectsMaxIndex, h]

/-- Writing an object that is in use, over one that was, leaves the index exact. -/
theorem setObject_tight {g : Internal c} (h : g.Tight) {i : Slot c} {o : RegisteredObject}
    (hu : g.used i = true) (ho : o.inUse = true) : (g.setObject i o).Tight := by
  unfold Internal.Tight
  rw [Internal.used_setObject, ho, SlotScan.top_update_true, Internal.setObject_objectsMaxIndex,
    max_eq_left (SlotScan.le_top hu)]
  exact h

theorem incNameCount_tight {g : Internal c} (h : g.Tight) {i : Slot c} (hu : g.used i = true)
    (hc : (g.objects i).count.toNat + 1 < 2 ^ 32) : (incNameCount g i).Tight :=
  setObject_tight h hu (inc_inUse hc)

/-- `_internal_mem_check` finds nothing to repair. -/
theorem internalMemCheck_eq {g : Internal c} (h : g.Tight) : internalMemCheck g = g := by
  unfold internalMemCheck
  split
  · rfl
  · have : SlotScan.raise g.used g.objectsMaxIndex = g.objectsMaxIndex := by
      rw [SlotScan.raise_eq, ← h, max_self]
    rw [this]

theorem decCount_tight {g : Internal c} (h : g.Tight) (i : Slot c) : (decCount g i).Tight := by
  by_cases hc : 1 < (g.objects i).count.toNat
  · rw [decCount_of_count hc]
    have ho := dec_inUse_iff.mpr hc
    exact setObject_tight h (inUse_of_dec_inUse ho) ho
  · rw [decCount_of_last (not_lt.mp hc)]
    have hused : (g.setObject i (g.objects i).dec).used = Function.update g.used i false := by
      rw [Internal.used_setObject, dec_inUse_eq_false_iff.mpr (not_lt.mp hc)]
    -- before `_internal_mem_check` the index is exact, so the check changes nothing
    suffices ht : Internal.Tight (if i.val = g.objectsMaxIndex then
        { g.setObject i (g.objects i).dec with
          objectsMaxIndex := SlotScan.down (g.setObject i (g.objects i).dec).used i.val }
        else g.setObject i (g.objects i).dec) by
      rw [internalMemCheck_eq ht]
      exact ht
    split
    · rename_i hi
      change SlotScan.down (g.setObject i (g.objects i).dec).used i.val =
        SlotScan.top (g.setObject i (g.objects i).dec).used
      apply SlotScan.down_eq_top
      rw [hused, SlotScan.top_le_iff]
      intro j hj
      by_cases hji : j = i
      · rw [hji]
      · rw [Function.update_of_ne hji] at hj
        rw [hi]
        exact h.le_index hj
    · rename_i hi
      unfold Internal.Tight
      rw [hused, SlotScan.top_update_false (h ▸ hi)]
      exact h

theorem used_of_decCount_used {g : Internal c} {i j : Slot c} (h : (decCount g i).used j = true) :
    g.used j = true := by
  rw [decCount_used] at h
  by_cases hji : j = i
  · subst hji
    rw [Function.update_self] at h
    exact inUse_of_dec_inUse h
  · rwa [Function.update_of_ne hji] at h

/-- Whatever the slot, `_dec_count_common` does not lower the index below a slot that stays in
use. -/
theorem le_index_decCount {g : Internal c} {i j : Slot c} (h : j.val ≤ g.objectsMaxIndex)
    (hu : (decCount g i).used j = true) : j.val ≤ (decCount g i).objectsMaxIndex := by
  rw [decCount_used, ← Internal.used_setObject] at hu
  by_cases hc : 1 < (g.objects i).count.toNat
  · rw [decCount_of_count hc]
    exact h
  · rw [decCount_of_last (not_lt.mp hc)]
    -- `_internal_mem_check` can only raise the index
    have hcheck : ∀ g' : Internal c, j.val ≤ g'.objectsMaxIndex →
        j.val ≤ (internalMemCheck g').objectsMaxIndex := by
      intro g' hle
      unfold internalMemCheck
      split
      · exact hle
      · refine hle.trans ?_
        dsimp only
        rw [SlotScan.raise_eq]
        exact le_max_left _ _
    apply hcheck
    split
    · rename_i hi
      exact SlotScan.le_down hu (hi ▸ h)
    · exact h

/-- Whatever the slot, `_dec_count_common` leaves every slot in use within the index. -/
theorem decCount_covered {g : Internal c} (h : g.Covered) (i : Slot c) :
    (decCount g i).Covered :=
  fun j hj => le_index_decCount (h j (used_of_decCount_used hj)) hj

theorem clearLoop_tight {k : Nat} {g g' : Internal c} {i : Slot c} (h : g.Tight)
    (hrun : clearLoop k g i = some g') : g'.Tight := by
  induction k generalizing g with
  | zero => cases hrun
  | succ k ih =>
    unfold clearLoop at hrun
    dsimp only at hrun
    split at hrun
    · exact ih (decCount_tight h i) hrun
    · cases hrun
      exact decCount_tight h i

/-- Every critical section keeps the index exact. -/
theorem sectionStep_tight {g g' : Internal c} {l : Section c} (h : g.Tight)
    (hl : SectionAllowed g l) (hs : sectionStep g l = some g') : g'.Tight := by
  rcases sectionStep_cases hs with rfl | ⟨name, i, -, -, -, rfl⟩ | ⟨i, hl', rfl⟩ |
    ⟨i, -, rfl⟩ | ⟨name, i, k, -, -, hloop⟩
  · exact h
  · exact reserved_tight h i name
  · rcases hl' with rfl | ⟨name, rfl, hfind⟩
    · exact incNameCount_tight h hl.1 hl.2
    · exact incNameCount_tight h (findByName_some hfind).1 (hl i hfind)
  · exact decCount_tight h i
  · exact clearLoop_tight h hloop

/-- Name, reservation and count are the same. -/
def SameEntry (o o' : RegisteredObject) : Prop :=
  o'.name = o.name ∧ o'.reserved = o.reserved ∧ o'.count = o.count

instance (o o' : RegisteredObject) : Decidable (SameEntry o o') :=
  inferInstanceAs (Decidable (_ ∧ _))

theorem SameEntry.refl (o : RegisteredObject) : SameEntry o o := ⟨rfl, rfl, rfl⟩

theorem SameEntry.inUse_eq {o o' : RegisteredObject} (h : SameEntry o o') :
    o'.inUse = o.inUse := by
  rw [RegisteredObject.inUse, RegisteredObject.inUse, h.2.1, h.2.2]

/-- `objects_max_index` is exact: established by `urt_registry_init` and, from any contents,
by `urt_recover`, which changes no other field; preserved over runs of critical sections; and
so `_find_by_name` answers as a scan of all slots does. -/
theorem objectsMaxIndex_exact :
    (∀ g : Internal c, g.initialized = false → (registryInit g).2.Tight) ∧
    (∀ g : Internal c, (recover false false false g).Tight) ∧
    (∀ (sysInit semGet memGet : Bool) (g : Internal c),
      recover sysInit semGet memGet g =
        { g with objectsMaxIndex := (recover sysInit semGet memGet g).objectsMaxIndex }) ∧
    (∀ (g g' : Internal c) (ls : List (Section c)), g.Tight →
      Lts.exec sectionStep g ls = some g' → Lts.AllSteps sectionStep SectionAllowed g ls →
      g'.Tight) ∧
    (∀ g : Internal c, g.Tight →
      g.objectsMaxIndex < c.maxObjects ∧
        ∀ name, findByName g name = findAnywhere g name) := by
  refine ⟨fun g => registryInit_tight, recoverIndex_tight, ?_, ?_, ?_⟩
  · intro sysInit semGet memGet g
    cases sysInit <;> cases semGet <;> cases memGet <;> rfl
  · intro g g' ls hg hrun hall
    exact Lts.exec_invariant (fun _ _ _ => sectionStep_tight) hg hrun hall
  · intro g hg
    exact ⟨hg.lt_maxObjects, hg.findByName_eq_findAnywhere⟩

/-- Two objects, the second of which is deregistered again. -/
theorem objectsMaxIndex_exact_two :
    let g := (registryInit (.zero .two)).2
    let ls : List (Section .two) := [.reserve (.ofBytes [65]), .inc 0, .reserve (.ofBytes [66]),
      .inc 1, .dec 1]
    ∃ g', Lts.exec sectionStep g ls = some g' ∧ g'.objectsMaxIndex = 0 ∧ g'.Tight := by
  intro g ls
  refine ⟨_, rfl, by decide, ?_⟩
  apply objectsMaxIndex_exact.2.2.2.1 g _ ls (objectsMaxIndex_exact.1 _ rfl) rfl
  decide

end Urt
