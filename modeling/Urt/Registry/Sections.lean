import Urt.Lib.Lts
import Urt.Registry.Basic

/-!
# One lemma for each critical section

What each function of the registry does, said once: the later modules use these lemmas and
do not unfold the functions again. `Section` collects the critical sections into one
transition system, `sectionStep`; `SectionAllowed` is what a caller has to keep to: counts
are only touched on slots in use, and no count is raised to `2^32`.
-/

namespace Urt

variable {c : Config} {σ : Type}

/-! ## One object -/

theorem count_pos_iff {n : UInt32} : n > 0 ↔ 0 < n.toNat := by
  rw [gt_iff_lt, UInt32.lt_iff_toNat_lt, UInt32.toNat_zero]

namespace RegisteredObject

theorem inUse_iff {o : RegisteredObject} :
    o.inUse = true ↔ o.reserved = true ∨ 0 < o.count.toNat := by
  rw [inUse, Bool.or_eq_true, bne_iff_ne, ne_eq, ← UInt32.toNat_inj, UInt32.toNat_zero,
    Nat.pos_iff_ne_zero]

theorem inUse_eq_false_iff {o : RegisteredObject} :
    o.inUse = false ↔ o.reserved = false ∧ o.count.toNat = 0 := by
  rw [← Bool.not_eq_true, inUse_iff]
  simp

@[simp] theorem inc_reserved (o : RegisteredObject) : o.inc.reserved = false := rfl
@[simp] theorem inc_name (o : RegisteredObject) : o.inc.name = o.name := rfl
@[simp] theorem inc_tname (o : RegisteredObject) : o.inc.tname = o.tname := rfl
@[simp] theorem inc_type (o : RegisteredObject) : o.inc.type = o.type := rfl
@[simp] theorem dec_reserved (o : RegisteredObject) : o.dec.reserved = false := rfl
@[simp] theorem dec_name (o : RegisteredObject) : o.dec.name = o.name := rfl
@[simp] theorem dec_tname (o : RegisteredObject) : o.dec.tname = o.tname := rfl
@[simp] theorem dec_type (o : RegisteredObject) : o.dec.type = o.type := rfl
@[simp] theorem dec_size (o : RegisteredObject) : o.dec.size = o.size := rfl

theorem inc_count {o : RegisteredObject} (h : o.count.toNat + 1 < 2 ^ 32) :
    o.inc.count.toNat = o.count.toNat + 1 := by
  simp only [inc, UInt32.toNat_add, UInt32.toNat_one]
  omega

theorem inc_inUse {o : RegisteredObject} (h : o.count.toNat + 1 < 2 ^ 32) :
    o.inc.inUse = true := by
  rw [inUse_iff, inc_count h]
  omega

theorem inc_inUse_iff {o : RegisteredObject} :
    o.inc.inUse = true ↔ o.count.toNat + 1 < 2 ^ 32 := by
  refine ⟨fun h => ?_, inc_inUse⟩
  rw [inUse_iff] at h
  rcases h with h | h
  · cases h
  · simp only [inc, UInt32.toNat_add, UInt32.toNat_one] at h
    have := o.count.toNat_lt
    omega

theorem dec_count (o : RegisteredObject) : o.dec.count.toNat = o.count.toNat - 1 := by
  unfold dec
  dsimp only
  split
  · rename_i h
    rw [count_pos_iff] at h
    have hle : (1 : UInt32) ≤ o.count := by
      rw [UInt32.le_iff_toNat_le, UInt32.toNat_one]
      omega
    rw [UInt32.toNat_sub_of_le _ _ hle, UInt32.toNat_one]
  · rename_i h
    rw [count_pos_iff] at h
    omega

theorem dec_inUse_iff {o : RegisteredObject} : o.dec.inUse = true ↔ 1 < o.count.toNat := by
  rw [inUse_iff, dec_count, dec_reserved]
  simp only [Bool.false_eq_true, false_or]
  omega

theorem dec_inUse_eq_false_iff {o : RegisteredObject} :
    o.dec.inUse = false ↔ o.count.toNat ≤ 1 := by
  rw [← Bool.not_eq_true, dec_inUse_iff, not_lt]

/-- A decrement that leaves a count behind also finds one. -/
theorem inUse_of_dec_inUse {o : RegisteredObject} (h : o.dec.inUse = true) : o.inUse = true :=
  inUse_iff.mpr (.inr (by have := dec_inUse_iff.mp h; omega))

theorem dec_inc {o : RegisteredObject} (hr : o.reserved = false)
    (h : o.count.toNat + 1 < 2 ^ 32) : o.inc.dec = o := by
  have hcount : o.inc.dec.count = o.count := by
    rw [← UInt32.toNat_inj, dec_count, inc_count h]
    rfl
  obtain ⟨name, reserved, bk, type, count, size⟩ := o
  simp only at hr
  subst hr
  simp only [inc, dec] at hcount ⊢
  rw [hcount]

@[simp] theorem reservedObject_inUse (name : CString) : (reservedObject name).inUse = true := rfl
@[simp] theorem reservedObject_count (name : CString) : (reservedObject name).count = 0 := rfl
@[simp] theorem reservedObject_reserved (name : CString) :
    (reservedObject name).reserved = true := rfl

@[simp] theorem reservedObject_tname (name : CString) :
    (reservedObject name).tname = truncName name := truncName_nameCpy _ _

@[simp] theorem zero_inUse : zero.inUse = false := rfl

end RegisteredObject

open RegisteredObject

/-! ## Searches -/

theorem findByName_some {g : Internal c} {name : CString} {i : Slot c}
    (h : findByName g name = some i) :
    g.used i = true ∧ (g.objects i).tname = truncName name ∧ i.val ≤ g.objectsMaxIndex := by
  obtain ⟨hlt, hp, -⟩ := SlotScan.first_eq_some.mp h
  simp only [Bool.and_eq_true, nameEq_iff] at hp
  exact ⟨hp.1, hp.2, by omega⟩

theorem findByName_none {g : Internal c} {name : CString} (h : findByName g name = none)
    {i : Slot c} (hi : i.val ≤ g.objectsMaxIndex) (hu : g.used i = true) :
    (g.objects i).tname ≠ truncName name := by
  have hf := SlotScan.first_eq_none.mp h i (by omega)
  rw [hu, Bool.true_and, ← Bool.not_eq_true, nameEq_iff] at hf
  exact hf

theorem findFree_some {g : Internal c} {i : Slot c} (h : findFree g = some i) :
    g.used i = false ∧ ∀ j < i, g.used j = true := by
  obtain ⟨-, hp, hmin⟩ := SlotScan.first_eq_some.mp h
  exact ⟨by simpa using hp, fun j hj => by simpa using hmin j hj⟩

theorem ne_of_findFree {g : Internal c} {i j : Slot c} (h : findFree g = some i)
    (hj : g.used j = true) : j ≠ i := by
  intro hji
  rw [hji, (findFree_some h).1] at hj
  cases hj

theorem findFree_none {g : Internal c} (h : findFree g = none) (i : Slot c) :
    g.used i = true := by
  simpa using SlotScan.first_eq_none.mp h i i.isLt

/-! ## `urt_reserve_name` -/

/-- The registry after slot `i` was reserved for `name`. -/
def reserved (g : Internal c) (i : Slot c) (name : CString) : Internal c :=
  { g.setObject i (reservedObject name) with
    objectsMaxIndex := max g.objectsMaxIndex i.val }

@[simp] theorem reserved_objects (g : Internal c) (i : Slot c) (name : CString) :
    (reserved g i name).objects = Function.update g.objects i (reservedObject name) := rfl

@[simp] theorem reserved_objectsMaxIndex (g : Internal c) (i : Slot c) (name : CString) :
    (reserved g i name).objectsMaxIndex = max g.objectsMaxIndex i.val := rfl

theorem reserved_used (g : Internal c) (i : Slot c) (name : CString) :
    (reserved g i name).used = Function.update g.used i true :=
  g.used_setObject i (reservedObject name)

/-- The three outcomes of `urt_reserve_name`. -/
theorem reserveName_cases (g : Internal c) (name : CString) :
    (∃ i, findByName g name = some i ∧ reserveName g name = (.error .eexist, g)) ∨
    (findByName g name = none ∧ findFree g = none ∧
      reserveName g name = (.error .enospc, g)) ∨
    ∃ i, findByName g name = none ∧ findFree g = some i ∧
      reserveName g name = (.ok i, reserved g i name) := by
  unfold reserveName
  cases hfind : findByName g name with
  | some i => exact .inl ⟨i, rfl, rfl⟩
  | none =>
    cases hfree : findFree g with
    | none => exact .inr (.inl ⟨rfl, rfl, rfl⟩)
    | some i =>
      refine .inr (.inr ⟨i, rfl, rfl, ?_⟩)
      have hmax : (if i.val > g.objectsMaxIndex then i.val else g.objectsMaxIndex) =
          max g.objectsMaxIndex i.val := by
        split <;> omega
      simp only [hmax, reserved]

/-! ## `urt_inc_name_count` and `urt_get_object_by_name_and_inc_count` -/

@[simp] theorem incNameCount_objects (g : Internal c) (i : Slot c) :
    (incNameCount g i).objects = Function.update g.objects i (g.objects i).inc := rfl

@[simp] theorem incNameCount_objectsMaxIndex (g : Internal c) (i : Slot c) :
    (incNameCount g i).objectsMaxIndex = g.objectsMaxIndex := rfl

theorem incNameCount_used {g : Internal c} {i : Slot c}
    (h : (g.objects i).count.toNat + 1 < 2 ^ 32) :
    (incNameCount g i).used = Function.update g.used i true := by
  rw [incNameCount, Internal.used_setObject, inc_inUse h]

theorem getObjectByNameAndIncCount_eq (g : Internal c) (name : CString) :
    getObjectByNameAndIncCount g name =
      (findByName g name,
        match findByName g name with
        | none => g
        | some i => incNameCount g i) := by
  unfold getObjectByNameAndIncCount
  cases findByName g name <;> rfl

/-! ## `_dec_count_common` -/

/-- The registry part of `_dec_count_common` does not depend on the callback, and the
callback is given the object as it is after the decrement. -/
theorem decCountCommon_eq (release : Option (RegisteredObject → σ → σ)) (g : Internal c)
    (i : Slot c) (s : σ) :
    decCountCommon release g i s =
      (decCount g i, match release with
        | some f => f (g.objects i).dec s
        | none => s) := by
  unfold decCount decCountCommon
  simp only [Internal.setObject_objects, Function.update_self]
  split <;> rfl

theorem decCount_objects (g : Internal c) (i : Slot c) :
    (decCount g i).objects = Function.update g.objects i (g.objects i).dec := by
  unfold decCount decCountCommon internalMemCheck
  dsimp only
  split
  · rfl
  · split <;> split <;> rfl

theorem decCount_used (g : Internal c) (i : Slot c) :
    (decCount g i).used = Function.update g.used i (g.objects i).dec.inUse := by
  rw [← Internal.used_setObject]
  unfold Internal.used
  rw [decCount_objects]
  rfl

/-- With references left, only the object changes. -/
theorem decCount_of_count {g : Internal c} {i : Slot c} (h : 1 < (g.objects i).count.toNat) :
    decCount g i = g.setObject i (g.objects i).dec := by
  have hpos : (g.objects i).dec.count > 0 := by
    rw [count_pos_iff, dec_count]
    omega
  unfold decCount decCountCommon
  simp only [Internal.setObject_objects, Function.update_self, hpos, if_true]

/-- When the last reference goes, the index is lowered if the slot was the highest. -/
theorem decCount_of_last {g : Internal c} {i : Slot c} (h : (g.objects i).count.toNat ≤ 1) :
    decCount g i =
      internalMemCheck
        (if i.val = g.objectsMaxIndex then
          { g.setObject i (g.objects i).dec with
            objectsMaxIndex := SlotScan.down (g.setObject i (g.objects i).dec).used i.val }
        else g.setObject i (g.objects i).dec) := by
  have hzero : ¬ (g.objects i).dec.count > 0 := by
    rw [count_pos_iff, dec_count]
    omega
  unfold decCount decCountCommon
  simp only [Internal.setObject_objects, Function.update_self, hzero, if_false,
    Internal.setObject_objectsMaxIndex]
  rfl

/-! ## Counts -/

/-- Counting a reference to slot `i` adds one to its count and to no other. -/
theorem count_incNameCount {g : Internal c} {i : Slot c}
    (h : (g.objects i).count.toNat + 1 < 2 ^ 32) (j : Slot c) :
    ((incNameCount g i).objects j).count.toNat =
      (g.objects j).count.toNat + if j = i then 1 else 0 := by
  rw [incNameCount_objects]
  by_cases hj : j = i
  · subst hj
    rw [Function.update_self, inc_count h, if_pos rfl]
  · rw [Function.update_of_ne hj, if_neg hj, Nat.add_zero]

/-- Deregistering slot `i` takes one from its count, if there is one, and from no other. -/
theorem count_decCount (g : Internal c) (i j : Slot c) :
    ((decCount g i).objects j).count.toNat =
      (g.objects j).count.toNat - if j = i then 1 else 0 := by
  rw [decCount_objects]
  by_cases hj : j = i
  · subst hj
    rw [Function.update_self, dec_count, if_pos rfl]
  · rw [Function.update_of_ne hj, if_neg hj, Nat.sub_zero]

/-- Reserving a free slot leaves every count as it is. -/
theorem count_reserved {g : Internal c} {i : Slot c} (hi : g.used i = false) (name : CString)
    (j : Slot c) :
    ((reserved g i name).objects j).count.toNat = (g.objects j).count.toNat := by
  rw [reserved_objects]
  by_cases hj : j = i
  · subst hj
    rw [Function.update_self, reservedObject_count]
    exact (inUse_eq_false_iff.mp hi).2.symm
  · rw [Function.update_of_ne hj]

/-! ## `urt_force_clear_name` -/

/-- The loop ends: after as many rounds as there are references (at least one) the slot is
free, and no other object was touched. -/
theorem clearLoop_spec (g : Internal c) (i : Slot c) {k : Nat}
    (hk : (g.objects i).count.toNat ≤ k) :
    ∃ g', clearLoop (k + 1) g i = some g' ∧ (∀ j, j ≠ i → g'.objects j = g.objects j) ∧
      g'.used i = false ∧ (g'.objects i).name = (g.objects i).name := by
  induction k generalizing g with
  | zero =>
    have hobj : (decCount g i).objects i = (g.objects i).dec := by
      rw [decCount_objects, Function.update_self]
    have hlast : ¬ ((decCount g i).objects i).count > 0 := by
      rw [hobj, count_pos_iff, dec_count]
      omega
    refine ⟨decCount g i, ?_, ?_, ?_, ?_⟩
    · unfold clearLoop
      simp only [hlast, if_false]
    · intro j hj
      rw [decCount_objects, Function.update_of_ne hj]
    · rw [Internal.used, hobj, dec_inUse_eq_false_iff]
      omega
    · rw [hobj, dec_name]
  | succ k ih =>
    have hobj : (decCount g i).objects i = (g.objects i).dec := by
      rw [decCount_objects, Function.update_self]
    by_cases hlast : ((decCount g i).objects i).count > 0
    · obtain ⟨g', hrun, hother, hfree, hname⟩ := ih (decCount g i) (by
        rw [hobj, dec_count]
        omega)
      refine ⟨g', ?_, ?_, hfree, ?_⟩
      · rw [clearLoop]
        simp only [hlast, if_true]
        exact hrun
      · intro j hj
        rw [hother j hj, decCount_objects, Function.update_of_ne hj]
      · rw [hname, hobj, dec_name]
    · refine ⟨decCount g i, ?_, ?_, ?_, ?_⟩
      · rw [clearLoop]
        simp only [hlast, if_false]
      · intro j hj
        rw [decCount_objects, Function.update_of_ne hj]
      · rw [Internal.used, hobj, dec_inUse_eq_false_iff]
        rw [hobj, count_pos_iff, dec_count] at hlast
        omega
      · rw [hobj, dec_name]

/-! ## Runs of critical sections -/

/-- The critical sections of the registry. -/
inductive Section (c : Config) where
  | reserve (name : CString)
  | inc (i : Slot c)
  | dec (i : Slot c)
  | lookup (name : CString)
  | forceClear (name : CString)

/-- One critical section; `none` if it does not return. -/
def sectionStep (g : Internal c) : Section c → Option (Internal c)
  | .reserve name => some (reserveName g name).2
  | .inc i => some (incNameCount g i)
  | .dec i => some (decNameCount (σ := Unit) none g i ()).1
  | .lookup name => some (getObjectByNameAndIncCount g name).2
  | .forceClear name =>
      (forceClearName (σ := Unit) (fun _ s => s) g name ()).map fun r => r.1

/-- What the callers keep to: counts are only touched on slots in use, and never raised to
`2^32`. -/
def SectionAllowed (g : Internal c) : Section c → Prop
  | .inc i => g.used i = true ∧ (g.objects i).count.toNat + 1 < 2 ^ 32
  | .dec i => g.used i = true
  | .lookup name => ∀ i, findByName g name = some i → (g.objects i).count.toNat + 1 < 2 ^ 32
  | .reserve _ | .forceClear _ => True

instance (g : Internal c) (l : Section c) : Decidable (SectionAllowed g l) := by
  cases l <;> unfold SectionAllowed <;> infer_instance

theorem decNameCount_eq (release : Option (RegisteredObject → σ → σ)) (g : Internal c)
    (i : Slot c) (s : σ) :
    decNameCount release g i s =
      (decCount g i, match release with
        | some f => f (g.objects i).dec s
        | none => s) :=
  decCountCommon_eq release g i s

/-- What one critical section does. -/
theorem sectionStep_cases {g g' : Internal c} {l : Section c} (h : sectionStep g l = some g') :
    (g' = g) ∨
    (∃ name i, l = .reserve name ∧ findByName g name = none ∧ findFree g = some i ∧
      g' = reserved g i name) ∨
    (∃ i, (l = .inc i ∨ ∃ name, l = .lookup name ∧ findByName g name = some i) ∧
      g' = incNameCount g i) ∨
    (∃ i, l = .dec i ∧ g' = decCount g i) ∨
    (∃ name i k, l = .forceClear name ∧ findByName g name = some i ∧
      clearLoop k g i = some g') := by
  cases l with
  | reserve name =>
    simp only [sectionStep, Option.some.injEq] at h
    rcases reserveName_cases g name with ⟨i, -, he⟩ | ⟨-, -, he⟩ | ⟨i, hfind, hfree, he⟩
    · exact .inl (by rw [← h, he])
    · exact .inl (by rw [← h, he])
    · exact .inr (.inl ⟨name, i, rfl, hfind, hfree, by rw [← h, he]⟩)
  | inc i =>
    simp only [sectionStep, Option.some.injEq] at h
    exact .inr (.inr (.inl ⟨i, .inl rfl, h.symm⟩))
  | dec i =>
    simp only [sectionStep, decNameCount_eq, Option.some.injEq] at h
    exact .inr (.inr (.inr (.inl ⟨i, rfl, h.symm⟩)))
  | lookup name =>
    simp only [sectionStep, getObjectByNameAndIncCount_eq, Option.some.injEq] at h
    cases hfind : findByName g name with
    | none => exact .inl (by rw [← h, hfind])
    | some i =>
      exact .inr (.inr (.inl ⟨i, .inr ⟨name, rfl, hfind⟩, by rw [← h, hfind]⟩))
  | forceClear name =>
    simp only [sectionStep, forceClearName, Option.map_eq_some_iff] at h
    obtain ⟨⟨g₁, u⟩, hclear, rfl⟩ := h
    cases hfind : findByName g name with
    | none =>
      rw [hfind] at hclear
      cases hclear
      exact .inl rfl
    | some i =>
      rw [hfind] at hclear
      obtain ⟨g₂, hloop, he⟩ := Option.map_eq_some_iff.mp hclear
      cases he
      exact .inr (.inr (.inr (.inr ⟨name, i, _, rfl, hfind, hloop⟩)))

end Urt
