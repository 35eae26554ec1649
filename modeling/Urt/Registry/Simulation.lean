import Mathlib.Data.Fintype.Card
import Urt.Registry.Directory
import Urt.Registry.Index

/-!
# The slot array simulates a directory

`Represents g m` is the simulation relation between the slot array and a directory of names:
the index is exact, no two slots in use carry the same name, and the directory holds, for
each slot in use, its truncated name with its reservation and its count. Two lemmas say how
the relation follows a write to one slot (`Represents.setObject` and `Represents.release`);
every critical section is one of them, or changes nothing.
-/

namespace Urt

variable {c : Config}

open RegisteredObject

/-! ## Names of slots in use -/

/-- No two slots in use carry the same name. -/
def Internal.Unique (g : Internal c) : Prop :=
  ∀ i j, g.used i = true → g.used j = true →
    (g.objects i).tname = (g.objects j).tname → i = j

theorem setObject_unique {g : Internal c} (h : g.Unique) {i : Slot c} {o : RegisteredObject}
    (ho : o.inUse = true → ∀ j, j ≠ i → g.used j = true → (g.objects j).tname ≠ o.tname) :
    (g.setObject i o).Unique := by
  intro j k hj hk hjk
  rw [Internal.used_setObject] at hj hk
  simp only [Internal.setObject_objects] at hjk
  by_cases hji : j = i <;> by_cases hki : k = i
  · rw [hji, hki]
  · subst hji
    rw [Function.update_self] at hj hjk
    rw [Function.update_of_ne hki] at hk hjk
    exact absurd hjk.symm (ho hj k hki hk)
  · subst hki
    rw [Function.update_self] at hk hjk
    rw [Function.update_of_ne hji] at hj hjk
    exact absurd hjk (ho hk j hji hj)
  · rw [Function.update_of_ne hji] at hj hjk
    rw [Function.update_of_ne hki] at hk hjk
    exact h j k hj hk hjk

/-- In a tight registry, a name that is not found is borne by no slot in use. -/
theorem Internal.Tight.fresh_of_findByName_none {g : Internal c} (ht : g.Tight) {name : CString}
    (h : findByName g name = none) (j : Slot c) (hj : g.used j = true) :
    (g.objects j).tname ≠ truncName name := findByName_none h (ht.le_index hj) hj

/-! ## The simulation relation -/

/-- What a directory knows of an object. -/
def RegisteredObject.entry (o : RegisteredObject) : Entry := ⟨o.reserved, o.count.toNat⟩

/-- The simulation relation between the slot array and a directory of truncated names. -/
structure Represents (g : Internal c) (m : Directory (List UInt8)) : Prop where
  tight : g.Tight
  unique : g.Unique
  lookup : ∀ n e, m.lookup n = some e ↔
    ∃ i, g.used i = true ∧ (g.objects i).tname = n ∧ (g.objects i).entry = e

namespace Represents

variable {g : Internal c} {m : Directory (List UInt8)}

theorem lookup_slot (h : Represents g m) {i : Slot c} (hu : g.used i = true) :
    m.lookup (g.objects i).tname = some (g.objects i).entry :=
  (h.lookup _ _).mpr ⟨i, hu, rfl, rfl⟩

theorem mem_iff (h : Represents g m) {n : List UInt8} :
    n ∈ m ↔ ∃ i, g.used i = true ∧ (g.objects i).tname = n := by
  rw [Finmap.mem_iff]
  constructor
  · rintro ⟨e, he⟩
    obtain ⟨i, hu, hn, -⟩ := (h.lookup n e).mp he
    exact ⟨i, hu, hn⟩
  · rintro ⟨i, hu, rfl⟩
    exact ⟨_, h.lookup_slot hu⟩

theorem lookup_none (h : Represents g m) {name : CString} (hf : findByName g name = none) :
    m.lookup (truncName name) = none := by
  rw [Finmap.lookup_eq_none, h.mem_iff]
  rintro ⟨i, hu, hn⟩
  exact h.tight.fresh_of_findByName_none hf i hu hn

theorem lookup_found (h : Represents g m) {name : CString} {i : Slot c}
    (hf : findByName g name = some i) :
    m.lookup (truncName name) = some (g.objects i).entry := by
  obtain ⟨hu, hn, -⟩ := findByName_some hf
  rw [← hn]
  exact h.lookup_slot hu

/-- The directory has as many entries as there are slots in use. -/
theorem card (h : Represents g m) :
    m.keys.card = (Finset.univ.filter fun i => g.used i = true).card := by
  have hkeys : m.keys =
      (Finset.univ.filter fun i => g.used i = true).image fun i => (g.objects i).tname := by
    ext n
    rw [Finmap.mem_keys, h.mem_iff]
    simp
  rw [hkeys]
  apply Finset.card_image_of_injOn
  intro i hi j hj hij
  exact h.unique i j (by simpa using hi) (by simpa using hj) hij

theorem card_full (h : Represents g m) (hf : findFree g = none) :
    m.keys.card = c.maxObjects := by
  rw [h.card, Finset.filter_true_of_mem fun i _ => findFree_none hf i]
  rw [Finset.card_univ, Fintype.card_fin]

theorem card_lt (h : Represents g m) {i : Slot c} (hf : findFree g = some i) :
    m.keys.card < c.maxObjects := by
  rw [h.card]
  calc (Finset.univ.filter fun i => g.used i = true).card
      < (Finset.univ : Finset (Slot c)).card := by
        apply Finset.card_lt_card
        rw [Finset.filter_ssubset]
        exact ⟨i, Finset.mem_univ i, by simp [(findFree_some hf).1]⟩
    _ = c.maxObjects := by rw [Finset.card_univ, Fintype.card_fin]

/-! ## Writing one slot -/

/-- Writing an object in use whose name no other slot bears adds or replaces its entry. -/
theorem setObject (h : Represents g m) {i : Slot c} {o : RegisteredObject} {g' : Internal c}
    (hobj : g'.objects = Function.update g.objects i o) (ht : g'.Tight) (ho : o.inUse = true)
    (hother : ∀ j, j ≠ i → g.used j = true → (g.objects j).tname ≠ o.tname)
    (hold : g.used i = true → (g.objects i).tname = o.tname) :
    Represents g' (m.insert o.tname o.entry) := by
  have hused : g'.used = Function.update g.used i o.inUse := by
    rw [← Internal.used_setObject]
    unfold Internal.used
    rw [hobj]
    rfl
  refine ⟨ht, ?_, ?_⟩
  · have hu : (g.setObject i o).Unique := setObject_unique h.unique fun _ => hother
    intro j k
    unfold Internal.used
    rw [hobj]
    exact hu j k
  · intro n e
    rw [hused, hobj]
    by_cases hn : n = o.tname
    · subst hn
      rw [Finmap.lookup_insert]
      constructor
      · rintro ⟨⟩
        exact ⟨i, by rw [Function.update_self, ho], by rw [Function.update_self],
          by rw [Function.update_self]⟩
      · rintro ⟨j, hj, hjn, rfl⟩
        by_cases hji : j = i
        · rw [hji, Function.update_self]
        · rw [Function.update_of_ne hji] at hj hjn
          exact absurd hjn (hother j hji hj)
    · rw [Finmap.lookup_insert_of_ne _ hn, h.lookup]
      constructor
      · rintro ⟨j, hj, rfl, rfl⟩
        have hji : j ≠ i := by
          rintro rfl
          exact hn (hold hj)
        exact ⟨j, by rwa [Function.update_of_ne hji], by rw [Function.update_of_ne hji],
          by rw [Function.update_of_ne hji]⟩
      · rintro ⟨j, hj, rfl, rfl⟩
        have hji : j ≠ i := by
          rintro rfl
          rw [Function.update_self] at hn
          exact hn rfl
        rw [Function.update_of_ne hji] at hj
        exact ⟨j, hj, by rw [Function.update_of_ne hji], by rw [Function.update_of_ne hji]⟩

/-- Writing an object in use under the name the slot already bears replaces its entry. -/
theorem replace (h : Represents g m) {i : Slot c} {o : RegisteredObject} {g' : Internal c}
    (hobj : g'.objects = Function.update g.objects i o) (ht : g'.Tight) (ho : o.inUse = true)
    (hu : g.used i = true) (hn : o.tname = (g.objects i).tname) :
    Represents g' (m.insert (g.objects i).tname o.entry) := by
  rw [← hn]
  refine h.setObject hobj ht ho (fun j hji hj hjn => ?_) fun _ => hn.symm
  exact hji (h.unique j i hj hu (hjn.trans hn))

/-- Freeing a slot removes its entry. -/
theorem release (h : Represents g m) {i : Slot c} {g' : Internal c} (hu : g.used i = true)
    (hother : ∀ j, j ≠ i → g'.objects j = g.objects j) (hfree : g'.used i = false)
    (ht : g'.Tight) : Represents g' (m.erase (g.objects i).tname) := by
  have hused : ∀ j, g'.used j = true ↔ j ≠ i ∧ g.used j = true := by
    intro j
    by_cases hji : j = i
    · subst hji
      simp [hfree]
    · simp only [ne_eq, hji, not_false_eq_true, true_and]
      unfold Internal.used
      rw [hother j hji]
  refine ⟨ht, ?_, ?_⟩
  · intro j k hj hk hjk
    obtain ⟨hji, hj'⟩ := (hused j).mp hj
    obtain ⟨hki, hk'⟩ := (hused k).mp hk
    rw [hother j hji, hother k hki] at hjk
    exact h.unique j k hj' hk' hjk
  · intro n e
    by_cases hn : n = (g.objects i).tname
    · subst hn
      rw [Finmap.lookup_erase]
      constructor
      · rintro ⟨⟩
      · rintro ⟨j, hj, hjn, -⟩
        obtain ⟨hji, hj'⟩ := (hused j).mp hj
        rw [hother j hji] at hjn
        exact absurd (h.unique j i hj' hu hjn) hji
    · rw [Finmap.lookup_erase_ne hn, h.lookup]
      constructor
      · rintro ⟨j, hj, rfl, rfl⟩
        have hji : j ≠ i := by
          rintro rfl
          exact hn rfl
        exact ⟨j, (hused j).mpr ⟨hji, hj⟩, by rw [hother j hji], by rw [hother j hji]⟩
      · rintro ⟨j, hj, rfl, rfl⟩
        obtain ⟨hji, hj'⟩ := (hused j).mp hj
        exact ⟨j, hj', by rw [hother j hji], by rw [hother j hji]⟩

end Represents

/-! ## The critical sections -/

open Directory in
/-- The operation a critical section means and the answer it gives. A slot is shown by the
name it bears. -/
def event (g : Internal c) : Section c → Op (List UInt8) × Answer (List UInt8)
  | .reserve name =>
      (.reserve (truncName name),
        match reserveName g name with
        | (.ok i, g') => .granted (g'.objects i).tname
        | (.error e, _) => .refused e)
  | .inc i => (.inc (g.objects i).tname, .done)
  | .dec i => (.dec (g.objects i).tname, .done)
  | .lookup name =>
      (.lookup (truncName name),
        match getObjectByNameAndIncCount g name with
        | (some i, g') => .found (g'.objects i).tname
        | (none, _) => .missing)
  | .forceClear name => (.forceClear (truncName name), .done)

section Matched

variable {g : Internal c} {m : Directory (List UInt8)}

/-- A critical section is matched by the directory: it ends, its answer is the directory's,
and the relation holds afterwards. -/
def Matched (g : Internal c) (m : Directory (List UInt8)) (l : Section c) : Prop :=
  ∃ g' m', sectionStep g l = some g' ∧ Directory.step c.maxObjects m (event g l) = some m' ∧
    Represents g' m'

theorem matched_reserve (h : Represents g m) (name : CString) :
    Matched g m (.reserve name) := by
  rcases reserveName_cases g name with ⟨i, hfind, he⟩ | ⟨hfind, hfree, he⟩ |
    ⟨i, hfind, hfree, he⟩
  · have hmem : truncName name ∈ m := Finmap.mem_of_lookup_eq_some (h.lookup_found hfind)
    have hact : Directory.act c.maxObjects m (.reserve (truncName name)) =
        (.refused .eexist, m) := by simp [Directory.act, hmem]
    refine ⟨g, m, by simp [sectionStep, he], ?_, h⟩
    simp [event, he, Directory.step, hact]
  · have hmem : truncName name ∉ m := Finmap.lookup_eq_none.mp (h.lookup_none hfind)
    have hact : Directory.act c.maxObjects m (.reserve (truncName name)) =
        (.refused .enospc, m) := by simp [Directory.act, hmem, h.card_full hfree]
    refine ⟨g, m, by simp [sectionStep, he], ?_, h⟩
    simp [event, he, Directory.step, hact]
  · have hmem : truncName name ∉ m := Finmap.lookup_eq_none.mp (h.lookup_none hfind)
    have hact : Directory.act c.maxObjects m (.reserve (truncName name)) =
        (.granted (truncName name), m.insert (truncName name) ⟨true, 0⟩) := by
      simp [Directory.act, hmem, (h.card_lt hfree).ne]
    refine ⟨reserved g i name, m.insert (truncName name) ⟨true, 0⟩, by simp [sectionStep, he],
      ?_, ?_⟩
    · simp [event, he, Directory.step, hact]
    · have hins := h.setObject (o := reservedObject name) (reserved_objects g i name)
        (reserved_tight h.tight i name) rfl
        (fun j _ hj => by
          rw [reservedObject_tname]
          exact h.tight.fresh_of_findByName_none hfind j hj)
        (fun hu => absurd rfl (ne_of_findFree hfree hu))
      rw [reservedObject_tname] at hins
      exact hins

/-- Counting a reference to a slot in use. -/
theorem represents_inc (h : Represents g m) {i : Slot c} (hu : g.used i = true)
    (hc : (g.objects i).count.toNat + 1 < 2 ^ 32) :
    Represents (incNameCount g i)
      (m.insert (g.objects i).tname ⟨false, (g.objects i).entry.count + 1⟩) := by
  have hentry : (g.objects i).inc.entry = ⟨false, (g.objects i).entry.count + 1⟩ := by
    simp only [RegisteredObject.entry, inc_count hc, inc_reserved]
  rw [← hentry]
  exact h.replace rfl (incNameCount_tight h.tight hu hc) (inc_inUse hc) hu rfl

theorem matched_inc (h : Represents g m) {i : Slot c} (hl : SectionAllowed g (.inc i)) :
    Matched g m (.inc i) := by
  refine ⟨incNameCount g i, _, rfl, ?_, represents_inc h hl.1 hl.2⟩
  simp [event, Directory.step, Directory.act, h.lookup_slot hl.1]

theorem matched_lookup (h : Represents g m) {name : CString}
    (hl : SectionAllowed g (.lookup name)) : Matched g m (.lookup name) := by
  cases hfind : findByName g name with
  | none =>
    refine ⟨g, m, ?_, ?_, h⟩
    · simp [sectionStep, getObjectByNameAndIncCount, hfind]
    · simp [event, getObjectByNameAndIncCount, hfind, Directory.step, Directory.act,
        h.lookup_none hfind]
  | some i =>
    obtain ⟨hu, hn, -⟩ := findByName_some hfind
    refine ⟨incNameCount g i, _, ?_, ?_, represents_inc h hu (hl i hfind)⟩
    · simp [sectionStep, getObjectByNameAndIncCount_eq, hfind]
    · simp [event, getObjectByNameAndIncCount_eq, hfind, Directory.step, Directory.act,
        h.lookup_found hfind, hn]

theorem matched_dec (h : Represents g m) {i : Slot c} (hu : g.used i = true) :
    Matched g m (.dec i) := by
  have hstep : sectionStep g (.dec i) = some (decCount g i) := by
    simp [sectionStep, decNameCount_eq]
  have hcount : (g.objects i).entry.count = (g.objects i).count.toNat := rfl
  by_cases hc : 1 < (g.objects i).count.toNat
  · refine ⟨decCount g i,
      m.insert (g.objects i).tname ⟨false, (g.objects i).entry.count - 1⟩, hstep, ?_, ?_⟩
    · have hne : ¬ (g.objects i).entry.count - 1 = 0 := by omega
      simp only [event, Directory.step, Directory.act, h.lookup_slot hu, hne, if_false, if_true]
    · have hentry : (g.objects i).dec.entry = ⟨false, (g.objects i).entry.count - 1⟩ := by
        simp only [RegisteredObject.entry, dec_count, dec_reserved]
      rw [← hentry]
      exact h.replace (decCount_objects g i) (decCount_tight h.tight i)
        (dec_inUse_iff.mpr hc) hu rfl
  · refine ⟨decCount g i, m.erase (g.objects i).tname, hstep, ?_, ?_⟩
    · have he : (g.objects i).entry.count - 1 = 0 := by omega
      simp only [event, Directory.step, Directory.act, h.lookup_slot hu, he, if_true]
    · refine h.release hu ?_ ?_ (decCount_tight h.tight i)
      · intro j hji
        rw [decCount_objects, Function.update_of_ne hji]
      · rw [decCount_used, Function.update_self]
        exact dec_inUse_eq_false_iff.mpr (not_lt.mp hc)

theorem matched_forceClear (h : Represents g m) (name : CString) :
    Matched g m (.forceClear name) := by
  cases hfind : findByName g name with
  | none =>
    refine ⟨g, m.erase (truncName name), ?_, ?_, ?_⟩
    · simp [sectionStep, forceClearName, hfind]
    · simp [event, Directory.step, Directory.act]
    · have hmem : truncName name ∉ m := Finmap.lookup_eq_none.mp (h.lookup_none hfind)
      have herase : m.erase (truncName name) = m := by
        apply Finmap.ext_lookup
        intro n
        by_cases hn : n = truncName name
        · rw [hn, Finmap.lookup_erase, h.lookup_none hfind]
        · rw [Finmap.lookup_erase_ne hn]
      rw [herase]
      exact h
  | some i =>
    obtain ⟨hu, hn, -⟩ := findByName_some hfind
    obtain ⟨g', hloop, hother, hfree, -⟩ := clearLoop_spec g i (le_refl _)
    refine ⟨g', m.erase (truncName name), ?_, ?_, ?_⟩
    · simp [sectionStep, forceClearName, hfind, hloop]
    · simp [event, Directory.step, Directory.act]
    · rw [← hn]
      exact h.release hu hother hfree (clearLoop_tight h.tight hloop)

/-- Every critical section is matched. -/
theorem matched_section (h : Represents g m) {l : Section c} (hl : SectionAllowed g l) :
    Matched g m l := by
  cases l with
  | reserve name => exact matched_reserve h name
  | inc i => exact matched_inc h hl
  | dec i => exact matched_dec h hl
  | lookup name => exact matched_lookup h hl
  | forceClear name => exact matched_forceClear h name

end Matched

/-! ## Runs -/

/-- A freshly initialised registry represents the empty directory. -/
theorem represents_registryInit {g : Internal c} (h : g.initialized = false) :
    Represents (registryInit g).2 ∅ := by
  have hu : ∀ i, (registryInit g).2.used i = false := by
    intro i
    unfold registryInit
    rw [h]
    rfl
  refine ⟨registryInit_tight h, ?_, ?_⟩
  · intro i j hi
    rw [hu i] at hi
    cases hi
  · intro n e
    rw [Finmap.lookup_empty]
    constructor
    · rintro ⟨⟩
    · rintro ⟨i, hi, -⟩
      rw [hu i] at hi
      cases hi

/-- **The registry simulates a directory.** From `urt_registry_init`, every list of allowed
critical sections runs to an end; the operations with the answers they gave are a run of the
directory of capacity `URT_MAX_OBJECTS` from the empty one; and the slot array represents the
directory reached, so no two slots in use carry the same name. -/
theorem registry_simulates_directory (g₀ : Internal c) (h₀ : g₀.initialized = false)
    (ls : List (Section c))
    (hall : Lts.AllSteps sectionStep SectionAllowed (registryInit g₀).2 ls) :
    ∃ g m, Lts.exec sectionStep (registryInit g₀).2 ls = some g ∧
      Lts.exec (Directory.step c.maxObjects) ∅
        (Lts.trace sectionStep event (registryInit g₀).2 ls) = some m ∧
      Represents g m := by
  have hinit := represents_registryInit h₀
  obtain ⟨g, hg⟩ : ∃ g, Lts.exec sectionStep (registryInit g₀).2 ls = some g := by
    refine Lts.exec_total (I := fun g => ∃ m, Represents g m) ?_ ⟨∅, hinit⟩ hall
    rintro g l ⟨m, hm⟩ hl
    obtain ⟨g', m', hstep, -, hm'⟩ := matched_section hm hl
    exact ⟨g', hstep, m', hm'⟩
  have hsim : ∀ (g : Internal c) l g' m, Represents g m → SectionAllowed g l →
      sectionStep g l = some g' →
      ∃ m', Directory.step c.maxObjects m (event g l) = some m' ∧ Represents g' m' := by
    intro g l g' m hR hl hstep
    obtain ⟨g₁, m', hstep', hm', hR'⟩ := matched_section hR hl
    rw [hstep] at hstep'
    cases hstep'
    exact ⟨m', hm', hR'⟩
  obtain ⟨m, hrun, hm⟩ := Lts.exec_simulation hsim hinit hg hall
  exact ⟨g, m, hg, hrun, hm⟩

/-- A run that reserves, counts, releases and force-clears two names in two slots. -/
theorem registry_simulates_directory_two :
    let ls : List (Section .two) :=
      [.reserve (.ofBytes [65]), .lookup (.ofBytes [65]), .inc 0, .reserve (.ofBytes [66, 0, 67]),
        .reserve (.ofBytes [66]), .reserve (.ofBytes [68]), .dec 0, .dec 1,
        .forceClear (.ofBytes [65])]
    ∃ g m, Lts.exec sectionStep (registryInit (.zero .two)).2 ls = some g ∧
      Lts.exec (Directory.step 2) ∅
        (Lts.trace sectionStep event (registryInit (.zero .two)).2 ls) = some m ∧
      Represents g m :=
  registry_simulates_directory (.zero .two) rfl _ (by decide)

end Urt
