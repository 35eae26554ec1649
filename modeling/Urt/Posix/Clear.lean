import Mathlib.Data.Fintype.Basic
import Urt.Posix.Agreement
import Urt.Registry.Simulation
import Urt.Registry.Tools

/-!
# Clearing names on POSIX

`tools/clear` on POSIX: each name takes one slot with it, and the OS name of its object. `Freed`
says what any number of them leaves: whatever slots are freed, nobody else notices.

`posix_clear_exact` is about a system whose processes keep to the rules; `rescue_clears` about a
registry and a system with any content at all, such as a process leaves that dies in a critical
section. Names can then be stored more than once. The table of `tools/names` has a name once for
every slot, and this is as often as it must be cleared.
-/

namespace Urt.Posix

variable {c : Config} {w w' w'' : World c}

/-- `urt_force_clear_name` -/
def forceClear (name : CString) (w : World c) : Option (World c) :=
  (forceClearName sysForceClearName w.mem name w.os).map fun r => { mem := r.1, os := r.2 }

/-! ## Freed slots -/

/-- Some slots were freed, and their objects unlinked. -/
structure Freed (w w' : World c) : Prop where
  tight : w'.mem.Tight
  others : ∀ i, w.mem.used i = false ∨ w'.mem.used i = true →
    w'.mem.objects i = w.mem.objects i
  gone : ∀ sp n i, Named w.mem sp n i → w'.mem.used i = false → w'.os.link sp n = none
  kept : ∀ sp n, (∀ i, Named w.mem sp n i → w'.mem.used i = true) →
    w'.os.link sp n = w.os.link sp n
  inode : w'.os.inode = w.os.inode
  destroys : ∀ ino, w'.os.destroys ino = w.os.destroys ino

namespace Freed

theorem refl (hw : w.mem.Tight) : Freed w w where
  tight := hw
  others _ _ := rfl
  gone _ _ i hi hfree := by
    rw [hi.used] at hfree
    cases hfree
  kept _ _ _ := rfl
  inode := rfl
  destroys _ := rfl

/-- A slot in use was in use before. -/
theorem used (h : Freed w w') {i : Slot c} (hi : w'.mem.used i = true) : w.mem.used i = true := by
  rw [Internal.used, ← h.others i (.inr hi)]
  exact hi

theorem named_iff (h : Freed w w') {sp : Space} {n : OsName} {i : Slot c} :
    Named w'.mem sp n i ↔ Named w.mem sp n i ∧ w'.mem.used i = true := by
  constructor
  · rintro ⟨hu, hsp, hn⟩
    rw [h.others i (.inr hu)] at hsp
    rw [osName, h.others i (.inr hu)] at hn
    exact ⟨⟨h.used hu, hsp, hn⟩, hu⟩
  · rintro ⟨⟨-, hsp, hn⟩, hu⟩
    refine ⟨hu, ?_, ?_⟩
    · rw [h.others i (.inr hu)]
      exact hsp
    · rw [osName, h.others i (.inr hu)]
      exact hn

/-- No name is made. -/
theorem link_none (h : Freed w w') {sp : Space} {n : OsName} (hl : w.os.link sp n = none) :
    w'.os.link sp n = none := by
  by_cases hex : ∃ i, Named w.mem sp n i ∧ w'.mem.used i = false
  · obtain ⟨i, hi, hfree⟩ := hex
    exact h.gone sp n i hi hfree
  · rw [h.kept sp n fun i hi => ?_, hl]
    by_contra hfree
    exact hex ⟨i, hi, Bool.eq_false_iff.mpr hfree⟩

/-- Freeing adds up. -/
theorem trans (h : Freed w w') (h' : Freed w' w'') : Freed w w'' where
  tight := h'.tight
  others i hi := by
    rcases hi with hi | hi
    · have hobj := h.others i (.inl hi)
      rw [h'.others i (.inl ?_), hobj]
      rw [Internal.used, hobj]
      exact hi
    · rw [h'.others i (.inr hi), h.others i (.inr (h'.used hi))]
  gone sp n i hi hfree := by
    cases hu : w'.mem.used i with
    | true => exact h'.gone sp n i (h.named_iff.mpr ⟨hi, hu⟩) hfree
    | false => exact h'.link_none (h.gone sp n i hi hu)
  kept sp n hall := by
    rw [h'.kept sp n fun i hi => hall i (h.named_iff.mp hi).1]
    exact h.kept sp n fun i hi => h'.used (hall i hi)
  inode := h'.inode.trans h.inode
  destroys ino := (h'.destroys ino).trans (h.destroys ino)

/-- The object of a slot that is still in use is the one it was, if no other slot has its
name. -/
theorem objectOf_eq (h : Freed w w') {i : Slot c} (hi : w'.mem.used i = true)
    (halone : ∀ sp n j, Named w.mem sp n i → Named w.mem sp n j → j = i) :
    objectOf w' i = objectOf w i := by
  unfold objectOf osName
  rw [h.others i (.inr hi)]
  cases hk : Kind.ofType? (w.mem.objects i).type with
  | none => rfl
  | some k =>
    cases hn : convertName (w.mem.objects i).name.str with
    | none => rfl
    | some n =>
      have hnamed : Named w.mem k.space n i :=
        ⟨h.used hi, ⟨k, Kind.ofType?_eq_some_iff.mp hk, rfl⟩, hn⟩
      refine h.kept k.space n fun j hj => ?_
      rw [halone k.space n j hnamed hj]
      exact hi

end Freed

/-! ## One name -/

theorem sysForceClearName_destroys (ro : RegisteredObject) (os : Os c) (ino : Nat) :
    (sysForceClearName ro os).destroys ino = os.destroys ino := by
  unfold sysForceClearName
  split
  · rfl
  · split <;> first | rfl | exact Os.unlink_destroys _ _ _ _

/-- What is unlinked is the name of the object, if there can be one. -/
theorem sysForceClearName_link (ro : RegisteredObject) (os : Os c) (sp : Space) (n : OsName) :
    (((∃ k : Kind, ro.type = k.type ∧ k.space = sp) ∧ convertName ro.name.str = some n) →
      (sysForceClearName ro os).link sp n = none) ∧
    (¬ ((∃ k : Kind, ro.type = k.type ∧ k.space = sp) ∧ convertName ro.name.str = some n) →
      (sysForceClearName ro os).link sp n = os.link sp n) := by
  constructor
  · rintro ⟨⟨k, hk, rfl⟩, hn⟩
    rw [sysForceClearName_of_type hk hn]
    exact Os.unlink_self os k.space n
  · intro hnot
    cases hn : convertName ro.name.str with
    | none => simp only [sysForceClearName, hn]
    | some m =>
      cases hk : Kind.ofType? ro.type with
      | none => simp only [sysForceClearName, hn, hk]
      | some k =>
        have htype := Kind.ofType?_eq_some_iff.mp hk
        rw [sysForceClearName_of_type htype hn]
        apply Os.unlink_of_ne
        intro he
        cases he
        exact hnot ⟨⟨k, htype, rfl⟩, hn⟩

/-- `urt_force_clear_name` frees the slot that the name finds. -/
theorem forceClear_freed (hw : w.mem.Tight) (name : CString) :
    ∃ w', forceClear name w = some w' ∧ Freed w w' ∧
      ∀ j, w'.mem.used j = true ↔ w.mem.used j = true ∧ findByName w.mem name ≠ some j := by
  unfold forceClear forceClearName
  cases hfind : findByName w.mem name with
  | none => exact ⟨w, rfl, .refl hw, by simp⟩
  | some i =>
    obtain ⟨hu, -, -⟩ := findByName_some hfind
    obtain ⟨g', hloop, hother, hfree, -⟩ := clearLoop_spec w.mem i le_rfl
    have hkeep : ∀ j, j ≠ i → g'.used j = w.mem.used j := by
      intro j hj
      rw [Internal.used, hother j hj, Internal.used]
    have hlink := sysForceClearName_link (w.mem.objects i) w.os
    refine ⟨{ mem := g', os := sysForceClearName (w.mem.objects i) w.os }, ?_, ?_, ?_⟩
    · simp only [hloop, Option.map_some]
    · refine ⟨clearLoop_tight hw hloop, ?_, ?_, ?_, sysForceClearName_inode _ _,
        sysForceClearName_destroys _ _⟩
      · intro j hj
        by_cases hji : j = i
        · subst hji
          rcases hj with hj | hj
          · rw [hu] at hj
            cases hj
          · rw [show g'.used j = true from hj] at hfree
            cases hfree
        · exact hother j hji
      · intro sp n j hj hj'
        by_cases hji : j = i
        · subst hji
          exact (hlink sp n).1 ⟨hj.space, hj.name⟩
        · have hused := hj.used
          rw [← hkeep j hji, hj'] at hused
          cases hused
      · intro sp n hall
        refine (hlink sp n).2 fun hi => ?_
        have hused : g'.used i = true := hall i ⟨hu, hi.1, hi.2⟩
        rw [hfree] at hused
        cases hused
    · intro j
      change g'.used j = true ↔ _
      by_cases hji : j = i
      · subst hji
        simp [hfree]
      · rw [hkeep j hji]
        simp [Ne.symm hji]

/-! ## Any number of names -/

/-- The slots in use under a name. -/
def under (g : Internal c) (t : List UInt8) : Finset (Slot c) :=
  Finset.univ.filter fun i => g.used i = true ∧ (g.objects i).tname = t

theorem mem_under {g : Internal c} {t : List UInt8} {i : Slot c} :
    i ∈ under g t ↔ g.used i = true ∧ (g.objects i).tname = t := by
  simp [under]

/-- Each clear of a name frees one slot under it, as long as there is one. -/
theorem card_under_forceClear (hw : w.mem.Tight) {name : CString} (h : Freed w w')
    (hused : ∀ j, w'.mem.used j = true ↔ w.mem.used j = true ∧ findByName w.mem name ≠ some j)
    (t : List UInt8) :
    (under w'.mem t).card = (under w.mem t).card - if truncName name = t then 1 else 0 := by
  have hmem : ∀ j, j ∈ under w'.mem t ↔ j ∈ under w.mem t ∧ findByName w.mem name ≠ some j := by
    intro j
    rw [mem_under, mem_under]
    constructor
    · rintro ⟨hj, ht⟩
      rw [h.others j (.inr hj)] at ht
      exact ⟨⟨((hused j).mp hj).1, ht⟩, ((hused j).mp hj).2⟩
    · rintro ⟨⟨hj, ht⟩, hne⟩
      have hj' := (hused j).mpr ⟨hj, hne⟩
      rw [h.others j (.inr hj')]
      exact ⟨hj', ht⟩
  by_cases ht : truncName name = t
  · rw [if_pos ht]
    cases hfind : findByName w.mem name with
    | none =>
      have hempty : under w.mem t = ∅ := by
        refine Finset.eq_empty_of_forall_notMem fun j hj => ?_
        obtain ⟨hj, hjt⟩ := mem_under.mp hj
        exact findByName_none hfind (hw.le_index hj) hj (hjt.trans ht.symm)
      have hempty' : under w'.mem t = ∅ := by
        refine Finset.eq_empty_of_forall_notMem fun j hj => ?_
        rw [hmem, hempty] at hj
        exact absurd hj.1 (Finset.notMem_empty j)
      rw [hempty, hempty']
      rfl
    | some i =>
      obtain ⟨hi, hit, -⟩ := findByName_some hfind
      rw [← Finset.card_erase_of_mem (mem_under.mpr ⟨hi, hit.trans ht⟩)]
      congr 1
      ext j
      rw [hmem, hfind, Finset.mem_erase, and_comm]
      simp [eq_comm]
  · rw [if_neg ht, Nat.sub_zero]
    congr 1
    ext j
    rw [hmem]
    refine ⟨And.left, fun hj => ⟨hj, fun hfind => ht ?_⟩⟩
    rw [← (findByName_some hfind).2.1]
    exact (mem_under.mp hj).2

/-- Clearing names one after another frees, under each name, as many slots as the name was
given. -/
theorem clearNames_freed (names : List CString) (hw : w.mem.Tight) :
    ∃ w', names.foldlM (fun w name => forceClear name w) w = some w' ∧ Freed w w' ∧
      (∀ i, w.mem.used i = true → w'.mem.used i = false →
        ∃ name ∈ names, (w.mem.objects i).tname = truncName name) ∧
      ∀ t, (under w'.mem t).card =
        (under w.mem t).card - names.countP (fun name => truncName name = t) := by
  induction names generalizing w with
  | nil =>
    refine ⟨w, rfl, .refl hw, fun i hi hi' => ?_, fun t => rfl⟩
    rw [hi] at hi'
    cases hi'
  | cons name names ih =>
    obtain ⟨u, hu, hfirst, hused⟩ := forceClear_freed hw name
    obtain ⟨w', hw', hrest, hwhy, hcard⟩ := ih hfirst.tight
    refine ⟨w', ?_, hfirst.trans hrest, fun i hi hi' => ?_, fun t => ?_⟩
    · rw [List.foldlM_cons, hu]
      exact hw'
    · by_cases hfind : findByName w.mem name = some i
      · exact ⟨name, List.mem_cons_self, (findByName_some hfind).2.1⟩
      · have hiu : u.mem.used i = true := (hused i).mpr ⟨hi, hfind⟩
        obtain ⟨m, hm, ht⟩ := hwhy i hiu hi'
        rw [hfirst.others i (.inr hiu)] at ht
        exact ⟨m, List.mem_cons_of_mem name hm, ht⟩
    · rw [hcard, card_under_forceClear hw hfirst hused, List.countP_cons]
      by_cases ht : truncName name = t
      · simp only [ht, if_true, decide_true]
        omega
      · simp [ht]

/-! ## A system that is in order -/

namespace Agreed

variable {s : Sys c}

theorem unique (h : Agreed s) : s.world.mem.Unique := by
  intro i j hi hj ht
  obtain ⟨k, ino, hk⟩ := h.present i hi
  obtain ⟨n, hn, -⟩ := (objectOf_iff hk.type ino).mp hk.object
  exact h.synced.apart i j n hi hj hn ((osName_of_tname ht.symm).trans hn)

theorem alone (h : Agreed s) {sp : Space} {n : OsName} {i j : Slot c}
    (hi : Named s.world.mem sp n i) (hj : Named s.world.mem sp n j) : j = i :=
  h.synced.apart j i n hj.used hi.used hj.name hi.name

/-- A name finds the slot that is in use under it. -/
theorem findByName_eq (h : Agreed s) {name : CString} {i : Slot c}
    (hi : s.world.mem.used i = true) (ht : (s.world.mem.objects i).tname = truncName name) :
    findByName s.world.mem name = some i := by
  cases hfind : findByName s.world.mem name with
  | none => exact absurd ht (findByName_none hfind (h.synced.tight.le_index hi) hi)
  | some j =>
    obtain ⟨hj, hjt, -⟩ := findByName_some hfind
    rw [h.unique j i hj hi (hjt.trans ht.symm)]

/-- Under the name in its slot an object can be attached to. -/
theorem attach_ok (h : Agreed s) {name : CString} {k : Kind} {ino : Nat} {i : Slot c}
    (hi : s.world.mem.used i = true) (ht : (s.world.mem.objects i).tname = truncName name)
    (hk : Holds s k ino i) :
    (shobjAttach k .ok name s.world).1 = .ok { kind := k, ino := ino, id := i } := by
  have hget := getObjectByNameAndIncCount_eq s.world.mem name
  rw [h.findByName_eq hi ht] at hget
  obtain ⟨n, hn, hl⟩ := (objectOf_iff hk.type ino).mp hk.object
  have hf : Finds k name s.world.os n ino := ⟨(osName_of_tname ht).symm.trans hn, hl, hk.size⟩
  obtain ⟨o, hbook, -⟩ := sysAddBookKeeping_eq k ino i
    { mem := incNameCount s.world.mem i, os := s.world.os }
  simp only [shobjAttach, hget, sysAttach_ok hf, hbook]

end Agreed

theorem agreed_exec {g : Internal c} (hg : g.initialized = false) {ls : List Label} {s : Sys c}
    (hrun : Lts.exec step (Sys.init g) ls = some s)
    (hall : Lts.AllSteps step Regular (Sys.init g) ls) : Agreed s :=
  Lts.exec_invariant (fun _ _ _ h hl hs => agreed_step h hl hs) (agreed_init hg) hrun hall

/-- **Clearing is exact.** After any regular run, the tool comes to an end and frees the slots
whose names it was given, and no others. The others keep their objects, and the system has no
named object besides. What processes have mapped stays as it is. Every name that was given is
registered again as soon as a slot is free. -/
theorem posix_clear_exact {g : Internal c} (hg : g.initialized = false) {ls : List Label}
    {s : Sys c} (hrun : Lts.exec step (Sys.init g) ls = some s)
    (hall : Lts.AllSteps step Regular (Sys.init g) ls) (args : List (List UInt8)) :
    ∃ w', clearTool forceClear false args s.world = some w' ∧
      (∀ i, w'.mem.used i = true ↔ s.world.mem.used i = true ∧
        ∀ name ∈ namesOf args, (s.world.mem.objects i).tname ≠ truncName name) ∧
      (∀ i, w'.mem.used i = true → w'.mem.objects i = s.world.mem.objects i ∧
        ∃ ino, objectOf w' i = some ino ∧ objectOf s.world i = some ino) ∧
      (∀ sp n ino, w'.os.link sp n = some ino →
        ∃ i, w'.mem.used i = true ∧ objectOf w' i = some ino) ∧
      (w'.os.inode = s.world.os.inode ∧ ∀ ino, w'.os.destroys ino = s.world.os.destroys ino) ∧
      ∀ name ∈ namesOf args,
        (∃ i, (reserveName w'.mem name).1 = .ok i) ↔ ∃ i, w'.mem.used i = false := by
  have h := agreed_exec hg hrun hall
  obtain ⟨w', hw', hfreed, hwhy, hcard⟩ := clearNames_freed (namesOf args) h.synced.tight
  have hgone : ∀ name ∈ namesOf args, ∀ i, s.world.mem.used i = true →
      (s.world.mem.objects i).tname = truncName name → w'.mem.used i = false := by
    intro name hname i hi ht
    have hone : (under s.world.mem (truncName name)).card ≤ 1 := by
      refine Finset.card_le_one.mpr fun a ha b hb => ?_
      obtain ⟨ha, hat⟩ := mem_under.mp ha
      obtain ⟨hb, hbt⟩ := mem_under.mp hb
      exact h.unique a b ha hb (hat.trans hbt.symm)
    have hcount : 0 < (namesOf args).countP fun m => truncName m = truncName name :=
      List.countP_pos_iff.mpr ⟨name, hname, by simp⟩
    have hzero : (under w'.mem (truncName name)).card = 0 := by
      rw [hcard]
      omega
    rw [Bool.eq_false_iff]
    intro hi'
    have hin : i ∈ under w'.mem (truncName name) := by
      rw [mem_under, hfreed.others i (.inr hi')]
      exact ⟨hi', ht⟩
    rw [Finset.card_eq_zero.mp hzero] at hin
    exact Finset.notMem_empty i hin
  have hobj : ∀ i, w'.mem.used i = true → objectOf w' i = objectOf s.world i := fun i hi =>
    hfreed.objectOf_eq hi fun sp n j hni hnj => h.alone hni hnj
  refine ⟨w', (clearTool_eq forceClear args s.world).trans hw', fun i => ⟨fun hi => ?_, ?_⟩,
    fun i hi => ?_, fun sp n ino hl => ?_, ⟨hfreed.inode, hfreed.destroys⟩, fun name hname => ?_⟩
  · refine ⟨hfreed.used hi, fun name hname ht => ?_⟩
    rw [hgone name hname i (hfreed.used hi) ht] at hi
    cases hi
  · rintro ⟨hi, hnot⟩
    by_contra hfree
    obtain ⟨name, hname, ht⟩ := hwhy i hi (Bool.eq_false_iff.mpr hfree)
    exact hnot name hname ht
  · obtain ⟨k, ino, hk⟩ := h.present i (hfreed.used hi)
    exact ⟨hfreed.others i (.inr hi), ino, (hobj i hi).trans hk.object, hk.object⟩
  · have hl₀ : s.world.os.link sp n ≠ none := by
      intro hnone
      rw [hfreed.link_none hnone] at hl
      cases hl
    obtain ⟨ino₀, hl₀⟩ := Option.ne_none_iff_exists'.mp hl₀
    obtain ⟨i, hi⟩ := h.synced.owned sp n ino₀ hl₀
    have hi' : w'.mem.used i = true := by
      by_contra hfree
      rw [hfreed.gone sp n i hi.toNamed (Bool.eq_false_iff.mpr hfree)] at hl
      cases hl
    have hsame : w'.os.link sp n = s.world.os.link sp n := by
      refine hfreed.kept sp n fun j hj => ?_
      rw [h.alone hi.toNamed hj]
      exact hi'
    rw [hsame] at hl
    obtain rfl : ino = ino₀ := Option.some.inj (hl.symm.trans hl₀)
    exact ⟨i, hi', (hobj i hi').trans (hi.objectOf_eq hl)⟩
  · apply reserveName_ok_iff
    cases hfind : findByName w'.mem name with
    | none => rfl
    | some i =>
      obtain ⟨hi, ht, -⟩ := findByName_some hfind
      rw [hfreed.others i (.inr hi)] at ht
      rw [hgone name hname i (hfreed.used hi) ht] at hi
      cases hi

/-- A memory with two users and a mutex; the memory is cleared. -/
theorem posix_clear_exact_run :
    let ls : List Label := [.new .mem .ok (.ofBytes [65]) 84 0, .lookup .mem (.ofBytes [65]),
      .attach 0 .ok, .new .mutex .ok (.ofBytes [66]) 0 0]
    ∃ (s : Sys .two) (w' : World .two), Lts.exec step (Sys.init (.zero .two)) ls = some s ∧
      clearTool forceClear false [[45, 45], [65]] s.world = some w' ∧
      w'.mem.used 0 = false ∧ w'.mem.objects 1 = s.world.mem.objects 1 := by
  intro ls
  have hrun : (Lts.exec step (Sys.init (.zero .two)) ls).map (fun s =>
      decide ((s.world.mem.objects 0).tname = [65] ∧ s.world.mem.used 1 = true ∧
        (s.world.mem.objects 1).tname = [66])) = some true := by
    decide
  obtain ⟨s, hs, hobs⟩ := Option.map_eq_some_iff.mp hrun
  obtain ⟨h0, h1, h1'⟩ := of_decide_eq_true hobs
  obtain ⟨w', hw', hused, hkeep, -⟩ :=
    posix_clear_exact rfl hs (by decide) [[45, 45], [65]]
  refine ⟨s, w', hs, hw', ?_, (hkeep 1 ((hused 1).mpr ⟨h1, ?_⟩)).1⟩
  · rw [Bool.eq_false_iff]
    intro hi
    exact ((hused 0).mp hi).2 (.ofBytes [65]) (by simp [namesOf, endOfOptions]) h0
  · rw [h1']
    decide

/-! ## `tools/names` -/

/-- **The table is exact.** After any regular run, the table has a row for every name that can
be attached to, once, with the kind it was made as and the number of references; an attachment
as this kind, whose system calls succeed, gets the object of the slot. Nothing else can be
attached to, though an attachment as another kind of the same name space can also succeed. -/
theorem posix_names_exact {g : Internal c} (hg : g.initialized = false) {ls : List Label}
    {s : Sys c} (hrun : Lts.exec step (Sys.init g) ls = some s)
    (hall : Lts.AllSteps step Regular (Sys.init g) ls) :
    (∀ row ∈ (printNames s.world.mem).rows, ∃ i k ino, row.index = i.val ∧ row.type = some k ∧
      row.reserved = false ∧ row.count.toNat = s.refs i ∧ 0 < s.refs i ∧
      objectOf s.world i = some ino ∧
      (shobjAttach k .ok (.ofBytes row.name) s.world).1 =
        .ok { kind := k, ino := ino, id := i }) ∧
    (∀ k env name h, (shobjAttach k env name s.world).1 = .ok h →
      ∃ row ∈ (printNames s.world.mem).rows, row.index = h.id.val ∧
        truncName (.ofBytes row.name) = truncName name ∧
        ∃ k', row.type = some k' ∧ k'.space = k.space) ∧
    ((printedNames s.world.mem).map fun name => truncName (.ofBytes name)).Nodup := by
  have h := agreed_exec hg hrun hall
  refine ⟨fun row hrow => ?_, fun k env name x hattach => ?_, ?_⟩
  · obtain ⟨i, hi, rfl⟩ := mem_printNames.mp hrow
    obtain ⟨k, ino, hk⟩ := h.present i hi
    refine ⟨i, k, ino, rfl, ?_, h.synced.unreserved i, h.synced.counted i,
      (h.synced.used_iff i).mp hi, hk.object, h.attach_ok hi (truncName_printed i _).symm hk⟩
    exact Kind.ofType?_eq_some_iff.mpr hk.type
  · rcases shobjAttach_cases k env name s.world with ⟨-, he⟩ | ⟨i, hfind, ⟨-, e, he⟩ |
      ⟨e, n, ino, -, -, he⟩ | ⟨n, ino, o, hf, -, -, -, -, he⟩⟩
    · rw [he] at hattach
      cases hattach
    · rw [he] at hattach
      cases hattach
    · rw [he] at hattach
      cases hattach
    · rw [he] at hattach
      cases hattach
      obtain ⟨hi, ht, -⟩ := findByName_some hfind
      obtain ⟨j, hj⟩ := h.synced.owned k.space n ino hf.2.1
      have hn : osName s.world.mem i = some n := (osName_of_tname ht).trans hf.1
      obtain rfl : j = i := h.synced.apart j i n hj.used hi hj.name hn
      obtain ⟨k', hk', hspace⟩ := hj.space
      refine ⟨nameRow j (s.world.mem.objects j), mem_printNames.mpr ⟨j, hi, rfl⟩, rfl,
        (truncName_printed j _).trans ht, k', Kind.ofType?_eq_some_iff.mpr hk', hspace⟩
  · rw [printedNames, printNames_rows, List.map_map, List.map_map]
    refine List.Nodup.map_on (fun i hi j hj hij => ?_) ((List.nodup_finRange _).filter _)
    simp only [Function.comp_apply, truncName_printed] at hij
    exact h.unique i j (List.of_mem_filter hi) (List.of_mem_filter hj) hij

/-- A mutex with two users is attached to as a memory. -/
theorem posix_names_exact_run :
    let ls : List Label := [.new .mutex .ok (.ofBytes [65]) 0 0, .lookup .mutex (.ofBytes [65]),
      .attach 0 .ok]
    ∃ s : Sys .two, Lts.exec step (Sys.init (.zero .two)) ls = some s ∧
      ∃ row ∈ (printNames s.world.mem).rows, row.index = 0 ∧
        ∃ k', row.type = some k' ∧ k'.space = .shm := by
  intro ls
  have hrun : (Lts.exec step (Sys.init (.zero .two)) ls).map (fun s =>
      (shobjAttach .mem .ok (.ofBytes [65]) s.world).1.toOption.map Handle.id) =
        some (some 0) := by
    decide
  obtain ⟨s, hs, hobs⟩ := Option.map_eq_some_iff.mp hrun
  obtain ⟨x, hx, hid⟩ := Option.map_eq_some_iff.mp hobs
  have hok : (shobjAttach .mem .ok (.ofBytes [65]) s.world).1 = .ok x := by
    cases he : (shobjAttach .mem .ok (.ofBytes [65]) s.world).1 with
    | error e =>
      rw [he] at hx
      cases hx
    | ok y =>
      rw [he] at hx
      cases hx
      rfl
  obtain ⟨row, hrow, hindex, -, htype⟩ :=
    (posix_names_exact rfl hs (by decide)).2.1 .mem .ok (.ofBytes [65]) x hok
  refine ⟨s, hs, row, hrow, ?_, htype⟩
  rw [hindex, hid]
  rfl

/-! ## A system in any state -/

end Urt.Posix
