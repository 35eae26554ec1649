import Urt.Registry.Naming

/-!
# Free names are free, and kept for their callers

Until the counter wraps round, a name is new because the counter has not been there before;
after that, because the search of `_check_and_get_free_name` did not find it registered. The
search sees the slots up to `objects_max_index` only, so a slot above it is overlooked
(`freeNames_fresh`, `freeNames_not_fresh`), and it does not see that a name is held by a caller
who has not registered it (`freeNames_kept_iff`, `freeNames_not_kept`).
-/

namespace Urt

variable {c : Config}

open Naming

/-! ## No slot in use bears a name that is returned -/

/-- Only names without a dollar sign, or names that were returned, are registered. -/
def Registers (s : Naming c) : NameCall c → Prop
  | .registry (.reserve name) => 36 ∉ truncName name ∨ truncName name ∈ s.handed
  | _ => True

instance (s : Naming c) (l : NameCall c) : Decidable (Registers s l) :=
  match l with
  | .registry (.reserve name) =>
      decidable_of_iff (36 ∉ truncName name ∨ ∃ n ∈ s.handed, truncName name = n) (by
        rw [Registers, exists_eq_right'])
  | .registry (.inc _) | .registry (.dec _) | .registry (.lookup _) |
    .registry (.forceClear _) | .getFree _ _ | .recover _ _ _ | .init | .record _ _ _ _ =>
      inferInstanceAs (Decidable True)

/-- If `urt_get_free_name` succeeds, no slot in use bears the name it returns, which is five
characters of `A-Z`, `0-9` and underscore and a dollar sign, and neither reserved name. -/
def FreshName (s : Naming c) : NameCall c → Prop
  | .getFree rounds name => ∀ buf g, getFreeName rounds s.mem name = some (none, buf, g) →
      (∀ i, s.mem.used i = true → (s.mem.objects i).tname ≠ truncName buf) ∧
        IsFreeName (truncName buf) ∧
        truncName buf ≠ truncName globalLockName ∧ truncName buf ≠ truncName globalMemName
  | _ => True

/-- What keeps names fresh: slots with a dollar sign in their name, in use or not, have it from
`urt_get_free_name`, and the search sees every slot in use. -/
structure Naming.Sound (s : Naming c) : Prop where
  counts : ∃ n, s.CountsTo n
  dollar : ∀ i, 36 ∈ (s.mem.objects i).tname → (s.mem.objects i).tname ∈ s.handed
  covered : s.mem.Covered

theorem sound_start {g : Internal c} (h : g.initialized = false) : (start g).Sound := by
  refine ⟨⟨0, countsTo_start h⟩, ?_, (registryInit_tight h).covered⟩
  unfold start registryInit
  rw [h]
  exact fun i hi => absurd hi List.not_mem_nil

theorem Naming.Sound.step {s s' : Naming c} {l : NameCall c} (h : s.Sound)
    (hl : Registers s l ∧ WithinIndex s l) (hs : namingStep s l = some s') : s'.Sound := by
  obtain ⟨n, hn⟩ := h.counts
  refine ⟨hn.step hs, ?_, ?_⟩
  · rcases namingStep_cases hn.next hn.initialized hs with
      ⟨rounds, name, buf, k, -, -, -, rfl⟩ | ⟨name, i, rfl, -, -, rfl⟩ | ⟨g, rfl, hq, -⟩
    · exact fun i hi => List.mem_cons_of_mem _ (h.dollar i hi)
    · intro j hj
      rw [register_mem, reserved_objects] at hj ⊢
      rw [register_handed]
      by_cases hji : j = i
      · subst hji
        rw [Function.update_self, RegisteredObject.reservedObject_tname] at hj ⊢
        exact hl.1.resolve_left (not_not_intro hj)
      · rw [Function.update_of_ne hji] at hj ⊢
        exact h.dollar j hj
    · intro i hi
      rw [settle_mem, hq.sameNames.tname] at hi ⊢
      exact h.dollar i hi
  · rcases namingStep_cases hn.next hn.initialized hs with
      ⟨rounds, name, buf, k, -, -, -, rfl⟩ | ⟨name, i, rfl, -, -, rfl⟩ | ⟨g, rfl, hq, htakes⟩
    · exact h.covered
    · intro j hj
      rw [register_mem, reserved_used] at hj
      rw [register_mem, reserved_objectsMaxIndex]
      by_cases hji : j = i
      · exact hji ▸ le_max_right _ _
      · rw [Function.update_of_ne hji] at hj
        exact (h.covered j hj).trans (le_max_left _ _)
    · intro i hi
      apply hq.index i hi
      rcases htakes hl.2 i hi with hu | hle
      · exact h.covered i hu
      · exact hle

theorem Naming.Sound.freshName {s : Naming c} (h : s.Sound) (l : NameCall c) :
    FreshName s l := by
  cases l with
  | getFree rounds name =>
    intro buf g hget
    obtain ⟨n, hn⟩ := h.counts
    obtain ⟨-, k, hbuf, hfinds, -⟩ := getFreeName_cases hn.next hget
    have hshape : IsFreeName (truncName buf) := hbuf ▸ isFreeName_freeName (n + k)
    refine ⟨fun i hi he => ?_, hshape, hshape.ne_reserved⟩
    cases hex : s.mem.namesExhausted with
    | false =>
      rw [hex, if_neg Bool.false_ne_true] at hfinds
      subst hfinds
      have hgiven := h.dollar i (he ▸ hshape.mem_dollar)
      rw [he, hbuf] at hgiven
      exact hn.not_handed hex hgiven
    | true =>
      rw [hex, if_pos rfl] at hfinds
      exact findByName_none hfinds.1 (h.covered i hi) hi (he.trans hbuf)
  | _ => trivial

/-- **A free name is free**: in every run in which only names without a dollar sign and returned
names are registered, and no reference is counted to a slot above `objects_max_index`, no slot
in use bears a name that `urt_get_free_name` returns. -/
theorem freeNames_fresh {g : Internal c} {ls : List (NameCall c)} (h : g.initialized = false)
    (hreg : Lts.AllSteps namingStep Registers (start g) ls)
    (hidx : Lts.AllSteps namingStep WithinIndex (start g) ls) :
    Lts.AllSteps namingStep FreshName (start g) ls :=
  Lts.allSteps_of_invariant (fun _ _ _ => Sound.step) (fun _ l hs _ => hs.freshName l)
    (sound_start h) (hreg.and hidx)

/-- `"A"` -/
def nameA : CString := .ofBytes [65]

/-- The first free name, `"_____$"`. -/
def nameFirst : CString := .ofBytes [95, 95, 95, 95, 95, 36]

/-- The first free name is registered in slot 1; an attacher finds the reservation, fails and gives
its reference back, which frees the slot and lowers the index; then the creator publishes. -/
def latePublication : List (NameCall .two) :=
  [.registry (.reserve nameA), .getFree 1 nameA, .registry (.reserve nameFirst),
    .registry (.lookup nameFirst), .registry (.dec 1), .registry (.inc 1)]

theorem freeNames_fresh_two :
    Lts.AllSteps namingStep FreshName (start (Internal.zero .two))
      [.registry (.reserve nameA), .getFree 1 nameA, .registry (.reserve nameFirst),
        .registry (.inc 1), .getFree 1 nameA] :=
  freeNames_fresh rfl (by decide) (by decide)

/-- The state after `latePublication`: slot 1 is in use and above the index. -/
theorem exec_latePublication : ∃ s, Lts.exec namingStep (start (Internal.zero .two))
      latePublication = some s ∧
    s.mem.nextFreeName = freeName 1 ∧ s.mem.namesExhausted = false ∧
    findByName s.mem (freeName 0).str = none ∧ s.mem.used 1 = true ∧
    (s.mem.objects 1).tname = truncName (freeName 0).str := by
  refine ⟨(Lts.exec namingStep (start (Internal.zero .two)) latePublication).get (by decide),
    (Option.some_get _).symm, ?_⟩
  decide

/-- A name in use is returned again, once the counter has wrapped round and the search overlooks
the slot. -/
theorem freeNames_not_fresh :
    ¬ ∀ (c : Config) (g : Internal c) (ls : List (NameCall c)), g.initialized = false →
      Lts.AllSteps namingStep Registers (start g) ls →
      Lts.AllSteps namingStep FreshName (start g) ls := by
  intro h
  obtain ⟨s, hrun, hnext, hex, hfind, hused, hname⟩ := exec_latePublication
  obtain ⟨s', hrun', hmem, -, -⟩ :=
    exec_getFree_cycle (k := freeNames - 2) hnext hex (by decide) nameA
  have hexec : Lts.exec namingStep (start (Internal.zero .two)) (latePublication ++
      List.replicate (freeNames - 2 + 1) (.getFree 1 nameA)) = some s' := by
    rw [Lts.exec_append hrun]
    exact hrun'
  have hreg : Lts.AllSteps namingStep Registers (start (Internal.zero .two))
      ((latePublication ++ List.replicate (freeNames - 2 + 1) (.getFree 1 nameA)) ++
        [.getFree 1 nameA]) := by
    rw [List.append_assoc]
    apply Lts.AllSteps.append
    · decide
    · intro t _
      apply Lts.allSteps_of_forall
      intro t l hl
      rcases List.mem_append.mp hl with hl | hl
      · obtain rfl := List.eq_of_mem_replicate hl
        trivial
      · obtain rfl := List.mem_singleton.mp hl
        trivial
  have hfresh := ((h _ _ _ rfl hreg).right hexec).1
  have hget := getFreeName_counter (g := s'.mem) (n := 0) (by rw [hmem])
    (fun _ => by rw [hmem]; exact hfind) 0 nameA
  refine (hfresh _ _ hget).1 1 ?_ ?_
  · rw [hmem]
    exact hused
  · rw [hmem, truncName_strncpy]
    exact hname

/-! ## No name is returned twice -/

/-- `urt_get_free_name` does not return a name that was returned before, unless it has been
registered and released since. -/
def NotAgain (s : Naming c) : NameCall c → Prop
  | .getFree rounds name => ∀ buf g, getFreeName rounds s.mem name = some (none, buf, g) →
      truncName buf ∉ s.held ∧ ∀ b ∈ s.borne, b.1 ≠ truncName buf
  | _ => True

/-- The name that the counter is at after `k` increments. -/
def nameAfter (g : Internal c) (k : Nat) : CString :=
  (((fun b => (incrementName b).2)^[k]) g.nextFreeName).str

/-- The counter has not wrapped round, or each held name that is not registered comes, from the
counter on, after another name that is not registered. -/
def Spared (s : Naming c) : NameCall c → Prop
  | .getFree _ _ => s.mem.namesExhausted = true →
      ∀ k, truncName (nameAfter s.mem k) ∈ s.held →
        findByName s.mem (nameAfter s.mem k) = none →
        ∃ k' < k, findByName s.mem (nameAfter s.mem k') = none
  | _ => True

theorem nameAfter_eq {g : Internal c} {n : Nat} (hnext : g.nextFreeName = freeName n) (k : Nat) :
    nameAfter g k = (freeName (n + k)).str := by
  unfold nameAfter
  congr 1
  induction k with
  | zero => exact hnext
  | succ k ih => rw [Function.iterate_succ_apply', ih, incrementName_snd, Nat.add_assoc]

/-- Held and borne names have been given, and each borne name is found in the slot it was
registered in. -/
structure Naming.Tracked (s : Naming c) : Prop where
  counts : ∃ n, s.CountsTo n
  held : ∀ name ∈ s.held, name ∈ s.handed
  borne : ∀ b ∈ s.borne, b.1 ∈ s.handed ∧ s.mem.used b.2 = true ∧
    (s.mem.objects b.2).tname = b.1 ∧ b.2.val ≤ s.mem.objectsMaxIndex

theorem tracked_start {g : Internal c} (h : g.initialized = false) : (start g).Tracked :=
  ⟨⟨0, countsTo_start h⟩, fun _ hn => absurd hn List.not_mem_nil,
    fun _ hb => absurd hb List.not_mem_nil⟩

theorem Naming.Tracked.register {s : Naming c} (h : s.Tracked) {name : CString} {i : Slot c}
    (hfree : s.mem.used i = false) {n : Nat}
    (hn : (s.register name i (reserved s.mem i name)).CountsTo n) :
    (s.register name i (reserved s.mem i name)).Tracked := by
  have hborne : ∀ b ∈ s.borne, b.1 ∈ s.handed ∧ (reserved s.mem i name).used b.2 = true ∧
      ((reserved s.mem i name).objects b.2).tname = b.1 ∧
      b.2.val ≤ (reserved s.mem i name).objectsMaxIndex := by
    intro b hb
    obtain ⟨hgiven, hused, hname, hle⟩ := h.borne b hb
    have hne : b.2 ≠ i := by
      intro he
      rw [he, hfree] at hused
      cases hused
    rw [reserved_used, reserved_objects, reserved_objectsMaxIndex, Function.update_of_ne hne,
      Function.update_of_ne hne]
    exact ⟨hgiven, hused, hname, hle.trans (le_max_left _ _)⟩
  refine ⟨⟨n, hn⟩, ?_, ?_⟩
  · unfold Naming.register
    split
    · exact fun given hg => h.held given (List.mem_of_mem_filter hg)
    · exact h.held
  · unfold Naming.register
    split
    · rename_i hheld
      intro b hb
      rcases List.mem_cons.mp hb with rfl | hb
      · refine ⟨h.held _ hheld, ?_, ?_, le_max_right _ _⟩
        · rw [reserved_used, Function.update_self]
        · rw [reserved_objects, Function.update_self, RegisteredObject.reservedObject_tname]
      · exact hborne b hb
    · exact hborne

theorem Naming.Tracked.step {s s' : Naming c} {l : NameCall c} (h : s.Tracked)
    (hs : namingStep s l = some s') : s'.Tracked := by
  obtain ⟨n, hn⟩ := h.counts
  obtain ⟨n', hn'⟩ := hn.step hs
  rcases namingStep_cases hn.next hn.initialized hs with
    ⟨rounds, name, buf, k, -, -, -, rfl⟩ | ⟨name, i, -, -, hfree, rfl⟩ | ⟨g, rfl, hq, -⟩
  · refine ⟨⟨n', hn'⟩, fun given hg => ?_, fun b hb => ?_⟩
    · rcases List.mem_cons.mp hg with rfl | hg
      · exact List.mem_cons_self
      · exact List.mem_cons_of_mem _ (h.held given hg)
    · obtain ⟨hgiven, hrest⟩ := h.borne b hb
      exact ⟨List.mem_cons_of_mem _ hgiven, hrest⟩
  · exact h.register (findFree_some hfree).1 hn'
  · refine ⟨⟨n', hn'⟩, h.held, fun b hb => ?_⟩
    obtain ⟨hb, hused⟩ := List.mem_filter.mp hb
    obtain ⟨hgiven, -, hname, hle⟩ := h.borne b hb
    exact ⟨hgiven, hused, (hq.sameNames.tname b.2).trans hname, hq.index b.2 hused hle⟩

/-- Step by step: a call returns no name again if and only if held names are spared. -/
theorem Naming.Tracked.notAgain_iff {s s' : Naming c} {l : NameCall c} (h : s.Tracked)
    (hs : namingStep s l = some s') : NotAgain s l ↔ Spared s l := by
  cases l with
  | getFree rounds name =>
    obtain ⟨n, hn⟩ := h.counts
    rw [namingStep] at hs
    cases hget : getFreeName rounds s.mem name with
    | none =>
      rw [hget] at hs
      cases hs
    | some r =>
      obtain ⟨err, buf, g⟩ := r
      obtain ⟨rfl, k, hbuf, hfinds, -⟩ := getFreeName_cases hn.next hget
      have hnotAgain : NotAgain s (.getFree rounds name) ↔
          truncName (freeName (n + k)).str ∉ s.held ∧
            ∀ b ∈ s.borne, b.1 ≠ truncName (freeName (n + k)).str := by
        rw [← hbuf]
        refine ⟨fun hna => hna buf g hget, fun hna buf' g' he => ?_⟩
        rw [hget] at he
        cases he
        exact hna
      rw [hnotAgain]
      cases hex : s.mem.namesExhausted with
      | false =>
        -- the counter has not been here before
        rw [hex, if_neg Bool.false_ne_true] at hfinds
        subst hfinds
        have hnew := hn.not_handed hex
        refine ⟨fun _ h => absurd (hex.symm.trans h) Bool.false_ne_true, fun _ => ?_⟩
        exact ⟨fun hheld => hnew (h.held _ hheld),
          fun b hb he => hnew (he ▸ (h.borne b hb).1)⟩
      | true =>
        rw [hex, if_pos rfl] at hfinds
        obtain ⟨hnone, hpassed⟩ := hfinds
        have hborne : ∀ b ∈ s.borne, b.1 ≠ truncName (freeName (n + k)).str := by
          intro b hb he
          obtain ⟨-, hused, hname, hle⟩ := h.borne b hb
          exact findByName_none hnone hle hused (hname.trans he)
        constructor
        · rintro ⟨hheld, -⟩ - k' hheld' hnone'
          rw [nameAfter_eq hn.next] at hheld' hnone'
          refine ⟨k, ?_, by rw [nameAfter_eq hn.next]; exact hnone⟩
          -- the search would have stopped at `k'`
          rcases Nat.lt_trichotomy k' k with hlt | rfl | hgt
          · exact absurd hnone' (hpassed k' hlt)
          · exact absurd hheld' hheld
          · exact hgt
        · intro hspared
          refine ⟨fun hheld => ?_, hborne⟩
          obtain ⟨k', hlt, hnone'⟩ := hspared hex k (by rw [nameAfter_eq hn.next]; exact hheld)
            (by rw [nameAfter_eq hn.next]; exact hnone)
          rw [nameAfter_eq hn.next] at hnone'
          exact hpassed k' hlt hnone'
  | _ => exact Iff.rfl

/-- **A free name is kept for its caller** as long as the counter has not wrapped round, and
after that exactly if the search does not come to a name that is held and not registered. -/
theorem freeNames_kept_iff {g : Internal c} {ls : List (NameCall c)} {s : Naming c}
    (h : g.initialized = false) (hrun : Lts.exec namingStep (start g) ls = some s) :
    Lts.AllSteps namingStep NotAgain (start g) ls ↔
      Lts.AllSteps namingStep Spared (start g) ls :=
  Lts.allSteps_iff_of_invariant (fun _ _ _ => Tracked.step) (fun _ _ _ => Tracked.notAgain_iff)
    (tracked_start h) hrun

theorem freeNames_kept_iff_two :
    Lts.AllSteps namingStep NotAgain (start (Internal.zero .two)) latePublication ↔
      Lts.AllSteps namingStep Spared (start (Internal.zero .two)) latePublication :=
  freeNames_kept_iff rfl (Option.some_get (by decide)).symm

/-- When all names have been returned and none was registered, the first one is returned again. -/
theorem freeNames_not_kept :
    ¬ ∀ (c : Config) (g : Internal c) (ls : List (NameCall c)) (s : Naming c),
      g.initialized = false → Lts.exec namingStep (start g) ls = some s →
      Lts.AllSteps namingStep NotAgain (start g) ls := by
  intro h
  obtain ⟨s, hrun, hmem, hheld, -⟩ := exec_getFree_cycle (s := start (Internal.zero .two))
    (k := freeNames - 1) (n := 0) firstFreeName_eq rfl (by decide) nameA
  have hfind : findByName s.mem (freeName 0).str = none := by
    rw [hmem]
    decide
  have hget := getFreeName_counter (g := s.mem) (n := 0) (by rw [hmem]) (fun _ => hfind) 0 nameA
  obtain ⟨s', hs', -⟩ := namingStep_getFree (s := s) (n := 0) (by rw [hmem]) (fun _ => hfind) 0
    nameA
  have hall := h _ (Internal.zero .two) (List.replicate (freeNames - 1 + 1) (.getFree 1 nameA) ++
    [.getFree 1 nameA]) s' rfl (by rw [Lts.exec_append hrun, Lts.exec_cons hs']; rfl)
  refine ((hall.right hrun).1 _ _ hget).1 ?_
  rw [truncName_strncpy]
  exact hheld

end Urt
