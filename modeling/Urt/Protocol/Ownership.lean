import Urt.Lib.Tally
import Urt.Protocol.Basic

/-!
# Whether a reserved slot stays with its creator

Between `urt_reserve_name` and the creator's next use of the lock the slot is held by its
creator only through the registry: the `reserved` flag, or the references that attachers
counted meanwhile. `Kept` says that each such slot is in use under the creator's name,
within `objects_max_index`, and held by one creator.

An attacher clears `reserved` when it counts its reference, so the slot of a creator that is
still at work becomes free when that reference is dropped again. `Undisturbed` excludes
exactly the steps that do this: a deregistration of the last reference of a slot by somebody
else than the creator that holds it, and a reference that wraps its count.
-/

namespace Urt.Protocol

variable {c : Config}

namespace Sys

/-- The name and slot that call `p` holds. -/
def holds (s : Sys c) (p : Nat) : Option (CString × Slot c) := s.calls[p]?.bind Call.holds

/-- Whether a creator other than the call `actor` (if any) holds slot `i`. -/
def HeldByOther (s : Sys c) (actor : Option Nat) (i : Slot c) : Prop :=
  ∃ p < s.calls.length, actor ≠ some p ∧ (s.holds p).map Prod.snd = some i

instance (s : Sys c) (actor : Option Nat) (i : Slot c) : Decidable (s.HeldByOther actor i) := by
  unfold HeldByOther
  infer_instance

theorem holds_lt {s : Sys c} {p : Nat} {x : CString × Slot c} (h : s.holds p = some x) :
    p < s.calls.length := by
  obtain ⟨call, hp, -⟩ := Option.bind_eq_some_iff.mp h
  exact (List.getElem?_eq_some_iff.mp hp).1

theorem heldByOther_of_holds {s : Sys c} {actor : Option Nat} {p : Nat} {name : CString}
    {i : Slot c} (h : s.holds p = some (name, i)) (hne : actor ≠ some p) :
    s.HeldByOther actor i := ⟨p, holds_lt h, hne, by rw [h]; rfl⟩

end Sys

/-- The slot a step deregisters, and the call that does it. -/
def drops (s : Sys c) : Label → Option (Option Nat × Slot c)
  | .cleanup p =>
      match s.calls[p]? with
      | some (.initFailed _ _ m) => some (some p, s.ids m)
      | _ => none
  | .abort p =>
      match s.calls[p]? with
      | some (.failed _ i _) => some (some p, i)
      | _ => none
  | .drop p =>
      match s.calls[p]? with
      | some (.attachFailed i) => some (some p, i)
      | _ => none
  | .detach h =>
      match s.handles[h]? with
      | some (some x) => some (none, x.slot s.ids)
      | _ => none
  | .reserve _ | .create _ _ | .record _ | .publish _ | .lookup _ | .attach _ _ => none

/-- The slot an attacher's lookup counts a reference to. -/
def counts (s : Sys c) : Label → Option (Slot c)
  | .lookup name => findByName s.mem name
  | _ => none

/-- The step neither takes the last reference of a slot that some other creator holds nor
wraps the count of a held slot. -/
def Undisturbed (s : Sys c) (l : Label) : Prop :=
  (∀ x ∈ drops s l, s.HeldByOther x.1 x.2 → 1 < (s.mem.objects x.2).count.toNat) ∧
  ∀ i ∈ counts s l, s.HeldByOther none i → (s.mem.objects i).count.toNat + 1 < 2 ^ 32

instance (s : Sys c) (l : Label) : Decidable (Undisturbed s l) :=
  inferInstanceAs (Decidable (_ ∧ _))

/-- Every creator's slot is in use under its name, within the index, and held by it alone. -/
structure Kept (s : Sys c) : Prop where
  inUse : ∀ p name i, s.holds p = some (name, i) → s.mem.used i = true
  named : ∀ p name i, s.holds p = some (name, i) → (s.mem.objects i).tname = truncName name
  sole : ∀ p q name name' i,
    s.holds p = some (name, i) → s.holds q = some (name', i) → p = q

/-! ## Calls -/

theorem holds_append {s s' : Sys c} {call : Call c} (h : s'.calls = s.calls ++ [call])
    {p : Nat} {x : CString × Slot c} (hp : s'.holds p = some x) :
    s.holds p = some x ∨ (p = s.calls.length ∧ call.holds = some x) := by
  obtain ⟨y, hy, hx⟩ := Option.bind_eq_some_iff.mp hp
  rw [h] at hy
  rcases Tally.getElem?_append_cases hy with hy | ⟨he, rfl⟩
  · exact .inl (Option.bind_eq_some_iff.mpr ⟨y, hy, hx⟩)
  · exact .inr ⟨he, hx⟩

theorem holds_set {s s' : Sys c} {p : Nat} {call : Call c} (h : s'.calls = s.calls.set p call)
    {q : Nat} {x : CString × Slot c} (hq : s'.holds q = some x) :
    (q ≠ p ∧ s.holds q = some x) ∨ (q = p ∧ call.holds = some x) := by
  obtain ⟨y, hy, hx⟩ := Option.bind_eq_some_iff.mp hq
  rw [h] at hy
  rcases Tally.getElem?_set_cases hy with ⟨he, rfl⟩ | ⟨hne, hy⟩
  · exact .inr ⟨he, hx⟩
  · exact .inl ⟨hne, Option.bind_eq_some_iff.mpr ⟨y, hy, hx⟩⟩

/-- A call that is added or changed and holds nothing afterwards gives nobody a slot. -/
theorem holds_append_none {s s' : Sys c} {call : Call c} (h : s'.calls = s.calls ++ [call])
    (hc : call.holds = none) {q : Nat} {x : CString × Slot c} (hq : s'.holds q = some x) :
    s.holds q = some x := by
  rcases holds_append h hq with hq | ⟨-, he⟩
  · exact hq
  · rw [hc] at he
    cases he

theorem holds_set_none {s s' : Sys c} {p : Nat} {call : Call c}
    (h : s'.calls = s.calls.set p call) (hc : call.holds = none) {q : Nat}
    {x : CString × Slot c} (hq : s'.holds q = some x) : q ≠ p ∧ s.holds q = some x := by
  rcases holds_set h hq with hq | ⟨-, he⟩
  · exact hq
  · rw [hc] at he
    cases he

/-- A call that is changed and holds what it held gives nobody a slot. -/
theorem holds_set_same {s s' : Sys c} {p : Nat} {call call' : Call c}
    (hp : s.calls[p]? = some call) (h : s'.calls = s.calls.set p call')
    (hc : call'.holds = call.holds) {q : Nat} {x : CString × Slot c} (hq : s'.holds q = some x) :
    s.holds q = some x := by
  rcases holds_set h hq with ⟨-, hq⟩ | ⟨rfl, he⟩
  · exact hq
  · rw [Sys.holds, hp, Option.bind_some, ← hc, he]

theorem holds_of_call {s : Sys c} {p : Nat} {call : Call c} (h : s.calls[p]? = some call) :
    s.holds p = call.holds := by
  unfold Sys.holds
  rw [h]
  rfl

/-! ## One step -/

namespace Kept

variable {s s' : Sys c}

/-- A step that gives no call a slot keeps `Kept` if it leaves the slots that are still held
in use under their names. -/
theorem of_fewer (h : Kept s) (hfewer : ∀ p x, s'.holds p = some x → s.holds p = some x)
    (hobj : ∀ p name i, s'.holds p = some (name, i) →
      s'.mem.used i = true ∧ (s'.mem.objects i).tname = (s.mem.objects i).tname) : Kept s' := by
  refine ⟨fun p name i hp => (hobj p name i hp).1, ?_, ?_⟩
  · intro p name i hp
    rw [(hobj p name i hp).2]
    exact h.named p name i (hfewer p _ hp)
  · intro p q name name' i hp hq
    exact h.sole p q name name' i (hfewer p _ hp) (hfewer q _ hq)

/-- The registry does not change. -/
theorem of_mem_eq (h : Kept s) (hfewer : ∀ p x, s'.holds p = some x → s.holds p = some x)
    (hmem : s'.mem = s.mem) : Kept s' := by
  refine h.of_fewer hfewer ?_
  intro p name i hp
  rw [hmem]
  exact ⟨h.inUse p name i (hfewer p _ hp), rfl⟩

/-- A reference is counted on slot `i`: if the slot is still held, the count must not wrap. -/
theorem of_inc (h : Kept s) (hfewer : ∀ p x, s'.holds p = some x → s.holds p = some x)
    {i : Slot c} (hmem : s'.mem = incNameCount s.mem i)
    (hi : ∀ p name, s'.holds p = some (name, i) →
      (s.mem.objects i).count.toNat + 1 < 2 ^ 32) : Kept s' := by
  refine h.of_fewer hfewer ?_
  intro p name j hp
  rw [hmem]
  by_cases hji : j = i
  · subst hji
    rw [incNameCount_used (hi p name hp), Function.update_self, incNameCount_objects,
      Function.update_self]
    exact ⟨rfl, rfl⟩
  · rw [Internal.used, incNameCount_objects, Function.update_of_ne hji]
    exact ⟨h.inUse p name j (hfewer p _ hp), rfl⟩

/-- Slot `i` is deregistered: if it is still held, references must be left. -/
theorem of_dec (h : Kept s) (hfewer : ∀ p x, s'.holds p = some x → s.holds p = some x)
    {i : Slot c} (hmem : s'.mem = decCount s.mem i)
    (hi : ∀ p name, s'.holds p = some (name, i) → 1 < (s.mem.objects i).count.toNat) :
    Kept s' := by
  refine h.of_fewer hfewer ?_
  intro p name j hp
  rw [hmem, decCount_used, decCount_objects]
  by_cases hji : j = i
  · subst hji
    rw [Function.update_self, Function.update_self]
    exact ⟨RegisteredObject.dec_inUse_iff.mpr (hi p name hp), rfl⟩
  · rw [Function.update_of_ne hji, Function.update_of_ne hji]
    exact ⟨h.inUse p name j (hfewer p _ hp), rfl⟩

end Kept

theorem kept_reserve {s : Sys c} (h : Kept s) {name : CString} {i : Slot c}
    (hfree : findFree s.mem = some i) :
    Kept { s with mem := reserved s.mem i name, calls := s.calls ++ [.reserved name i] } := by
  have hunheld : ∀ p name', s.holds p ≠ some (name', i) := by
    intro p name' hp
    exact ne_of_findFree hfree (h.inUse p name' i hp) rfl
  have hold : ∀ j, j ≠ i → (reserved s.mem i name).objects j = s.mem.objects j := by
    intro j hj
    rw [reserved_objects, Function.update_of_ne hj]
  refine ⟨?_, ?_, ?_⟩
  · intro p n j hp
    rcases holds_append rfl hp with hp' | ⟨-, hc⟩
    · have hji : j ≠ i := by
        rintro rfl
        exact hunheld p n hp'
      change ((reserved s.mem i name).objects j).inUse = true
      rw [hold j hji]
      exact h.inUse p n j hp'
    · cases hc
      change (reserved s.mem i name).used i = true
      rw [reserved_used, Function.update_self]
  · intro p n j hp
    rcases holds_append rfl hp with hp' | ⟨-, hc⟩
    · have hji : j ≠ i := by
        rintro rfl
        exact hunheld p n hp'
      change ((reserved s.mem i name).objects j).tname = truncName n
      rw [hold j hji]
      exact h.named p n j hp'
    · cases hc
      change ((reserved s.mem i name).objects i).tname = truncName name
      rw [reserved_objects, Function.update_self, RegisteredObject.reservedObject_tname]
  · intro p q n n' j hp hq
    rcases holds_append rfl hp with hp' | ⟨hpl, hc⟩
    · rcases holds_append rfl hq with hq' | ⟨-, hc⟩
      · exact h.sole p q n n' j hp' hq'
      · cases hc
        exact absurd hp' (hunheld p n)
    · rcases holds_append rfl hq with hq' | ⟨hql, -⟩
      · cases hc
        exact absurd hq' (hunheld q n')
      · omega

/-- Call `p` deregisters slot `i`, of which it holds no part itself afterwards. -/
theorem Kept.of_drops {s s' : Sys c} {l : Label} (h : Kept s) (hl : Undisturbed s l) {p : Nat}
    {i : Slot c} (hdrops : drops s l = some (some p, i))
    (hholds : ∀ q x, s'.holds q = some x → q ≠ p ∧ s.holds q = some x)
    (hmem : s'.mem = decCount s.mem i) : Kept s' := by
  refine h.of_dec (fun q x hq => (hholds q x hq).2) hmem ?_
  intro q n hq
  obtain ⟨hqp, hold⟩ := hholds q _ hq
  exact hl.1 (some p, i) hdrops
    (Sys.heldByOther_of_holds hold fun he => hqp (Option.some.inj he).symm)

/-- Every undisturbed step keeps the slots with their creators. -/
theorem kept_step {s s' : Sys c} {l : Label} (h : Kept s) (hl : Undisturbed s l)
    (hs : step s l = some s') : Kept s' := by
  cases trans_of_step hs with
  | refused hfail | missing hfind =>
    exact h.of_mem_eq (fun p x hp => holds_append_none rfl rfl hp) rfl
  | reserve hfind hfree => exact kept_reserve h hfree
  | @create p o name i hp hnew =>
    refine h.of_mem_eq (fun q x hq => holds_set_same hp rfl ?_ hq) rfl
    cases o <;> rfl
  | record hp => exact h.of_mem_eq (fun q x hq => holds_set_same hp rfl (by rfl) hq) rfl
  | @cleanup p name i m hp =>
    have hfewer : ∀ q x,
        Sys.holds { s with
          mem := decCount s.mem (s.ids m)
          calls := s.calls.set p (.failed name i (i != s.ids m)) } q =
          some x → s.holds q = some x ∧ (q = p → i ≠ s.ids m) := by
      intro q x hq
      rcases holds_set rfl hq with ⟨hqp, hq⟩ | ⟨rfl, hc⟩
      · exact ⟨hq, fun he => absurd he hqp⟩
      · by_cases hi : i = s.ids m
        · subst hi
          simp [Call.holds] at hc
        · have hb : (i != s.ids m) = true := by simpa using hi
          rw [hb] at hc
          exact ⟨by rw [holds_of_call hp, ← hc]; rfl, fun _ => hi⟩
    refine h.of_dec (fun q x hq => (hfewer q x hq).1) rfl ?_
    intro q n hq
    obtain ⟨hold, hqp⟩ := hfewer q _ hq
    refine hl.1 (some p, s.ids m) (by simp [drops, hp]) (Sys.heldByOther_of_holds hold ?_)
    -- after this step the creator itself does not hold the slot it deregistered
    rintro ⟨⟩
    rw [holds_of_call hp] at hold
    cases hold
    exact hqp rfl rfl
  | @publish p name i m hp =>
    refine h.of_inc (fun q x hq => (holds_set_none rfl rfl hq).2) rfl ?_
    intro q n hq
    obtain ⟨hqp, hold⟩ := holds_set_none rfl rfl hq
    have hpi : s.holds p = some (name, i) := holds_of_call hp
    exact absurd (h.sole q p n name i hold hpi) hqp
  | @abort p name i first hp =>
    apply h.of_drops hl (p := p) (i := i) (by simp [drops, hp]) _ rfl
    intro q x hq
    exact holds_set_none rfl rfl hq
  | @lookup name i hfind =>
    refine h.of_inc (fun q x hq => holds_append_none rfl rfl hq) rfl ?_
    intro q n hq
    exact hl.2 i hfind (Sys.heldByOther_of_holds (holds_append_none rfl rfl hq) (by rintro ⟨⟩))
  | attached hp | attachFailed hp =>
    exact h.of_mem_eq (fun q x hq => (holds_set_none rfl rfl hq).2) rfl
  | @drop p i hp =>
    apply h.of_drops hl (p := p) (i := i) (by simp [drops, hp]) _ rfl
    intro q x hq
    exact holds_set_none rfl rfl hq
  | @detach k x hk =>
    refine h.of_dec (fun q x hq => hq) rfl ?_
    intro q n hq
    exact hl.1 (none, x.slot s.ids) (by simp [drops, hk])
      (Sys.heldByOther_of_holds hq (by rintro ⟨⟩))

/-! ## The condition is exact -/

theorem holds_eq_of_drops {s s' : Sys c} {l : Label} {actor : Option Nat} {i : Slot c}
    (hd : drops s l = some (actor, i)) (hs : step s l = some s') {q : Nat}
    (hq : actor ≠ some q) : s'.mem = decCount s.mem i ∧ s'.holds q = s.holds q := by
  have hset : ∀ p (call : Call c), p ≠ q → (s.calls.set p call)[q]? = s.calls[q]? :=
    fun p call hpq => List.getElem?_set_ne hpq
  cases trans_of_step hs with
  | refused _ | reserve _ _ | create _ _ | record _ | publish _ | missing _ | lookup _
  | attached _ | attachFailed _ => cases hd
  | cleanup hp | abort hp | drop hp =>
    simp only [drops, hp, Option.some.injEq, Prod.mk.injEq] at hd
    obtain ⟨rfl, rfl⟩ := hd
    refine ⟨rfl, ?_⟩
    unfold Sys.holds
    rw [hset _ _ fun he => hq (congrArg some he)]
  | detach hh =>
    simp only [drops, hh, Option.some.injEq, Prod.mk.injEq] at hd
    obtain ⟨-, rfl⟩ := hd
    exact ⟨rfl, rfl⟩

/-- A step keeps the slots with their creators exactly if it is undisturbed. -/
theorem kept_step_iff {s s' : Sys c} {l : Label} (h : Kept s) (hs : step s l = some s') :
    Kept s' ↔ Undisturbed s l := by
  refine ⟨fun h' => ⟨?_, ?_⟩, fun hl => kept_step h hl hs⟩
  · rintro ⟨actor, i⟩ hd ⟨q, -, hne, hq⟩
    obtain ⟨⟨name, j⟩, hqs, rfl⟩ := Option.map_eq_some_iff.mp hq
    obtain ⟨hmem, hholds⟩ := holds_eq_of_drops hd hs hne
    have hu := h'.inUse q name j (hholds.trans hqs)
    rw [hmem, decCount_used, Function.update_self] at hu
    exact RegisteredObject.dec_inUse_iff.mp hu
  · rintro i hcount ⟨q, hlt, -, hq⟩
    obtain ⟨⟨name, j⟩, hqs, rfl⟩ := Option.map_eq_some_iff.mp hq
    cases trans_of_step hs with
    | @lookup name' k hfind =>
      have hk : k = j := Option.some.inj (hfind.symm.trans hcount)
      subst hk
      have hholds : Sys.holds { s with
          mem := incNameCount s.mem k, calls := s.calls ++ [.referenced k] } q =
            some (name, k) := by
        rw [← hqs]
        unfold Sys.holds
        rw [List.getElem?_append_left hlt]
      have hu := h'.inUse q name k hholds
      by_contra hwrap
      change ¬ (s.mem.objects k).count.toNat + 1 < 2 ^ 32 at hwrap
      have hzero : (s.mem.objects k).inc.count.toNat = 0 := by
        have := (s.mem.objects k).count.toNat_lt
        simp only [RegisteredObject.inc, UInt32.toNat_add, UInt32.toNat_one]
        omega
      simp only [Internal.used, incNameCount_objects, Function.update_self,
        RegisteredObject.inUse_iff, RegisteredObject.inc_reserved, hzero] at hu
      simp at hu
    | refused _ | reserve _ _ | create _ _ | cleanup _ | record _ | publish _ | abort _
    | attached _ | attachFailed _ | drop _ | detach _ => cases hcount
    | missing hfind =>
      rw [counts, hfind] at hcount
      cases hcount

/-! ## Runs -/

/-- Undisturbed steps leave every slot in use within `objects_max_index`. -/
theorem covered_step {s s' : Sys c} {l : Label} (h : Kept s) (hc : s.mem.Covered)
    (hs : step s l = some s') : s'.mem.Covered := by
  -- counting on a slot in use brings no other slot into use
  have hinc : ∀ i, s.mem.used i = true → (incNameCount s.mem i).Covered := by
    intro i hu j hj
    refine hc j ?_
    by_cases hji : j = i
    · rw [hji]
      exact hu
    · rwa [Internal.used, incNameCount_objects, Function.update_of_ne hji] at hj
  cases trans_of_step hs with
  | refused _ | create _ _ | record _ | missing _ | attached _ | attachFailed _ => exact hc
  | @reserve name i hfind hfree =>
    intro j hj
    rw [reserved_objectsMaxIndex]
    by_cases hji : j = i
    · rw [hji]
      exact le_max_right _ _
    · rw [reserved_used, Function.update_of_ne hji] at hj
      exact le_max_of_le_left (hc j hj)
  | publish hp => exact hinc _ (h.inUse _ _ _ (holds_of_call hp))
  | lookup hfind => exact hinc _ (findByName_some hfind).1
  | cleanup hp | abort hp | drop hp | detach hp => exact decCount_covered hc _

theorem kept_init (g : Internal c) : Kept (Sys.init g) := by
  constructor <;> intro p <;> simp [Sys.holds, Sys.init]

/-- **A reserved slot stays with its creator.** In every undisturbed run from
`urt_registry_init`, each slot between its creator's `urt_reserve_name` and that creator's
`urt_inc_name_count` or `urt_deregister` is in use under the creator's name and held by no
other creator; every slot in use is within `objects_max_index`; and a publication counts its
reference on the creator's own entry. -/
theorem creation_kept (g : Internal c) (hg : g.initialized = false) {ls : List Label}
    {s : Sys c} (hrun : Lts.exec step (Sys.init g) ls = some s)
    (hall : Lts.AllSteps step Undisturbed (Sys.init g) ls) :
    Kept s ∧ s.mem.Covered ∧
      ∀ p s', step s (.publish p) = some s' →
        ∃ name i, s.holds p = some (name, i) ∧ s.mem.used i = true ∧
          (s.mem.objects i).tname = truncName name ∧ s'.mem = incNameCount s.mem i := by
  have hinv : Kept s ∧ s.mem.Covered := by
    refine Lts.exec_invariant (I := fun s => Kept s ∧ s.mem.Covered) ?_
      ⟨kept_init g, (registryInit_tight hg).covered⟩ hrun hall
    rintro s l s' ⟨hk, hc⟩ hl hs
    exact ⟨kept_step hk hl hs, covered_step hk hc hs⟩
  refine ⟨hinv.1, hinv.2, fun p s' hs => ?_⟩
  cases trans_of_step hs with
  | @publish p name i m hp =>
    have hold : s.holds p = some (name, i) := holds_of_call hp
    exact ⟨name, i, hold, hinv.1.inUse p name i hold, hinv.1.named p name i hold, rfl⟩

/-- Two creators and two attachers that never disturb each other's slots. -/
theorem creation_kept_two :
    let ls : List Label := [.reserve (.ofBytes [65]), .lookup (.ofBytes [65]),
      .reserve (.ofBytes [66]), .create 0 (.ok (some 7)), .record 0, .attach 1 (.ok (some 7)),
      .publish 0, .create 2 .failed, .detach 0, .lookup (.ofBytes [65]), .attach 3 .failed,
      .abort 2, .reserve (.ofBytes [67]), .create 4 (.ok none)]
    ∃ s, Lts.exec step (Sys.init (.zero .two)) ls = some s ∧ Kept s ∧ s.mem.Covered := by
  intro ls
  have hsome : (Lts.exec step (Sys.init (.zero .two)) ls).isSome = true := by decide
  obtain ⟨s, hs⟩ := Option.isSome_iff_exists.mp hsome
  have hkept := creation_kept (.zero .two) rfl hs (by decide)
  exact ⟨s, hs, hkept.1, hkept.2.1⟩

/-- An attacher takes a reference to a slot that is only reserved, its open fails, and its
`urt_deregister` frees the slot; a second creator then gets it. The first creator, whose
system call succeeds, is about to publish on the entry of the second. -/
theorem creation_not_kept :
    let ls : List Label := [.reserve (.ofBytes [65]), .lookup (.ofBytes [65]),
      .attach 1 .failed, .drop 1, .reserve (.ofBytes [66]), .create 0 (.ok none), .record 0]
    ∃ s, Lts.exec step (Sys.init (.zero .two)) ls = some s ∧
      (s.holds 0).map (fun x => (truncName x.1, x.2)) = some ([65], 0) ∧
      (s.holds 2).map (fun x => (truncName x.1, x.2)) = some ([66], 0) ∧
      (s.mem.objects 0).tname = [66] ∧ ¬ Kept s := by
  intro ls
  have hrun : (Lts.exec step (Sys.init (.zero .two)) ls).map (fun s =>
      ((s.holds 0).map (fun x => (truncName x.1, x.2)),
        (s.holds 2).map (fun x => (truncName x.1, x.2)), (s.mem.objects 0).tname)) =
      some (some ([65], 0), some ([66], 0), [66]) := by decide
  obtain ⟨s, hs, hobs⟩ := Option.map_eq_some_iff.mp hrun
  simp only [Prod.mk.injEq] at hobs
  obtain ⟨h0, h2, hname⟩ := hobs
  refine ⟨s, hs, h0, h2, hname, fun hkept => ?_⟩
  obtain ⟨⟨name, i⟩, hp, hx⟩ := Option.map_eq_some_iff.mp h0
  simp only [Prod.mk.injEq] at hx
  obtain ⟨hn, rfl⟩ := hx
  have := hkept.named 0 name 0 hp
  rw [hname, hn] at this
  exact absurd this (by decide)

end Urt.Protocol
