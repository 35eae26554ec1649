import Urt.Lib.Tally
import Urt.Protocol.Basic

/-!
# Whether counts are references

A live handle and an attacher between `urt_get_object_by_name_and_inc_count` and its end each
stand for one reference to a slot (`Sys.refs`). `Counted` says that the count of every slot is
the number of these references.

`SHOBJ_NEW` gives up a mere reservation with the same `urt_deregister` that gives up a counted
reference, and so does `urt_shmem_delete` after a failed lock initialisation. And whoever maps a
segment writes its own slot number to it, which is then the number of all who have it mapped.
`Fair` excludes the steps where a call without a reference finds a count above zero, those that
give a segment with handles, or publish one, under the number of another slot, and references
that wrap a count.
-/

namespace Urt.Protocol

variable {c : Config}

/-- Whether a live handle carries slot `i`. -/
def Handle.carries (ids : Nat → Slot c) (i : Slot c) : Option (Handle c) → Bool
  | none => false
  | some x => x.slot ids == i

/-- The references to slot `i` that live handles and unfinished attachers stand for. -/
def Sys.refs (s : Sys c) (i : Slot c) : Nat :=
  s.handles.countP (Handle.carries s.ids i) + s.calls.countP (Call.refers i)

/-- The count of every slot is the number of references to it. -/
def Counted (s : Sys c) : Prop := ∀ i, (s.mem.objects i).count.toNat = s.refs i

/-- The slot that a creator without a reference deregisters. -/
def givesUp (s : Sys c) : Label → Option (Slot c)
  | .cleanup p =>
      match s.calls[p]? with
      | some (.initFailed _ _ m) => some (s.ids m)
      | _ => none
  | .abort p =>
      match s.calls[p]? with
      | some (.failed _ i _) => some i
      | _ => none
  | .reserve _ | .create _ _ | .record _ | .publish _ | .lookup _ | .attach _ _ | .drop _
  | .detach _ => none

/-- The slot a step counts a reference to. -/
def takes (s : Sys c) : Label → Option (Slot c)
  | .publish p =>
      match s.calls[p]? with
      | some (.created _ i _) => some i
      | _ => none
  | .lookup name => findByName s.mem name
  | .reserve _ | .create _ _ | .cleanup _ | .record _ | .abort _ | .attach _ _ | .drop _
  | .detach _ => none

/-- The segment, and the slot whose number a step writes to it. -/
def marks (s : Sys c) : Label → Option (Nat × Slot c)
  | .record p =>
      match s.calls[p]? with
      | some (.made _ i (some m)) => some (m, i)
      | _ => none
  | .attach p (.ok (some m)) =>
      match s.calls[p]? with
      | some (.referenced i) => some (m, i)
      | _ => none
  | _ => none

/-- The segment that a creator publishes for a slot. -/
def hands (s : Sys c) : Label → Option (Nat × Slot c)
  | .publish p =>
      match s.calls[p]? with
      | some (.created _ i (some m)) => some (m, i)
      | _ => none
  | _ => none

/-- The slot a creator gives up has no references, fewer than `2 ^ 32` references are counted,
and a segment gets the number of a slot only if its handles carry that slot, and is published
only for the slot whose number it has. -/
def Fair (s : Sys c) (l : Label) : Prop :=
  (∀ i ∈ givesUp s l, (s.mem.objects i).count = 0) ∧
  (∀ i ∈ takes s l, s.refs i + 1 < 2 ^ 32) ∧
  (∀ x ∈ marks s l, some (.segment x.1) ∈ s.handles → s.ids x.1 = x.2) ∧
  ∀ x ∈ hands s l, s.ids x.1 = x.2

instance (s : Sys c) (l : Label) : Decidable (Fair s l) := inferInstanceAs (Decidable (_ ∧ _))

/-! ## References -/

theorem refs_append (s : Sys c) (g : Internal c) (call : Call c) (i : Slot c) :
    Sys.refs { s with mem := g, calls := s.calls ++ [call] } i =
      s.refs i + (call.refers i).toNat := by
  simp only [Sys.refs, Tally.countP_append_singleton]
  omega

theorem refs_set {s : Sys c} {p : Nat} {call : Call c} (hp : s.calls[p]? = some call)
    (g : Internal c) (call' : Call c) (i : Slot c) :
    Sys.refs { s with mem := g, calls := s.calls.set p call' } i + (call.refers i).toNat =
      s.refs i + (call'.refers i).toNat := by
  have := Tally.countP_set hp (Call.refers i) call'
  simp only [Sys.refs]
  omega

theorem carries_some (ids : Nat → Slot c) (i : Slot c) (x : Handle c) :
    (Handle.carries ids i (some x)).toNat = if i = x.slot ids then 1 else 0 := by
  rw [Handle.carries, Tally.toNat_beq]

/-- A handle carries what it carried, unless its segment was given another number. -/
theorem carries_mark {ids : Nat → Slot c} {i : Slot c} {m : Option Nat} {x : Option (Handle c)}
    (h : ∀ m' ∈ m, x = some (.segment m') → ids m' = i) (j : Slot c) :
    Handle.carries (mark ids i m) j x = Handle.carries ids j x := by
  cases m with
  | none => rfl
  | some m =>
    cases x with
    | none => rfl
    | some x =>
      cases x with
      | own k => rfl
      | segment m' =>
        by_cases hm : m' = m
        · subst hm
          simp only [Handle.carries, Handle.slot, mark, Function.update_self, h m' rfl rfl]
        · simp only [Handle.carries, Handle.slot, mark, Function.update_of_ne hm]

/-- The handles of a segment carry the number that is written to it. -/
theorem refs_mark {s : Sys c} {i : Slot c} {m : Option Nat}
    (h : ∀ m' ∈ m, some (.segment m') ∈ s.handles → s.ids m' = i) (j : Slot c) :
    s.handles.countP (Handle.carries (mark s.ids i m) j) =
      s.handles.countP (Handle.carries s.ids j) := by
  refine List.countP_congr fun x hx => ?_
  rw [carries_mark fun m' hm hxm => h m' hm (hxm ▸ hx)]

/-- A call goes on, and may write to a segment. -/
theorem refs_set_mark {s : Sys c} {p : Nat} {call : Call c} (hp : s.calls[p]? = some call)
    (call' : Call c) {k : Slot c} {m : Option Nat}
    (h : ∀ m' ∈ m, some (.segment m') ∈ s.handles → s.ids m' = k) (i : Slot c) :
    Sys.refs { s with calls := s.calls.set p call', ids := mark s.ids k m } i +
        (call.refers i).toNat =
      s.refs i + (call'.refers i).toNat := by
  have hset := refs_set hp s.mem call' i
  simp only [Sys.refs, refs_mark h] at hset ⊢
  exact hset

/-- A segment is given the number of another slot than its handles carry. -/
theorem refs_mark_lt {s : Sys c} {i : Slot c} {m : Nat} (hm : some (.segment m) ∈ s.handles)
    (hi : s.ids m ≠ i) :
    s.handles.countP (Handle.carries (mark s.ids i (some m)) (s.ids m)) <
      s.handles.countP (Handle.carries s.ids (s.ids m)) := by
  apply Tally.countP_lt _ hm
  · simp only [Handle.carries, Handle.slot, mark, Function.update_self, beq_eq_false_iff_ne]
    exact Ne.symm hi
  · exact beq_self_eq_true _
  · intro x hx hc
    cases x with
    | none => cases hc
    | some x =>
      cases x with
      | own k => exact hc
      | segment m' =>
        by_cases hm' : m' = m
        · rw [hm']
          exact beq_self_eq_true _
        · simpa only [Handle.carries, Handle.slot, mark, Function.update_of_ne hm'] using hc

/-- A call ends and hands out a handle. -/
theorem refs_handle {s : Sys c} {p : Nat} {call : Call c} (hp : s.calls[p]? = some call)
    (g : Internal c) (x : Handle c) (ids : Nat → Slot c) (i : Slot c) :
    Sys.refs
        { mem := g, calls := s.calls.set p .done, handles := s.handles ++ [some x], ids := ids }
        i + (call.refers i).toNat =
      s.handles.countP (Handle.carries ids i) + s.calls.countP (Call.refers i) +
        if i = x.slot ids then 1 else 0 := by
  have := Tally.countP_set hp (Call.refers i) .done
  rw [Call.refers_done, Bool.toNat_false] at this
  simp only [Sys.refs, Tally.countP_append_singleton, carries_some]
  omega

theorem refs_detach {s : Sys c} {k : Nat} {x : Handle c} (hk : s.handles[k]? = some (some x))
    (g : Internal c) (i : Slot c) :
    Sys.refs { s with mem := g, handles := s.handles.set k none } i +
        (if i = x.slot s.ids then 1 else 0) =
      s.refs i := by
  have := Tally.countP_set hk (Handle.carries s.ids i) none
  rw [carries_some, Handle.carries, Bool.toNat_false] at this
  simp only [Sys.refs]
  omega

theorem refs_pos_of_handle {s : Sys c} {k : Nat} {x : Handle c}
    (hk : s.handles[k]? = some (some x)) : 0 < s.refs (x.slot s.ids) := by
  have := Tally.countP_pos (p := Handle.carries s.ids (x.slot s.ids)) hk (beq_self_eq_true _)
  rw [Sys.refs]
  omega

/-! ## One step -/

namespace Counted

variable {s s' : Sys c}

theorem of_same (h : Counted s)
    (hmem : ∀ j, (s'.mem.objects j).count.toNat = (s.mem.objects j).count.toNat)
    (hrefs : ∀ j, s'.refs j = s.refs j) : Counted s' := by
  intro j
  rw [hmem, hrefs]
  exact h j

theorem of_inc (h : Counted s) {i : Slot c} (hmem : s'.mem = incNameCount s.mem i)
    (hi : s.refs i + 1 < 2 ^ 32) (hrefs : ∀ j, s'.refs j = s.refs j + if j = i then 1 else 0) :
    Counted s' := by
  intro j
  rw [← h i] at hi
  rw [hmem, count_incNameCount hi, hrefs, h j]

theorem of_dec (h : Counted s) {i : Slot c} (hmem : s'.mem = decCount s.mem i)
    (hrefs : ∀ j, s'.refs j + (if j = i then 1 else 0) = s.refs j) : Counted s' := by
  intro j
  have hj := hrefs j
  rw [hmem, count_decCount, h j]
  omega

/-- A slot without references is deregistered. -/
theorem of_dec_zero (h : Counted s) {i : Slot c} (hmem : s'.mem = decCount s.mem i)
    (hi : (s.mem.objects i).count = 0) (hrefs : ∀ j, s'.refs j = s.refs j) : Counted s' := by
  refine h.of_same (fun j => ?_) hrefs
  rw [hmem, count_decCount]
  split
  · rename_i hj
    rw [hj, hi]
    rfl
  · rfl

end Counted

/-- Every fair step keeps the counts right. -/
theorem counted_step {s s' : Sys c} {l : Label} (h : Counted s) (hl : Fair s l)
    (hs : step s l = some s') : Counted s' := by
  cases trans_of_step hs with
  | refused hfail | missing hfind => exact h.of_same (fun _ => rfl) (refs_append s _ .done)
  | reserve hfind hfree =>
    exact h.of_same (count_reserved (findFree_some hfree).1 _) (refs_append s _ (.reserved _ _))
  | @create p o name i hp hnew =>
    refine h.of_same (fun _ => rfl) ?_
    intro j
    have ho : (o.next name i).refers j = false := by cases o <;> rfl
    have hr := refs_set_mark hp (o.next name i) (k := 0) (m := o.segment)
      (fun m hm hx => absurd rfl ((hnew m hm).2 _ hx)) j
    rw [ho] at hr
    exact hr
  | @cleanup p name i m hp =>
    exact h.of_dec_zero rfl (hl.1 (s.ids m) (by simp [givesUp, hp]))
      (refs_set hp _ (.failed name i _))
  | @record p name i m hp =>
    refine h.of_same (fun _ => rfl) (refs_set_mark hp (.created name i m) ?_)
    rintro m' rfl
    exact hl.2.2.1 (m', i) (by simp [marks, hp])
  | @publish p name i m hp =>
    have hslot : (Handle.new i m).slot s.ids = i := by
      cases m with
      | none => rfl
      | some m => exact hl.2.2.2 (m, i) (by simp [hands, hp])
    refine h.of_inc rfl (hl.2.1 i (by simp [takes, hp])) ?_
    intro j
    have hr := refs_handle hp (incNameCount s.mem i) (.new i m) s.ids j
    rw [hslot] at hr
    exact hr
  | @abort p name i first hp =>
    exact h.of_dec_zero rfl (hl.1 i (by simp [givesUp, hp])) (refs_set hp _ .done)
  | @lookup name i hfind =>
    refine h.of_inc rfl (hl.2.1 i hfind) ?_
    intro j
    rw [refs_append, Call.refers_referenced, Tally.toNat_beq]
  | @attached p i m hp =>
    refine h.of_same (fun _ => rfl) ?_
    intro j
    have hmark : ∀ m' ∈ m, some (.segment m') ∈ s.handles → s.ids m' = i := by
      rintro m' rfl
      exact hl.2.2.1 (m', i) (by simp [marks, hp])
    have hr := refs_handle hp s.mem (.new i m) (mark s.ids i m) j
    rw [Call.refers_referenced, Tally.toNat_beq, slot_mark_new, refs_mark hmark] at hr
    exact Nat.add_right_cancel hr
  | @attachFailed p i hp =>
    refine h.of_same (fun _ => rfl) ?_
    intro j
    have hr := refs_set hp s.mem (.attachFailed i) j
    rw [Call.refers_referenced, Call.refers_attachFailed] at hr
    omega
  | @drop p i hp =>
    refine h.of_dec rfl ?_
    intro j
    have hr := refs_set hp (decCount s.mem i) .done j
    rwa [Call.refers_attachFailed, Call.refers_done, Tally.toNat_beq] at hr
  | @detach k x hk => exact h.of_dec rfl (refs_detach hk _)

/-! ## The condition is exact -/

theorem eq_of_givesUp {s s' : Sys c} {l : Label} {i : Slot c} (hi : givesUp s l = some i)
    (hs : step s l = some s') :
    s'.mem = decCount s.mem i ∧ ∀ j, s'.refs j = s.refs j := by
  cases trans_of_step hs with
  | refused _ | reserve _ _ | create _ _ | record _ | publish _ | missing _ | lookup _
  | attached _ | attachFailed _ | drop _ | detach _ => cases hi
  | @cleanup p name k m hp =>
    simp only [givesUp, hp, Option.some.injEq] at hi
    subst hi
    exact ⟨rfl, refs_set hp _ (.failed name k _)⟩
  | @abort p name k first hp =>
    simp only [givesUp, hp, Option.some.injEq] at hi
    subst hi
    exact ⟨rfl, refs_set hp _ .done⟩

section Exact

variable {s s' : Sys c} {l : Label} (h : Counted s) (h' : Counted s')

include h h'

/-- A segment with handles is given the number they carry. -/
theorem ids_of_marks {m : Nat} {i : Slot c} (hx : marks s l = some (m, i))
    (hs : step s l = some s') (hm : some (.segment m) ∈ s.handles) : s.ids m = i := by
  by_contra hne
  have hlt := refs_mark_lt hm hne
  have hk := h' (s.ids m)
  cases trans_of_step hs with
  | refused _ | reserve _ _ | create _ _ | cleanup _ | publish _ | abort _ | missing _
  | lookup _ | attachFailed _ | drop _ | detach _ => cases hx
  | @record p name i' m' hp =>
    cases m' with
    | none =>
      rw [marks, hp] at hx
      cases hx
    | some m' =>
      simp only [marks, hp, Option.some.injEq, Prod.mk.injEq] at hx
      obtain ⟨rfl, rfl⟩ := hx
      have hset := refs_set hp s.mem (.created name i' (some m')) (s.ids m')
      dsimp only at hk
      rw [h (s.ids m')] at hk
      simp only [Sys.refs, Call.refers, Bool.toNat_false] at hk hset
      omega
  | @attached p i' m' hp =>
    cases m' with
    | none => cases hx
    | some m' =>
      simp only [marks, hp, Option.some.injEq, Prod.mk.injEq] at hx
      obtain ⟨rfl, rfl⟩ := hx
      have hr := refs_handle hp s.mem (.segment m') (mark s.ids i' (some m')) (s.ids m')
      rw [Call.refers_referenced, Tally.toNat_beq, if_neg hne, Handle.slot, mark,
        Function.update_self, if_neg hne, Nat.add_zero, Nat.add_zero] at hr
      dsimp only at hk
      rw [h (s.ids m'), Handle.new, mark, hr, Sys.refs] at hk
      rw [mark] at hlt
      omega

/-- A creator publishes its segment for the slot whose number it has. -/
theorem ids_of_hands {m : Nat} {i : Slot c} (hx : hands s l = some (m, i))
    (hs : step s l = some s') : s.ids m = i := by
  by_contra hne
  have hk := h' (s.ids m)
  cases trans_of_step hs with
  | refused _ | reserve _ _ | create _ _ | cleanup _ | record _ | abort _ | missing _ | lookup _
  | attached _ | attachFailed _ | drop _ | detach _ => cases hx
  | @publish p name i' m' hp =>
    cases m' with
    | none =>
      rw [hands, hp] at hx
      cases hx
    | some m' =>
      simp only [hands, hp, Option.some.injEq, Prod.mk.injEq] at hx
      obtain ⟨rfl, rfl⟩ := hx
      have hr := refs_handle hp (incNameCount s.mem i') (.segment m') s.ids (s.ids m')
      rw [Handle.slot, if_pos rfl] at hr
      dsimp only at hk
      rw [incNameCount_objects, Function.update_of_ne hne, h (s.ids m'), Handle.new] at hk
      simp only [Sys.refs, Call.refers, Bool.toNat_false] at hk hr
      omega

omit h h' in
theorem refs_of_takes {i : Slot c} (hi : takes s l = some i)
    (hhands : ∀ x ∈ hands s l, s.ids x.1 = x.2) (hs : step s l = some s') :
    s'.refs i = s.refs i + 1 := by
  cases trans_of_step hs with
  | refused _ | reserve _ _ | create _ _ | cleanup _ | record _ | abort _ | attached _
  | attachFailed _ | drop _ | detach _ => cases hi
  | @publish p name k m hp =>
    simp only [takes, hp, Option.some.injEq] at hi
    subst hi
    have hslot : (Handle.new k m).slot s.ids = k := by
      cases m with
      | none => rfl
      | some m => exact hhands (m, k) (by simp [hands, hp])
    exact (refs_handle hp _ _ s.ids k).trans (by rw [hslot, if_pos rfl]; rfl)
  | missing hfind =>
    rw [takes, hfind] at hi
    cases hi
  | @lookup name k hfind =>
    rw [takes, hfind] at hi
    cases hi
    rw [refs_append, Call.refers_referenced, Tally.toNat_beq, if_pos rfl]

end Exact

/-- A step keeps the counts right exactly if it is fair. -/
theorem counted_step_iff {s s' : Sys c} {l : Label} (h : Counted s) (hs : step s l = some s') :
    Counted s' ↔ Fair s l := by
  refine ⟨fun h' => ?_, fun hl => counted_step h hl hs⟩
  have hhands : ∀ x ∈ hands s l, s.ids x.1 = x.2 := fun x hx => ids_of_hands h h' hx hs
  refine ⟨?_, ?_, fun x hx => ids_of_marks h h' hx hs, hhands⟩
  · intro i hi
    obtain ⟨hmem, hrefs⟩ := eq_of_givesUp hi hs
    have h1 := h' i
    rw [hmem, count_decCount, if_pos rfl, hrefs i, ← h i] at h1
    have h0 : (s.mem.objects i).count.toNat = 0 := by omega
    exact UInt32.toNat_inj.mp h0
  · intro i hi
    have h1 := h' i
    rw [refs_of_takes hi hhands hs] at h1
    rw [← h1]
    exact UInt32.toNat_lt _

/-! ## Runs -/

theorem counted_init {g : Internal c} (hg : g.initialized = false) : Counted (Sys.init g) := by
  intro i
  have hobj : (Sys.init g).mem.objects i = .zero := by
    simp [Sys.init, registryInit, hg]
  rw [hobj]
  rfl

/-- **Counts are references.** In every fair run from `urt_registry_init` the count of every
slot is the number of live handles that carry it and of attachers that took a reference and
have not finished; no slot is free while there is a handle to it; and a creator that gives up
its slot takes nobody's reference, since no count changes. -/
theorem counts_are_references (g : Internal c) (hg : g.initialized = false) {ls : List Label}
    {s : Sys c} (hrun : Lts.exec step (Sys.init g) ls = some s)
    (hall : Lts.AllSteps step Fair (Sys.init g) ls) :
    Counted s ∧
      (∀ (k : Nat) x, s.handles[k]? = some (some x) → s.mem.used (x.slot s.ids) = true) ∧
      ∀ l s' i, Fair s l → step s l = some s' → givesUp s l = some i →
        ∀ j, (s'.mem.objects j).count = (s.mem.objects j).count := by
  have hinv : Counted s := by
    refine Lts.exec_invariant (I := Counted) ?_ (counted_init hg) hrun hall
    intro s l s' h hl hs
    exact counted_step h hl hs
  refine ⟨hinv, ?_, ?_⟩
  · intro k x hk
    have hpos := refs_pos_of_handle hk
    rw [← hinv] at hpos
    exact RegisteredObject.inUse_iff.mpr (.inr hpos)
  · intro l s' i hl hs hi j
    have hrefs := (eq_of_givesUp hi hs).2 j
    rw [← counted_step hinv hl hs j, ← hinv j] at hrefs
    exact UInt32.toNat_inj.mp hrefs

/-- Creators that fail and attachers that succeed and fail, on different slots. The attacher
maps the creator's segment. -/
theorem counts_are_references_two :
    let ls : List Label := [.reserve (.ofBytes [65]), .create 0 (.ok (some 7)),
      .lookup (.ofBytes [65]), .record 0, .publish 0, .reserve (.ofBytes [66]),
      .create 2 .failed, .abort 2, .attach 1 (.ok (some 7)), .lookup (.ofBytes [65]),
      .attach 3 .failed, .detach 0, .drop 3]
    ∃ s : Sys .two, Lts.exec step (Sys.init (.zero .two)) ls = some s ∧ Counted s := by
  intro ls
  have hsome : (Lts.exec step (Sys.init (.zero .two)) ls).isSome = true := by decide
  obtain ⟨s, hs⟩ := Option.isSome_iff_exists.mp hsome
  exact ⟨s, hs, (counts_are_references (.zero .two) rfl hs (by decide)).1⟩

/-- A creator's system call fails while an attacher holds a reference to its slot; giving up
the reservation gives up that reference, and the attacher ends up with a handle to a free
slot. -/
theorem counts_not_references :
    let ls : List Label := [.reserve (.ofBytes [65]), .lookup (.ofBytes [65]),
      .create 0 .failed, .abort 0, .attach 1 (.ok none)]
    ∃ s : Sys .two, Lts.exec step (Sys.init (.zero .two)) ls = some s ∧
      s.handles = [some (.own 0)] ∧ s.mem.used 0 = false ∧ ¬ Counted s := by
  intro ls
  have hrun : (Lts.exec step (Sys.init (.zero .two)) ls).map (fun s =>
      (s.handles, s.mem.used 0, (s.mem.objects 0).count, s.refs 0)) =
      some ([some (.own 0)], false, 0, 1) := by decide
  obtain ⟨s, hs, hobs⟩ := Option.map_eq_some_iff.mp hrun
  simp only [Prod.mk.injEq] at hobs
  obtain ⟨hh, hu, hcount, hrefs⟩ := hobs
  refine ⟨s, hs, hh, hu, fun hc => ?_⟩
  have h0 := hc 0
  rw [hcount, hrefs] at h0
  exact absurd h0 (by decide)

end Urt.Protocol
