import Urt.Protocol.Counting
import Urt.Protocol.Ownership

/-!
# Runs that attach to published objects only

`Fair` and `Undisturbed` are exact, but they speak of counts that no caller sees. A program
keeps to a simpler rule: it attaches to an object after its creation has returned, and uses
names that lead to different segments. `Orderly` is that rule, with locks that initialise.
Orderly runs are fair and undisturbed, and in their states the `reserved` flag marks exactly the
slots of creators at work, every other slot in use has as many references as its count says, and
the slots that nobody stands for are free (`Settled`).
-/

namespace Urt.Protocol

variable {c : Config}

/-- A lookup finds published objects only, and less than `2 ^ 32` references are counted;
attachers of a slot map no segment that a creator has, or that carries another slot for its
handles; locks initialise. -/
def Orderly (s : Sys c) : Label → Prop
  | .lookup name => ∀ i ∈ findByName s.mem name,
      (s.mem.objects i).reserved = false ∧ s.refs i + 1 < 2 ^ 32
  | .create _ o => ∀ m, o ≠ .initFailed m
  | .attach p o => ∀ x ∈ marks s (.attach p o), (∀ call ∈ s.calls, call.segment ≠ some x.1) ∧
      (some (.segment x.1) ∈ s.handles → s.ids x.1 = x.2)
  | .reserve _ | .cleanup _ | .record _ | .publish _ | .abort _ | .drop _ | .detach _ => True

instance (o : CreateOutcome) : Decidable (∀ m, o ≠ .initFailed m) :=
  match o with
  | .ok _ | .failed => isTrue (by simp)
  | .initFailed m => isFalse fun h => h m rfl

instance (s : Sys c) (l : Label) : Decidable (Orderly s l) := by
  cases l <;> unfold Orderly <;> infer_instance

/-- The call has not gone through a failed lock initialisation. -/
def Call.plain : Call c → Bool
  | initFailed _ _ _ => false
  | failed _ _ first => first
  | reserved _ _ | made _ _ _ | created _ _ _ | referenced _ | attachFailed _ | done => true

/-- A creator has its new segment for itself, with the number of its slot as soon as it has
written it. -/
structure Segments (s : Sys c) : Prop where
  apart : ∀ call ∈ s.calls, ∀ m ∈ call.segment, some (.segment m) ∉ s.handles
  sole : ∀ (p q : Nat) (call call' : Call c) (m : Nat), s.calls[p]? = some call →
    s.calls[q]? = some call' → call.segment = some m → call'.segment = some m → p = q
  recorded : ∀ name i m, Call.created name i (some m) ∈ s.calls → s.ids m = i

/-- Counts are references, reserved slots are those of creators at work, and the index is
exact. -/
structure Settled (s : Sys c) : Prop where
  counted : Counted s
  kept : Kept s
  tight : s.mem.Tight
  /-- a reserved slot has no references yet -/
  pending : ∀ i, (s.mem.objects i).reserved = true → (s.mem.objects i).count = 0
  owned : ∀ i, (s.mem.objects i).reserved = true ↔ ∃ p name, s.holds p = some (name, i)
  plain : ∀ call ∈ s.calls, call.plain = true
  segments : Segments s

/-! ## Segments of creators -/

namespace Segments

variable {s s' : Sys c}

/-- No call gets a segment, and a handle gets one that no call has any more. -/
theorem of_fewer (h : Segments s)
    (hcalls : ∀ (p : Nat) (call : Call c) (m : Nat), s'.calls[p]? = some call →
      call.segment = some m → ∃ call₀, s.calls[p]? = some call₀ ∧ call₀.segment = some m)
    (hhandles : ∀ m, some (.segment m) ∈ s'.handles →
      some (.segment m) ∈ s.handles ∨ ∀ call ∈ s'.calls, call.segment ≠ some m)
    (hrecorded : ∀ name i m, Call.created name i (some m) ∈ s'.calls → s'.ids m = i) :
    Segments s' := by
  refine ⟨?_, ?_, hrecorded⟩
  · intro call hcall m hm hx
    rcases hhandles m hx with hx | hnone
    · obtain ⟨p, hp⟩ := List.mem_iff_getElem?.mp hcall
      obtain ⟨call₀, hp₀, hm₀⟩ := hcalls p call m hp hm
      exact h.apart call₀ (List.mem_of_getElem? hp₀) m hm₀ hx
    · exact hnone call hcall hm
  · intro p q call call' m hp hq hm hm'
    obtain ⟨call₀, hp₀, hm₀⟩ := hcalls p call m hp hm
    obtain ⟨call₁, hq₁, hm₁⟩ := hcalls q call' m hq hm'
    exact h.sole p q call₀ call₁ m hp₀ hq₁ hm₀ hm₁

/-- A call without a segment begins. -/
theorem append (h : Segments s) (g : Internal c) {call : Call c} (hc : call.segment = none) :
    Segments { s with mem := g, calls := s.calls ++ [call] } := by
  refine h.of_fewer ?_ (fun m hx => .inl hx) ?_
  · intro p call' m hp hm
    rcases Tally.getElem?_append_cases hp with hp | ⟨-, rfl⟩
    · exact ⟨call', hp, hm⟩
    · rw [hc] at hm
      cases hm
  · intro name i m hcall
    rcases List.mem_append.mp hcall with hcall | hcall
    · exact h.recorded name i m hcall
    · rw [← List.mem_singleton.mp hcall] at hc
      cases hc

theorem set_fewer {calls : List (Call c)} {p : Nat} {call : Call c} (hc : call.segment = none)
    (q : Nat) (call' : Call c) (m : Nat) (hq : (calls.set p call)[q]? = some call')
    (hm : call'.segment = some m) : q ≠ p ∧ calls[q]? = some call' := by
  rcases Tally.getElem?_set_cases hq with ⟨-, rfl⟩ | hq
  · rw [hc] at hm
    cases hm
  · exact hq

/-- Calls that had a recorded segment and still have it. -/
theorem recorded_set (h : Segments s) {p : Nat} {call : Call c} (hc : call.segment = none)
    (name : CString) (i : Slot c) (m : Nat)
    (hcall : Call.created name i (some m) ∈ s.calls.set p call) : s.ids m = i := by
  obtain ⟨q, hq⟩ := List.mem_iff_getElem?.mp hcall
  obtain ⟨-, hold⟩ := set_fewer hc q _ m hq rfl
  exact h.recorded name i m (List.mem_of_getElem? hold)

/-- A call goes on without a segment. -/
theorem set (h : Segments s) (g : Internal c) (p : Nat) {call : Call c}
    (hc : call.segment = none) : Segments { s with mem := g, calls := s.calls.set p call } :=
  h.of_fewer (fun q call' m hq hm => ⟨call', (set_fewer hc q call' m hq hm).2, hm⟩)
    (fun _ hx => .inl hx) fun name i m hcall => h.recorded_set hc name i m hcall

/-- Other creators' segments keep their numbers. -/
theorem ids_mark (h : Segments s) {m : Option Nat} (i : Slot c)
    (hm : ∀ m' ∈ m, ∀ call ∈ s.calls, ∀ name j k, call = .created name j (some k) → k ≠ m')
    {name : CString} {j : Slot c} {k : Nat} (hcall : Call.created name j (some k) ∈ s.calls) :
    mark s.ids i m k = j := by
  cases m with
  | none => exact h.recorded name j k hcall
  | some m =>
    rw [mark, Function.update_of_ne (hm m rfl _ hcall name j k rfl)]
    exact h.recorded name j k hcall

theorem create (h : Segments s) {p : Nat} {name : CString} {i : Slot c} {o : CreateOutcome}
    (hnew : ∀ m ∈ o.segment, s.Fresh m) :
    Segments { s with calls := s.calls.set p (o.next name i), ids := mark s.ids 0 o.segment } := by
  have hseg : (o.next name i).segment = o.segment := by cases o <;> rfl
  have hcases : ∀ (q : Nat) (call : Call c) (m : Nat),
      (s.calls.set p (o.next name i))[q]? = some call → call.segment = some m →
      (q = p ∧ o.segment = some m) ∨ (q ≠ p ∧ s.calls[q]? = some call) := by
    intro q call m hq hm
    rcases Tally.getElem?_set_cases hq with ⟨rfl, rfl⟩ | hq
    · exact .inl ⟨rfl, hseg.symm.trans hm⟩
    · exact .inr hq
  refine ⟨?_, ?_, ?_⟩
  · intro call hcall m hm hx
    obtain ⟨q, hq⟩ := List.mem_iff_getElem?.mp hcall
    rcases hcases q call m hq hm with ⟨-, ho⟩ | ⟨-, hold⟩
    · exact (hnew m ho).2 _ hx rfl
    · exact h.apart call (List.mem_of_getElem? hold) m hm hx
  · intro q r call call' m hq hr hm hm'
    rcases hcases q call m hq hm with ⟨rfl, ho⟩ | ⟨-, hold⟩
    · rcases hcases r call' m hr hm' with ⟨rfl, -⟩ | ⟨-, hold'⟩
      · rfl
      · exact absurd hm' ((hnew m ho).1 call' (List.mem_of_getElem? hold'))
    · rcases hcases r call' m hr hm' with ⟨rfl, ho⟩ | ⟨-, hold'⟩
      · exact absurd hm ((hnew m ho).1 call (List.mem_of_getElem? hold))
      · exact h.sole q r call call' m hold hold' hm hm'
  · intro name' j k hcall
    rcases List.mem_or_eq_of_mem_set hcall with hcall | hcall
    · refine h.ids_mark 0 ?_ hcall
      rintro m ho call hcall' n' j' k' rfl rfl
      exact (hnew k' ho).1 _ hcall' rfl
    · cases o <;> cases hcall

theorem record (h : Segments s) {p : Nat} {name : CString} {i : Slot c} {m : Option Nat}
    (hp : s.calls[p]? = some (.made name i m)) :
    Segments { s with
      calls := s.calls.set p (.created name i m)
      ids := mark s.ids i m } := by
  refine h.of_fewer ?_ (fun m hx => .inl hx) ?_
  · intro q call k hq hk
    rcases Tally.getElem?_set_cases hq with ⟨rfl, rfl⟩ | ⟨-, hold⟩
    · exact ⟨_, hp, hk⟩
    · exact ⟨call, hold, hk⟩
  · intro name' j k hcall
    obtain ⟨q, hq⟩ := List.mem_iff_getElem?.mp hcall
    rcases Tally.getElem?_set_cases hq with ⟨rfl, he⟩ | ⟨hqp, hold⟩
    · cases he
      exact Function.update_self k i s.ids
    · -- the segment of another creator is another segment
      cases m with
      | none => exact h.recorded name' j k (List.mem_of_getElem? hold)
      | some m =>
        have hkm : k ≠ m := by
          rintro rfl
          exact hqp (h.sole q p _ _ k hold hp rfl rfl)
        change Function.update s.ids m i k = j
        rw [Function.update_of_ne hkm]
        exact h.recorded name' j k (List.mem_of_getElem? hold)

/-- A creator's segment becomes that of a handle. -/
theorem publish (h : Segments s) {p : Nat} {name : CString} {i : Slot c} {m : Option Nat}
    (hp : s.calls[p]? = some (.created name i m)) :
    Segments { s with
      mem := incNameCount s.mem i
      calls := s.calls.set p .done
      handles := s.handles ++ [some (.new i m)] } := by
  refine h.of_fewer ?_ ?_ fun name' j k hcall => h.recorded_set rfl name' j k hcall
  · exact fun q call k hq hk => ⟨call, (set_fewer rfl q call k hq hk).2, hk⟩
  · intro k hx
    rcases List.mem_append.mp hx with hx | hx
    · exact .inl hx
    · refine .inr fun call hcall hk => ?_
      obtain ⟨q, hq⟩ := List.mem_iff_getElem?.mp hcall
      obtain ⟨hqp, hold⟩ := set_fewer rfl q call k hq hk
      cases m with
      | none => cases List.mem_singleton.mp hx
      | some m =>
        cases List.mem_singleton.mp hx
        exact hqp (h.sole q p call _ k hold hp hk rfl)

theorem attached (h : Segments s) (p : Nat) {i : Slot c} {m : Option Nat}
    (hm : ∀ m' ∈ m, ∀ call ∈ s.calls, call.segment ≠ some m') :
    Segments { s with
      calls := s.calls.set p .done
      handles := s.handles ++ [some (.new i m)]
      ids := mark s.ids i m } := by
  refine h.of_fewer ?_ ?_ ?_
  · exact fun q call k hq hk => ⟨call, (set_fewer rfl q call k hq hk).2, hk⟩
  · intro k hx
    rcases List.mem_append.mp hx with hx | hx
    · exact .inl hx
    · refine .inr fun call hcall hk => ?_
      obtain ⟨q, hq⟩ := List.mem_iff_getElem?.mp hcall
      obtain ⟨-, hold⟩ := set_fewer rfl q call k hq hk
      cases m with
      | none => cases List.mem_singleton.mp hx
      | some m =>
        cases List.mem_singleton.mp hx
        exact hm k rfl call (List.mem_of_getElem? hold) hk
  · intro name' j k hcall
    obtain ⟨q, hq⟩ := List.mem_iff_getElem?.mp hcall
    obtain ⟨-, hold⟩ := set_fewer rfl q _ k hq rfl
    refine h.ids_mark i ?_ (List.mem_of_getElem? hold)
    rintro m' hm' call hcall' n' j' k' rfl rfl
    exact hm k' hm' _ hcall' rfl

theorem detach (h : Segments s) (g : Internal c) (k : Nat) :
    Segments { s with mem := g, handles := s.handles.set k none } := by
  refine h.of_fewer (fun p call m hp hm => ⟨call, hp, hm⟩) ?_ h.recorded
  intro m hx
  rcases List.mem_or_eq_of_mem_set hx with hx | hx
  · exact .inl hx
  · cases hx

end Segments

/-- Every orderly step keeps creators' segments their own. -/
theorem segments_step {s s' : Sys c} {l : Label} (h : Segments s) (hl : Orderly s l)
    (hs : step s l = some s') : Segments s' := by
  cases trans_of_step hs with
  | refused _ | reserve _ _ | missing _ | lookup _ => exact h.append _ rfl
  | create hp hnew => exact h.create hnew
  | cleanup hp | abort hp | attachFailed hp | drop hp => exact h.set _ _ rfl
  | record hp => exact h.record hp
  | publish hp => exact h.publish hp
  | @attached p i m hp =>
    refine h.attached p ?_
    rintro m' rfl
    exact (hl (m', i) (by simp [marks, hp])).1
  | detach hk => exact h.detach _ _

/-! ## Calls that hold a slot -/

theorem holds_append_iff {s s' : Sys c} {call : Call c} (h : s'.calls = s.calls ++ [call])
    (p : Nat) (x : CString × Slot c) :
    s'.holds p = some x ↔ s.holds p = some x ∨ (p = s.calls.length ∧ call.holds = some x) := by
  refine ⟨holds_append h, ?_⟩
  rintro (hp | ⟨rfl, hx⟩)
  · rw [← hp, Sys.holds, Sys.holds, h, List.getElem?_append_left (Sys.holds_lt hp)]
  · rw [← hx, Sys.holds, h, List.getElem?_concat_length]
    rfl

theorem holds_set_iff {s s' : Sys c} {p : Nat} {call call' : Call c}
    (hp : s.calls[p]? = some call) (h : s'.calls = s.calls.set p call') (q : Nat)
    (x : CString × Slot c) :
    s'.holds q = some x ↔ (q ≠ p ∧ s.holds q = some x) ∨ (q = p ∧ call'.holds = some x) := by
  refine ⟨holds_set h, ?_⟩
  rintro (⟨hqp, hq⟩ | ⟨rfl, hx⟩)
  · rw [← hq, Sys.holds, Sys.holds, h, List.getElem?_set_ne (Ne.symm hqp)]
  · rw [← hx, Sys.holds, h, List.getElem?_set_self (List.getElem?_eq_some_iff.mp hp).1]
    rfl

theorem plain_append {s : Sys c} (h : ∀ call ∈ s.calls, call.plain = true) {call' : Call c}
    (hc : call'.plain = true) : ∀ call ∈ s.calls ++ [call'], call.plain = true := by
  intro call hcall
  rcases List.mem_append.mp hcall with hcall | hcall
  · exact h call hcall
  · rw [List.mem_singleton.mp hcall]
    exact hc

theorem plain_set {s : Sys c} (h : ∀ call ∈ s.calls, call.plain = true) (p : Nat)
    {call' : Call c} (hc : call'.plain = true) :
    ∀ call ∈ s.calls.set p call', call.plain = true := by
  intro call hcall
  rcases List.mem_or_eq_of_mem_set hcall with hcall | rfl
  · exact h call hcall
  · exact hc

/-! ## Reserved flags -/

theorem reserved_reserved (g : Internal c) (i j : Slot c) (name : CString) :
    ((reserved g i name).objects j).reserved = true ↔
      j = i ∨ (g.objects j).reserved = true := by
  rw [reserved_objects]
  by_cases hj : j = i
  · subst hj
    rw [Function.update_self]
    exact ⟨fun _ => .inl rfl, fun _ => rfl⟩
  · rw [Function.update_of_ne hj]
    exact ⟨.inr, fun h => h.resolve_left hj⟩

/-- `++ro->count` and `--ro->count` both clear the flag. -/
theorem reserved_update (g : Internal c) {g' : Internal c} {i : Slot c} {o : RegisteredObject}
    (hg : g'.objects = Function.update g.objects i o) (ho : o.reserved = false) (j : Slot c) :
    (g'.objects j).reserved = true ↔ j ≠ i ∧ (g.objects j).reserved = true := by
  rw [hg]
  by_cases hj : j = i
  · subst hj
    rw [Function.update_self, ho]
    refine ⟨fun h => ?_, fun h => absurd rfl h.1⟩
    cases h
  · rw [Function.update_of_ne hj]
    exact ⟨fun h => ⟨hj, h⟩, fun h => h.2⟩

namespace Settled

variable {s s' : Sys c}

theorem not_reserved_of_refs (h : Settled s) {i : Slot c} (hi : 0 < s.refs i) :
    (s.mem.objects i).reserved = false := by
  by_contra hr
  rw [Bool.not_eq_false] at hr
  rw [← h.counted i, h.pending i hr] at hi
  exact absurd hi (by decide)

theorem refs_zero (h : Settled s) {p : Nat} {name : CString} {i : Slot c}
    (hp : s.holds p = some (name, i)) : (s.mem.objects i).count = 0 ∧ s.refs i = 0 := by
  have hr := (h.owned i).mpr ⟨p, name, hp⟩
  have h0 := h.pending i hr
  refine ⟨h0, ?_⟩
  rw [← h.counted i, h0]
  rfl

theorem refs_pos_of_call (s : Sys c) {p : Nat} {call : Call c} {i : Slot c}
    (hp : s.calls[p]? = some call) (hc : call.refers i = true) : 0 < s.refs i := by
  have := Tally.countP_pos hp hc
  rw [Sys.refs]
  omega

/-- A slot is in use exactly if a creator at work holds it or somebody refers to it, and not
for both reasons. -/
theorem used_iff (h : Settled s) (i : Slot c) :
    s.mem.used i = true ↔ (∃ p name, s.holds p = some (name, i)) ∨ 0 < s.refs i := by
  rw [Internal.used, RegisteredObject.inUse_iff, h.owned, h.counted]

/-! ## Orderly steps are fair and undisturbed -/

theorem fair (h : Settled s) {l : Label} (hl : Orderly s l) : Fair s l := by
  refine ⟨?_, ?_, ?_, ?_⟩
  · intro i hi
    cases l with
    | cleanup p =>
      simp only [givesUp] at hi
      split at hi
      · rename_i hp
        have := h.plain _ (List.mem_of_getElem? hp)
        cases this
      · cases hi
    | abort p =>
      simp only [givesUp] at hi
      split at hi
      · rename_i name j first hp
        have hfirst : first = true := h.plain _ (List.mem_of_getElem? hp)
        subst hfirst
        cases hi
        have hheld : s.holds p = some (name, i) := holds_of_call hp
        exact (h.refs_zero hheld).1
      · cases hi
    | reserve _ | create _ _ | record _ | publish _ | lookup _ | attach _ _ | drop _
    | detach _ => cases hi
  · intro i hi
    cases l with
    | publish p =>
      simp only [takes] at hi
      split at hi
      · rename_i name j m hp
        cases hi
        have hheld : s.holds p = some (name, i) := holds_of_call hp
        rw [(h.refs_zero hheld).2]
        decide
      · cases hi
    | lookup name => exact (hl i hi).2
    | reserve _ | create _ _ | cleanup _ | record _ | abort _ | attach _ _ | drop _
    | detach _ => cases hi
  · intro x hx hm
    cases l with
    | record p =>
      simp only [marks] at hx
      split at hx
      · rename_i name i m hp
        cases hx
        exact absurd hm (h.segments.apart _ (List.mem_of_getElem? hp) m rfl)
      · cases hx
    | attach p o => exact (hl x hx).2 hm
    | reserve _ | create _ _ | cleanup _ | publish _ | abort _ | lookup _ | drop _ | detach _ =>
      cases hx
  · intro x hx
    cases l with
    | publish p =>
      simp only [hands] at hx
      split at hx
      · rename_i name i m hp
        cases hx
        exact h.segments.recorded name i m (List.mem_of_getElem? hp)
      · cases hx
    | reserve _ | create _ _ | cleanup _ | record _ | abort _ | lookup _ | attach _ _ | drop _
    | detach _ => cases hx

/-- Whoever gives back a reference does not find the slot of a creator at work. -/
theorem not_held_of_refs (h : Settled s) {i : Slot c} (hi : 0 < s.refs i) (actor : Option Nat) :
    ¬ s.HeldByOther actor i := by
  rintro ⟨q, -, -, hq⟩
  obtain ⟨⟨name, j⟩, hqs, rfl⟩ := Option.map_eq_some_iff.mp hq
  have hr := (h.owned j).mpr ⟨q, name, hqs⟩
  rw [h.not_reserved_of_refs hi] at hr
  cases hr

theorem undisturbed (h : Settled s) {l : Label} (hl : Orderly s l) : Undisturbed s l := by
  constructor
  · rintro ⟨actor, i⟩ hd hheld
    exfalso
    cases l with
    | cleanup p =>
      simp only [drops] at hd
      split at hd
      · rename_i hp
        have := h.plain _ (List.mem_of_getElem? hp)
        cases this
      · cases hd
    | abort p =>
      simp only [drops] at hd
      split at hd
      · rename_i name j first hp
        have hfirst : first = true := h.plain _ (List.mem_of_getElem? hp)
        subst hfirst
        cases hd
        obtain ⟨q, -, hne, hq⟩ := hheld
        obtain ⟨⟨name', j'⟩, hqs, rfl⟩ := Option.map_eq_some_iff.mp hq
        have hpq := h.kept.sole p q name name' j' (holds_of_call hp) hqs
        exact hne (congrArg some hpq)
      · cases hd
    | drop p =>
      simp only [drops] at hd
      split at hd
      · rename_i j hp
        cases hd
        exact h.not_held_of_refs (refs_pos_of_call s hp (by simp)) _ hheld
      · cases hd
    | detach k =>
      simp only [drops] at hd
      split at hd
      · rename_i j hk
        cases hd
        exact h.not_held_of_refs (refs_pos_of_handle hk) _ hheld
      · cases hd
    | reserve _ | create _ _ | record _ | publish _ | lookup _ | attach _ _ => cases hd
  · intro i hi hheld
    cases l with
    | lookup name =>
      rw [h.counted i]
      exact (hl i hi).2
    | reserve _ | create _ _ | cleanup _ | record _ | publish _ | abort _ | attach _ _ | drop _
    | detach _ => cases hi

/-! ## One step -/

/-- The registry is not written, and the calls hold what they held. -/
theorem of_same (h : Settled s) (hcounted : Counted s') (hkept : Kept s') (hmem : s'.mem = s.mem)
    (hholds : ∀ p x, s'.holds p = some x ↔ s.holds p = some x)
    (hplain : ∀ call ∈ s'.calls, call.plain = true) (hsegments : Segments s') : Settled s' := by
  refine ⟨hcounted, hkept, ?_, ?_, ?_, hplain, hsegments⟩
  · rw [hmem]
    exact h.tight
  · rw [hmem]
    exact h.pending
  · intro i
    rw [hmem, h.owned i]
    simp only [hholds]

/-- The reservation of slot `i` ends, or there was none, and nobody else's. -/
theorem of_cleared (h : Settled s) (hcounted : Counted s') (hkept : Kept s')
    (htight : s'.mem.Tight) {i : Slot c} {o : RegisteredObject} (hr : o.reserved = false)
    (hobj : s'.mem.objects = Function.update s.mem.objects i o)
    (hholds : ∀ p name j, s'.holds p = some (name, j) ↔ j ≠ i ∧ s.holds p = some (name, j))
    (hplain : ∀ call ∈ s'.calls, call.plain = true) (hsegments : Segments s') : Settled s' := by
  have hflag := reserved_update s.mem hobj hr
  refine ⟨hcounted, hkept, htight, ?_, ?_, hplain, hsegments⟩
  · intro j hj
    obtain ⟨hji, hj⟩ := (hflag j).mp hj
    rw [hobj, Function.update_of_ne hji]
    exact h.pending j hj
  · intro j
    rw [hflag j, h.owned j]
    simp only [hholds]
    constructor
    · rintro ⟨hji, p, name, hp⟩
      exact ⟨p, name, hji, hp⟩
    · rintro ⟨p, name, hji, hp⟩
      exact ⟨hji, p, name, hp⟩

/-- A creator that holds slot `i` stops holding it. -/
theorem holds_release (h : Settled s) {p : Nat} {call : Call c} {name : CString} {i : Slot c}
    (hp : s.calls[p]? = some call) (hc : call.holds = some (name, i))
    (hcalls : s'.calls = s.calls.set p .done) (q : Nat) (name' : CString) (j : Slot c) :
    s'.holds q = some (name', j) ↔ j ≠ i ∧ s.holds q = some (name', j) := by
  have hpi : s.holds p = some (name, i) := by rw [holds_of_call hp, hc]
  rw [holds_set_iff hp hcalls]
  constructor
  · rintro (⟨hqp, hq⟩ | ⟨-, hd⟩)
    · refine ⟨?_, hq⟩
      rintro rfl
      exact hqp (h.kept.sole q p name' name j hq hpi)
    · cases hd
  · rintro ⟨hji, hq⟩
    refine .inl ⟨?_, hq⟩
    rintro rfl
    rw [hpi] at hq
    cases hq
    exact hji rfl

/-- A slot with references is not held, so nobody stops holding it. -/
theorem holds_of_refs (h : Settled s) {i : Slot c} (hi : (s.mem.objects i).reserved = false)
    (hholds : ∀ p x, s'.holds p = some x ↔ s.holds p = some x) (q : Nat) (name : CString)
    (j : Slot c) : s'.holds q = some (name, j) ↔ j ≠ i ∧ s.holds q = some (name, j) := by
  rw [hholds]
  refine ⟨fun hq => ⟨?_, hq⟩, fun hq => hq.2⟩
  rintro rfl
  have hr := (h.owned j).mpr ⟨q, name, hq⟩
  rw [hi] at hr
  cases hr

/-- A call that holds nothing is replaced by one that holds nothing. -/
theorem holds_unheld {p : Nat} {call call' : Call c} (hp : s.calls[p]? = some call)
    (hc : call.holds = none) (hc' : call'.holds = none)
    (hcalls : s'.calls = s.calls.set p call') (q : Nat) (x : CString × Slot c) :
    s'.holds q = some x ↔ s.holds q = some x := by
  rw [holds_set_iff hp hcalls, hc']
  constructor
  · rintro (⟨-, hq⟩ | ⟨-, hq⟩)
    · exact hq
    · cases hq
  · intro hq
    refine .inl ⟨?_, hq⟩
    rintro rfl
    rw [holds_of_call hp, hc] at hq
    cases hq

/-- A call goes on with what it holds. -/
theorem holds_kept {p : Nat} {call call' : Call c} {y : CString × Slot c}
    (hp : s.calls[p]? = some call) (hold : call.holds = some y) (hc : call'.holds = some y)
    (hcalls : s'.calls = s.calls.set p call') (q : Nat) (x : CString × Slot c) :
    s'.holds q = some x ↔ s.holds q = some x := by
  rw [holds_set_iff hp hcalls, hc]
  constructor
  · rintro (⟨-, hq⟩ | ⟨rfl, hx⟩)
    · exact hq
    · rw [holds_of_call hp, hold, hx]
  · intro hq
    by_cases hqp : q = p
    · subst hqp
      rw [holds_of_call hp, hold] at hq
      exact .inr ⟨rfl, hq⟩
    · exact .inl ⟨hqp, hq⟩

theorem holds_appended {call : Call c} (hc : call.holds = none)
    (hcalls : s'.calls = s.calls ++ [call]) (q : Nat) (x : CString × Slot c) :
    s'.holds q = some x ↔ s.holds q = some x := by
  rw [holds_append_iff hcalls, hc]
  constructor
  · rintro (hq | ⟨-, hq⟩)
    · exact hq
    · cases hq
  · exact .inl

theorem reserve (h : Settled s) {name : CString} {i : Slot c} (hfree : findFree s.mem = some i)
    (hcounted : Counted
      { s with mem := reserved s.mem i name, calls := s.calls ++ [.reserved name i] }) :
    Settled { s with mem := reserved s.mem i name, calls := s.calls ++ [.reserved name i] } := by
  have hunheld : ¬ ∃ p name', s.holds p = some (name', i) := by
    rintro ⟨p, name', hp⟩
    exact ne_of_findFree hfree (h.kept.inUse p name' i hp) rfl
  refine ⟨hcounted, kept_reserve h.kept hfree, reserved_tight h.tight i name, ?_, ?_,
    plain_append h.plain rfl, h.segments.append _ rfl⟩
  · intro j hj
    change ((reserved s.mem i name).objects j).count = 0
    rcases (reserved_reserved s.mem i j name).mp hj with rfl | hold
    · rw [reserved_objects, Function.update_self]
      rfl
    · rw [reserved_objects, Function.update_of_ne]
      · exact h.pending j hold
      · rintro rfl
        exact hunheld ((h.owned j).mp hold)
  · intro j
    have hcalls : Sys.calls { s with
        mem := reserved s.mem i name
        calls := s.calls ++ [.reserved name i] } = s.calls ++ [.reserved name i] := rfl
    have hholds := holds_append_iff hcalls
    change ((reserved s.mem i name).objects j).reserved = true ↔ _
    rw [reserved_reserved, h.owned j]
    simp only [hholds]
    constructor
    · rintro (rfl | ⟨p, name', hp⟩)
      · exact ⟨s.calls.length, name, .inr ⟨rfl, rfl⟩⟩
      · exact ⟨p, name', .inl hp⟩
    · rintro ⟨p, name', hp | ⟨-, hc⟩⟩
      · exact .inr ⟨p, name', hp⟩
      · cases hc
        exact .inl rfl

end Settled

/-- Every orderly step leads from a settled state to a settled one. -/
theorem settled_step {s s' : Sys c} {l : Label} (h : Settled s) (hl : Orderly s l)
    (hs : step s l = some s') : Settled s' := by
  have hcounted : Counted s' := counted_step h.counted (h.fair hl) hs
  have hkept : Kept s' := kept_step h.kept (h.undisturbed hl) hs
  have hsegments : Segments s' := segments_step h.segments hl hs
  cases trans_of_step hs with
  | refused hfail | missing hfind =>
    exact h.of_same hcounted hkept rfl (Settled.holds_appended rfl rfl)
      (plain_append h.plain rfl) hsegments
  | reserve hfind hfree => exact h.reserve hfree hcounted
  | @create p o name i hp hnew =>
    have ho : (o.next name i).holds = some (name, i) ∧ (o.next name i).plain = true := by
      cases o with
      | ok m | failed => exact ⟨rfl, rfl⟩
      | initFailed m => exact absurd rfl (hl m)
    exact h.of_same hcounted hkept rfl (Settled.holds_kept hp rfl ho.1 rfl)
      (plain_set h.plain p ho.2) hsegments
  | cleanup hp =>
    have := h.plain _ (List.mem_of_getElem? hp)
    cases this
  | record hp =>
    exact h.of_same hcounted hkept rfl (Settled.holds_kept hp rfl rfl rfl) (plain_set h.plain _ rfl)
      hsegments
  | @publish p name i m hp =>
    have hpi : s.holds p = some (name, i) := holds_of_call hp
    have hcount : (s.mem.objects i).count.toNat + 1 < 2 ^ 32 := by
      rw [(h.refs_zero hpi).1]
      decide
    exact h.of_cleared hcounted hkept
      (incNameCount_tight h.tight (h.kept.inUse p name i hpi) hcount) rfl
      (incNameCount_objects s.mem i) (h.holds_release hp rfl rfl) (plain_set h.plain p rfl)
      hsegments
  | @abort p name i first hp =>
    have hfirst : first = true := h.plain _ (List.mem_of_getElem? hp)
    subst hfirst
    exact h.of_cleared hcounted hkept (decCount_tight h.tight i) (RegisteredObject.dec_reserved _)
      (decCount_objects s.mem i) (h.holds_release hp rfl rfl) (plain_set h.plain p rfl)
      hsegments
  | @lookup name i hfind =>
    obtain ⟨hr, hrefs⟩ := hl i hfind
    have hcount : (s.mem.objects i).count.toNat + 1 < 2 ^ 32 := by
      rw [h.counted i]
      exact hrefs
    exact h.of_cleared hcounted hkept
      (incNameCount_tight h.tight (findByName_some hfind).1 hcount) rfl
      (incNameCount_objects s.mem i) (h.holds_of_refs hr (Settled.holds_appended rfl rfl))
      (plain_append h.plain rfl) hsegments
  | @attached p i m hp =>
    exact h.of_same hcounted hkept rfl (Settled.holds_unheld hp rfl rfl rfl)
      (plain_set h.plain p rfl) hsegments
  | @attachFailed p i hp =>
    exact h.of_same hcounted hkept rfl (Settled.holds_unheld hp rfl rfl rfl)
      (plain_set h.plain p rfl) hsegments
  | @drop p i hp =>
    have hr := h.not_reserved_of_refs (Settled.refs_pos_of_call s (i := i) hp (by simp))
    exact h.of_cleared hcounted hkept (decCount_tight h.tight i) (RegisteredObject.dec_reserved _)
      (decCount_objects s.mem i) (h.holds_of_refs hr (Settled.holds_unheld hp rfl rfl rfl))
      (plain_set h.plain p rfl) hsegments
  | @detach k x hk =>
    have hr := h.not_reserved_of_refs (refs_pos_of_handle hk)
    exact h.of_cleared hcounted hkept (decCount_tight h.tight _) (RegisteredObject.dec_reserved _)
      (decCount_objects s.mem _) (h.holds_of_refs hr fun _ _ => Iff.rfl) h.plain hsegments

/-! ## Runs -/

theorem segments_init (g : Internal c) : Segments (Sys.init g) := by
  refine ⟨?_, ?_, ?_⟩
  · intro call hcall
    cases hcall
  · intro p q call call' m hp
    cases hp
  · intro name i m hcall
    cases hcall

theorem settled_init {g : Internal c} (hg : g.initialized = false) : Settled (Sys.init g) := by
  have hobj : ∀ i, (Sys.init g).mem.objects i = .zero := by
    intro i
    simp [Sys.init, registryInit, hg]
  refine ⟨counted_init hg, kept_init g, registryInit_tight hg, ?_, ?_, ?_, segments_init g⟩
  · intro i _
    rw [hobj]
    rfl
  · intro i
    rw [hobj]
    refine ⟨fun h => ?_, ?_⟩
    · cases h
    · rintro ⟨p, name, hp⟩
      simp [Sys.holds, Sys.init] at hp
  · intro call hcall
    cases hcall

theorem settled_exec {g : Internal c} (hg : g.initialized = false) {ls : List Label} {s : Sys c}
    (hrun : Lts.exec step (Sys.init g) ls = some s)
    (hall : Lts.AllSteps step Orderly (Sys.init g) ls) : Settled s :=
  Lts.exec_invariant (I := Settled) (fun _ _ _ h hl hs => settled_step h hl hs) (settled_init hg)
    hrun hall

/-- Nobody is at work and no handle is left. -/
def Sys.Quiet (s : Sys c) : Prop := (∀ call ∈ s.calls, call = .done) ∧ ∀ x ∈ s.handles, x = none

instance (s : Sys c) : Decidable s.Quiet :=
  have : DecidablePred fun call : Call c => call = .done := fun call => by
    cases call <;> first | exact isTrue rfl | exact isFalse (by simp)
  inferInstanceAs (Decidable (_ ∧ _))

theorem Sys.Quiet.holds {s : Sys c} (h : s.Quiet) (p : Nat) : s.holds p = none := by
  unfold Sys.holds
  cases hp : s.calls[p]? with
  | none => rfl
  | some call =>
    rw [h.1 call (List.mem_of_getElem? hp)]
    rfl

theorem Sys.Quiet.refs {s : Sys c} (h : s.Quiet) (i : Slot c) : s.refs i = 0 := by
  have hh : s.handles.countP (Handle.carries s.ids i) = 0 := by
    rw [List.countP_eq_zero]
    intro x hx
    rw [h.2 x hx]
    simp [Handle.carries]
  have hc : s.calls.countP (Call.refers i) = 0 := by
    rw [List.countP_eq_zero]
    intro call hcall
    rw [h.1 call hcall]
    simp
  rw [Sys.refs, hh, hc]

theorem Settled.empty {s : Sys c} (h : Settled s) (hq : s.Quiet) :
    (∀ i, s.mem.used i = false) ∧ s.mem.objectsMaxIndex = 0 := by
  have hunused : ∀ i, s.mem.used i = false := by
    intro i
    rw [← Bool.not_eq_true, h.used_iff]
    rintro (⟨p, name, hp⟩ | hpos)
    · rw [hq.holds p] at hp
      cases hp
    · rw [hq.refs i] at hpos
      exact absurd hpos (lt_irrefl 0)
  refine ⟨hunused, ?_⟩
  rw [h.tight]
  exact SlotScan.top_eq_zero hunused

/-- **Attaching after creation is enough.** In every run from `urt_registry_init` in which
lookups find published objects only, attachers map segments of their own slot only, and locks
initialise, every step is fair and undisturbed; a slot is in use exactly if a creator at work
holds it, its count then being zero, or if there are references to it, as many as its count
says; no name is searched in vain; and once all calls are done and all handles detached the
registry is empty. -/
theorem orderly_accounted (g : Internal c) (hg : g.initialized = false) {ls : List Label}
    {s : Sys c} (hrun : Lts.exec step (Sys.init g) ls = some s)
    (hall : Lts.AllSteps step Orderly (Sys.init g) ls) :
    Lts.AllSteps step (fun s l => Fair s l ∧ Undisturbed s l) (Sys.init g) ls ∧
      (∀ i, s.mem.used i = true ↔ (∃ p name, s.holds p = some (name, i)) ∨ 0 < s.refs i) ∧
      (∀ i, (s.mem.objects i).count.toNat = s.refs i) ∧
      (∀ p name i, s.holds p = some (name, i) →
        s.refs i = 0 ∧ (s.mem.objects i).tname = truncName name) ∧
      (∀ name, findByName s.mem name = findAnywhere s.mem name) ∧
      (s.Quiet → (∀ i, s.mem.used i = false) ∧ s.mem.objectsMaxIndex = 0) := by
  have h : Settled s := settled_exec hg hrun hall
  refine ⟨?_, h.used_iff, h.counted, ?_, h.tight.findByName_eq_findAnywhere, h.empty⟩
  · apply Lts.allSteps_of_invariant (I := Settled) _ _ (settled_init hg) hall
    · intro s l s' h hl hs
      exact settled_step h hl hs
    · intro s l h hl
      exact ⟨h.fair hl, h.undisturbed hl⟩
  · intro p name i hp
    exact ⟨(h.refs_zero hp).2, h.kept.named p name i hp⟩

/-- A creation that fails, one that succeeds, two attachers, of which one maps the creator's
segment, and all detaches. -/
theorem orderly_accounted_two :
    let ls : List Label := [.reserve (.ofBytes [65]), .reserve (.ofBytes [66]),
      .create 0 .failed, .create 1 (.ok (some 7)), .record 1, .publish 1, .abort 0,
      .lookup (.ofBytes [66]), .lookup (.ofBytes [66]), .attach 3 .failed,
      .attach 2 (.ok (some 7)), .detach 0, .drop 3, .detach 1]
    ∃ s : Sys .two, Lts.exec step (Sys.init (.zero .two)) ls = some s ∧
      (∀ i, s.mem.used i = false) ∧ s.mem.objectsMaxIndex = 0 := by
  intro ls
  have hrun : (Lts.exec step (Sys.init (.zero .two)) ls).map (fun s => decide s.Quiet) =
      some true := by decide
  obtain ⟨s, hs, hquiet⟩ := Option.map_eq_some_iff.mp hrun
  have h := orderly_accounted (.zero .two) rfl hs (by decide)
  exact ⟨s, hs, h.2.2.2.2.2 (of_decide_eq_true hquiet)⟩

end Urt.Protocol
