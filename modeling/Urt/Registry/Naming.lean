import Urt.Registry.FreeName
import Urt.Registry.Index

/-!
# Runs of `urt_get_free_name`

Processes take free names, register names and release them, in any order. `Naming` is the
registry with a record of the names that `urt_get_free_name` has returned: which of them are
still only held, and which are borne by the slot they were registered in.

`namingStep_cases` says what a step can do: give a name, register one, or neither. In the last
case counter and names stay as they are, and slots stay within `objects_max_index`. `CountsTo`
is the invariant of the counter.
-/

namespace Urt

variable {c : Config}

/-! ## The registry and the names it has given -/

/-- The registry and the names that `urt_get_free_name` has returned. -/
structure Naming (c : Config) where
  mem : Internal c
  /-- all names returned so far -/
  handed : List (List UInt8)
  /-- those that have not been registered since -/
  held : List (List UInt8)
  /-- those that have been registered since, in the given slots, and not released -/
  borne : List (List UInt8 × Slot c)

/-- What a process may do to the registry. -/
inductive NameCall (c : Config) where
  | getFree (rounds : Nat) (name : CString)
  | registry (l : Section c)
  | recover (sysInit semGet memGet : Bool)
  | init
  /-- a creator fills in its slot, outside the lock -/
  | record (i : Slot c) (type : UInt8) (hasBookkeeping : Bool) (size : UInt64)

namespace Naming

/-- The registry as it was initialised, with no name returned yet. -/
def start (g : Internal c) : Naming c :=
  { mem := (registryInit g).2, handed := [], held := [], borne := [] }

/-- The registry has changed: names whose slots are free now are released. -/
def settle (s : Naming c) (g : Internal c) : Naming c :=
  { s with mem := g, borne := s.borne.filter fun b => g.used b.2 }

/-- A name was returned. -/
def give (s : Naming c) (name : CString) (g : Internal c) : Naming c :=
  { s with mem := g, handed := truncName name :: s.handed, held := truncName name :: s.held }

/-- A name was registered in a slot; if it was held, it is borne now. -/
def register (s : Naming c) (name : CString) (i : Slot c) (g : Internal c) : Naming c :=
  if truncName name ∈ s.held then
    { mem := g, handed := s.handed, held := s.held.filter (· != truncName name),
      borne := (truncName name, i) :: s.borne }
  else { s with mem := g }

end Naming

open Naming

/-- One call; `none` if it does not return. -/
def namingStep (s : Naming c) : NameCall c → Option (Naming c)
  | .getFree rounds name =>
      match getFreeName rounds s.mem name with
      | none => none
      | some (some _, _, g) => some (s.settle g)
      | some (none, name, g) => some (s.give name g)
  | .registry (.reserve name) =>
      match reserveName s.mem name with
      | (.error _, g) => some (s.settle g)
      | (.ok i, g) => some (s.register name i g)
  | .registry l => (sectionStep s.mem l).map s.settle
  | .recover sysInit semGet memGet => some (s.settle (recover sysInit semGet memGet s.mem))
  | .init => some (s.settle (registryInit s.mem).2)
  | .record i type hasBookkeeping size =>
      some (s.settle (s.mem.setObject i
        { s.mem.objects i with type := type, hasBookkeeping := hasBookkeeping, size := size }))

/-! ## What a step leaves alone -/

/-- Neither the counter nor the name stored in any slot has changed. -/
structure Internal.SameNames (g g' : Internal c) : Prop where
  nextFreeName : g'.nextFreeName = g.nextFreeName
  namesExhausted : g'.namesExhausted = g.namesExhausted
  initialized : g'.initialized = g.initialized
  tname : ∀ i, (g'.objects i).tname = (g.objects i).tname

theorem Internal.SameNames.refl (g : Internal c) : g.SameNames g := ⟨rfl, rfl, rfl, fun _ => rfl⟩

theorem Internal.SameNames.trans {g g' g'' : Internal c} (h : g.SameNames g')
    (h' : g'.SameNames g'') : g.SameNames g'' where
  nextFreeName := h'.nextFreeName.trans h.nextFreeName
  namesExhausted := h'.namesExhausted.trans h.namesExhausted
  initialized := h'.initialized.trans h.initialized
  tname i := (h'.tname i).trans (h.tname i)

/-- Writing an object under the same name. -/
theorem Internal.SameNames.setObject (g : Internal c) {i : Slot c} {o : RegisteredObject}
    (h : o.tname = (g.objects i).tname) : g.SameNames (g.setObject i o) := by
  refine ⟨rfl, rfl, rfl, fun j => ?_⟩
  rw [Internal.setObject_objects]
  by_cases hj : j = i
  · subst hj
    rw [Function.update_self, h]
  · rw [Function.update_of_ne hj]

theorem decCount_sameNames (g : Internal c) (i : Slot c) : g.SameNames (decCount g i) := by
  refine (Internal.SameNames.setObject g (RegisteredObject.dec_tname (g.objects i))).trans ?_
  have hobjects := decCount_objects g i
  refine ⟨?_, ?_, ?_, fun j => by rw [hobjects, Internal.setObject_objects]⟩
  all_goals
    unfold decCount decCountCommon internalMemCheck
    dsimp only
    repeat' split
    all_goals rfl

/-- Slots that are in use were in use before, and are still within the index if they were. -/
def Internal.Releases (g g' : Internal c) : Prop :=
  ∀ i, g'.used i = true →
    g.used i = true ∧ (i.val ≤ g.objectsMaxIndex → i.val ≤ g'.objectsMaxIndex)

theorem decCount_releases (g : Internal c) (i : Slot c) : g.Releases (decCount g i) :=
  fun _ hj => ⟨used_of_decCount_used hj, fun hle => le_index_decCount hle hj⟩

theorem clearLoop_releases {k : Nat} {g g' : Internal c} {i : Slot c}
    (h : clearLoop k g i = some g') : g.SameNames g' ∧ g.Releases g' := by
  induction k generalizing g with
  | zero => cases h
  | succ k ih =>
    unfold clearLoop at h
    dsimp only at h
    split at h
    · obtain ⟨hnames, hrel⟩ := ih h
      refine ⟨(decCount_sameNames g i).trans hnames, fun j hj => ?_⟩
      obtain ⟨hused, hle⟩ := hrel j hj
      obtain ⟨hused', hle'⟩ := decCount_releases g i j hused
      exact ⟨hused', fun h => hle (hle' h)⟩
    · cases h
      exact ⟨decCount_sameNames g i, decCount_releases g i⟩

/-- No reference is counted to a slot above `objects_max_index`. -/
def WithinIndex (s : Naming c) : NameCall c → Prop
  | .registry (.inc i) => i.val ≤ s.mem.objectsMaxIndex
  | _ => True

instance (s : Naming c) (l : NameCall c) : Decidable (WithinIndex s l) :=
  match l with
  | .registry (.inc i) => inferInstanceAs (Decidable (i.val ≤ s.mem.objectsMaxIndex))
  | .registry (.reserve _) | .registry (.dec _) | .registry (.lookup _) |
    .registry (.forceClear _) | .getFree _ _ | .recover _ _ _ | .init | .record _ _ _ _ =>
      inferInstanceAs (Decidable True)

/-- The registry `g` after a step that neither gives nor registers a name. -/
structure Naming.Quiet (s : Naming c) (g : Internal c) : Prop where
  sameNames : s.mem.SameNames g
  /-- slots in use stay within the index -/
  index : ∀ i, g.used i = true → i.val ≤ s.mem.objectsMaxIndex → i.val ≤ g.objectsMaxIndex

/-- Slots that are in use were in use before or are within the index. -/
def Naming.Takes (s : Naming c) (g : Internal c) : Prop :=
  ∀ i, g.used i = true → s.mem.used i = true ∨ i.val ≤ s.mem.objectsMaxIndex

theorem Naming.quiet_of_releases {s : Naming c} {g : Internal c} (hn : s.mem.SameNames g)
    (hr : s.mem.Releases g) : s.Quiet g ∧ s.Takes g :=
  ⟨⟨hn, fun i hi => (hr i hi).2⟩, fun i hi => .inl (hr i hi).1⟩

theorem Naming.quiet_refl (s : Naming c) : s.Quiet s.mem ∧ s.Takes s.mem :=
  s.quiet_of_releases (.refl _) fun _ hi => ⟨hi, id⟩

theorem Naming.quiet_incNameCount (s : Naming c) (i : Slot c) :
    s.Quiet (incNameCount s.mem i) ∧
      (i.val ≤ s.mem.objectsMaxIndex → s.Takes (incNameCount s.mem i)) := by
  refine ⟨⟨.setObject _ (RegisteredObject.inc_tname _), fun _ _ => id⟩, fun hle j hj => ?_⟩
  by_cases hji : j = i
  · exact .inr (hji ▸ hle)
  · rw [incNameCount, Internal.used_setObject, Function.update_of_ne hji] at hj
    exact .inl hj

/-- Every critical section but `urt_reserve_name` is quiet. -/
theorem sectionStep_quiet {s : Naming c} {g : Internal c} {l : Section c}
    (hl : ∀ name, l ≠ .reserve name) (h : sectionStep s.mem l = some g) :
    s.Quiet g ∧ (WithinIndex s (.registry l) → s.Takes g) := by
  rcases sectionStep_cases h with rfl | ⟨name, _, rfl, -⟩ | ⟨i, hl', rfl⟩ | ⟨i, -, rfl⟩ |
    ⟨_, i, k, -, -, hloop⟩
  · exact ⟨s.quiet_refl.1, fun _ => s.quiet_refl.2⟩
  · exact absurd rfl (hl name)
  · obtain ⟨hquiet, htakes⟩ := s.quiet_incNameCount i
    refine ⟨hquiet, fun hw => htakes ?_⟩
    rcases hl' with rfl | ⟨name, rfl, hfind⟩
    · exact hw
    · exact (findByName_some hfind).2.2
  · obtain ⟨hquiet, htakes⟩ :=
      s.quiet_of_releases (decCount_sameNames s.mem i) (decCount_releases s.mem i)
    exact ⟨hquiet, fun _ => htakes⟩
  · obtain ⟨hnames, hrel⟩ := clearLoop_releases hloop
    obtain ⟨hquiet, htakes⟩ := s.quiet_of_releases hnames hrel
    exact ⟨hquiet, fun _ => htakes⟩

theorem Naming.quiet_recover (s : Naming c) (sysInit semGet memGet : Bool) :
    s.Quiet (recover sysInit semGet memGet s.mem) ∧
      s.Takes (recover sysInit semGet memGet s.mem) := by
  unfold recover
  split
  · exact s.quiet_refl
  · split
    · exact s.quiet_refl
    · split
      · exact s.quiet_refl
      · exact s.quiet_of_releases ⟨rfl, rfl, rfl, fun _ => rfl⟩ fun i hi =>
          ⟨hi, fun _ => (recoverIndex_tight s.mem).le_index hi⟩

/-- The name of number `n + k` is where a search from number `n` ends. -/
def SearchEnds (g : Internal c) (n k : Nat) : Prop :=
  if g.namesExhausted then
    findByName g (freeName (n + k)).str = none ∧
      ∀ k' < k, findByName g (freeName (n + k')).str ≠ none
  else k = 0

/-- What a step does: a name is given, a name is registered, or neither. -/
theorem namingStep_cases {s s' : Naming c} {l : NameCall c} {n : Nat}
    (hnext : s.mem.nextFreeName = freeName n) (hinit : s.mem.initialized = true)
    (h : namingStep s l = some s') :
    (∃ rounds name buf k, l = .getFree rounds name ∧
      truncName buf = truncName (freeName (n + k)).str ∧ SearchEnds s.mem n k ∧
      s' = s.give buf
        { s.mem with
          nextFreeName := freeName (n + k + 1)
          namesExhausted := s.mem.namesExhausted || decide (freeNames ∣ n + 1) }) ∨
    (∃ name i, l = .registry (.reserve name) ∧ findByName s.mem name = none ∧
      findFree s.mem = some i ∧ s' = s.register name i (reserved s.mem i name)) ∨
    ∃ g, s' = s.settle g ∧ s.Quiet g ∧ (WithinIndex s l → s.Takes g) := by
  cases l with
  | getFree rounds name =>
    rw [namingStep] at h
    cases hget : getFreeName rounds s.mem name with
    | none =>
      rw [hget] at h
      cases h
    | some r =>
      obtain ⟨err, buf, g⟩ := r
      obtain ⟨rfl, k, hbuf, hfinds, rfl⟩ := getFreeName_cases hnext hget
      rw [hget] at h
      cases h
      exact .inl ⟨rounds, name, buf, k, rfl, hbuf, hfinds, rfl⟩
  | registry l =>
    by_cases hl : ∀ name, l ≠ .reserve name
    · have hsection : (sectionStep s.mem l).map s.settle = some s' := by
        cases l with
        | reserve name => exact absurd rfl (hl name)
        | _ => exact h
      obtain ⟨g, hg, rfl⟩ := Option.map_eq_some_iff.mp hsection
      exact .inr (.inr ⟨g, rfl, sectionStep_quiet hl hg⟩)
    · rw [not_forall_not] at hl
      obtain ⟨name, rfl⟩ := hl
      rw [namingStep] at h
      rcases reserveName_cases s.mem name with ⟨i, -, he⟩ | ⟨-, -, he⟩ | ⟨i, hfind, hfree, he⟩
      · rw [he] at h
        cases h
        exact .inr (.inr ⟨s.mem, rfl, s.quiet_refl.1, fun _ => s.quiet_refl.2⟩)
      · rw [he] at h
        cases h
        exact .inr (.inr ⟨s.mem, rfl, s.quiet_refl.1, fun _ => s.quiet_refl.2⟩)
      · rw [he] at h
        cases h
        exact .inr (.inl ⟨name, i, rfl, hfind, hfree, rfl⟩)
  | recover sysInit semGet memGet =>
    cases h
    obtain ⟨hquiet, htakes⟩ := s.quiet_recover sysInit semGet memGet
    exact .inr (.inr ⟨_, rfl, hquiet, fun _ => htakes⟩)
  | init =>
    have hsame : (registryInit s.mem).2 = s.mem := by rw [registryInit, if_pos hinit]
    rw [namingStep, hsame] at h
    cases h
    exact .inr (.inr ⟨s.mem, rfl, s.quiet_refl.1, fun _ => s.quiet_refl.2⟩)
  | record i type hasBookkeeping size =>
    cases h
    obtain ⟨hquiet, htakes⟩ := s.quiet_of_releases
      (.setObject s.mem (i := i) (o := { s.mem.objects i with
        type := type, hasBookkeeping := hasBookkeeping, size := size }) rfl) fun j hj => by
          refine ⟨?_, id⟩
          rw [Internal.used_setObject] at hj
          by_cases hji : j = i
          · subst hji
            rwa [Function.update_self] at hj
          · rwa [Function.update_of_ne hji] at hj
    exact .inr (.inr ⟨_, rfl, hquiet, fun _ => htakes⟩)

/-! ## The counter -/

/-- The counter is at number `n`, and until it wraps round it has given smaller numbers only. -/
structure Naming.CountsTo (s : Naming c) (n : Nat) : Prop where
  next : s.mem.nextFreeName = freeName n
  initialized : s.mem.initialized = true
  below : s.mem.namesExhausted = false → n < freeNames ∧
    ∀ name ∈ s.handed, ∃ j < n, name = truncName (freeName j).str

theorem countsTo_start {g : Internal c} (h : g.initialized = false) : (start g).CountsTo 0 := by
  unfold start registryInit
  rw [h]
  refine ⟨?_, rfl, fun _ => ⟨by decide, fun _ hn => absurd hn List.not_mem_nil⟩⟩
  exact firstFreeName_eq

@[simp] theorem Naming.settle_mem (s : Naming c) (g : Internal c) : (s.settle g).mem = g := rfl
@[simp] theorem Naming.settle_handed (s : Naming c) (g : Internal c) :
    (s.settle g).handed = s.handed := rfl
@[simp] theorem Naming.settle_held (s : Naming c) (g : Internal c) :
    (s.settle g).held = s.held := rfl

@[simp] theorem Naming.register_mem (s : Naming c) (name : CString) (i : Slot c)
    (g : Internal c) : (s.register name i g).mem = g := by
  unfold register
  split <;> rfl

@[simp] theorem Naming.register_handed (s : Naming c) (name : CString) (i : Slot c)
    (g : Internal c) : (s.register name i g).handed = s.handed := by
  unfold register
  split <;> rfl

theorem Naming.CountsTo.step {s s' : Naming c} {l : NameCall c} {n : Nat} (h : s.CountsTo n)
    (hs : namingStep s l = some s') : ∃ n', s'.CountsTo n' := by
  rcases namingStep_cases h.next h.initialized hs with
    ⟨rounds, name, buf, k, -, hbuf, hfinds, rfl⟩ | ⟨name, i, -, -, -, rfl⟩ | ⟨g, rfl, hq, -⟩
  · refine ⟨n + k + 1, rfl, h.initialized, fun hex => ?_⟩
    obtain ⟨hex, hwrap⟩ := Bool.or_eq_false_iff.mp hex
    obtain ⟨hlt, hgiven⟩ := h.below hex
    rw [SearchEnds, hex, if_neg Bool.false_ne_true] at hfinds
    subst hfinds
    -- the counter has not reached the last number yet
    have hne : n + 1 ≠ freeNames := by
      intro he
      rw [he] at hwrap
      exact of_decide_eq_false hwrap (dvd_refl _)
    refine ⟨by omega, fun given hg => ?_⟩
    rcases List.mem_cons.mp hg with rfl | hg
    · exact ⟨n, by omega, hbuf⟩
    · obtain ⟨j, hj, he⟩ := hgiven given hg
      exact ⟨j, by omega, he⟩
  · refine ⟨n, ?_, ?_, ?_⟩
    · rw [register_mem]
      exact h.next
    · rw [register_mem]
      exact h.initialized
    · rw [register_mem, register_handed]
      exact h.below
  · exact ⟨n, hq.sameNames.nextFreeName.trans h.next,
      hq.sameNames.initialized.trans h.initialized, fun hex =>
        h.below (hq.sameNames.namesExhausted.symm.trans hex)⟩

/-- Before the counter has wrapped round, the name it is at has not been given. -/
theorem Naming.CountsTo.not_handed {s : Naming c} {n : Nat} (h : s.CountsTo n)
    (hex : s.mem.namesExhausted = false) : truncName (freeName n).str ∉ s.handed := by
  intro hmem
  obtain ⟨hlt, hgiven⟩ := h.below hex
  obtain ⟨j, hj, he⟩ := hgiven _ hmem
  have := truncName_freeName_injective hlt (by omega) he
  omega

theorem namingStep_getFree {s : Naming c} {n : Nat} (hnext : s.mem.nextFreeName = freeName n)
    (hfree : s.mem.namesExhausted = true → findByName s.mem (freeName n).str = none)
    (rounds : Nat) (name : CString) :
    ∃ s', namingStep s (.getFree (rounds + 1) name) = some s' ∧
      s'.mem = { s.mem with
        nextFreeName := freeName (n + 1)
        namesExhausted := s.mem.namesExhausted || decide (freeNames ∣ n + 1) } ∧
      s'.held = truncName (freeName n).str :: s.held := by
  refine ⟨s.give (strncpy name (freeName n).str nameLen) _, ?_, rfl, ?_⟩
  · rw [namingStep, getFreeName_counter hnext hfree]
  · rw [give, truncName_strncpy]

/-- Calls of `urt_get_free_name` until the counter wraps round: it is back at the first name, and
the name it started with has been given. -/
theorem exec_getFree_cycle {k n : Nat} {s : Naming c} (hnext : s.mem.nextFreeName = freeName n)
    (hex : s.mem.namesExhausted = false) (hk : n + (k + 1) = freeNames) (name : CString) :
    ∃ s', Lts.exec namingStep s (List.replicate (k + 1) (.getFree 1 name)) = some s' ∧
      s'.mem = { s.mem with nextFreeName := freeName 0, namesExhausted := true } ∧
      truncName (freeName n).str ∈ s'.held ∧ ∀ given ∈ s.held, given ∈ s'.held := by
  induction k generalizing s n with
  | zero =>
    obtain ⟨s₁, hs₁, hmem, hheld⟩ :=
      namingStep_getFree hnext (fun h => absurd (hex.symm.trans h) Bool.false_ne_true) 0 name
    have hlast : decide (freeNames ∣ n + 1) = true := decide_eq_true ⟨1, by omega⟩
    have hfirst : freeName (n + 1) = freeName 0 := by
      rw [← freeName_mod, hk, Nat.mod_self]
    refine ⟨s₁, ?_, ?_, ?_, ?_⟩
    · rw [List.replicate_one, Lts.exec_cons hs₁]
      rfl
    · rw [hmem, hlast, hfirst, Bool.or_true]
    · rw [hheld]
      exact List.mem_cons_self
    · intro given hg
      rw [hheld]
      exact List.mem_cons_of_mem _ hg
  | succ k ih =>
    obtain ⟨s₁, hs₁, hmem, hheld⟩ :=
      namingStep_getFree hnext (fun h => absurd (hex.symm.trans h) Bool.false_ne_true) 0 name
    have hmore : decide (freeNames ∣ n + 1) = false := by
      refine decide_eq_false fun hdvd => ?_
      have := Nat.le_of_dvd (by omega) hdvd
      omega
    rw [hmore, hex] at hmem
    obtain ⟨s', hrun, hmem', -, hheld'⟩ := ih (s := s₁) (n := n + 1) (by rw [hmem])
      (by rw [hmem]; rfl) (by omega)
    refine ⟨s', ?_, ?_, ?_, ?_⟩
    · rw [List.replicate_succ, Lts.exec_cons hs₁]
      exact hrun
    · rw [hmem', hmem]
    · apply hheld'
      rw [hheld]
      exact List.mem_cons_self
    · intro given hg
      apply hheld'
      rw [hheld]
      exact List.mem_cons_of_mem _ hg

end Urt
