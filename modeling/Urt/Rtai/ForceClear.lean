import Urt.Registry.Tools
import Urt.Rtai.Lifetime

/-!
# Clearing names on RTAI

`urt_force_clear_name` deletes the object of a name however many users it has, and frees its
slot. It is what `tools/clear` runs on its arguments, to clean up after processes that are
gone. In user space an object is deleted once for every user, as the kind that its slot records;
a creator killed before it has recorded the kind leaves its object to RTAI. In kernel space
objects of all kinds are deleted at once.

`Cleared` says what clearing a set of slots leaves: those slots free and their objects gone,
everything else as it was. Clearing one name after another adds up (`Cleared.trans`).
-/

namespace Urt.Rtai

variable {c : Config} {σ : Type} (R : Services σ)

/-! ## The functions -/

/-- `urt_force_clear_name`, where `sysClear` is `urt_sys_force_clear_name`. -/
def forceClear (sysClear : RegisteredObject → σ → Option σ) (name : CString) (w : World c σ) :
    Option (World c σ) :=
  match forceClearName (fun ro os => os.bind (sysClear ro)) w.mem name (some w.os) with
  | some (g, some os) => some { w with mem := g, os := os }
  | some (_, none) => none
  | none => none

/-! ## One object -/

variable (table : σ → Nat → Option Entry)

/-- The slot records the kind of the object. -/
def KindRecorded (ro : RegisteredObject) (e : Entry) : Prop :=
  ∃ k : Kind, ro.type = k.type ∧ e.made.shape = shape k

/-- What clearing the object of a slot does, if RTAI has one that `fits` the slot. -/
def Clears (sysClear : RegisteredObject → σ → Option σ) (rounds : Nat)
    (fits : RegisteredObject → Entry → Prop) : Prop :=
  ∀ ro os, (∀ e, table os (R.nam2num ro.name.str) = some e → e.users < rounds ∧ fits ro e) →
    ∃ os', sysClear ro os = some os' ∧
      table os' = Function.update (table os) (R.nam2num ro.name.str) none

variable {R} {table} (law : Lawful R table)

include law

/-- A loop that takes one user in every round ends when no user is left. -/
theorem clearNamed_spec {num : Nat} {free : Nat → σ → σ} {sh : Shape}
    (hfree : ∀ {os e}, table os num = some e → e.made.shape = sh →
      table (free e.adr os) = Function.update (table os) num e.less)
    {rounds : Nat} (hpos : 0 < rounds) {os : σ}
    (he : ∀ e, table os num = some e → e.users < rounds ∧ e.made.shape = sh) :
    ∃ os', clearNamed R num free rounds os = some os' ∧
      table os' = Function.update (table os) num none := by
  induction rounds generalizing os with
  | zero => exact absurd hpos (Nat.lt_irrefl 0)
  | succ k ih =>
    rw [clearNamed, law.getAdr_eq]
    cases htable : table os num with
    | none =>
      refine ⟨os, rfl, ?_⟩
      rw [← htable, Function.update_eq_self]
    | some e =>
      obtain ⟨husers, hshape⟩ := he e htable
      have husers_pos := law.users_pos htable
      have hstep := hfree htable hshape
      have hnext : ∀ e', table (free e.adr os) num = some e' →
          e'.users < k ∧ e'.made.shape = sh := by
        intro e' he'
        rw [hstep, Function.update_self, Entry.less] at he'
        split at he'
        · cases he'
        · cases he'
          refine ⟨?_, hshape⟩
          dsimp only
          omega
      obtain ⟨os', hrun, hos'⟩ := ih (by omega) hnext
      refine ⟨os', hrun, ?_⟩
      rw [hos', hstep, Function.update_idem]

/-- In user space every kind of object is cleared, in one round more than it has users. -/
theorem sysForceClearName_clears {rounds : Nat} (hpos : 0 < rounds) :
    Clears R table (sysForceClearName R rounds) rounds KindRecorded := by
  intro ro os he
  cases htable : table os (R.nam2num ro.name.str) with
  | none =>
    have hnone : ∀ free, clearNamed R (R.nam2num ro.name.str) free rounds os = some os := by
      intro free
      obtain ⟨k, rfl⟩ := Nat.exists_eq_add_of_lt hpos
      rw [Nat.zero_add, clearNamed, law.getAdr_eq, htable]
      rfl
    refine ⟨os, ?_, ?_⟩
    · unfold sysForceClearName
      dsimp only
      split <;> first | exact hnone _ | rfl
    · rw [← htable, Function.update_eq_self]
  | some e =>
    obtain ⟨husers, k, hk, hshape⟩ := he e htable
    have hall : ∀ e', table os (R.nam2num ro.name.str) = some e' →
        e'.users < rounds ∧ e'.made.shape = shape k := by
      intro e' he'
      rw [htable] at he'
      cases he'
      exact ⟨husers, hshape⟩
    unfold sysForceClearName
    rw [hk, Kind.ofType?_type]
    cases k with
    | mem =>
      apply clearNamed_spec law _ hpos hall
      intro os e he hs
      rw [law.shmFree, he]
      · rfl
      · intro e' he'
        rw [he] at he'
        cases he'
        exact hs
    | sem | mutex | cond => exact clearNamed_spec law law.semDelete hpos hall
    | rwlock => exact clearNamed_spec law law.rwlDelete hpos hall

/-- In kernel space the first round takes the object away. -/
theorem kernSysForceClearName_clears {rounds : Nat} (hpos : 0 < rounds) :
    Clears R table (kernSysForceClearName R rounds) rounds fun _ _ => True := by
  intro ro os he
  unfold kernSysForceClearName
  dsimp only
  obtain ⟨k, rfl⟩ := Nat.exists_eq_add_of_lt hpos
  rw [Nat.zero_add, clearNamed, law.getAdr_eq]
  cases htable : table os (R.nam2num ro.name.str) with
  | none =>
    refine ⟨os, rfl, ?_⟩
    rw [← htable, Function.update_eq_self]
  | some e =>
    have husers := (he e htable).1
    have husers_pos := law.users_pos htable
    have hdrg := law.drgOnName (R.nam2num ro.name.str) os
    obtain ⟨j, rfl⟩ : ∃ j, k = j + 1 := Nat.exists_eq_succ_of_ne_zero (by omega)
    refine ⟨_, ?_, hdrg⟩
    rw [clearNamed, law.getAdr_eq, hdrg, Function.update_self]
    rfl

omit law

/-! ## Any number of objects -/

section Worlds

variable (R) (table)

/-- The number of the name of slot `i`. -/
def World.num (w : World c σ) (i : Slot c) : Nat := R.nam2num (w.mem.objects i).name.str

/-- What clearing relies on: the index covers all slots in use, slots in use together have
different numbers, and an object belongs to a slot. -/
structure Clearable (w : World c σ) : Prop where
  tight : w.mem.Tight
  distinct : ∀ i j, w.mem.used i = true → w.mem.used j = true → w.num R i = w.num R j → i = j
  owned : ∀ n e, table w.os n = some e → ∃ i, w.mem.used i = true ∧ w.num R i = n

/-- The slots in `P` are free and their objects gone; everything else is as it was. -/
structure Cleared (P : Slot c → Prop) (w w' : World c σ) : Prop where
  gone : ∀ i, P i → w'.mem.used i = false
  others : ∀ i, ¬ P i → w'.mem.objects i = w.mem.objects i
  tight : w'.mem.Tight
  deleted : ∀ i, P i → table w'.os (w.num R i) = none
  kept : ∀ n, (∀ i, P i → w.num R i ≠ n) → table w'.os n = table w.os n
  word : w'.word = w.word

/-- The slots in use that a name finds. -/
def Named (w : World c σ) (name : CString) (i : Slot c) : Prop :=
  w.mem.used i = true ∧ (w.mem.objects i).tname = truncName name

variable {R} {table} {w w' w'' : World c σ} {P Q : Slot c → Prop}

namespace Cleared

theorem refl (htight : w.mem.Tight) : Cleared R table (fun _ => False) w w where
  gone _ h := h.elim
  others _ _ := rfl
  tight := htight
  deleted _ h := h.elim
  kept _ _ := rfl
  word := rfl

theorem congr (h : Cleared R table P w w') (hPQ : ∀ i, P i ↔ Q i) : Cleared R table Q w w' := by
  obtain rfl : P = Q := funext fun i => propext (hPQ i)
  exact h

theorem used_iff (h : Cleared R table P w w') (i : Slot c) :
    w'.mem.used i = true ↔ w.mem.used i = true ∧ ¬ P i := by
  by_cases hP : P i
  · simp [h.gone i hP, hP]
  · simp [Internal.used, h.others i hP, hP]

/-- Slots that are still in use are the same slots. -/
theorem objects_eq (h : Cleared R table P w w') {i : Slot c} (hi : w'.mem.used i = true) :
    w'.mem.objects i = w.mem.objects i := h.others i ((h.used_iff i).mp hi).2

theorem num_eq (h : Cleared R table P w w') {i : Slot c} (hi : w'.mem.used i = true) :
    w'.num R i = w.num R i := by
  rw [World.num, World.num, h.objects_eq hi]

theorem table_eq (h : Cleared R table P w w') (hw : Clearable R table w)
    (hP : ∀ i, P i → w.mem.used i = true) {i : Slot c} (hi : w'.mem.used i = true) :
    table w'.os (w.num R i) = table w.os (w.num R i) := by
  obtain ⟨hu, hnot⟩ := (h.used_iff i).mp hi
  apply h.kept
  intro j hj hn
  rw [hw.distinct j i (hP j hj) hu hn] at hj
  exact hnot hj

theorem clearable (h : Cleared R table P w w') (hw : Clearable R table w) :
    Clearable R table w' where
  tight := h.tight
  distinct i j hi hj hij := by
    rw [h.num_eq hi, h.num_eq hj] at hij
    exact hw.distinct i j ((h.used_iff i).mp hi).1 ((h.used_iff j).mp hj).1 hij
  owned n e he := by
    have hn : ∀ i, P i → w.num R i ≠ n := by
      rintro i hi rfl
      rw [h.deleted i hi] at he
      cases he
    rw [h.kept n hn] at he
    obtain ⟨i, hi, hin⟩ := hw.owned n e he
    have hi' : w'.mem.used i = true := (h.used_iff i).mpr ⟨hi, fun hPi => hn i hPi hin⟩
    exact ⟨i, hi', (h.num_eq hi').trans hin⟩

/-- Clearing adds up. -/
theorem trans (h : Cleared R table P w w') (h' : Cleared R table Q w' w'')
    (hQ : ∀ i, Q i → w'.mem.used i = true) : Cleared R table (fun i => P i ∨ Q i) w w'' where
  gone i hi := by
    by_cases hq : Q i
    · exact h'.gone i hq
    · rw [Internal.used, h'.others i hq]
      exact h.gone i (hi.resolve_right hq)
  others i hi := by
    rw [not_or] at hi
    rw [h'.others i hi.2, h.others i hi.1]
  tight := h'.tight
  deleted i hi := by
    by_cases hn : ∃ j, Q j ∧ w'.num R j = w.num R i
    · obtain ⟨j, hj, hji⟩ := hn
      rw [← hji]
      exact h'.deleted j hj
    · rw [not_exists] at hn
      rw [h'.kept _ fun j hj hji => hn j ⟨hj, hji⟩]
      refine h.deleted i (hi.resolve_right fun hq => hn i ⟨hq, ?_⟩)
      exact h.num_eq (hQ i hq)
  kept n hn := by
    rw [h'.kept n, h.kept n fun i hi => hn i (.inl hi)]
    intro i hi hin
    rw [h.num_eq (hQ i hi)] at hin
    exact hn i (.inr hi) hin
  word := h'.word.trans h.word

/-- What is left of the slots that a name finds. -/
theorem named_iff (h : Cleared R table P w w') (name : CString) (i : Slot c) :
    Named w' name i ↔ Named w name i ∧ ¬ P i := by
  unfold Named
  rw [h.used_iff]
  constructor
  · rintro ⟨⟨hu, hP⟩, ht⟩
    rw [h.others i hP] at ht
    exact ⟨⟨hu, ht⟩, hP⟩
  · rintro ⟨⟨hu, ht⟩, hP⟩
    rw [h.others i hP]
    exact ⟨⟨hu, hP⟩, ht⟩

end Cleared

/-- Every object has fewer users than there are rounds. -/
def FewUsers (table : σ → Nat → Option Entry) (rounds : Nat) (os : σ) : Prop :=
  ∀ n e, table os n = some e → e.users < rounds

theorem Cleared.fewUsers (h : Cleared R table P w w') {rounds : Nat}
    (hfew : FewUsers table rounds w.os) : FewUsers table rounds w'.os := by
  intro n e he
  by_cases hn : ∃ i, P i ∧ w.num R i = n
  · obtain ⟨i, hi, rfl⟩ := hn
    rw [h.deleted i hi] at he
    cases he
  · rw [not_exists] at hn
    rw [h.kept n fun i hi hin => hn i ⟨hi, hin⟩] at he
    exact hfew n e he

variable (law : Lawful R table) {sysClear : RegisteredObject → σ → Option σ} {rounds : Nat}
  {fits : RegisteredObject → Entry → Prop} (hsys : Clears R table sysClear rounds fits)

include law hsys

/-- `urt_force_clear_name` clears the slot that the name finds. -/
theorem forceClear_cleared (hw : Clearable R table w) (hfew : FewUsers table rounds w.os)
    (name : CString) (hfits : ∀ i e, Named w name i → table w.os (w.num R i) = some e →
      fits (w.mem.objects i) e) :
    ∃ w', forceClear sysClear name w = some w' ∧ Cleared R table (Named w name) w w' := by
  unfold forceClear forceClearName
  cases hfind : findByName w.mem name with
  | none =>
    refine ⟨w, rfl, (Cleared.refl hw.tight).congr fun i => ?_⟩
    rw [false_iff]
    rintro ⟨hu, ht⟩
    exact findByName_none hfind (hw.tight.le_index hu) hu ht
  | some i =>
    obtain ⟨hu, ht, -⟩ := findByName_some hfind
    obtain ⟨g', hloop, hother, hfree, -⟩ := clearLoop_spec w.mem i le_rfl
    have htight : g'.Tight := clearLoop_tight hw.tight hloop
    obtain ⟨os', hos, htable⟩ := hsys (w.mem.objects i) w.os fun e he =>
      ⟨hfew _ e he, hfits i e ⟨hu, ht⟩ he⟩
    have hnamed : ∀ j, i = j ↔ Named w name j := by
      intro j
      constructor
      · rintro rfl
        exact ⟨hu, ht⟩
      · rintro ⟨hj, hjt⟩
        exact hw.distinct i j hu hj (law.nam2num_congr (ht.trans hjt.symm))
    refine ⟨{ w with mem := g', os := os' }, ?_, Cleared.congr (P := fun j => i = j) ?_ hnamed⟩
    · simp only [hloop, Option.map_some, Option.bind_some, hos]
    · refine ⟨?_, ?_, htight, ?_, ?_, rfl⟩
      · rintro j rfl
        exact hfree
      · intro j hj
        exact hother j (Ne.symm hj)
      · rintro j rfl
        change table os' _ = none
        rw [htable, World.num, Function.update_self]
      · intro n hn
        change table os' n = _
        rw [htable, Function.update_of_ne]
        exact fun he => hn i rfl he.symm

/-- Clearing names one after another clears the slots that any of them finds. -/
theorem clearNames_cleared (names : List CString) (hw : Clearable R table w)
    (hfew : FewUsers table rounds w.os)
    (hfits : ∀ name ∈ names, ∀ i e, Named w name i → table w.os (w.num R i) = some e →
      fits (w.mem.objects i) e) :
    ∃ w', names.foldlM (fun w name => forceClear sysClear name w) w = some w' ∧
      Cleared R table (fun i => ∃ name ∈ names, Named w name i) w w' := by
  induction names generalizing w with
  | nil => exact ⟨w, rfl, (Cleared.refl hw.tight).congr (by simp)⟩
  | cons name names ih =>
    obtain ⟨u, hu, hfirst⟩ :=
      forceClear_cleared law hsys hw hfew name (hfits name List.mem_cons_self)
    have hfits' : ∀ name' ∈ names, ∀ i e, Named u name' i → table u.os (u.num R i) = some e →
        fits (u.mem.objects i) e := by
      intro name' hname' i e hi he
      rw [hfirst.num_eq hi.1, hfirst.table_eq hw (fun _ hj => hj.1) hi.1] at he
      rw [hfirst.objects_eq hi.1]
      exact hfits name' (List.mem_cons_of_mem _ hname') i e ((hfirst.named_iff name' i).mp hi).1 he
    obtain ⟨w', hw', hrest⟩ :=
      ih (hfirst.clearable hw) (hfirst.fewUsers hfew) hfits'
    refine ⟨w', ?_, (hfirst.trans hrest ?_).congr fun i => ?_⟩
    · rw [List.foldlM_cons, hu]
      exact hw'
    · rintro i ⟨_, -, hi⟩
      exact hi.1
    · simp only [hfirst.named_iff, List.mem_cons, exists_eq_or_imp]
      by_cases hi : Named w name i <;> simp [hi]

end Worlds

/-! ## The tool -/

theorem Agreed.clearable {R : Services σ} {table : σ → Nat → Option Entry} {s : Sys c σ}
    (h : Agreed R table s) : Clearable R table s.world where
  tight := h.tight
  distinct := h.distinct
  owned n e he := by
    obtain ⟨i, hi, hn⟩ := h.owned n e he
    exact ⟨i, used_of_owned h.settled hi, hn⟩

/-- A slot in use records the kind of its object, once its creator has recorded it. -/
theorem Agreed.kindRecorded {R : Services σ} {table : σ → Nat → Option Entry} {s : Sys c σ}
    (h : Agreed R table s) {i : Slot c} {e : Entry} (hi : s.world.mem.used i = true)
    (hrecorded : ¬ s.Unrecorded i) (he : table s.world.os (s.num R i) = some e) :
    KindRecorded (s.world.mem.objects i) e := by
  obtain ⟨j, hj, hn⟩ := h.owned _ e he
  obtain rfl := h.distinct j i (used_of_owned h.settled hj) hi hn
  obtain ⟨k, hk, hentry⟩ := h.entry j (hj.resolve_right hrecorded)
  rw [he] at hentry
  exact ⟨k, hk, hentry.1.shape_eq⟩

/-- A segment has as many users as holders, a lock and what is not recorded yet have one. -/
theorem Agreed.fewUsers {R : Services σ} {table : σ → Nat → Option Entry} {s : Sys c σ}
    (h : Agreed R table s) {rounds : Nat} (hrounds : 1 < rounds)
    (hholders : ∀ i, s.holders i < rounds) : FewUsers table rounds s.world.os := by
  intro n e he
  obtain ⟨i, hi | ⟨k, name, size, adr, hi⟩, rfl⟩ := h.owned n e he
  · obtain ⟨k, -, hentry⟩ := h.entry i hi
    rw [he] at hentry
    have husers : e.users = s.users k i := hentry.2
    have := hholders i
    unfold Sys.users at husers
    split at husers <;> omega
  · obtain ⟨m, -, hentry⟩ := h.made k name size i adr hi
    rw [he] at hentry
    cases hentry
    exact hrounds

/-- **Clearing is exact.** After any regular run the tool comes to an end, in user space as in
kernel space, if its loops may take one round more than an object has holders; in user space, if
no creator of a name it was given is between its call of RTAI and the record of the kind. The
slots it leaves in use are those whose names it was not given; they and their objects are as they
were, and RTAI has no other object. None of the names it was given is taken any more: it is
registered again as soon as a slot is free. -/
theorem rtai_clear_exact {R : Services σ} {table : σ → Nat → Option Entry} (law : Lawful R table)
    {g : Internal c} {os : σ} {word : Nat → Slot c} {ls : List Label} {s : Sys c σ}
    (hg : g.initialized = false) (hos : table os = fun _ => none)
    (hrun : Lts.exec (step R) (Sys.init g os word) ls = some s)
    (hall : Lts.AllSteps (step R) (Regular R) (Sys.init g os word) ls)
    {rounds : Nat} (hrounds : 1 < rounds) (hholders : ∀ i, s.holders i < rounds)
    {sysClear : RegisteredObject → σ → Option σ} (args : List (List UInt8))
    (hsys : (sysClear = sysForceClearName R rounds ∧
        ∀ name ∈ namesOf args, ∀ i, Named s.world name i → ¬ s.Unrecorded i) ∨
      sysClear = kernSysForceClearName R rounds) :
    ∃ w', clearTool (forceClear sysClear) false args s.world = some w' ∧
      (∀ i, w'.mem.used i = true ↔ s.world.mem.used i = true ∧
        ∀ name ∈ namesOf args, (s.world.mem.objects i).tname ≠ truncName name) ∧
      (∀ i, w'.mem.used i = true → w'.mem.objects i = s.world.mem.objects i ∧
        table w'.os (s.num R i) = table s.world.os (s.num R i)) ∧
      (∀ n e, table w'.os n = some e → ∃ i, w'.mem.used i = true ∧ s.num R i = n) ∧
      ∀ name ∈ namesOf args,
        (∃ i, (reserveName w'.mem name).1 = .ok i) ↔ ∃ i, w'.mem.used i = false := by
  have hagreed := agreed_exec law hg hos hrun hall
  have hw : Clearable R table s.world := hagreed.clearable
  have hfew := hagreed.fewUsers hrounds hholders
  have hpos : 0 < rounds := Nat.zero_lt_of_lt hrounds
  obtain ⟨w', hw', hcleared⟩ : ∃ w', (namesOf args).foldlM
      (fun w name => forceClear sysClear name w) s.world = some w' ∧
      Cleared R table (fun i => ∃ name ∈ namesOf args, Named s.world name i) s.world w' := by
    rcases hsys with ⟨rfl, hrecorded⟩ | rfl
    · apply clearNames_cleared law (sysForceClearName_clears law hpos) (namesOf args) hw hfew
      intro name hname i e hi he
      exact hagreed.kindRecorded hi.1 (hrecorded name hname i hi) he
    · apply clearNames_cleared law (kernSysForceClearName_clears law hpos) (namesOf args) hw hfew
      exact fun _ _ _ _ _ _ => trivial
  have hP : ∀ i, (∃ name ∈ namesOf args, Named s.world name i) → s.world.mem.used i = true := by
    rintro i ⟨_, -, hi⟩
    exact hi.1
  have hused : ∀ i, w'.mem.used i = true ↔ s.world.mem.used i = true ∧
      ∀ name ∈ namesOf args, (s.world.mem.objects i).tname ≠ truncName name := by
    intro i
    rw [hcleared.used_iff]
    refine and_congr_right fun hu => ?_
    simp [Named, hu]
  refine ⟨w', (clearTool_eq (forceClear sysClear) args s.world).trans hw', hused, ?_, ?_, ?_⟩
  · exact fun i hi => ⟨hcleared.objects_eq hi, hcleared.table_eq hw hP hi⟩
  · intro n e he
    obtain ⟨i, hi, hn⟩ := (hcleared.clearable hw).owned n e he
    exact ⟨i, hi, (hcleared.num_eq hi).symm.trans hn⟩
  · intro name hname
    have hnone : findByName w'.mem name = none := by
      cases hfind : findByName w'.mem name with
      | none => rfl
      | some i =>
        obtain ⟨hu, ht, -⟩ := findByName_some hfind
        rw [hcleared.objects_eq hu] at ht
        exact absurd ht (((hused i).mp hu).2 name hname)
    exact reserveName_ok_iff hnone

/-- `tools/clear -- A` clears a segment with two users; a mutex that its creator has not recorded
stays. -/
theorem rtai_clear_exact_run :
    let ls : List Label := [.reserve .mem (.ofBytes [65]) 10 0, .create 0 false, .record 0,
      .publish 0, .lookup .mem (.ofBytes [65]), .attach 1 false,
      .reserve .mutex (.ofBytes [66]) 0 0, .create 2 false]
    let init : Sys .two Simple.State := Sys.init (.zero .two) (fun _ => none) fun _ => 0
    ∃ (s : Sys .two Simple.State) (w' : World .two Simple.State),
      Lts.exec (step Simple.services) init ls = some s ∧
      clearTool (forceClear (sysForceClearName Simple.services 3)) false [[45, 45], [65]] s.world =
        some w' ∧
      w'.mem.used 0 = false ∧ w'.mem.objects 1 = s.world.mem.objects 1 := by
  intro ls init
  have hrun : ∃ s : Sys .two Simple.State, Lts.exec (step Simple.services) init ls = some s ∧
      s.calls = [.done, .done, .made .mutex (.ofBytes [66]) 0 1 13] ∧
      (∀ i, s.holders i < 3) ∧ (s.world.mem.objects 0).tname = [65] ∧
      s.world.mem.used 1 = true ∧ (s.world.mem.objects 1).tname = [66] :=
    ⟨_, rfl, rfl, by decide, by decide, by decide, by decide⟩
  obtain ⟨s, hs, hcalls, hholders, h0, h1, htname⟩ := hrun
  have hrecorded : ∀ name ∈ namesOf [[45, 45], [65]], ∀ i, Named s.world name i →
      ¬ s.Unrecorded i := by
    intro name hname i hi hmade
    obtain ⟨k, name', size, adr, hcall⟩ := hmade
    rw [hcalls] at hcall
    obtain rfl : i = 1 := by
      simp only [List.mem_cons, List.not_mem_nil, reduceCtorEq, false_or, or_false,
        Call.made.injEq] at hcall
      exact hcall.2.2.2.1
    obtain rfl : name = .ofBytes [65] := List.mem_singleton.mp hname
    rw [hi.2] at htname
    exact absurd htname (by decide)
  obtain ⟨w', hw', hused, hkept, -⟩ := rtai_clear_exact Simple.lawful rfl rfl hs (by decide)
    (by decide) hholders [[45, 45], [65]] (.inl ⟨rfl, hrecorded⟩)
  refine ⟨s, w', hs, hw', ?_, (hkept 1 ((hused 1).mpr ⟨h1, ?_⟩)).1⟩
  · rw [← Bool.not_eq_true, hused]
    exact fun h => h.2 (.ofBytes [65]) List.mem_cons_self h0
  · rw [htname]
    decide

end Urt.Rtai
