import Urt.Rtai.ForceClear

/-!
# Calls that leave nothing behind

A creation or an attachment that fails, and one that is followed by a detachment, leave the
registry and RTAI as they were (`rtai_failure_undone`, `rtai_round_trip`), if the call keeps to
the rules of a regular run itself: an attacher that fails on a slot which is only reserved gives
the slot up. On POSIX the error paths are not as clean; here the service that failed made
nothing, and giving up the slot or the reference is all that is left to do. A segment that was
made and freed can leave its number in memory that nobody has mapped.
-/

namespace Urt.Rtai

open RegisteredObject

variable {c : Config} {σ : Type}

/-- `urt_sh*_detach` of a handle -/
def detachHandle (R : Services σ) (h : Handle c) (w : World c σ) : World c σ :=
  match h.kind with
  | .mem => shmemDetach R h.adr w
  | .sem | .mutex | .rwlock | .cond => detachLock R h w

/-- Nobody can tell the states apart. -/
structure Unchanged (table : σ → Nat → Option Entry) (w w' : World c σ) : Prop where
  used : w'.mem.used = w.mem.used
  objects : ∀ i, w.mem.used i = true → w'.mem.objects i = w.mem.objects i
  index : w'.mem.objectsMaxIndex = w.mem.objectsMaxIndex
  entries : table w'.os = table w.os
  word : ∀ n e, table w.os n = some e → w'.word e.adr = w.word e.adr

variable {R : Services σ} {table : σ → Nat → Option Entry}

namespace Unchanged

variable {w w' : World c σ}

theorem refl (w : World c σ) : Unchanged table w w :=
  ⟨rfl, fun _ _ => rfl, rfl, rfl, fun _ _ _ => rfl⟩

/-- A slot that was free is free again. -/
theorem of_free {i : Slot c} (hw : w.mem.Tight) (hw' : w'.mem.Tight)
    (hfree : w.mem.used i = false) (hfree' : w'.mem.used i = false)
    (hother : ∀ j, j ≠ i → w'.mem.objects j = w.mem.objects j) (htable : table w'.os = table w.os)
    (hword : ∀ n e, table w.os n = some e → w'.word e.adr = w.word e.adr) :
    Unchanged table w w' := by
  have hused : w'.mem.used = w.mem.used := by
    funext j
    by_cases hj : j = i
    · rw [hj, hfree, hfree']
    · rw [Internal.used, hother j hj]
      rfl
  refine ⟨hused, ?_, by rw [hw', hw, hused], htable, hword⟩
  intro j hj
  apply hother
  rintro rfl
  rw [hfree] at hj
  cases hj

/-- All objects are what they were. -/
theorem of_objects (hw : w.mem.Tight) (hw' : w'.mem.Tight)
    (hobjects : w'.mem.objects = w.mem.objects) (htable : table w'.os = table w.os)
    (hword : ∀ n e, table w.os n = some e → w'.word e.adr = w.word e.adr) :
    Unchanged table w w' := by
  have hused : w'.mem.used = w.mem.used := by
    funext j
    rw [Internal.used, Internal.used, hobjects]
  exact ⟨hused, fun j _ => by rw [hobjects], by rw [hw', hw, hused], htable, hword⟩

end Unchanged

/-- A free slot that was reserved, written to and published once, and deregistered. -/
theorem decCount_published {g : Internal c} (hg : g.Tight) {i : Slot c}
    (name : CString) {o : RegisteredObject} (hr : o.reserved = true) (hc : o.count = 0) :
    let g' := decCount (incNameCount ((reserved g i name).setObject i o) i) i
    g'.Tight ∧ g'.used i = false ∧ ∀ j, j ≠ i → g'.objects j = g.objects j := by
  intro g'
  have hone : o.inc.count.toNat = 1 := by
    rw [inc_count (by rw [hc]; decide), hc]
    rfl
  have hused : (reserved g i name).used i = true := by
    rw [reserved_used, Function.update_self]
  have huse : o.inUse = true := inUse_iff.mpr (.inl hr)
  have hset := setObject_tight (reserved_tight hg i name) hused huse
  refine ⟨decCount_tight (incNameCount_tight hset ?_ ?_) i, ?_, ?_⟩
  · rw [Internal.used_setObject, Function.update_self, huse]
  · rw [Internal.setObject_objects, Function.update_self, hc]
    decide
  · rw [decCount_used, Function.update_self, dec_inUse_eq_false_iff]
    simp [hone]
  · intro j hj
    simp [g', decCount_objects, Function.update_of_ne hj]

/-! ## Published objects -/

/-- Memory is marked as having bookkeeping. -/
def Booked (g : Internal c) : Prop :=
  ∀ i, (g.objects i).type = Kind.mem.type → (g.objects i).hasBookkeeping = true

theorem Booked.update {g g' : Internal c} (h : Booked g) {i : Slot c} {o : RegisteredObject}
    (hg : g'.objects = Function.update g.objects i o)
    (ho : o.type = Kind.mem.type → o.hasBookkeeping = true) : Booked g' := by
  intro j hj
  rw [hg] at hj ⊢
  by_cases hji : j = i
  · subst hji
    rw [Function.update_self] at hj ⊢
    exact ho hj
  · rw [Function.update_of_ne hji] at hj ⊢
    exact h j hj

/-- Attaching marks memory that is marked. -/
theorem Booked.marked_inc {g : Internal c} (h : Booked g) {i : Slot c} {k : Kind}
    (hk : (g.objects i).type = k.type) : marked k (g.objects i).inc = (g.objects i).inc := by
  have hbk : (decide (k = .mem) = true) → (g.objects i).hasBookkeeping = true := by
    intro hmem
    rw [of_decide_eq_true hmem] at hk
    exact h i hk
  unfold marked
  cases hd : decide (k = Kind.mem) with
  | false => simp only [Bool.or_false]
  | true => simp [RegisteredObject.inc, hbk hd]

theorem booked_step {s s' : Sys c σ} {l : Label} (h : Booked s.world.mem)
    (hs : step R s l = some s') : Booked s'.world.mem := by
  cases trans_of_step hs with
  | refused _ | createFailed _ _ | made _ _ | missing _ | attachFailed _ _ | free _ _ => exact h
  | @reserve k name size value i _ _ =>
    exact h.update (reserved_objects _ i name) (by intro hk; cases hk)
  | @record p k name size i adr _ =>
    refine h.update (o := recorded (c := c) k size (s.world.mem.objects i)) rfl fun hk => ?_
    exact decide_eq_true (Kind.type_injective hk)
  | publish _ => exact h.update (incNameCount_objects _ _) (h _)
  | lookup _ => exact h.update (incNameCount_objects _ _) (h _)
  | attached _ _ =>
    refine h.update rfl fun hk => ?_
    exact Bool.or_eq_true _ _ ▸ .inl (h _ hk)
  | abort _ | drop _ | detach _ _ | deregister _ => exact h.update (decCount_objects _ _) (h _)

/-- What a regular lookup finds. -/
structure Published (R : Services σ) (table : σ → Nat → Option Entry) (s : Sys c σ) (k : Kind)
    (name : CString) (i : Slot c) : Prop where
  used : s.world.mem.used i = true
  reserved : (s.world.mem.objects i).reserved = false
  type : (s.world.mem.objects i).type = k.type
  count : (s.world.mem.objects i).count.toNat + 1 < 2 ^ 32
  num : s.num R i = R.nam2num name
  pos : 0 < (s.world.mem.objects i).count.toNat
  entry : Entered k (s.users k i) (table s.world.os (R.nam2num name))

theorem Agreed.published {s : Sys c σ} (law : Lawful R table) (h : Agreed R table s) {k : Kind}
    {name : CString} (hl : Regular R s (.lookup k name)) {i : Slot c}
    (hfind : findByName s.world.mem name = some i) : Published R table s k name i := by
  obtain ⟨hr, htype, hrefs⟩ := hl i hfind
  obtain ⟨hu, htname, -⟩ := findByName_some hfind
  have hcounted : (s.world.mem.objects i).count.toNat = s.view.refs i := h.settled.counted i
  have hpos : 0 < (s.world.mem.objects i).count.toNat := by
    rcases inUse_iff.mp hu with hr' | hpos
    · rw [hr] at hr'
      cases hr'
    · exact hpos
  have hnum := num_of_tname (R := R) law htname
  refine ⟨hu, hr, htype, by rw [hcounted]; exact hrefs, hnum, hpos, ?_⟩
  rw [← hnum]
  exact h.entry_of_type (.inl hpos) htype

theorem exists_has {s : Sys c σ} {i : Slot c} (h : 0 < s.holders i) : ∃ x, s.Has x ∧ x.id = i := by
  rcases Nat.eq_zero_or_pos (s.handles.countP (Holding.has i)) with h0 | hpos
  · have hcalls : 0 < s.calls.countP (Call.has i) := by
      unfold Sys.holders at h
      omega
    obtain ⟨call, hc, hi⟩ := List.countP_pos_iff.mp hcalls
    cases call with
    | created name x => exact ⟨x, .inr ⟨name, hc⟩, beq_iff_eq.mp hi⟩
    | reserved _ _ _ _ _ | made _ _ _ _ _ | failed _ _ | referenced _ _ _ | attachFailed _ _
    | done => cases hi
  · obtain ⟨x, hx, hi⟩ := List.countP_pos_iff.mp hpos
    cases x with
    | live x => exact ⟨x, .inl hx, beq_iff_eq.mp hi⟩
    | freed _ | gone => cases hi

/-- The bookkeeping of a segment names its slot as long as anybody has it. -/
theorem Agreed.word_of_entry {s : Sys c σ} (law : Lawful R table) (h : Agreed R table s)
    {i : Slot c} (hrec : s.Recorded i) (htype : (s.world.mem.objects i).type = Kind.mem.type)
    {e : Entry} (he : table s.world.os (s.num R i) = some e) : s.world.word e.adr = i := by
  have hentry := h.entry_of_type hrec htype
  rw [he, Sys.users, if_pos rfl] at hentry
  have hpos : 0 < s.holders i := by
    rw [← hentry.2]
    exact law.users_pos he
  obtain ⟨x, hx, rfl⟩ := exists_has hpos
  have hok := h.handle x hx
  obtain ⟨e', he', hadr⟩ := hok.object
  rw [he] at he'
  cases he'
  rw [hadr]
  exact hok.word (Kind.type_injective (hok.type.symm.trans htype))

/-! ## Whole calls -/

namespace Agreed

variable {s : Sys c σ} (law : Lawful R table) (h : Agreed R table s)

include law h

/-- A creation that failed. -/
theorem newFailed {k : Kind} {malloc : Bool} {name : CString} {size : UInt64} {value : UInt32}
    (hl : Regular R s (.reserve k name size value)) {e : Errno} {w' : World c σ}
    (hnew : shobjNew R k malloc name size value s.world = (.error e, w')) :
    Unchanged table s.world w' := by
  unfold shobjNew at hnew
  rcases reserveName_cases s.world.mem name with ⟨i, -, he⟩ | ⟨-, -, he⟩ | ⟨i, hfind, hfree, he⟩
  · rw [he] at hnew
    cases hnew
    exact .refl _
  · rw [he] at hnew
    cases hnew
    exact .refl _
  · rw [he] at hnew
    have hnone := h.table_none (hl hfind (by rw [hfree]; rfl))
    rcases sysNew_cases law k malloc name size value hnone with
      ⟨e', os', hsys, htable⟩ | ⟨adr, os', m, hsys, -⟩
    · simp only [hsys, decNameCount_eq, Prod.mk.injEq] at hnew
      obtain ⟨-, rfl⟩ := hnew
      refine .of_free h.tight (decCount_tight (reserved_tight h.tight i name) i)
        (findFree_some hfree).1 ?_ ?_ htable fun _ _ _ => rfl
      · rw [decCount_used, Function.update_self, reserved_objects, Function.update_self]
        rfl
      · intro j hj
        rw [decCount_objects, Function.update_of_ne hj, reserved_objects,
          Function.update_of_ne hj]
    · simp only [hsys, recordNew_eq] at hnew
      cases hnew

/-- A creation and the detachment of what it made. -/
theorem newDetach {k : Kind} {malloc : Bool} {name : CString} {size : UInt64} {value : UInt32}
    (hl : Regular R s (.reserve k name size value)) {x : Handle c} {w' : World c σ}
    (hnew : shobjNew R k malloc name size value s.world = (.ok x, w')) :
    Unchanged table s.world (detachHandle R x w') := by
  unfold shobjNew at hnew
  rcases reserveName_cases s.world.mem name with ⟨i, -, he⟩ | ⟨-, -, he⟩ | ⟨i, hfind, hfree, he⟩
  · rw [he] at hnew
    cases hnew
  · rw [he] at hnew
    cases hnew
  · rw [he] at hnew
    have hnone := h.table_none (hl hfind (by rw [hfree]; rfl))
    rcases sysNew_cases law k malloc name size value hnone with
      ⟨e', os', hsys, -⟩ | ⟨adr, os', m, hsys, hfits, htable⟩
    · simp only [hsys] at hnew
      cases hnew
    · simp only [hsys, recordNew_eq, Prod.mk.injEq, Except.ok.injEq] at hnew
      obtain ⟨rfl, rfl⟩ := hnew
      set o := recorded (c := c) k size ((reserved s.world.mem i name).objects i) with ho
      have hobj : o = recorded (c := c) k size (reservedObject name) := by
        rw [ho, reserved_objects, Function.update_self]
      set g := incNameCount ((reserved s.world.mem i name).setObject i o) i with hg
      have hself : g.objects i = o.inc := by
        simp [hg]
      obtain ⟨htight, hgone, hother⟩ := decCount_published h.tight (i := i) name
        (show o.reserved = true by rw [hobj]; rfl) (show o.count = 0 by rw [hobj]; rfl)
      have hentry : table os' (R.nam2num name) = some ⟨adr, 1, m⟩ := by
        rw [htable, Function.update_self]
      have hback : Function.update (table os') (R.nam2num name) none = table s.world.os := by
        rw [htable, Function.update_idem, ← hnone, Function.update_eq_self]
      have hword : ∀ n e, table s.world.os n = some e →
          markWord k adr i s.world.word e.adr = s.world.word e.adr := by
        intro n e hn
        have hne : n ≠ R.nam2num name := by
          rintro rfl
          rw [hnone] at hn
          cases hn
        have hn' : table os' n = some e := by
          rw [htable, Function.update_of_ne hne, hn]
        exact markWord_of_ne (fun ha => hne (law.adr_inj hn' hentry ha)) k i s.world.word
      by_cases hk : k = .mem
      · subst hk
        have hmark : markWord .mem adr i s.world.word adr = i := markWord_self rfl _ _ _
        have hnum : R.nam2num (g.objects i).name.str = R.nam2num name := by
          apply law.nam2num_congr
          rw [hself, hobj]
          exact reservedObject_tname name
        have hmem : detachHandle R { kind := .mem, adr := adr, id := i }
            { mem := g, os := os', word := markWord .mem adr i s.world.word } =
            { mem := decCount g i
              os := R.shmFree (R.nam2num name) os'
              word := markWord .mem adr i s.world.word } := by
          simp only [detachHandle, shmemDetach, shmemFree, hmark, decNameCount_eq, hnum]
        rw [hmem]
        refine .of_free h.tight htight (findFree_some hfree).1 hgone hother ?_ hword
        rw [law.shmFree, hentry]
        · exact hback
        · intro e he'
          rw [hentry] at he'
          cases he'
          exact hfits.shape_eq
      · have hlock : detachHandle R { kind := k, adr := adr, id := i }
            { mem := g, os := os', word := markWord k adr i s.world.word } =
            detachLock R { kind := k, adr := adr, id := i }
              { mem := g, os := os', word := markWord k adr i s.world.word } := by
          cases k <;> first | rfl | exact absurd rfl hk
        rw [hlock, detachLock_eq R hk]
        refine .of_free h.tight htight (findFree_some hfree).1 hgone hother ?_ hword
        dsimp only
        have hlast : (g.objects i).dec.count = 0 := by
          have hzero : o.count = 0 := by rw [hobj]; rfl
          apply UInt32.toNat_inj.mp
          rw [hself, dec_count, inc_count (by rw [hzero]; decide), hzero]
          rfl
        rw [Release.named, if_pos hlast, ← hback]
        exact deleteLock_table law hk hentry ⟨hfits, rfl⟩

/-- An attachment that failed. -/
theorem attachFailed {k : Kind} {malloc : Bool} {name : CString} (hl : Regular R s (.lookup k name))
    {e : Errno} {w' : World c σ}
    (hattach : shobjAttach R k malloc name s.world = (.error e, w')) :
    Unchanged table s.world w' := by
  unfold shobjAttach at hattach
  rw [getObjectByNameAndIncCount_eq] at hattach
  cases hfind : findByName s.world.mem name with
  | none =>
    rw [hfind] at hattach
    cases hattach
    exact .refl _
  | some i =>
    rw [hfind] at hattach
    have hp := h.published law hl hfind
    rcases sysAttach_cases law k malloc name hp.entry with
      ⟨e', os', hsys, htable⟩ | ⟨e', os', -, hsys, -⟩
    · simp only [hsys, decNameCount_eq, Prod.mk.injEq] at hattach
      obtain ⟨-, rfl⟩ := hattach
      refine .of_objects h.tight (decCount_tight (incNameCount_tight h.tight hp.used hp.count) i)
        ?_ htable fun _ _ _ => rfl
      rw [decCount_objects, incNameCount_objects, Function.update_idem, Function.update_self,
        dec_inc hp.reserved hp.count, Function.update_eq_self]
    · simp only [hsys, sysAddBookKeeping_eq] at hattach
      cases hattach

/-- An attachment and the detachment of what it got. -/
theorem attachDetach (hbooked : Booked s.world.mem) {k : Kind} {malloc : Bool} {name : CString}
    (hl : Regular R s (.lookup k name)) {x : Handle c} {w' : World c σ}
    (hattach : shobjAttach R k malloc name s.world = (.ok x, w')) :
    Unchanged table s.world (detachHandle R x w') := by
  unfold shobjAttach at hattach
  rw [getObjectByNameAndIncCount_eq] at hattach
  cases hfind : findByName s.world.mem name with
  | none =>
    rw [hfind] at hattach
    cases hattach
  | some i =>
    rw [hfind] at hattach
    have hp := h.published law hl hfind
    rcases sysAttach_cases law k malloc name hp.entry with
      ⟨e', os', hsys, -⟩ | ⟨e, os', he, hsys, htable⟩
    · simp only [hsys] at hattach
      cases hattach
    · simp only [hsys, sysAddBookKeeping_eq, Prod.mk.injEq, Except.ok.injEq] at hattach
      obtain ⟨rfl, rfl⟩ := hattach
      set o := marked k ((incNameCount s.world.mem i).objects i) with ho
      have hobj : o = (s.world.mem.objects i).inc := by
        rw [ho, incNameCount_objects, Function.update_self]
        exact hbooked.marked_inc hp.type
      have hset : (incNameCount s.world.mem i).setObject i o = incNameCount s.world.mem i := by
        rw [hobj]
        simp [incNameCount, Internal.setObject]
      have hback : (decCount (incNameCount s.world.mem i) i).objects = s.world.mem.objects := by
        rw [decCount_objects, incNameCount_objects, Function.update_idem, Function.update_self,
          dec_inc hp.reserved hp.count, Function.update_eq_self]
      have htight := decCount_tight (incNameCount_tight h.tight hp.used hp.count) i
      have hself : (incNameCount s.world.mem i).objects i = (s.world.mem.objects i).inc := by
        rw [incNameCount_objects, Function.update_self]
      rw [hset]
      by_cases hk : k = .mem
      · subst hk
        have hmark : markWord .mem e.adr i s.world.word e.adr = i := markWord_self rfl _ _ _
        have hnum : R.nam2num ((incNameCount s.world.mem i).objects i).name.str =
            R.nam2num name := by
          rw [hself, inc_name]
          exact hp.num
        have hmem : detachHandle R { kind := .mem, adr := e.adr, id := i }
            { mem := incNameCount s.world.mem i
              os := os'
              word := markWord .mem e.adr i s.world.word } =
            { mem := decCount (incNameCount s.world.mem i) i
              os := R.shmFree (R.nam2num name) os'
              word := markWord .mem e.adr i s.world.word } := by
          simp only [detachHandle, shmemDetach, shmemFree, hmark, decNameCount_eq, hnum]
        have hentry := hp.entry
        rw [he] at hentry
        rw [if_pos rfl] at htable
        rw [hmem]
        refine .of_objects h.tight htight hback ?_ fun n e' hn => ?_
        · rw [law.shmFree, htable, Function.update_self, Function.update_idem, Option.bind_some,
            Entry.less_more (law.users_pos he), ← he, Function.update_eq_self]
          intro e' he'
          rw [htable, Function.update_self] at he'
          cases he'
          exact hentry.1.shape_eq
        · -- the number is the one that is there already
          have hsame := h.word_of_entry law (.inl hp.pos) hp.type (by rw [hp.num]; exact he)
          change markWord .mem e.adr i s.world.word e'.adr = s.world.word e'.adr
          rw [markWord, if_pos rfl, ← hsame, Function.update_eq_self]
      · have hlock : detachHandle R { kind := k, adr := e.adr, id := i }
            { mem := incNameCount s.world.mem i
              os := os'
              word := markWord k e.adr i s.world.word } =
            detachLock R { kind := k, adr := e.adr, id := i }
              { mem := incNameCount s.world.mem i
                os := os'
                word := markWord k e.adr i s.world.word } := by
          cases k <;> first | rfl | exact absurd rfl hk
        rw [if_neg hk, ← he, Function.update_eq_self] at htable
        rw [hlock, detachLock_eq R hk]
        refine .of_objects h.tight htight hback ?_ fun n e' _ => ?_
        · have hmore : ¬ ((incNameCount s.world.mem i).objects i).dec.count = 0 := by
            rw [hself, dec_inc hp.reserved hp.count, ← UInt32.toNat_inj]
            exact hp.pos.ne'
          dsimp only
          rw [Release.named, if_neg hmore, htable]
        · change markWord k e.adr i s.world.word e'.adr = _
          rw [markWord, if_neg hk]

end Agreed

/-! ## Regular runs -/

section Runs

variable {g : Internal c} {os : σ} {word : Nat → Slot c} {ls : List Label} {s : Sys c σ}

/-- **Failed calls leave nothing behind.** After any regular run, a regular call of `urt_sh*_new`
or `urt_sh*_attach` that fails, for whatever reason, leaves the slots in use, the index, the
named objects of RTAI and their bookkeeping as they were. -/
theorem rtai_failure_undone (law : Lawful R table) (hg : g.initialized = false)
    (hos : table os = fun _ => none) (hrun : Lts.exec (step R) (Sys.init g os word) ls = some s)
    (hall : Lts.AllSteps (step R) (Regular R) (Sys.init g os word) ls) (k : Kind) (malloc : Bool)
    (name : CString) (e : Errno) (w' : World c σ) :
    (∀ size value, Regular R s (.reserve k name size value) →
      shobjNew R k malloc name size value s.world = (.error e, w') →
        Unchanged table s.world w') ∧
    (Regular R s (.lookup k name) → shobjAttach R k malloc name s.world = (.error e, w') →
      Unchanged table s.world w') := by
  have h := agreed_exec law hg hos hrun hall
  exact ⟨fun size value hl hnew => h.newFailed law hl hnew,
    fun hl hattach => h.attachFailed law hl hattach⟩

/-- There is no memory for the handle of a second semaphore. -/
theorem rtai_failure_undone_run :
    let ls : List Label := [.reserve .sem (.ofBytes [65]) 0 1, .create 0 false, .record 0,
      .publish 0]
    let init : Sys .two Simple.State := Sys.init (.zero .two) (fun _ => none) fun _ => 0
    ∃ (s : Sys .two Simple.State) (w' : World .two Simple.State),
      Lts.exec (step Simple.services) init ls = some s ∧
      shobjNew Simple.services .sem true (.ofBytes [66]) 0 1 s.world = (.error .enomem, w') ∧
      Unchanged Simple.table s.world w' := by
  intro ls init
  have hrun : (Lts.exec (step Simple.services) init ls).map (fun s =>
      (decide (Regular Simple.services s (.reserve .sem (.ofBytes [66]) 0 1)),
        (shobjNew Simple.services .sem true (.ofBytes [66]) 0 1 s.world).1)) =
      some (true, .error .enomem) := by
    rfl
  obtain ⟨s, hs, hobs⟩ := Option.map_eq_some_iff.mp hrun
  simp only [Prod.mk.injEq, decide_eq_true_eq] at hobs
  let r := shobjNew Simple.services .sem true (.ofBytes [66]) 0 1 s.world
  have hnew : r = (.error .enomem, r.2) := Prod.ext hobs.2 rfl
  have h := rtai_failure_undone Simple.lawful rfl rfl hs (by decide) .sem true (.ofBytes [66])
    .enomem r.2
  exact ⟨s, _, hs, hnew, h.1 0 1 hobs.1 hnew⟩

/-- **Round trip.** After any regular run, creating or attaching to an object by a regular call
and detaching it leaves the slots in use, the index, the named objects of RTAI and their
bookkeeping as they were. -/
theorem rtai_round_trip (law : Lawful R table) (hg : g.initialized = false)
    (hos : table os = fun _ => none) (hrun : Lts.exec (step R) (Sys.init g os word) ls = some s)
    (hall : Lts.AllSteps (step R) (Regular R) (Sys.init g os word) ls) (k : Kind) (malloc : Bool)
    (name : CString) (x : Handle c) (w' : World c σ) :
    (∀ size value, Regular R s (.reserve k name size value) →
      shobjNew R k malloc name size value s.world = (.ok x, w') →
        Unchanged table s.world (detachHandle R x w')) ∧
    (Regular R s (.lookup k name) → shobjAttach R k malloc name s.world = (.ok x, w') →
      Unchanged table s.world (detachHandle R x w')) := by
  have h := agreed_exec law hg hos hrun hall
  have hbooked : Booked s.world.mem := by
    apply Lts.exec_invariant' (I := fun s : Sys c σ => Booked s.world.mem) _ _ hrun
    · exact fun s l s' hs hstep => booked_step hs hstep
    · intro i hi
      rw [show (Sys.init g os word).world.mem.objects i = .zero by
        simp [Sys.init, registryInit, hg]] at hi
      cases hi
  exact ⟨fun size value hl hnew => h.newDetach law hl hnew,
    fun hl hattach => h.attachDetach law hbooked hl hattach⟩

/-- A mutex is created and detached, next to a segment. -/
theorem rtai_round_trip_run :
    let ls : List Label := [.reserve .mem (.ofBytes [65]) 10 0, .create 0 false, .record 0,
      .publish 0]
    let init : Sys .two Simple.State := Sys.init (.zero .two) (fun _ => none) fun _ => 0
    let x : Handle .two := { kind := .mutex, adr := 13, id := 1 }
    ∃ (s : Sys .two Simple.State) (w' : World .two Simple.State),
      Lts.exec (step Simple.services) init ls = some s ∧
      shobjNew Simple.services .mutex false (.ofBytes [66]) 0 0 s.world = (.ok x, w') ∧
      Unchanged Simple.table s.world (detachHandle Simple.services x w') := by
  intro ls init x
  have hrun : (Lts.exec (step Simple.services) init ls).map (fun s =>
      (decide (Regular Simple.services s (.reserve .mutex (.ofBytes [66]) 0 0)),
        (shobjNew Simple.services .mutex false (.ofBytes [66]) 0 0 s.world).1)) =
      some (true, .ok x) := by
    rfl
  obtain ⟨s, hs, hobs⟩ := Option.map_eq_some_iff.mp hrun
  simp only [Prod.mk.injEq, decide_eq_true_eq] at hobs
  let r := shobjNew Simple.services .mutex false (.ofBytes [66]) 0 0 s.world
  have hnew : r = (.ok x, r.2) := Prod.ext hobs.2 rfl
  have h := rtai_round_trip Simple.lawful rfl rfl hs (by decide) .mutex false (.ofBytes [66]) x
    r.2
  exact ⟨s, _, hs, hnew, h.1 0 0 hobs.1 hnew⟩

end Runs

end Urt.Rtai
