import Urt.Posix.Links

/-!
# Whether an object outlives its slot

The registry frees a slot when its count drops to zero; the object is unlinked by the release
callback of the deregistration that did it, in the name space of the handle. The error path of
`SHOBJ_ATTACH` drops its reference without a release callback. `Clean` says of a step that it
leaves no object under the name of a slot that it frees; `Steady` is the condition on state and
label under which it does (`clean_iff_steady`). In runs of such steps every OS name belongs to a
slot in use.

Objects are created whole and their locks initialise, and nothing is force-cleared.
-/

namespace Urt.Posix

variable {c : Config}

open RegisteredObject

/-! ## Slots in use -/

/-- No slot has come into use, and those in use have their names and types. -/
def Kept (g g' : Internal c) : Prop :=
  ∀ i, g'.used i = true → g.used i = true ∧ (g'.objects i).name = (g.objects i).name ∧
    (g'.objects i).type = (g.objects i).type

theorem Kept.refl (g : Internal c) : Kept g g := fun _ hu => ⟨hu, rfl, rfl⟩

/-- A reservation that was given back. -/
theorem failed_objects (g : Internal c) (i : Slot c) (name : CString) :
    (decCount (reserved g i name) i).objects =
      Function.update g.objects i (reservedObject name).dec := by
  rw [decCount_objects, reserved_objects, Function.update_self, Function.update_idem]

theorem failed_used {g : Internal c} {i : Slot c} (hi : g.used i = false) (name : CString)
    (j : Slot c) : (decCount (reserved g i name) i).used j = g.used j := by
  rw [Internal.used, failed_objects]
  by_cases hj : j = i
  · rw [hj, Function.update_self, hi]
    rfl
  · rw [Function.update_of_ne hj]
    rfl

theorem kept_failed {g : Internal c} {i : Slot c} (hi : g.used i = false) (name : CString) :
    Kept g (decCount (reserved g i name) i) := by
  intro j hu
  rw [failed_used hi] at hu
  have hj : j ≠ i := by
    rintro rfl
    rw [hi] at hu
    cases hu
  rw [failed_objects, Function.update_of_ne hj]
  exact ⟨hu, rfl, rfl⟩

theorem used_inc {g : Internal c} {i : Slot c} (hu : g.used i = true)
    (hi : (g.objects i).count.toNat + 1 < 2 ^ 32) (j : Slot c) :
    (incNameCount g i).used j = g.used j := by
  rw [incNameCount_used hi]
  by_cases hj : j = i
  · rw [hj, Function.update_self, hu]
  · rw [Function.update_of_ne hj]

theorem kept_inc {g : Internal c} {i : Slot c} (hu : g.used i = true) :
    Kept g (incNameCount g i) := by
  intro j hj
  rw [incNameCount_objects]
  by_cases hji : j = i
  · subst hji
    rw [Function.update_self]
    exact ⟨hu, rfl, rfl⟩
  · rw [Internal.used, incNameCount_objects, Function.update_of_ne hji] at hj
    rw [Function.update_of_ne hji]
    exact ⟨hj, rfl, rfl⟩

theorem used_setObject {g : Internal c} {i : Slot c} {o : RegisteredObject}
    (ho : SameEntry (g.objects i) o) (j : Slot c) : (g.setObject i o).used j = g.used j := by
  rw [Internal.used_setObject]
  by_cases hj : j = i
  · rw [hj, Function.update_self, ho.inUse_eq]
    rfl
  · rw [Function.update_of_ne hj]

theorem kept_setObject {g : Internal c} {i : Slot c} {o : RegisteredObject}
    (ho : SameEntry (g.objects i) o) (htype : o.type = (g.objects i).type) :
    Kept g (g.setObject i o) := by
  intro j hj
  rw [used_setObject ho] at hj
  rw [Internal.setObject_objects]
  by_cases hji : j = i
  · subst hji
    rw [Function.update_self]
    exact ⟨hj, ho.1, htype⟩
  · rw [Function.update_of_ne hji]
    exact ⟨hj, rfl, rfl⟩

theorem used_dec_iff (g : Internal c) (i : Slot c) :
    (decCount g i).used i = true ↔ 1 < (g.objects i).count.toNat := by
  rw [Internal.used, decCount_objects, Function.update_self, dec_inUse_iff]

theorem used_dec_of_ne (g : Internal c) {i j : Slot c} (hj : j ≠ i) :
    (decCount g i).used j = g.used j := by
  rw [Internal.used, decCount_objects, Function.update_of_ne hj]
  rfl

theorem kept_dec (g : Internal c) (i : Slot c) : Kept g (decCount g i) := by
  intro j hj
  by_cases hji : j = i
  · subst hji
    have hcount := (used_dec_iff g j).mp hj
    rw [decCount_objects, Function.update_self]
    exact ⟨inUse_iff.mpr (.inr (by omega)), dec_name _, dec_type _⟩
  · rw [used_dec_of_ne g hji] at hj
    rw [decCount_objects, Function.update_of_ne hji]
    exact ⟨hj, rfl, rfl⟩

/-! ## Names in use -/

/-- The OS name of the name stored in a slot. -/
def osName (g : Internal c) (i : Slot c) : Option OsName := convertName (g.objects i).name.str

theorem osName_of_tname {g : Internal c} {i : Slot c} {name : CString}
    (h : (g.objects i).tname = truncName name) : osName g i = convertName name :=
  convertName_congr h

/-- What the name stored in a slot leads to, in the name space of the type recorded there. -/
def objectOf (w : World c) (i : Slot c) : Option Nat :=
  (Kind.ofType? (w.mem.objects i).type).bind fun k => (osName w.mem i).bind (w.os.link k.space)

theorem objectOf_iff {w : World c} {i : Slot c} {k : Kind} (h : (w.mem.objects i).type = k.type)
    (ino : Nat) :
    objectOf w i = some ino ↔ ∃ n, osName w.mem i = some n ∧ w.os.link k.space n = some ino := by
  rw [objectOf, h, Kind.ofType?_type, Option.bind_some, Option.bind_eq_some_iff]

theorem objectOf_eq_none_iff {w : World c} {i : Slot c} :
    objectOf w i = none ↔ ∀ (k : Kind) n, (w.mem.objects i).type = k.type →
      osName w.mem i = some n → w.os.link k.space n = none := by
  constructor
  · intro h k n htype hn
    by_contra hl
    obtain ⟨ino, hl⟩ := Option.ne_none_iff_exists'.mp hl
    rw [(objectOf_iff htype ino).mpr ⟨n, hn, hl⟩] at h
    cases h
  · intro h
    by_contra hobj
    obtain ⟨ino, hobj⟩ := Option.ne_none_iff_exists'.mp hobj
    obtain ⟨k, hk, -⟩ := Option.bind_eq_some_iff.mp hobj
    have htype := Kind.ofType?_eq_some_iff.mp hk
    obtain ⟨n, hn, hl⟩ := (objectOf_iff htype ino).mp hobj
    rw [h k n htype hn] at hl
    cases hl

/-- Slot `i` is in use under a name that converts to `n`, for a kind of name space `sp`. -/
structure Named (g : Internal c) (sp : Space) (n : OsName) (i : Slot c) : Prop where
  used : g.used i = true
  space : ∃ k : Kind, (g.objects i).type = k.type ∧ k.space = sp
  name : osName g i = some n

/-- Every OS name belongs to a slot in use. -/
def Owned (w : World c) : Prop :=
  ∀ sp n ino, w.os.link sp n = some ino → ∃ i, Named w.mem sp n i

/-! ## Freed slots -/

/-- A slot that was freed leaves no object under its name. -/
def Clean (w w' : World c) : Prop :=
  ∀ i (k : Kind) n, w.mem.used i = true → w'.mem.used i = false →
    (w.mem.objects i).type = k.type → osName w.mem i = some n → w'.os.link k.space n = none

theorem clean_of_used {w w' : World c}
    (h : ∀ i, w.mem.used i = true → w'.mem.used i = true) : Clean w w' := by
  intro i k n hu hu' _ _
  rw [h i hu] at hu'
  cases hu'

/-- The rule of ownership: names are taken from slots that are freed, and given to slots in
use. -/
theorem Owned.of_clean {w w' : World c} (h : Owned w) (hclean : Clean w w')
    (hstay : ∀ i, w.mem.used i = true → w'.mem.used i = true →
      (w'.mem.objects i).name = (w.mem.objects i).name ∧
      (w'.mem.objects i).type = (w.mem.objects i).type)
    (hlink : ∀ sp n ino, w'.os.link sp n = some ino →
      w.os.link sp n = some ino ∨ ∃ i, Named w'.mem sp n i) : Owned w' := by
  intro sp n ino hl'
  rcases hlink sp n ino hl' with hl | hi
  · obtain ⟨i, hu, ⟨k, htype, hk⟩, hn⟩ := h sp n ino hl
    cases hu' : w'.mem.used i with
    | true =>
      obtain ⟨hname', htype'⟩ := hstay i hu hu'
      refine ⟨i, hu', ⟨k, by rw [htype', htype], hk⟩, ?_⟩
      rw [osName, hname']
      exact hn
    | false =>
      have hnone := hclean i k n hu hu' htype hn
      rw [hk, hl'] at hnone
      cases hnone
  · exact hi

/-! ## Steady steps -/

/-- Objects are created whole and their locks initialise; nothing is force-cleared. -/
def Ordinary : Label → Prop
  | .new _ env _ _ _ => env.init = none
  | .lookup .. | .attach .. | .drop _ | .detach .. => True
  | .reserve .. | .create .. | .publish _ | .abort _ | .forceClear _ => False

instance : (l : Label) → Decidable (Ordinary l)
  | .new _ env _ _ _ => inferInstanceAs (Decidable (env.init = none))
  | .lookup .. | .attach .. | .drop _ | .detach .. => isTrue trivial
  | .reserve .. | .create .. | .publish _ | .abort _ | .forceClear _ => isFalse id

/-- The slot a step deregisters, and the name space of the release callback, if any. -/
def drops (s : Sys c) : Label → Option (Slot c × Option Space)
  | .drop p =>
      match s.calls[p]? with
      | some (.attachFailed i) => some (i, none)
      | _ => none
  | .detach q _ =>
      match s.handles[q]? with
      | some (some h) => some (h.slot s.world.os, some h.kind.space)
      | _ => none
  | _ => none

/-- The slot an attacher's lookup counts a reference to. -/
def counts (s : Sys c) : Label → Option (Slot c)
  | .lookup _ name => findByName s.world.mem name
  | _ => none

/-- The last reference to a slot with an object is given up by a release callback for the name
space of the object, and no reference to such a slot wraps its count. -/
def Steady (s : Sys c) (l : Label) : Prop :=
  Ordinary l ∧
  (∀ x ∈ drops s l, s.world.mem.used x.1 = true → (s.world.mem.objects x.1).count.toNat ≤ 1 →
    objectOf s.world x.1 = none ∨
      x.2 = (Kind.ofType? (s.world.mem.objects x.1).type).map Kind.space) ∧
  ∀ i ∈ counts s l, objectOf s.world i = none ∨
    (s.world.mem.objects i).count.toNat + 1 < 2 ^ 32

instance (s : Sys c) (l : Label) : Decidable (Steady s l) := inferInstanceAs (Decidable (_ ∧ _ ∧ _))

theorem steady_of_none {s : Sys c} {l : Label} (hl : Ordinary l) (hdrops : drops s l = none)
    (hcounts : counts s l = none) : Steady s l := by
  refine ⟨hl, ?_, ?_⟩
  · intro x hx
    rw [hdrops] at hx
    cases hx
  · intro i hi
    rw [hcounts] at hi
    cases hi

/-- A deregistration frees the slot if it gives up the last reference. -/
theorem clean_dec_iff {w w' : World c} {i : Slot c} (hmem : w'.mem = decCount w.mem i) :
    Clean w w' ↔ (w.mem.used i = true → (w.mem.objects i).count.toNat ≤ 1 →
      ∀ (k : Kind) n, (w.mem.objects i).type = k.type → osName w.mem i = some n →
        w'.os.link k.space n = none) := by
  constructor
  · intro h hu hc k n
    refine h i k n hu ?_
    rw [hmem, Bool.eq_false_iff, ne_eq, used_dec_iff]
    omega
  · intro h j k n hu hu'
    rw [hmem] at hu'
    by_cases hj : j = i
    · subst hj
      refine h hu ?_ k n
      rw [Bool.eq_false_iff, ne_eq, used_dec_iff] at hu'
      omega
    · rw [used_dec_of_ne _ hj, hu] at hu'
      cases hu'

/-- The release of the last reference takes the name away if it is in its name space. -/
theorem released_link_none_iff {w : World c} {busy : List Bool} {h : Handle c} {i : Slot c}
    (hc : (w.mem.objects i).count.toNat ≤ 1) :
    (∀ (k : Kind) n, (w.mem.objects i).type = k.type → osName w.mem i = some n →
      (released busy h (w.mem.objects i).dec w.os).link k.space n = none) ↔
    objectOf w i = none ∨
      some h.kind.space = (Kind.ofType? (w.mem.objects i).type).map Kind.space := by
  have hzero : (w.mem.objects i).dec.count = 0 := by
    rw [← UInt32.toNat_inj, dec_count, UInt32.toNat_zero]
    omega
  constructor
  · intro hnone
    by_cases hsp : some h.kind.space = (Kind.ofType? (w.mem.objects i).type).map Kind.space
    · exact .inr hsp
    · refine .inl (objectOf_eq_none_iff.mpr fun k n htype hn => ?_)
      rw [htype, Kind.ofType?_type, Option.map_some] at hsp
      rw [← hnone k n htype hn]
      exact (released_link_of_ne busy h _ _ fun he => absurd (congrArg some he.symm) hsp).symm
  · intro hor k n htype hn
    rcases hor with hobj | hsp
    · by_contra hl
      obtain ⟨ino, hl⟩ := Option.ne_none_iff_exists'.mp hl
      have hold := objectOf_eq_none_iff.mp hobj k n htype hn
      rw [(link_of_released hl).1] at hold
      cases hold
    · rw [htype, Kind.ofType?_type, Option.map_some, Option.some.injEq] at hsp
      rw [released_of_last busy h _ hzero (by rw [dec_name]; exact hn), ← hsp]
      exact Os.unlink_self _ _ _

/-- Counting a reference frees the slot if the count wraps. -/
theorem clean_inc_iff {g : Internal c} {os : Os c} {i : Slot c} (hu : g.used i = true) :
    Clean { mem := g, os := os } { mem := incNameCount g i, os := os } ↔
      objectOf { mem := g, os := os } i = none ∨ (g.objects i).count.toNat + 1 < 2 ^ 32 := by
  have hi : (incNameCount g i).used i = true ↔ (g.objects i).count.toNat + 1 < 2 ^ 32 := by
    rw [Internal.used, incNameCount_objects, Function.update_self, inc_inUse_iff]
  rw [objectOf_eq_none_iff]
  constructor
  · intro h
    by_cases hc : (g.objects i).count.toNat + 1 < 2 ^ 32
    · exact .inr hc
    · refine .inl fun k n htype hn => h i k n hu ?_ htype hn
      rw [Bool.eq_false_iff]
      exact fun hu' => hc (hi.mp hu')
  · intro h j k n hj hj'
    have hji : j = i := by
      by_contra hji
      change (incNameCount g i).used j = false at hj'
      rw [Internal.used, incNameCount_objects, Function.update_of_ne hji] at hj'
      exact absurd (hj.symm.trans hj') (by decide)
    subst hji
    refine h.resolve_right (fun hc => ?_) k n
    exact absurd ((hi.mpr hc).symm.trans hj') (by decide)

/-- A step is clean exactly if it is steady. -/
theorem clean_iff_steady {s s' : Sys c} {l : Label} (hl : Ordinary l) (hs : step s l = some s') :
    Clean s.world s'.world ↔ Steady s l := by
  cases trans_of_step hs with
  | newRefused _ =>
    exact iff_of_true (clean_of_used fun _ hu => hu) (steady_of_none hl rfl rfl)
  | newFailed _ hfree _ _ =>
    refine iff_of_true (clean_of_used fun j hu => ?_) (steady_of_none hl rfl rfl)
    exact (failed_used (findFree_some hfree).1 _ j).trans hu
  | newInit _ hf _ => exact absurd hl hf.2.2.1
  | @newDone k env name _ _ i _ _ o _ hfree _ _ _ _ _ _ _ _ =>
    refine iff_of_true (clean_of_used fun j hu => ?_) (steady_of_none hl rfl rfl)
    have hji := ne_of_findFree hfree hu
    change ((reserved _ _ _).setObject i o).used j = true
    rw [Internal.used_setObject, Function.update_of_ne hji, reserved_used,
      Function.update_of_ne hji, hu]
  | refused | reserve _ _ | createFailed _ _ | createInit _ _ | created _ _ _ _ _ | publish _
  | abort _ | clearMissing _ | forceClear _ _ _ => exact hl.elim
  | missing hfind =>
    exact iff_of_true (clean_of_used fun _ hu => hu) (steady_of_none hl rfl hfind)
  | @lookup k name i hfind =>
    refine (clean_inc_iff (findByName_some hfind).1).trans ?_
    refine ⟨fun h => ⟨hl, (fun _ hx => (by cases hx)), fun j hj => ?_⟩, fun h => h.2.2 i hfind⟩
    obtain rfl : i = j := Option.some.inj (hfind.symm.trans hj)
    exact h
  | attached _ _ ho _ =>
    refine iff_of_true (clean_of_used fun j hu => ?_) (steady_of_none hl rfl rfl)
    exact (used_setObject ho j).trans hu
  | attachFailed _ _ | attachLost _ _ _ _ =>
    exact iff_of_true (clean_of_used fun _ hu => hu) (steady_of_none hl rfl rfl)
  | @drop p i hp =>
    have hdrops : drops s (.drop p) = some (i, none) := by simp only [drops, hp]
    rw [clean_dec_iff rfl]
    change (_ → _ → ∀ (k : Kind) n, _ → _ → s.world.os.link k.space n = none) ↔ _
    rw [← objectOf_eq_none_iff]
    constructor
    · intro h
      refine ⟨hl, fun x hx hu hc => ?_, fun j hj => (by cases hj)⟩
      obtain rfl : (i, none) = x := Option.some.inj (hdrops.symm.trans hx)
      exact .inl (h hu hc)
    · intro h hu hc
      apply (h.2.1 _ hdrops hu hc).elim id
      intro hsp
      rw [objectOf, Option.map_eq_none_iff.mp hsp.symm]
      rfl
  | @detach q busy x hq =>
    have hdrops : drops s (.detach q busy) = some (x.slot s.world.os, some x.kind.space) := by
      simp only [drops, hq]
    rw [clean_dec_iff rfl]
    constructor
    · intro h
      refine ⟨hl, fun y hy hu hc => ?_, fun j hj => (by cases hj)⟩
      obtain rfl := Option.some.inj (hdrops.symm.trans hy)
      exact (released_link_none_iff hc).mp (h hu hc)
    · intro h hu hc
      exact (released_link_none_iff hc).mpr (h.2.1 _ hdrops hu hc)

/-! ## Runs -/

/-- A steady step keeps every OS name with a slot in use. -/
theorem owned_step {s s' : Sys c} {l : Label} (h : Owned s.world) (hl : Steady s l)
    (hs : step s l = some s') : Owned s'.world := by
  have hclean := (clean_iff_steady hl.1 hs).mpr hl
  -- the slots that stay in use keep their names and types, and no name is new
  have hkept : Kept s.world.mem s'.world.mem → (∀ sp n ino,
      s'.world.os.link sp n = some ino → s.world.os.link sp n = some ino) → Owned s'.world :=
    fun hkeep hlink => h.of_clean hclean (fun i _ hu' => (hkeep i hu').2)
      fun sp n ino hl' => .inl (hlink sp n ino hl')
  cases trans_of_step hs with
  | newRefused _ | missing _ | attachFailed _ _ => exact h
  | newFailed _ hfree _ hos =>
    exact hkept (kept_failed (findFree_some hfree).1 _) fun sp n ino hl' => by rwa [← hos.link]
  | newInit _ hf _ => exact absurd hl.1 hf.2.2.1
  | @newDone k env name _ _ i n _ o _ hfree _ _ _ _ hon _ hcount htype =>
    have hobj : ((reserved s.world.mem i name).setObject i o).objects =
        Function.update s.world.mem.objects i o := by
      rw [Internal.setObject_objects, reserved_objects, Function.update_idem]
    refine h.of_clean hclean ?_ ?_
    · intro j hu _
      have hji := ne_of_findFree hfree hu
      change (((reserved _ _ _).setObject i o).objects j).name = _ ∧ _
      rw [hobj, Function.update_of_ne hji]
      exact ⟨rfl, rfl⟩
    · intro sp m ino hl'
      rcases Os.link_of_create hl' with ⟨he, -⟩ | ⟨-, hl'⟩
      · cases he
        refine .inr ⟨i, ?_, ⟨k, ?_, rfl⟩, ?_⟩
        · rw [Internal.used, hobj, Function.update_self]
          exact inUse_iff.mpr (.inr (by rw [hcount]; decide))
        · rw [hobj, Function.update_self, htype]
        · rw [osName, hobj, Function.update_self, hon]
      · exact .inl hl'
  | refused | reserve _ _ | createFailed _ _ | createInit _ _ | created _ _ _ _ _ | publish _
  | abort _ | clearMissing _ | forceClear _ _ _ => exact hl.1.elim
  | lookup hfind => exact hkept (kept_inc (findByName_some hfind).1) fun _ _ _ hl' => hl'
  | attached _ _ ho htype =>
    exact hkept (kept_setObject ho htype) fun sp n ino hl' => by rwa [Os.setId_link] at hl'
  | attachLost _ _ _ _ => exact hkept (.refl _) fun _ _ _ hl' => (Os.link_of_unlink hl').2
  | drop _ => exact hkept (kept_dec _ _) fun _ _ _ hl' => hl'
  | detach _ => exact hkept (kept_dec _ _) fun _ _ _ hl' => (link_of_released hl').1

/-- **Objects go with their slots.** In every steady run every OS name belongs to a slot in use;
a step that frees a slot leaves no object under its name; and a creation that the registry
accepts is not refused by the system, if no slot in use has the OS name in the same name
space. -/
theorem unlinked_with_slot (g : Internal c) {ls : List Label} {s : Sys c}
    (hrun : Lts.exec step (Sys.init g) ls = some s)
    (hall : Lts.AllSteps step Steady (Sys.init g) ls) :
    Owned s.world ∧
    (∀ l s', Steady s l → step s l = some s' → Clean s.world s'.world) ∧
    ∀ (k : Kind) name n size value, convertName name = some n →
      findByName s.world.mem name = none → findFree s.world.mem ≠ none →
      (∀ i, ¬ Named s.world.mem k.space n i) → (k.space = .shm → k.sz c size + 16 ≠ 0) →
      (k.isLock = true → c.processShared = true) →
      ∃ h, (shobjNew k .ok name size value s.world).1 = .ok h := by
  have howned : Owned s.world := by
    refine Lts.exec_invariant (I := fun t : Sys c => Owned t.world) ?_ ?_ hrun hall
    · exact fun t l t' ht hl hs => owned_step ht hl hs
    · rintro sp n ino ⟨⟩
  refine ⟨howned, fun l s' hl hs => (clean_iff_steady hl.1 hs).mpr hl,
    fun k name n size value hn hfind hfree hno hsize hps => ?_⟩
  refine shobjNew_ok hfind hfree hn ?_ hsize hps value
  by_contra hlink
  obtain ⟨ino, hino⟩ := Option.ne_none_iff_exists'.mp hlink
  obtain ⟨i, hi⟩ := howned _ _ _ hino
  exact hno i hi

/-- Attachments that fail while others hold the object, a last detachment, and a failed
attachment to a semaphore under the name of a memory. -/
theorem unlinked_with_slot_two :
    let ls : List Label := [.new .mem .ok (.ofBytes [65]) 84 0, .lookup .sem (.ofBytes [65]),
      .attach 0 .ok, .drop 0, .lookup .mem (.ofBytes [65]), .attach 1 .ok, .detach 0 [],
      .new .mutex .ok (.ofBytes [66]) 0 0, .detach 1 []]
    ∃ s : Sys .two, Lts.exec step (Sys.init (.zero .two)) ls = some s ∧
      Owned s.world := by
  intro ls
  have hsome : (Lts.exec step (Sys.init (.zero .two)) ls).isSome = true := by decide
  obtain ⟨s, hs⟩ := Option.isSome_iff_exists.mp hsome
  have hall : Lts.AllSteps step Steady (Sys.init (.zero .two)) ls := by decide
  exact ⟨s, hs, (unlinked_with_slot _ hs hall).1⟩

/-- The owner of a memory detaches while an attacher holds a reference; the attacher's open
fails, and its deregistration frees the slot and leaves the segment. A creation under the name
is then refused. -/
theorem linked_without_slot :
    let ls : List Label := [.new .mem .ok (.ofBytes [65]) 84 0, .lookup .sem (.ofBytes [65]),
      .detach 0 [], .attach 0 .ok, .drop 0]
    ∃ s : Sys .two, Lts.exec step (Sys.init (.zero .two)) ls = some s ∧
      (∀ i, s.world.mem.used i = false) ∧ s.world.os.link .shm [47, 65] = some 0 ∧
      sysNew .mem .ok (.ofBytes [65]) 84 0 s.world = (.error .eexist, s.world) := by
  intro ls
  have hrun : (Lts.exec step (Sys.init (.zero .two)) ls).map (fun s : Sys .two => decide
      ((∀ i, s.world.mem.used i = false) ∧ s.world.os.link .shm [47, 65] = some 0)) =
        some true := by
    decide
  simp only [Option.map_eq_some_iff, decide_eq_true_eq] at hrun
  obtain ⟨s, hs, hused, hlink⟩ := hrun
  have hn : convertName (.ofBytes [65]) = some [47, 65] := by decide
  refine ⟨s, hs, hused, hlink, ?_⟩
  simp [sysNew, sysShmemNew, shmemCommon, hn, Os.shmOpen, SysEnv.ok, hlink]

end Urt.Posix
