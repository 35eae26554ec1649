import Urt.Posix.Clear
import Urt.Posix.Dump

/-!
# Dumping objects on POSIX

`tools/dump` attaches to each object that it is asked for, prints it and detaches. `dump_harmless`
says that this shows what the objects hold and leaves no trace, whatever processes have done
before: where attaching and detaching a process is no different from looking.
-/

namespace Urt.Posix

variable {c : Config}

/-! ## Recorded sizes -/

/-- The size of an object and whether it has bookkeeping, as `SHOBJ_NEW` records them. -/
def Booked (o : RegisteredObject) : Prop :=
  ∀ k : Kind, o.type = k.type → o.hasBookkeeping = decide (k.space = .shm) ∧ ProperSize o

/-- The memory that is asked for, and every lock, is smaller than `2 ^ 64 - 16` bytes. -/
def Sized (_ : Sys c) : Label → Prop
  | .new k _ _ size _ => (k.sz c size).toNat + 16 < 2 ^ 64
  | _ => True

instance (s : Sys c) : (l : Label) → Decidable (Sized s l)
  | .new k _ _ size _ => inferInstanceAs (Decidable ((k.sz c size).toNat + 16 < 2 ^ 64))
  | .reserve .. | .create .. | .publish _ | .abort _ | .lookup .. | .attach .. | .drop _
  | .detach .. | .forceClear _ => isTrue trivial

/-- The slots in use are booked. -/
def AllBooked (g : Internal c) : Prop := ∀ i, g.used i = true → Booked (g.objects i)

theorem Booked.congr {o o' : RegisteredObject} (h : Booked o) (htype : o'.type = o.type)
    (hbook : o'.hasBookkeeping = o.hasBookkeeping) (hsize : o'.size = o.size) : Booked o' := by
  intro k hk
  rw [htype] at hk
  rw [hbook, ProperSize, hbook, hsize]
  exact h k hk

/-- What `SHOBJ_NEW` records. -/
theorem recordNew_object (k : Kind) (ino : Nat) (i : Slot c) (size : UInt64) (w : World c) :
    let o := (recordNew k ino i size w).2.mem.objects i
    o.type = k.type ∧ o.hasBookkeeping = decide (k.space = .shm) ∧
      o.size = if k.space = .shm then k.sz c size + 16 else k.sz c size := by
  cases k <;> simp [recordNew, sysAddBookKeeping, Internal.setObject, Kind.space]

/-- A new object is booked. -/
theorem booked_of_new {k : Kind} {env : SysEnv} {name : CString} {size : UInt64} {value : UInt32}
    {w w' : World c} {x : Handle c} (hsize : (k.sz c size).toNat + 16 < 2 ^ 64)
    (hnew : shobjNew k env name size value w = (.ok x, w')) : Booked (w'.mem.objects x.id) := by
  unfold shobjNew at hnew
  cases hres : reserveName w.mem name with
  | mk r g =>
    rw [hres] at hnew
    cases r with
    | error e => cases hnew
    | ok i =>
      cases hsys : sysNew k env name size value { w with mem := g } with
      | mk r u =>
        simp only [hsys] at hnew
        cases r with
        | error e => cases hnew
        | ok ino =>
          obtain ⟨o, ho, -⟩ := recordNew_eq k ino i size u
          have hobject := recordNew_object k ino i size u
          simp only [ho, Prod.mk.injEq, Except.ok.injEq] at hnew hobject
          obtain ⟨rfl, rfl⟩ := hnew
          obtain ⟨htype, hbook, hrecorded⟩ := hobject
          intro k' hk'
          rw [incNameCount_objects, Function.update_self] at hk' ⊢
          obtain rfl : k = k' := Kind.type_injective (htype.symm.trans hk')
          refine ⟨hbook, ?_⟩
          unfold ProperSize
          rw [RegisteredObject.inc, hbook, hrecorded]
          by_cases hk : k.space = .shm
          · simp only [hk, decide_true, if_true]
            rw [toNat_add_sixteen hsize]
            exact Nat.le_add_left 16 _
          · simp only [hk, decide_false, Bool.false_eq_true, if_false]
            exact hsize

/-- Counting references leaves slots booked. -/
theorem AllBooked.update {g g' : Internal c} (h : AllBooked g) {i : Slot c} {o : RegisteredObject}
    (hg : g'.objects = Function.update g.objects i o) (hkept : Kept g g')
    (hbook : o.hasBookkeeping = (g.objects i).hasBookkeeping)
    (hsize : o.size = (g.objects i).size) : AllBooked g' := by
  intro j hj
  obtain ⟨hu, -, htype⟩ := hkept j hj
  refine (h j hu).congr htype ?_ ?_
  · rw [hg]
    by_cases hji : j = i
    · subst hji
      rw [Function.update_self, hbook]
    · rw [Function.update_of_ne hji]
  · rw [hg]
    by_cases hji : j = i
    · subst hji
      rw [Function.update_self, hsize]
    · rw [Function.update_of_ne hji]

theorem AllBooked.decCount {g : Internal c} (h : AllBooked g) (i : Slot c) :
    AllBooked (decCount g i) :=
  h.update (decCount_objects g i) (kept_dec g i) rfl rfl

/-- An attacher writes to a slot what is there. -/
theorem AllBooked.sysAddBookKeeping_mem {g : Internal c} (h : AllBooked g) {k : Kind} {i : Slot c}
    (hu : g.used i = true) (hk : (g.objects i).type = k.type) (ino : Nat) (os : Os c) :
    (sysAddBookKeeping k ino i { mem := g, os := os }).2.mem = g := by
  have hbook := (h i hu k hk).1
  cases k with
  | sem => rfl
  | mem | mutex | rwlock | cond =>
    have hsame : { g.objects i with hasBookkeeping := true } = g.objects i := by
      rw [show true = (g.objects i).hasBookkeeping from hbook.symm]
    simp only [sysAddBookKeeping, hsame, Internal.setObject, Function.update_eq_self]

theorem booked_step {s s' : Sys c} {l : Label} (ha : Agreed s) (h : AllBooked s.world.mem)
    (hl : Regular s l) (hsized : Sized s l) (hs : step s l = some s') :
    AllBooked s'.world.mem := by
  cases l with
  | new k env name size value =>
    simp only [step] at hs
    rcases shobjNew_cases k env name size value s.world with
      ⟨-, e, he⟩ | ⟨i, hfind, hfree, ⟨-, e, os', -, he⟩ | ⟨e, n, hf, -, he⟩ |
        ⟨n, x, o, -, -, -, -, -, -, -, -, he⟩⟩
    · rw [he] at hs
      cases hs
      exact h
    · rw [he] at hs
      cases hs
      have hkept := kept_failed (findFree_some hfree).1 name
      intro j hj
      have hu := (hkept j hj).1
      have hji : j ≠ i := ne_of_findFree hfree hu
      change Booked ((Urt.decCount (reserved s.world.mem i name) i).objects j)
      rw [failed_objects, Function.update_of_ne hji]
      exact h j hu
    · exact absurd hl.2 hf.2.2.1
    · have hnew := booked_of_new hsized he
      rw [he] at hs
      cases hs
      intro j hj
      by_cases hji : j = i
      · subst hji
        exact hnew
      · have hobj : ((reserved s.world.mem i name).setObject i o).objects j =
            s.world.mem.objects j := by
          rw [Internal.setObject_objects, Function.update_of_ne hji, reserved_objects,
            Function.update_of_ne hji]
        change Booked (((reserved s.world.mem i name).setObject i o).objects j)
        rw [hobj]
        apply h
        rw [Internal.used, ← hobj]
        exact hj
  | lookup k name =>
    simp only [step, getObjectByNameAndIncCount_eq] at hs
    cases hfind : findByName s.world.mem name with
    | none =>
      rw [hfind] at hs
      cases hs
      exact h
    | some i =>
      rw [hfind] at hs
      cases hs
      exact h.update (incNameCount_objects _ _) (kept_inc (findByName_some hfind).1) rfl rfl
  | attach p env =>
    simp only [step] at hs
    split at hs
    · rename_i k name i hp
      obtain ⟨hu, -, hk⟩ := ha.synced.referenced hp
      cases hsys : sysAttach k env name s.world.os with
      | mk r os =>
        rw [hsys] at hs
        cases r with
        | error e =>
          cases hs
          exact h
        | ok ino =>
          cases hs
          change AllBooked (sysAddBookKeeping k ino i { mem := s.world.mem, os := os }).2.mem
          rw [h.sysAddBookKeeping_mem hu hk ino os]
          exact h
    · cases hs
  | drop p =>
    simp only [step, decNameCount_eq] at hs
    split at hs
    · cases hs
      exact h.decCount _
    · cases hs
  | detach q busy =>
    simp only [step, detach_eq] at hs
    split at hs
    · cases hs
      exact h.decCount _
    · cases hs
  | reserve _ _ _ _ | create _ _ | publish _ | abort _ | forceClear _ => exact hl.elim

/-! ## Looking -/

/-- Mappings were given up and semaphores closed, and nothing else has changed. -/
structure Quiet (w w' : World c) : Prop where
  mem : w'.mem = w.mem
  os : ∃ closed : List (Handle c × UInt64),
    w'.os = { w.os with log := w.os.log ++ closed.map fun x => closeEvent x.1 x.2 }

/-- The object of slot `i` can be attached to, and counts less than all references that can be
counted. -/
structure Readable (w : World c) (i : Slot c) (k : Kind) (ino : Nat) : Prop where
  type : (w.mem.objects i).type = k.type
  object : objectOf w i = some ino
  size : k.space = .shm → (w.os.inode ino).size ≠ 0
  id : k.space = .shm → (w.os.inode ino).id = i
  unreserved : (w.mem.objects i).reserved = false
  count : (w.mem.objects i).count.toNat + 1 < 2 ^ 32

/-- Every slot in use is booked and its object can be attached to. -/
structure AllReadable (w : World c) : Prop where
  booked : AllBooked w.mem
  readable : ∀ i, w.mem.used i = true → ∃ k ino, Readable w i k ino

theorem Quiet.refl (w : World c) : Quiet w w := ⟨rfl, [], by simp⟩

theorem Quiet.trans {w w' w'' : World c} (h : Quiet w w') (h' : Quiet w' w'') : Quiet w w'' := by
  obtain ⟨hmem, closed, hos⟩ := h
  obtain ⟨hmem', closed', hos'⟩ := h'
  refine ⟨hmem'.trans hmem, closed ++ closed', ?_⟩
  rw [hos', hos]
  simp

theorem Quiet.allReadable {w w' : World c} (h : Quiet w w') (hw : AllReadable w) :
    AllReadable w' := by
  obtain ⟨hmem, closed, hos⟩ := h
  have hobj : ∀ i, objectOf w' i = objectOf w i := by
    intro i
    rw [objectOf, objectOf, hmem, hos]
  refine ⟨hmem ▸ hw.booked, fun i hi => ?_⟩
  rw [hmem] at hi
  obtain ⟨k, ino, hk⟩ := hw.readable i hi
  refine ⟨k, ino, hmem ▸ hk.type, (hobj i).trans hk.object, ?_, ?_, hmem ▸ hk.unreserved,
    hmem ▸ hk.count⟩
  · rw [hos]
    exact hk.size
  · rw [hos]
    exact hk.id

/-- With references left, a detachment only closes. -/
theorem released_of_count (busy : List Bool) (x : Handle c) {ro : RegisteredObject} (os : Os c)
    (hro : ro.count ≠ 0) :
    released busy x ro os = { os with log := os.log ++ [closeEvent x ro.size] } := by
  have hclosing : closing busy x ro = [closeEvent x ro.size] := by
    unfold closing closeEvent
    cases x.kind <;> simp [hro]
  unfold released
  rw [if_neg hro, hclosing]

theorem Readable.count_ne_zero {w : World c} {i : Slot c} {k : Kind} {ino : Nat}
    (h : Readable w i k ino) (hu : w.mem.used i = true) : 1 ≤ (w.mem.objects i).count.toNat := by
  rcases RegisteredObject.inUse_iff.mp hu with hres | hcount
  · rw [h.unreserved] at hres
    cases hres
  · exact hcount

/-- An attachment as the kind that the registry has counts a reference, and does no more. -/
theorem attach_readable {w : World c} (hw : AllReadable w) {name : CString} {i : Slot c} {k : Kind}
    {ino : Nat} (hfind : findByName w.mem name = some i) (hr : Readable w i k ino) :
    shobjAttach k .ok name w =
      (.ok { kind := k, ino := ino, id := i }, { w with mem := incNameCount w.mem i }) := by
  obtain ⟨hu, ht, -⟩ := findByName_some hfind
  obtain ⟨n, hn, hl⟩ := (objectOf_iff hr.type ino).mp hr.object
  have hf : Finds k name w.os n ino := ⟨(osName_of_tname ht).symm.trans hn, hl, hr.size⟩
  have hself : (incNameCount w.mem i).objects i = (w.mem.objects i).inc := by
    rw [incNameCount_objects, Function.update_self]
  have hbooked : AllBooked (incNameCount w.mem i) :=
    hw.booked.update (incNameCount_objects _ _) (kept_inc hu) rfl rfl
  have hmem := hbooked.sysAddBookKeeping_mem (i := i) (k := k)
    (by rw [Internal.used, hself]; exact RegisteredObject.inc_inUse hr.count)
    (by rw [hself]; exact hr.type) ino w.os
  obtain ⟨o, ho, -⟩ := sysAddBookKeeping_eq k ino i { mem := incNameCount w.mem i, os := w.os }
  rw [ho] at hmem
  rw [Os.setId_self hr.id] at ho
  dsimp only at hmem
  have hget := getObjectByNameAndIncCount_eq w.mem name
  rw [hfind] at hget
  simp only [shobjAttach, hget, sysAttach_ok hf, ho]
  rw [show (incNameCount w.mem i).setObject i o = incNameCount w.mem i from hmem]

/-- **Attaching and detaching.** What an attachment has done its detachment undoes. -/
theorem attach_detach {w : World c} (hw : AllReadable w) {name : CString} {i : Slot c} {k : Kind}
    (hfind : findByName w.mem name = some i) (hk : (w.mem.objects i).type = k.type)
    (busy : List Bool) :
    ∃ x w₁, shobjAttach k .ok name w = (.ok x, w₁) ∧ Quiet w (detach busy x w₁) := by
  obtain ⟨hu, -, -⟩ := findByName_some hfind
  obtain ⟨k', ino, hr⟩ := hw.readable i hu
  obtain rfl : k' = k := Kind.type_injective (hr.type.symm.trans hk)
  have hone := hr.count_ne_zero hu
  have hself : (incNameCount w.mem i).objects i = (w.mem.objects i).inc := by
    rw [incNameCount_objects, Function.update_self]
  have hback : ((incNameCount w.mem i).objects i).dec = w.mem.objects i := by
    rw [hself, RegisteredObject.dec_inc hr.unreserved hr.count]
  refine ⟨_, _, attach_readable hw hfind hr, ?_⟩
  have hslot : Handle.slot { kind := k', ino := ino, id := i } w.os = i := by
    cases k' with
    | sem => rfl
    | mem | mutex | rwlock | cond => exact hr.id rfl
  rw [detach_eq]
  dsimp only
  rw [hslot, hback]
  constructor
  · show decCount (incNameCount w.mem i) i = w.mem
    rw [decCount_of_count, hback]
    · simp [incNameCount, Internal.setObject]
    · rw [hself, RegisteredObject.inc_count hr.count]
      omega
  · refine ⟨[({ kind := k', ino := ino, id := i }, (w.mem.objects i).size)], ?_⟩
    dsimp only
    rw [released_of_count]
    · rfl
    · intro hzero
      rw [hzero] at hone
      exact absurd hone (by decide)

theorem Agreed.allReadable {s : Sys c} (h : Agreed s) (hbooked : AllBooked s.world.mem)
    (hcount : ∀ i, s.refs i + 1 < 2 ^ 32) : AllReadable s.world := by
  refine ⟨hbooked, fun i hi => ?_⟩
  obtain ⟨k, ino, hk⟩ := h.present i hi
  obtain ⟨n, hn, hl⟩ := (objectOf_iff hk.type ino).mp hk.object
  obtain ⟨j, hj⟩ := h.synced.owned k.space n ino hl
  obtain rfl : j = i := h.synced.apart j i n hj.used hi hj.name hn
  refine ⟨k, ino, hk.type, hk.object, hk.size, hj.id, h.synced.unreserved j, ?_⟩
  rw [h.synced.counted]
  exact hcount j

/-! ## `tools/dump` -/

/-- The answer to a request: the bytes asked for, of the object under the name. `content` is what
the object holds. -/
def Shows (content : UInt64 → UInt8) (g : Internal c) (request : DumpRequest)
    (out : DumpOutput) : Prop :=
  match findByName g (.ofBytes request.name) with
  | none => out = .noSuchName
  | some i => ∃ lines, out = .contents lines ∧
      Dumped content (userSize (g.objects i))
        (askedBytes (userSize (g.objects i)) request.start.toNat request.stop.toNat) lines

/-- One object is shown. -/
theorem printMemory_shows {w : World c} (hw : AllReadable w) (content : UInt64 → UInt8)
    (busy : List Bool) (request : DumpRequest) :
    ∃ out w' n, (∀ k, n < k → printMemory content k .ok busy (.ofBytes request.name)
        request.start request.stop w = some (out, w')) ∧
      Quiet w w' ∧ Shows content w.mem request out := by
  unfold printMemory Shows
  cases hfind : findByName w.mem (.ofBytes request.name) with
  | none => exact ⟨_, _, 0, fun _ _ => rfl, .refl w, rfl⟩
  | some i =>
    obtain ⟨hu, -, -⟩ := findByName_some hfind
    obtain ⟨k, ino, hr⟩ := hw.readable i hu
    obtain ⟨x, w₁, hattach, hquiet⟩ := attach_detach hw hfind hr.type busy
    obtain ⟨hnat, hroom⟩ := toNat_dumpSize (hw.booked i hu k hr.type).2
    obtain ⟨lines, n, hlines, hdumped⟩ := dumpLines_dumped content (dumpSize (w.mem.objects i))
      request.start request.stop (hnat ▸ hroom)
    rw [hnat] at hdumped
    refine ⟨.contents lines, _, n, fun k' hk' => ?_, hquiet, lines, rfl, hdumped⟩
    simp only [Kind.ofType?_eq_some_iff.mpr hr.type, hattach, hlines k' hk', Option.map_some]

/-- All objects are shown. -/
theorem dumpAll_shows (content : List UInt8 → UInt64 → UInt8) (busy : List Bool)
    (requests : List DumpRequest) {w : World c} (hw : AllReadable w) :
    ∃ outs w' n, (∀ k, n < k → dumpAll (fun request w => printMemory (content request.name) k .ok
        busy (.ofBytes request.name) request.start request.stop w) requests w = some (outs, w')) ∧
      Quiet w w' ∧
      List.Forall₂ (fun request => Shows (content request.name) w.mem request) requests outs := by
  induction requests generalizing w with
  | nil => exact ⟨[], w, 0, fun _ _ => rfl, .refl w, .nil⟩
  | cons request requests ih =>
    obtain ⟨out, u, n, hout, hquiet, hshows⟩ :=
      printMemory_shows hw (content request.name) busy request
    obtain ⟨outs, w', m, houts, hrest, hall⟩ := ih (hquiet.allReadable hw)
    rw [hquiet.mem] at hall
    refine ⟨out :: outs, w', max n m, fun k hk => ?_, hquiet.trans hrest, .cons hshows hall⟩
    rw [dumpAll, hout k (lt_of_le_of_lt (le_max_left n m) hk), Option.bind_some,
      houts k (lt_of_le_of_lt (le_max_right n m) hk), Option.map_some]

/-- **Dumping is harmless.** After any regular run of processes that ask for reasonable sizes, the
tool comes to an end, whatever its arguments. For each name that it is asked for it shows the bytes
that were asked for of the object under the name, or says that there is none. Then the registry is
as it was, and so is the system, but that mappings were made and given up again. -/
theorem dump_harmless {g : Internal c} (hg : g.initialized = false) {ls : List Label} {s : Sys c}
    (hrun : Lts.exec step (Sys.init g) ls = some s)
    (hall : Lts.AllSteps step Regular (Sys.init g) ls)
    (hsized : Lts.AllSteps step Sized (Sys.init g) ls) (hcount : ∀ i, s.refs i + 1 < 2 ^ 32)
    (sscanf : List UInt8 → Option UInt64) (content : List UInt8 → UInt64 → UInt8)
    (busy : List Bool) (args : List (List UInt8)) :
    ∃ outs w' n, (∀ k, n < k → dumpTool sscanf (fun request w => printMemory (content request.name)
        k .ok busy (.ofBytes request.name) request.start request.stop w) 0 false 0 0 args s.world =
          some (outs, w')) ∧
      Quiet s.world w' ∧
      List.Forall₂ (fun request => Shows (content request.name) s.world.mem request)
        (dumpRequests sscanf 0 false 0 0 args) outs := by
  have hinit : AllBooked (Sys.init g).world.mem := by
    intro i hi
    have hrefs := ((agreed_init hg).synced.used_iff i).mp hi
    simp [Sys.refs, Sys.init] at hrefs
  have h : Agreed s ∧ AllBooked s.world.mem := by
    refine Lts.exec_invariant (I := fun s : Sys c => Agreed s ∧ AllBooked s.world.mem)
      (fun s l s' hs hl hstep => ?_) ⟨agreed_init hg, hinit⟩ hrun (hall.and hsized)
    exact ⟨agreed_step hs.1 hl.1 hstep, booked_step hs.1 hs.2 hl.1 hl.2 hstep⟩
  obtain ⟨outs, w', n, houts, hrest⟩ := dumpAll_shows content busy
    (dumpRequests sscanf 0 false 0 0 args) (h.1.allReadable h.2 hcount)
  refine ⟨outs, w', n, fun k hk => ?_, hrest⟩
  rw [dumpTool_eq]
  exact houts k hk

/-- Of a memory with two users the bytes from 80 to 90 are asked for, which are four, and of a
name that is not there any. -/
theorem dump_harmless_run :
    let ls : List Label := [.new .mem .ok (.ofBytes [65]) 84 0, .lookup .mem (.ofBytes [65]),
      .attach 0 .ok, .new .sem .ok (.ofBytes [66]) 0 1]
    let args : List (List UInt8) := [sizeLetter, [80], [90], [65], endOfOptions, [67]]
    ∃ (s : Sys .two) (w' : World .two) (lines : List DumpLine) (n : Nat),
      Lts.exec step (Sys.init (.zero .two)) ls = some s ∧
      dumpTool (fun arg => arg.head?.map UInt8.toUInt64) (fun request w => printMemory
        (·.toUInt8) n .ok [] (.ofBytes request.name) request.start request.stop w) 0 false 0 0
          args s.world = some ([.contents lines, .noSuchName], w') ∧
      (lines.flatMap DumpLine.hexOffsets).map UInt64.toNat = List.range' 80 4 ∧
      w'.mem = s.world.mem := by
  intro ls args
  have hrun : (Lts.exec step (Sys.init (.zero .two)) ls).map (fun s =>
      decide ((∀ i, s.refs i < 3) ∧ findByName s.world.mem (.ofBytes [65]) = some 0 ∧
        findByName s.world.mem (.ofBytes [67]) = none ∧
        userSize (s.world.mem.objects 0) = 84)) = some true := by
    decide
  obtain ⟨s, hs, hobs⟩ := Option.map_eq_some_iff.mp hrun
  obtain ⟨hrefs, hA, hC, hsize⟩ := of_decide_eq_true hobs
  obtain ⟨outs, w', n, houts, hquiet, hshows⟩ :=
    dump_harmless rfl hs (by decide) (by decide) (fun i => by have := hrefs i; omega)
      (fun arg => arg.head?.map UInt8.toUInt64) (fun _ => (·.toUInt8)) [] args
  have hrequests : dumpRequests (fun arg => arg.head?.map UInt8.toUInt64) 0 false 0 0 args =
      [⟨[65], 80, 90⟩, ⟨[67], 0, 0⟩] := by
    decide
  rw [hrequests] at hshows
  cases hshows with
  | cons hfirst hrest =>
    cases hrest with
    | cons hsecond hnil =>
      cases hnil
      unfold Shows at hfirst hsecond
      rw [hA] at hfirst
      rw [hC] at hsecond
      obtain ⟨lines, rfl, hdumped⟩ := hfirst
      subst hsecond
      refine ⟨s, w', lines, n + 1, hs, houts (n + 1) (Nat.lt_succ_self n), ?_, hquiet.mem⟩
      rw [hdumped.hex, hsize]
      decide

end Urt.Posix
