import Urt.Lib.Tally
import Urt.Posix.Links

/-!
# Whether a handle is of the kind of its object

The registry records the kind of an object (`ro->type`), but `SHOBJ_ATTACH` does not look at
it, and four of the five kinds share one name space. So an attachment of one kind succeeds on
an object of another whenever the system can open it. `Asked` says of an attachment that the
object it finds, if any, was created as the kind it asks for; this is exactly when the kinds
agree, and in runs of such attachments every handle is of the kind of its object.
-/

namespace Urt.Posix

variable {c : Config}

/-- What is found for `name` in slot `i`, if anything, is of kind `k`: the type recorded in the
slot, and the creation that made the object. -/
def OfKind (k : Kind) (name : CString) (w : World c) (born : Nat → Option Kind) (i : Slot c) :
    Prop :=
  ∀ n ino, Finds k name w.os n ino → (w.mem.objects i).type = k.type ∧ born ino = some k

/-- Attachments are to objects of the kind they ask for, or find none. -/
def Asked (s : Sys c) : Label → Prop
  | .attach p _ => ∀ k name i, s.calls[p]? = some (.referenced k name i) →
      OfKind k name s.world s.born i
  | .new .. | .reserve .. | .create .. | .publish _ | .abort _ | .lookup .. | .drop _
  | .detach .. | .forceClear _ => True

/-! ## One attachment -/

/-- What an attachment finds, it returns if no call fails for reasons of its own. -/
theorem shobjAttach_of_finds {k : Kind} {name : CString} {w : World c} {i : Slot c} {n : OsName}
    {ino : Nat} (hfind : findByName w.mem name = some i) (hf : Finds k name w.os n ino) :
    ∃ w', shobjAttach k .ok name w = (.ok { kind := k, ino := ino, id := i }, w') ∧
      (w'.mem.objects i).type = (w.mem.objects i).type := by
  obtain ⟨o, hb, -, -, -, htype⟩ := sysAddBookKeeping_eq k ino i
    { mem := incNameCount w.mem i, os := w.os }
  simp only [incNameCount_objects, Function.update_self] at htype
  refine ⟨{ mem := (incNameCount w.mem i).setObject i o, os := w.os.setId k ino i }, ?_, ?_⟩
  · simp only [shobjAttach, getObjectByNameAndIncCount_eq, hfind, sysAttach_ok hf, hb]
  · rw [Internal.setObject_objects, Function.update_self, htype]
    rfl

/-- The attachments of kind `k` to `name` that succeed return handles to objects of kind `k`
exactly if what is found there is of that kind. -/
theorem attach_ofKind_iff (w : World c) (born : Nat → Option Kind) (k : Kind) (name : CString) :
    (∀ env h w', shobjAttach k env name w = (.ok h, w') →
      (w'.mem.objects h.id).type = k.type ∧ born h.ino = some k) ↔
    ∀ i, findByName w.mem name = some i → OfKind k name w born i := by
  constructor
  · intro h i hfind n ino hf
    obtain ⟨w', hrun, htype⟩ := shobjAttach_of_finds hfind hf
    have hk := h .ok _ w' hrun
    rwa [htype] at hk
  · intro h env x w' hrun
    rcases shobjAttach_cases k env name w with ⟨-, he⟩ | ⟨i, hfind, ⟨-, e, he⟩ |
      ⟨e, n, ino, -, -, he⟩ | ⟨n, ino, o, hf, -, -, -, htype, he⟩⟩
    · cases he.symm.trans hrun
    · cases he.symm.trans hrun
    · cases he.symm.trans hrun
    · cases he.symm.trans hrun
      rw [Internal.setObject_objects, Function.update_self, htype]
      exact h i hfind n ino hf

/-! ## Runs -/

/-- Handles, and objects about to be published, are of the kind of their inode. -/
structure KindsKept (s : Sys c) : Prop where
  sound : s.world.os.Sound
  handles : ∀ (q : Nat) h, s.handles[q]? = some (some h) →
    s.born h.ino = some h.kind ∧ h.ino < s.world.os.next
  calls : ∀ (p : Nat) h, s.calls[p]? = some (.created h) →
    s.born h.ino = some h.kind ∧ h.ino < s.world.os.next

namespace KindsKept

variable {s s' : Sys c}

/-- A step that gives no handle and makes no object. -/
theorem of_fewer (hk : KindsKept s) (hl : s'.world.os.Sound ∧ s.world.os.Later s'.world.os)
    (hborn : s'.born = s.born)
    (hhandles : ∀ (q : Nat) h, s'.handles[q]? = some (some h) →
      (∃ q' : Nat, s.handles[q']? = some (some h)) ∨ ∃ p : Nat, s.calls[p]? = some (.created h))
    (hcalls : ∀ (p : Nat) h, s'.calls[p]? = some (.created h) → s.calls[p]? = some (.created h)) :
    KindsKept s' := by
  have hnext := hl.2.next
  refine ⟨hl.1, ?_, ?_⟩
  · intro q h hq
    rw [hborn]
    rcases hhandles q h hq with ⟨q', hq'⟩ | ⟨p, hp⟩
    · exact ⟨(hk.handles q' h hq').1, by have := (hk.handles q' h hq').2; omega⟩
    · exact ⟨(hk.calls p h hp).1, by have := (hk.calls p h hp).2; omega⟩
  · intro p h hp
    rw [hborn]
    exact ⟨(hk.calls p h (hcalls p h hp)).1, by
      have := (hk.calls p h (hcalls p h hp)).2
      omega⟩

/-- The kind of a new inode is remembered; the older ones keep theirs. -/
theorem born_update (hk : KindsKept s) {k : Kind} {h : Handle c}
    (hh : (∃ q : Nat, s.handles[q]? = some (some h)) ∨
      (∃ p : Nat, s.calls[p]? = some (.created h)) ∨ h.ino = s.world.os.next ∧ h.kind = k) :
    Function.update s.born s.world.os.next (some k) h.ino = some h.kind ∧
      h.ino < s.world.os.next + 1 := by
  rcases hh with ⟨q, hq⟩ | ⟨p, hp⟩ | ⟨hi, rfl⟩
  · obtain ⟨hb, hlt⟩ := hk.handles q h hq
    exact ⟨by rw [Function.update_of_ne (by omega), hb], by omega⟩
  · obtain ⟨hb, hlt⟩ := hk.calls p h hp
    exact ⟨by rw [Function.update_of_ne (by omega), hb], by omega⟩
  · exact ⟨by rw [hi, Function.update_self], by omega⟩

end KindsKept

/-- A changed call that is not a new object. -/
theorem created_of_set {s : Sys c} {p p' : Nat} {call : Call c} {h : Handle c}
    (hp' : (s.calls.set p call)[p']? = some (.created h)) (hc : ∀ h, call ≠ .created h) :
    s.calls[p']? = some (.created h) := by
  rcases Tally.getElem?_set_cases hp' with ⟨-, he⟩ | ⟨-, hp'⟩
  · exact absurd he.symm (hc h)
  · exact hp'

theorem kindsKept_step {s s' : Sys c} {l : Label} (hk : KindsKept s) (hl : Asked s l)
    (h : step s l = some s') : KindsKept s' := by
  have hlater := step_later hk.sound h
  cases trans_of_step h with
  | newRefused _ | newFailed _ _ _ _ | newInit _ _ _ | clearMissing _ | forceClear _ _ _ =>
    exact hk.of_fewer hlater rfl (fun q x hq => .inl ⟨q, hq⟩) fun p x hp => hp
  | refused | reserve _ _ | missing _ | lookup _ =>
    apply hk.of_fewer hlater rfl (fun q x hq => .inl ⟨q, hq⟩)
    intro p x hp
    rcases Tally.getElem?_append_cases hp with hp | ⟨-, he⟩
    · exact hp
    · cases he
  | createFailed hp _ | createInit hp _ | abort hp | attachFailed hp _ | attachLost hp _ _ _
  | drop hp =>
    apply hk.of_fewer hlater rfl (fun q x hq => .inl ⟨q, hq⟩)
    intro p x hx
    exact created_of_set hx fun _ => by rintro ⟨⟩
  | newDone _ _ _ _ _ _ _ _ _ _ =>
    refine ⟨hlater.1, fun q x hq => hk.born_update ?_, fun p x hp => hk.born_update ?_⟩
    · rcases Tally.getElem?_append_cases hq with hq | ⟨-, he⟩
      · exact .inl ⟨q, hq⟩
      · cases he
        exact .inr (.inr ⟨rfl, rfl⟩)
    · exact .inr (.inl ⟨p, hp⟩)
  | created _ _ _ _ _ =>
    refine ⟨hlater.1, fun q x hq => hk.born_update ?_, fun p x hp => hk.born_update ?_⟩
    · exact .inl ⟨q, hq⟩
    · rcases Tally.getElem?_set_cases hp with ⟨-, he⟩ | ⟨-, hp⟩
      · cases he
        exact .inr (.inr ⟨rfl, rfl⟩)
      · exact .inr (.inl ⟨p, hp⟩)
  | @publish p x hp =>
    refine hk.of_fewer hlater rfl ?_ ?_
    · intro q y hq
      rcases Tally.getElem?_append_cases hq with hq | ⟨-, he⟩
      · exact .inl ⟨q, hq⟩
      · cases he
        exact .inr ⟨p, hp⟩
    · intro p' y hy
      exact created_of_set hy fun _ => by rintro ⟨⟩
  | @attached p env k name i n ino o hp hf _ _ =>
    obtain ⟨hsound, hlater⟩ := hlater
    have hnext := hlater.next
    refine ⟨hsound, ?_, ?_⟩
    · intro q x hq
      rcases Tally.getElem?_append_cases hq with hq | ⟨-, he⟩
      · exact ⟨(hk.handles q x hq).1, lt_of_lt_of_le (hk.handles q x hq).2 hnext⟩
      · cases he
        exact ⟨(hl k name i hp n ino hf).2,
          lt_of_lt_of_le (hk.sound.bound _ _ _ hf.2.1) hnext⟩
    · intro p' x hx
      have hx := created_of_set hx fun _ => by rintro ⟨⟩
      exact ⟨(hk.calls p' x hx).1, lt_of_lt_of_le (hk.calls p' x hx).2 hnext⟩
  | @detach q' busy h' _ =>
    refine hk.of_fewer hlater rfl (fun q x hq => ?_) fun p x hp => hp
    rcases Tally.getElem?_set_cases hq with ⟨-, he⟩ | ⟨-, hq⟩
    · cases he
    · exact .inl ⟨q, hq⟩

theorem kindsKept_init (g : Internal c) : KindsKept (Sys.init g) := by
  refine ⟨Os.sound_empty, ?_, ?_⟩
  · intro q h hq
    simp [Sys.init] at hq
  · intro p h hp
    simp [Sys.init] at hp

/-- **Kinds.** In any state, the attachments of a kind to a name that succeed return handles to
slots and objects of that kind exactly if what is found under the name is of that kind; and in
every run all whose attachments find objects of the kind they ask for, or none, every handle is
to an object created as its kind. -/
theorem attach_kind_exact :
    (∀ (w : World c) (born : Nat → Option Kind) (k : Kind) (name : CString),
      (∀ env h w', shobjAttach k env name w = (.ok h, w') →
        (w'.mem.objects h.id).type = k.type ∧ born h.ino = some k) ↔
      ∀ i, findByName w.mem name = some i → OfKind k name w born i) ∧
    ∀ (g : Internal c) (ls : List Label) (s : Sys c),
      Lts.exec step (Sys.init g) ls = some s → Lts.AllSteps step Asked (Sys.init g) ls →
      ∀ (q : Nat) h, s.handles[q]? = some (some h) → s.born h.ino = some h.kind := by
  refine ⟨attach_ofKind_iff, fun g ls s hrun hall q h hq => ?_⟩
  have hk : KindsKept s :=
    Lts.exec_invariant (fun _ _ _ hk hl hs => kindsKept_step hk hl hs) (kindsKept_init g) hrun hall
  exact (hk.handles q h hq).1

/-- A mutex is attached to a mutex. -/
theorem attach_kind_exact_mutex :
    let ls : List Label := [.new .mutex .ok (.ofBytes [65]) 0 0, .lookup .mutex (.ofBytes [65]),
      .attach 0 .ok]
    ∃ s : Sys .two, Lts.exec step (Sys.init (.zero .two)) ls = some s ∧
      s.handles[1]? = some (some { kind := .mutex, ino := 0, id := 0 }) ∧
      s.born 0 = some .mutex := by
  intro ls
  have hrun : ∃ s : Sys .two, Lts.exec step (Sys.init (.zero .two)) ls = some s ∧
      s.handles[1]? = some (some { kind := .mutex, ino := 0, id := 0 }) := ⟨_, rfl, rfl⟩
  obtain ⟨s, hs, hh⟩ := hrun
  refine ⟨s, hs, hh, attach_kind_exact.2 _ _ s hs ?_ 1 _ hh⟩
  refine ⟨trivial, trivial, fun k name i hcall => ?_, trivial⟩
  cases hcall
  rintro n ino ⟨hn, hlink, -⟩
  obtain rfl : [47, 65] = n := Option.some.inj hn
  obtain rfl : 0 = ino := Option.some.inj hlink
  exact ⟨rfl, rfl⟩

/-- A mutex is attached to a plain memory. -/
theorem attach_other_kind :
    let ls : List Label := [.new .mem .ok (.ofBytes [65]) 84 0, .lookup .mutex (.ofBytes [65]),
      .attach 0 .ok]
    ∃ s : Sys .two, Lts.exec step (Sys.init (.zero .two)) ls = some s ∧
      s.handles[1]? = some (some { kind := .mutex, ino := 0, id := 0 }) ∧
      (s.world.mem.objects 0).type = Kind.mem.type ∧ s.born 0 = some .mem := by
  intro ls
  have hrun : (Lts.exec step (Sys.init (.zero .two)) ls).map (fun s : Sys .two => decide
      (s.handles[1]? = some (some { kind := .mutex, ino := 0, id := 0 }) ∧
        (s.world.mem.objects 0).type = Kind.mem.type ∧ s.born 0 = some .mem)) = some true := by
    decide
  simp only [Option.map_eq_some_iff, decide_eq_true_eq] at hrun
  exact hrun

end Urt.Posix
