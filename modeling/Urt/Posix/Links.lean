import Urt.Posix.System

/-!
# Names and inodes over time

A name is linked to an inode when the inode is new, and never again: `Os.Sound` says that
links lead to inodes in use, no two names to the same one, and that an inode was unlinked
once if it has no name any more. `Os.Later` says that from one state to the next every name
leads where it led before, to a new inode or nowhere. The bookkeeping of a segment is written
by whoever opens it, so an inode that has no name any more is frozen. Every step of every
process keeps to this (`step_later`).
-/

namespace Urt

variable {c : Config}

/-- Whether an event unlinks the given inode. -/
def OsEvent.unlinks (ino : Nat) : OsEvent → Bool
  | .unlink _ j => j == ino
  | .munmap _ _ | .semClose _ | .destroy _ => false

namespace Os

/-- How often an inode was unlinked. -/
def unlinks (os : Os c) (ino : Nat) : Nat := os.log.countP (OsEvent.unlinks ino)

/-- Links lead to inodes in use, and no two names to the same inode; an inode was unlinked
once if it has lost its name, and never otherwise. -/
structure Sound (os : Os c) : Prop where
  bound : ∀ sp n ino, os.link sp n = some ino → ino < os.next
  single : ∀ sp n sp' n' ino,
    os.link sp n = some ino → os.link sp' n' = some ino → (sp', n') = (sp, n)
  live : ∀ sp n ino, os.link sp n = some ino → os.unlinks ino = 0
  dead : ∀ ino < os.next, (∀ sp n, os.link sp n ≠ some ino) → os.unlinks ino = 1
  beyond : ∀ ino, os.next ≤ ino → os.unlinks ino = 0

/-- What can become of the names and inodes of `os`. -/
structure Later (os os' : Os c) : Prop where
  next : os.next ≤ os'.next
  link : ∀ sp n ino, os'.link sp n = some ino → os.link sp n = some ino ∨ os.next ≤ ino
  frozen : ∀ ino < os.next, (∀ sp n, os.link sp n ≠ some ino) → os'.inode ino = os.inode ino

theorem sound_empty : (Os.empty c).Sound := by
  refine ⟨?_, ?_, ?_, ?_, ?_⟩
  · rintro sp n ino ⟨⟩
  · rintro sp n sp' n' ino ⟨⟩
  · rintro sp n ino ⟨⟩
  · rintro ino ⟨⟩
  · exact fun _ _ => rfl

theorem Later.refl (os : Os c) : os.Later os := ⟨le_refl _, fun _ _ _ h => .inl h, fun _ _ _ => rfl⟩

/-- An inode without a name stays without one. -/
theorem Later.unlinked {os os' : Os c} (h : os.Later os') {ino : Nat} (hlt : ino < os.next)
    (hno : ∀ sp n, os.link sp n ≠ some ino) (sp : Space) (n : OsName) :
    os'.link sp n ≠ some ino := by
  intro hl
  rcases h.link sp n ino hl with hl | hge
  · exact hno sp n hl
  · omega

theorem Later.trans {os os' os'' : Os c} (h : os.Later os') (h' : os'.Later os'') :
    os.Later os'' := by
  refine ⟨h.next.trans h'.next, ?_, ?_⟩
  · intro sp n ino hl
    rcases h'.link sp n ino hl with hl | hge
    · exact h.link sp n ino hl
    · exact .inr (h.next.trans hge)
  · intro ino hlt hno
    rw [h'.frozen ino (lt_of_lt_of_le hlt h.next) (h.unlinked hlt hno), h.frozen ino hlt hno]

/-! ## One change at a time -/

theorem later_of_fewer {os os' : Os c} (hnext : os.next ≤ os'.next)
    (hlink : ∀ sp n ino, os'.link sp n = some ino → os.link sp n = some ino)
    (hinode : ∀ ino < os.next, os'.inode ino = os.inode ino) : os.Later os' :=
  ⟨hnext, fun sp n ino hl => .inl (hlink sp n ino hl), fun ino hlt _ => hinode ino hlt⟩

/-- Nothing about names has changed. -/
theorem sound_of_quiet {os os' : Os c} (h : os.Sound) (hlink : os'.link = os.link)
    (hnext : os'.next = os.next) (hunlinks : ∀ ino, os'.unlinks ino = os.unlinks ino) :
    os'.Sound := by
  refine ⟨?_, ?_, ?_, ?_, ?_⟩
  · intro sp n ino hl
    rw [hlink] at hl
    rw [hnext]
    exact h.bound sp n ino hl
  · intro sp n sp' n' ino hl hl'
    rw [hlink] at hl hl'
    exact h.single sp n sp' n' ino hl hl'
  · intro sp n ino hl
    rw [hlink] at hl
    rw [hunlinks]
    exact h.live sp n ino hl
  · intro ino hlt hno
    rw [hlink] at hno
    rw [hnext] at hlt
    rw [hunlinks]
    exact h.dead ino hlt hno
  · intro ino hge
    rw [hnext] at hge
    rw [hunlinks]
    exact h.beyond ino hge

theorem unlinks_append (os : Os c) (ino : Nat) (es : List OsEvent) :
    unlinks { os with log := os.log ++ es } ino =
      os.unlinks ino + es.countP (OsEvent.unlinks ino) := List.countP_append

theorem unlinks_unlink (ino : Nat) (sp : Space) (j : Nat) :
    [OsEvent.unlink sp j].countP (OsEvent.unlinks ino) = if j = ino then 1 else 0 := by
  simp [OsEvent.unlinks]

theorem unmade_later {os os' : Os c} (h : os.Unmade os') (hs : os.Sound) :
    os'.Sound ∧ os.Later os' := by
  have hlater : os.Later os' :=
    later_of_fewer h.next (fun sp n ino hl => by rwa [h.link] at hl) h.inode
  refine ⟨?_, hlater⟩
  rcases h.log with ⟨hnext, hlog⟩ | ⟨hnext, hlog⟩
  · exact sound_of_quiet hs h.link hnext fun ino => by rw [unlinks, hlog, unlinks]
  · have hcount : ∀ ino, os'.unlinks ino =
        os.unlinks ino + if os.next = ino then 1 else 0 := by
      intro ino
      rw [unlinks, hlog, List.countP_append, unlinks_unlink, unlinks]
    refine ⟨?_, ?_, ?_, ?_, ?_⟩
    · intro sp n ino hl
      rw [h.link] at hl
      have := hs.bound sp n ino hl
      omega
    · intro sp n sp' n' ino hl hl'
      rw [h.link] at hl hl'
      exact hs.single sp n sp' n' ino hl hl'
    · intro sp n ino hl
      rw [h.link] at hl
      have := hs.bound sp n ino hl
      rw [hcount, hs.live sp n ino hl, if_neg (by omega)]
    · intro ino hlt hno
      rw [h.link] at hno
      rw [hcount]
      by_cases he : os.next = ino
      · rw [if_pos he, hs.beyond ino (by omega)]
      · rw [if_neg he, hs.dead ino (by omega) hno]
    · intro ino hge
      rw [hcount, hs.beyond ino (by omega), if_neg (by omega)]

theorem unlink_later {os : Os c} (hs : os.Sound) (sp : Space) (n : OsName) :
    (os.unlink sp n).Sound ∧ os.Later (os.unlink sp n) := by
  have hlater : os.Later (os.unlink sp n) :=
    later_of_fewer (unlink_next os sp n).ge (fun _ _ _ hl => (link_of_unlink hl).2)
      fun ino _ => by rw [unlink_inode]
  refine ⟨?_, hlater⟩
  cases hl : os.link sp n with
  | none =>
    rw [show os.unlink sp n = os by rw [unlink, hl]]
    exact hs
  | some j =>
    have hcount : ∀ ino, (os.unlink sp n).unlinks ino =
        os.unlinks ino + if j = ino then 1 else 0 := by
      intro ino
      rw [unlink, hl, unlinks, emit_log, List.countP_append, unlinks_unlink]
      rfl
    refine ⟨?_, ?_, ?_, ?_, ?_⟩
    · intro sp' n' ino hl'
      rw [unlink_next]
      exact hs.bound sp' n' ino (link_of_unlink hl').2
    · intro sp₁ n₁ sp₂ n₂ ino h₁ h₂
      exact hs.single sp₁ n₁ sp₂ n₂ ino (link_of_unlink h₁).2 (link_of_unlink h₂).2
    · intro sp' n' ino hl'
      obtain ⟨hne, hl'⟩ := link_of_unlink hl'
      rw [hcount, hs.live sp' n' ino hl', if_neg]
      rintro rfl
      exact hne (hs.single sp n sp' n' j hl hl')
    · intro ino hlt hno
      rw [unlink_next] at hlt
      rw [hcount]
      by_cases he : j = ino
      · rw [if_pos he, ← he, hs.live sp n j hl]
      · rw [if_neg he, hs.dead ino hlt]
        intro sp' n' hl'
        by_cases hn : (sp', n') = (sp, n)
        · cases hn
          exact he (Option.some.inj (hl.symm.trans hl'))
        · exact hno sp' n' (by rwa [unlink_of_ne os hn])
    · intro ino hge
      rw [unlink_next] at hge
      have := hs.bound sp n j hl
      rw [hcount, hs.beyond ino hge, if_neg (by omega)]

/-- Effects that unlink nothing. -/
theorem log_later {os : Os c} (hs : os.Sound) {es : List OsEvent}
    (hes : ∀ e ∈ es, ∀ sp ino, e ≠ .unlink sp ino) :
    Sound { os with log := os.log ++ es } ∧ os.Later { os with log := os.log ++ es } := by
  have hzero : ∀ ino, es.countP (OsEvent.unlinks ino) = 0 := by
    intro ino
    rw [List.countP_eq_zero]
    intro e he hu
    cases e with
    | unlink sp j => exact hes _ he sp j rfl
    | munmap _ _ | semClose _ | destroy _ => cases hu
  exact ⟨sound_of_quiet hs rfl rfl fun ino => by rw [unlinks_append, hzero, Nat.add_zero],
    later_of_fewer (le_refl _) (fun _ _ _ hl => hl) fun _ _ => rfl⟩

theorem released_later {os : Os c} (hs : os.Sound) (busy : List Bool) (h : Handle c)
    (ro : RegisteredObject) :
    (released busy h ro os).Sound ∧ os.Later (released busy h ro os) := by
  obtain ⟨hs₁, hl₁⟩ := log_later hs fun e (he : e ∈ closing busy h ro) => closing_ne_unlink he
  unfold released
  dsimp only
  split
  · split
    · obtain ⟨hs₂, hl₂⟩ := unlink_later hs₁ h.kind.space ‹_›
      exact ⟨hs₂, hl₁.trans hl₂⟩
    · exact ⟨hs₁, hl₁⟩
  · exact ⟨hs₁, hl₁⟩

theorem sysForceClearName_later {os : Os c} (hs : os.Sound) (ro : RegisteredObject) :
    (sysForceClearName ro os).Sound ∧ os.Later (sysForceClearName ro os) := by
  unfold sysForceClearName
  split
  · exact ⟨hs, .refl os⟩
  · split
    · exact unlink_later hs _ _
    · exact unlink_later hs _ _
    · exact unlink_later hs _ _
    · exact unlink_later hs _ _
    · exact unlink_later hs _ _
    · exact ⟨hs, .refl os⟩

theorem create_inode {os : Os c} (sp : Space) (n : OsName) (x : Inode c) {ino : Nat}
    (h : ino < os.next) : (os.create sp n x).inode ino = os.inode ino :=
  Function.update_of_ne (by omega) _ _

theorem create_inode_self (os : Os c) (sp : Space) (n : OsName) (x : Inode c) :
    (os.create sp n x).inode os.next = x := Function.update_self _ _ _

/-- What a name leads to after a creation. -/
theorem link_of_create {os : Os c} {sp sp' : Space} {n n' : OsName} {x : Inode c} {ino : Nat}
    (h : (os.create sp n x).link sp' n' = some ino) :
    (sp', n') = (sp, n) ∧ ino = os.next ∨ (sp', n') ≠ (sp, n) ∧ os.link sp' n' = some ino := by
  by_cases he : (sp', n') = (sp, n)
  · cases he
    rw [create_link_self] at h
    exact .inl ⟨rfl, (Option.some.inj h).symm⟩
  · rw [create_link_of_ne os x he] at h
    exact .inr ⟨he, h⟩

theorem create_later {os : Os c} (hs : os.Sound) {sp : Space} {n : OsName} (x : Inode c)
    (hfree : os.link sp n = none) :
    (os.create sp n x).Sound ∧ os.Later (os.create sp n x) := by
  refine ⟨⟨?_, ?_, ?_, ?_, fun ino hge => hs.beyond ino (Nat.le_of_succ_le hge)⟩,
    ⟨Nat.le_succ _, ?_, fun ino hlt _ => create_inode sp n x hlt⟩⟩
  · intro sp' n' ino hl
    change ino < os.next + 1
    rcases link_of_create hl with ⟨-, rfl⟩ | ⟨-, hl⟩
    · omega
    · have := hs.bound sp' n' ino hl
      omega
  · intro sp₁ n₁ sp₂ n₂ ino h₁ h₂
    rcases link_of_create h₁ with ⟨he₁, hi₁⟩ | ⟨-, h₁⟩
    · rcases link_of_create h₂ with ⟨he₂, -⟩ | ⟨-, h₂⟩
      · rw [he₁, he₂]
      · have := hs.bound sp₂ n₂ ino h₂
        omega
    · rcases link_of_create h₂ with ⟨-, hi₂⟩ | ⟨-, h₂⟩
      · have := hs.bound sp₁ n₁ ino h₁
        omega
      · exact hs.single sp₁ n₁ sp₂ n₂ ino h₁ h₂
  · intro sp' n' ino hl
    rcases link_of_create hl with ⟨-, rfl⟩ | ⟨-, hl⟩
    · exact hs.beyond _ (le_refl _)
    · exact hs.live sp' n' ino hl
  · intro ino hlt hno
    change ino < os.next + 1 at hlt
    have hne : ino ≠ os.next := by
      rintro rfl
      exact hno sp n (create_link_self os sp n x)
    apply hs.dead ino (by omega)
    intro sp' n' hl
    by_cases he : (sp', n') = (sp, n)
    · cases he
      rw [hfree] at hl
      cases hl
    · exact hno sp' n' (by rwa [create_link_of_ne os x he])
  · intro sp' n' ino hl
    rcases link_of_create hl with ⟨-, rfl⟩ | ⟨-, hl⟩
    · exact .inr (le_refl _)
    · exact .inl hl

@[simp] theorem setId_link (os : Os c) (k : Kind) (ino : Nat) (id : Slot c) :
    (os.setId k ino id).link = os.link := by
  unfold setId
  cases k.space <;> rfl

@[simp] theorem setId_next (os : Os c) (k : Kind) (ino : Nat) (id : Slot c) :
    (os.setId k ino id).next = os.next := by
  unfold setId
  cases k.space <;> rfl

@[simp] theorem setId_log (os : Os c) (k : Kind) (ino : Nat) (id : Slot c) :
    (os.setId k ino id).log = os.log := by
  unfold setId
  cases k.space <;> rfl

theorem setId_inode_of_ne (os : Os c) (k : Kind) {ino j : Nat} (id : Slot c) (h : j ≠ ino) :
    (os.setId k ino id).inode j = os.inode j := by
  unfold setId
  cases k.space with
  | shm => exact Function.update_of_ne h _ _
  | sem => rfl

/-- Writing a slot number that is there already. -/
theorem setId_self {os : Os c} {k : Kind} {ino : Nat} {id : Slot c}
    (h : k.space = .shm → (os.inode ino).id = id) : os.setId k ino id = os := by
  unfold setId
  cases hk : k.space with
  | shm =>
    have hsame : { os.inode ino with id := id } = os.inode ino := by rw [← h hk]
    simp only [setInode, hsame, Function.update_eq_self]
  | sem => rfl

/-- The bookkeeping is written to a segment that has a name. -/
theorem setId_later {os : Os c} (hs : os.Sound) (k : Kind) {sp : Space} {n : OsName} {ino : Nat}
    (hl : os.link sp n = some ino) (id : Slot c) :
    (os.setId k ino id).Sound ∧ os.Later (os.setId k ino id) := by
  refine ⟨sound_of_quiet hs (setId_link os k ino id) (setId_next os k ino id) ?_,
    (setId_next os k ino id).ge, fun sp n j h => .inl (by rwa [setId_link] at h), ?_⟩
  · intro j
    rw [unlinks, setId_log, unlinks]
  · intro j _ hno
    refine setId_inode_of_ne os k id ?_
    rintro rfl
    exact hno sp n hl

end Os

/-- `urt_shmem_delete` is the detachment of a memory. -/
theorem shmemDetach_eq (ino : Nat) (w : World c) :
    shmemDetach ino w = detach [] { kind := .mem, ino := ino, id := 0 } w := rfl

theorem shmemDetach_later {w : World c} (hs : w.os.Sound) (ino : Nat) :
    (shmemDetach ino w).os.Sound ∧ w.os.Later (shmemDetach ino w).os := by
  rw [shmemDetach_eq, detach_eq]
  exact Os.released_later hs _ _ _

/-- A lock whose initialisation fails is created and deleted. -/
theorem created_shmemDetach_later {w : World c} (hs : w.os.Sound) (g : Internal c) {n : OsName}
    (x : Inode c) (ino : Nat) (hfree : w.os.link .shm n = none) :
    (shmemDetach ino { mem := g, os := w.os.create .shm n x }).os.Sound ∧
      w.os.Later (shmemDetach ino { mem := g, os := w.os.create .shm n x }).os := by
  obtain ⟨hs₁, hl₁⟩ := Os.create_later hs x hfree
  obtain ⟨hs₂, hl₂⟩ := shmemDetach_later (w := { mem := g, os := w.os.create .shm n x }) hs₁ ino
  exact ⟨hs₂, hl₁.trans hl₂⟩

theorem initFailed_later {w : World c} (hs : w.os.Sound) (k : Kind) (name : CString) (i : Slot c)
    {n : OsName} (hfree : w.os.link .shm n = none) :
    (initFailed k name i n w).os.Sound ∧ w.os.Later (initFailed k name i n w).os :=
  created_shmemDetach_later hs _ _ _ hfree

namespace Posix

/-- Every step keeps the names sound and moves them on. -/
theorem step_later {s s' : Sys c} {l : Label} (hs : s.world.os.Sound)
    (h : step s l = some s') : s'.world.os.Sound ∧ s.world.os.Later s'.world.os := by
  cases trans_of_step h with
  | newRefused _ | refused | reserve _ _ | publish _ | abort _ | missing _ | lookup _
  | attachFailed _ _ | drop _ | clearMissing _ => exact ⟨hs, .refl _⟩
  | newFailed _ _ _ hos | createFailed _ hos => exact Os.unmade_later hos hs
  | @newInit k _ name _ _ i _ _ _ hmade =>
    have hinit := initFailed_later hs k name i hmade.2.1
    exact hinit
  | createInit _ hmade => exact created_shmemDetach_later hs _ _ _ hmade.2.1
  | newDone _ _ _ hlink _ _ _ _ _ _ | created _ _ hlink _ _ => exact Os.create_later hs _ hlink
  | attached hp hf ho htype => exact Os.setId_later hs _ hf.2.1 _
  | attachLost _ _ _ _ => exact Os.unlink_later hs _ _
  | detach hq => exact Os.released_later hs _ _ _
  | forceClear _ _ _ => exact Os.sysForceClearName_later hs _

end Posix

end Urt
