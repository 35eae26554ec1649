import Mathlib.Data.Fintype.Basic
import Mathlib.Logic.Function.Basic
import Urt.Registry.Index

/-!
# Crashes and `urt_recover`

A process that dies between `urt_global_sem_wait` and `urt_global_sem_post` leaves the global
semaphore taken and the registry in whatever state it was writing. `urt_recover`
(`src/setup_common.c`, run by `tools/recover`) takes the semaphore only if it is there, makes
`objects_max_index` exact again and raises the semaphore.

It cannot tell a semaphore whose holder died from one whose holder is at work.
`exclusive_iff_alone` says that this is the only danger: critical sections exclude each other all
through a run exactly if nobody is inside whenever a recovery begins. With that, lookups see
every slot in use after any crash that was recovered from (`lookups_exact`), and a recovery is
needed and enough (`recovery_reopens`).
-/

namespace Urt.Recovery

variable {c : Config} {T : Type}

/-! ## Processes -/

/-- Where a process is. -/
inductive Phase where
  | outside
  /-- past `urt_global_sem_wait` -/
  | inside
  /-- in `urt_recover`, past `urt_global_sem_try_wait` -/
  | recovering
  /-- in `urt_recover`, before `urt_global_sem_post` -/
  | repaired
  | dead
  deriving DecidableEq, Repr

/-- The process may be reading and writing the registry. -/
def Phase.busy : Phase → Bool
  | inside | recovering | repaired => true
  | outside | dead => false

structure State (c : Config) (T : Type) where
  /-- the count of the global semaphore -/
  count : Nat
  mem : Internal c
  phase : T → Phase

/-- The semaphore was created with one, and the registry initialised. -/
def State.init (g : Internal c) : State c T :=
  { count := 1, mem := (registryInit g).2, phase := fun _ => .outside }

inductive Label (c : Config) (T : Type) where
  /-- return from `urt_global_sem_wait` -/
  | enter (t : T)
  /-- a critical section of the registry -/
  | work (t : T) (l : Section c)
  /-- `urt_global_sem_post` -/
  | leave (t : T)
  /-- `urt_recover`, up to `urt_global_sem_try_wait` -/
  | recover (t : T)
  /-- `urt_recover`, up to `urt_global_sem_post`; `memGet` says whether `urt_global_mem_get`
  fails -/
  | repair (t : T) (memGet : Bool)
  /-- `urt_global_sem_post` of `urt_recover` -/
  | finish (t : T)
  /-- The process dies. If it was busy it leaves any content at all in the registry. -/
  | crash (t : T) (left : Internal c)

/-- `sem_trywait` -/
def semTryWait (count : Nat) : Nat := if 0 < count then count - 1 else count

variable [DecidableEq T]

def State.setPhase (s : State c T) (t : T) (ph : Phase) : State c T :=
  { s with phase := Function.update s.phase t ph }

/-- One step; `none` if the label cannot happen. -/
def step (s : State c T) : Label c T → Option (State c T)
  | .enter t =>
      if s.phase t = .outside ∧ 0 < s.count then
        some { s.setPhase t .inside with count := s.count - 1 }
      else none
  | .work t l =>
      if s.phase t = .inside then (sectionStep s.mem l).map fun g => { s with mem := g }
      else none
  | .leave t =>
      if s.phase t = .inside then some { s.setPhase t .outside with count := s.count + 1 }
      else none
  | .recover t =>
      if s.phase t = .outside then
        some { s.setPhase t .recovering with count := semTryWait s.count }
      else none
  | .repair t memGet =>
      if s.phase t = .recovering then
        some { s.setPhase t .repaired with mem := Urt.recover false false memGet s.mem }
      else none
  | .finish t =>
      if s.phase t = .repaired then some { s.setPhase t .outside with count := s.count + 1 }
      else none
  | .crash t left =>
      if s.phase t = .dead then none
      else some { s.setPhase t .dead with mem := if (s.phase t).busy then left else s.mem }

/-! ## What a step does -/

/-- A process that is not busy takes the semaphore, or takes over what is left of it. -/
inductive Trans (s : State c T) : Label c T → State c T → Prop where
  | enter {t : T} (ht : s.phase t = .outside) (hc : 0 < s.count) :
      Trans s (.enter t) { s.setPhase t .inside with count := s.count - 1 }
  | work {t : T} {l : Section c} {g : Internal c} (ht : s.phase t = .inside)
      (hl : sectionStep s.mem l = some g) : Trans s (.work t l) { s with mem := g }
  | leave {t : T} (ht : s.phase t = .inside) :
      Trans s (.leave t) { s.setPhase t .outside with count := s.count + 1 }
  | recover {t : T} (ht : s.phase t = .outside) :
      Trans s (.recover t) { s.setPhase t .recovering with count := semTryWait s.count }
  | repair {t : T} {memGet : Bool} (ht : s.phase t = .recovering) :
      Trans s (.repair t memGet)
        { s.setPhase t .repaired with mem := Urt.recover false false memGet s.mem }
  | finish {t : T} (ht : s.phase t = .repaired) :
      Trans s (.finish t) { s.setPhase t .outside with count := s.count + 1 }
  | crash {t : T} {left : Internal c} (ht : s.phase t ≠ .dead) :
      Trans s (.crash t left)
        { s.setPhase t .dead with mem := if (s.phase t).busy then left else s.mem }

theorem trans_of_step {s s' : State c T} {l : Label c T} (h : step s l = some s') :
    Trans s l s' := by
  cases l with
  | enter t =>
    simp only [step] at h
    split at h
    · rename_i ht
      cases h
      exact .enter ht.1 ht.2
    · cases h
  | work t l =>
    simp only [step] at h
    split at h
    · rename_i ht
      obtain ⟨g, hg, rfl⟩ := Option.map_eq_some_iff.mp h
      exact .work ht hg
    · cases h
  | leave t =>
    simp only [step] at h
    split at h
    · rename_i ht
      cases h
      exact .leave ht
    · cases h
  | recover t =>
    simp only [step] at h
    split at h
    · rename_i ht
      cases h
      exact .recover ht
    · cases h
  | repair t memGet =>
    simp only [step] at h
    split at h
    · rename_i ht
      cases h
      exact .repair ht
    · cases h
  | finish t =>
    simp only [step] at h
    split at h
    · rename_i ht
      cases h
      exact .finish ht
    · cases h
  | crash t left =>
    simp only [step] at h
    split at h
    · cases h
    · rename_i ht
      cases h
      exact .crash ht

/-! ## Mutual exclusion -/

/-- Some process is busy. -/
def Busy (s : State c T) (t : T) : Prop := (s.phase t).busy = true

/-- At most one process is busy, and then nobody else can enter. -/
structure Exclusive (s : State c T) : Prop where
  count : s.count ≤ 1
  shut : ∀ t, Busy s t → s.count = 0
  sole : ∀ t u, Busy s t → Busy s u → t = u

/-- A recovery only begins when nobody is busy. -/
def Alone (s : State c T) : Label c T → Prop
  | .recover _ => ∀ u, ¬ Busy s u
  | .enter _ | .work _ _ | .leave _ | .repair _ _ | .finish _ | .crash _ _ => True

instance [Fintype T] (s : State c T) (l : Label c T) : Decidable (Alone s l) :=
  match l with
  | .recover _ => inferInstanceAs (Decidable (∀ u, ¬ (s.phase u).busy = true))
  | .enter _ | .work _ _ | .leave _ | .repair _ _ | .finish _ | .crash _ _ =>
      inferInstanceAs (Decidable True)

omit [DecidableEq T] in
theorem exclusive_init (g : Internal c) : Exclusive (State.init g : State c T) where
  count := le_rfl
  shut t h := by cases h
  sole t u h := by cases h

/-- Who is busy after one process has moved on. -/
theorem busy_setPhase (s : State c T) (t u : T) (ph : Phase) :
    Busy (s.setPhase t ph) u ↔ if u = t then ph.busy = true else Busy s u := by
  unfold Busy State.setPhase
  dsimp only
  by_cases hu : u = t
  · rw [hu, Function.update_self, if_pos rfl]
  · rw [Function.update_of_ne hu, if_neg hu]

/-- The only busy process raises the semaphore and stops being busy. -/
theorem Exclusive.post {s : State c T} (h : Exclusive s) {t : T} (ht : Busy s t) :
    Exclusive { s.setPhase t .outside with count := s.count + 1 } ∧
      ∀ u, ¬ Busy { s.setPhase t .outside with count := s.count + 1 } u := by
  have hnone : ∀ u, ¬ Busy { s.setPhase t .outside with count := s.count + 1 } u := by
    intro u hu
    have hu' := (busy_setPhase s t u .outside).mp hu
    split at hu'
    · cases hu'
    · rename_i hne
      exact hne (h.sole u t hu' ht)
  refine ⟨⟨?_, fun u hu => absurd hu (hnone u), fun u v hu => absurd hu (hnone u)⟩, hnone⟩
  rw [h.shut t ht]

/-- Nobody is busy, and one process starts to be. -/
theorem Exclusive.acquire {s s' : State c T} (hnone : ∀ u, ¬ Busy s u) (t : T) (ph : Phase)
    (hphase : s'.phase = (s.setPhase t ph).phase) (hcount : s'.count = 0) : Exclusive s' := by
  have honly : ∀ u, Busy s' u → u = t := by
    intro u hu
    rw [Busy, hphase] at hu
    have hu' := (busy_setPhase s t u ph).mp hu
    split at hu'
    · assumption
    · exact absurd hu' (hnone u)
  refine ⟨by omega, fun _ _ => hcount, ?_⟩
  intro u v hu hv
  rw [honly u hu, honly v hv]

omit [DecidableEq T] in
/-- The same processes are busy, or fewer. -/
theorem Exclusive.mono {s s' : State c T} (h : Exclusive s) (hbusy : ∀ u, Busy s' u → Busy s u)
    (hcount : s'.count = s.count) : Exclusive s' :=
  ⟨hcount ▸ h.count, fun t ht => hcount ▸ h.shut t (hbusy t ht),
    fun t u ht hu => h.sole t u (hbusy t ht) (hbusy u hu)⟩

theorem exclusive_step {s s' : State c T} {l : Label c T} (h : Exclusive s) (hl : Alone s l)
    (hs : step s l = some s') : Exclusive s' := by
  have hcount := h.count
  cases trans_of_step hs with
  | @enter t ht hc =>
    refine .acquire (fun u hu => ?_) t .inside rfl ?_
    · have := h.shut u hu
      omega
    · change s.count - 1 = 0
      omega
  | work ht _ => exact h.mono (fun _ hu => hu) rfl
  | @leave t ht =>
    have hbusy : Busy s t := by rw [Busy, ht]; rfl
    exact (h.post hbusy).1
  | @recover t ht =>
    refine .acquire hl t .recovering rfl ?_
    change semTryWait s.count = 0
    unfold semTryWait
    split <;> omega
  | @repair t memGet ht =>
    refine h.mono (fun u hu => ?_) rfl
    have hu' := (busy_setPhase s t u .repaired).mp hu
    split at hu'
    · rename_i hut
      rw [hut, Busy, ht]
      rfl
    · exact hu'
  | @finish t ht =>
    have hbusy : Busy s t := by rw [Busy, ht]; rfl
    exact (h.post hbusy).1
  | @crash t left ht =>
    refine h.mono (fun u hu => ?_) rfl
    have hu' := (busy_setPhase s t u .dead).mp hu
    split at hu'
    · cases hu'
    · exact hu'

/-- Recovering while somebody is busy makes two. -/
theorem not_exclusive_of_recover {s s' : State c T} {l : Label c T} (hs : step s l = some s')
    (hl : ¬ Alone s l) : ¬ Exclusive s' := by
  intro h
  cases trans_of_step hs with
  | enter _ _ | work _ _ | leave _ | repair _ | finish _ | crash _ => exact hl trivial
  | @recover t ht =>
    apply hl
    intro u hu
    have hut : u ≠ t := by
      rintro rfl
      rw [Busy, ht] at hu
      cases hu
    have hu' := (busy_setPhase s t u .recovering).mpr (by rw [if_neg hut]; exact hu)
    have ht' := (busy_setPhase s t t .recovering).mpr (by rw [if_pos rfl]; rfl)
    exact hut (h.sole u t hu' ht')

/-- **Mutual exclusion with recovery.** In every run from an initialised registry, at every time
at most one process is in a critical section or in a recovery and the semaphore is then taken,
if and only if no recovery of the run begins while a process is in a critical section or in
another recovery. Processes may die at any time. -/
theorem exclusive_iff_alone (g : Internal c) {ls : List (Label c T)} {s : State c T}
    (hrun : Lts.exec step (State.init g) ls = some s) :
    Lts.AllStates step Exclusive (State.init g) ls ↔ Lts.AllSteps step Alone (State.init g) ls := by
  apply Lts.allStates_iff (I := Exclusive) (fun _ h => h) _ _ (exclusive_init g) hrun
  · intro s l t h hs hl
    exact exclusive_step h hl hs
  · intro s l t _ hs hl
    exact not_exclusive_of_recover hs hl

/-- The first process dies inside, and the second one recovers and enters. -/
theorem exclusive_iff_alone_two :
    let ls : List (Label .two (Fin 2)) :=
      [.enter 0, .crash 0 (.zero .two), .recover 1, .repair 1 false, .finish 1, .enter 1]
    Lts.AllStates step Exclusive (State.init (.zero .two)) ls := by
  intro ls
  have hsome : (Lts.exec step (State.init (.zero .two)) ls).isSome = true := by decide
  obtain ⟨s, hs⟩ := Option.isSome_iff_exists.mp hsome
  exact (exclusive_iff_alone (.zero .two) hs).mpr (by decide)

/-! ## The registry -/

/-- What processes keep to: recovering alone, and with the registry at hand, and sections within
the limits of counts. -/
def Careful (s : State c T) : Label c T → Prop
  | .recover _ => ∀ u, ¬ Busy s u
  | .repair _ memGet => memGet = false
  | .work _ l => SectionAllowed s.mem l
  | .enter _ | .leave _ | .finish _ | .crash _ _ => True

instance [Fintype T] (s : State c T) (l : Label c T) : Decidable (Careful s l) :=
  match l with
  | .recover _ => inferInstanceAs (Decidable (∀ u, ¬ (s.phase u).busy = true))
  | .repair _ memGet => inferInstanceAs (Decidable (memGet = false))
  | .work _ l => inferInstanceAs (Decidable (SectionAllowed s.mem l))
  | .enter _ | .leave _ | .finish _ | .crash _ _ => inferInstanceAs (Decidable True)

/-- The index is exact while the semaphore is free, while a process is in a critical section,
and once a recovery has been over it. -/
structure Sound (s : State c T) : Prop where
  exclusive : Exclusive s
  free : 0 < s.count → s.mem.Tight
  inside : ∀ t, s.phase t = .inside → s.mem.Tight
  repaired : ∀ t, s.phase t = .repaired → s.mem.Tight

omit [DecidableEq T] in
theorem sound_init {g : Internal c} (hg : g.initialized = false) :
    Sound (State.init g : State c T) where
  exclusive := exclusive_init g
  free _ := registryInit_tight hg
  inside t h := by cases h
  repaired t h := by cases h

omit [DecidableEq T] in
theorem alone_of_careful {s : State c T} {l : Label c T} (h : Careful s l) : Alone s l := by
  cases l with
  | recover t => exact h
  | enter _ | work _ _ | leave _ | repair _ _ | finish _ | crash _ _ => trivial

/-- The semaphore is taken, and whoever took it is gone. -/
def Stuck (s : State c T) : Prop := s.count = 0 ∧ ∀ t, ¬ Busy s t

omit [DecidableEq T] in
theorem Stuck.sound {s : State c T} (h : Stuck s) : Sound s := by
  obtain ⟨hcount, hnone⟩ := h
  refine ⟨⟨by omega, fun _ _ => hcount, fun t u ht => absurd ht (hnone t)⟩, ?_, ?_, ?_⟩
  · intro hc
    omega
  · intro t ht
    exact absurd (by rw [Busy, ht]; rfl) (hnone t)
  · intro t ht
    exact absurd (by rw [Busy, ht]; rfl) (hnone t)

/-- A process that dies while it is busy leaves the semaphore taken. -/
theorem stuck_of_crash {s s' : State c T} (h : Exclusive s) {t : T} {left : Internal c}
    (ht : Busy s t) (hs : step s (.crash t left) = some s') : Stuck s' := by
  cases trans_of_step hs with
  | crash _ =>
    refine ⟨h.shut t ht, fun u hu => ?_⟩
    have hu' := (busy_setPhase s t u .dead).mp hu
    split at hu'
    · cases hu'
    · rename_i hne
      exact hne (h.sole u t hu' ht)

/-- The phase of a process after one has moved on. -/
theorem phase_setPhase {s : State c T} {t u : T} {ph ph' : Phase}
    (h : (s.setPhase t ph).phase u = ph') : (u = t ∧ ph = ph') ∨ s.phase u = ph' := by
  unfold State.setPhase at h
  dsimp only at h
  by_cases hu : u = t
  · subst hu
    rw [Function.update_self] at h
    exact .inl ⟨rfl, h⟩
  · rw [Function.update_of_ne hu] at h
    exact .inr h

theorem sound_step {s s' : State c T} {l : Label c T} (h : Sound s) (hl : Careful s l)
    (hs : step s l = some s') : Sound s' := by
  have hexclusive := exclusive_step h.exclusive (alone_of_careful hl) hs
  cases trans_of_step hs with
  | @enter t ht hc =>
    have htight := h.free hc
    exact ⟨hexclusive, fun _ => htight, fun _ _ => htight, fun _ _ => htight⟩
  | @work t l g ht hg =>
    have htight := sectionStep_tight (h.inside t ht) hl hg
    exact ⟨hexclusive, fun _ => htight, fun _ _ => htight, fun _ _ => htight⟩
  | @leave t ht =>
    have htight := h.inside t ht
    exact ⟨hexclusive, fun _ => htight, fun _ _ => htight, fun _ _ => htight⟩
  | @recover t ht =>
    refine ⟨hexclusive, fun hc => ?_, fun u hu => ?_, fun u hu => ?_⟩
    · have hbusy : Busy { s.setPhase t .recovering with count := semTryWait s.count } t :=
        (busy_setPhase s t t .recovering).mpr (by rw [if_pos rfl]; rfl)
      rw [hexclusive.shut t hbusy] at hc
      exact absurd hc (Nat.lt_irrefl 0)
    · rcases phase_setPhase hu with ⟨-, hph⟩ | hu'
      · cases hph
      · exact absurd (by rw [Busy, hu']; rfl) (hl u)
    · rcases phase_setPhase hu with ⟨-, hph⟩ | hu'
      · cases hph
      · exact absurd (by rw [Busy, hu']; rfl) (hl u)
  | @repair t memGet ht =>
    have htight : (Urt.recover false false memGet s.mem).Tight := by
      rw [show memGet = false from hl]
      exact recoverIndex_tight s.mem
    exact ⟨hexclusive, fun _ => htight, fun _ _ => htight, fun _ _ => htight⟩
  | @finish t ht =>
    have htight := h.repaired t ht
    exact ⟨hexclusive, fun _ => htight, fun _ _ => htight, fun _ _ => htight⟩
  | @crash t left ht =>
    by_cases hbusy : Busy s t
    · exact (stuck_of_crash h.exclusive hbusy hs).sound
    · have hmem : s.mem.Tight → (if (s.phase t).busy then left else s.mem).Tight := by
        rw [if_neg (show ¬ (s.phase t).busy = true from hbusy)]
        exact id
      refine ⟨hexclusive, fun hc => ?_, fun u hu => ?_, fun u hu => ?_⟩
      · exact hmem (h.free hc)
      · rcases phase_setPhase hu with ⟨-, hph⟩ | hu'
        · cases hph
        · exact hmem (h.inside u hu')
      · rcases phase_setPhase hu with ⟨-, hph⟩ | hu'
        · cases hph
        · exact hmem (h.repaired u hu')

theorem sound_exec {g : Internal c} (hg : g.initialized = false) {ls : List (Label c T)}
    {s : State c T} (hrun : Lts.exec step (State.init g) ls = some s)
    (hall : Lts.AllSteps step Careful (State.init g) ls) : Sound s :=
  Lts.exec_invariant (fun _ _ _ h hl hs => sound_step h hl hs) (sound_init hg) hrun hall

/-- **Lookups after a crash.** In every careful run from an initialised registry, whatever
processes that died have left in it, a process in a critical section finds the index exact: it
is within bounds and the search for a name sees every slot in use. The same holds whenever the
semaphore is free. -/
theorem lookups_exact {g : Internal c} (hg : g.initialized = false) {ls : List (Label c T)}
    {s : State c T} (hrun : Lts.exec step (State.init g) ls = some s)
    (hall : Lts.AllSteps step Careful (State.init g) ls)
    (hopen : 0 < s.count ∨ ∃ t, s.phase t = .inside) :
    s.mem.objectsMaxIndex < c.maxObjects ∧
      ∀ name, findByName s.mem name = findAnywhere s.mem name := by
  have h : Sound s := sound_exec hg hrun hall
  have htight : s.mem.Tight := by
    rcases hopen with hc | ⟨t, ht⟩
    · exact h.free hc
    · exact h.inside t ht
  exact ⟨htight.lt_maxObjects, htight.findByName_eq_findAnywhere⟩

/-- What a process leaves that dies in `urt_reserve_name` after it has written the last slot and
before it has raised the index. -/
def torn : Internal .two := (Internal.zero .two).setObject 1 (reservedObject (.ofBytes [65]))

/-- The slot that was being reserved is found after the recovery. -/
theorem lookups_exact_torn :
    let ls : List (Label .two (Fin 2)) :=
      [.enter 0, .crash 0 torn, .recover 1, .repair 1 false, .finish 1]
    findByName torn (.ofBytes [65]) = none ∧
      ∃ s, Lts.exec step (State.init (.zero .two)) ls = some s ∧
        findAnywhere s.mem (.ofBytes [65]) = some 1 ∧
        findByName s.mem (.ofBytes [65]) = findAnywhere s.mem (.ofBytes [65]) := by
  intro ls
  have hrun : (Lts.exec step (State.init (.zero .two)) ls).map (fun s =>
      (s.count, findAnywhere s.mem (.ofBytes [65]))) = some (1, some 1) := by decide
  obtain ⟨s, hs, hobs⟩ := Option.map_eq_some_iff.mp hrun
  rw [Prod.mk.injEq] at hobs
  have hopen : 0 < s.count := by
    rw [hobs.1]
    exact Nat.one_pos
  have h := lookups_exact rfl hs (by decide) (.inl hopen)
  exact ⟨by decide, s, hs, hobs.2, h.2 (.ofBytes [65])⟩

/-! ## Getting going again -/

/-- Neither a recovery nor any part of one. -/
def NoRecovery : Label c T → Prop
  | .recover _ => False
  | .enter _ | .work _ _ | .leave _ | .repair _ _ | .finish _ | .crash _ _ => True

/-- Only a recovery changes anything for those who wait. -/
theorem stuck_step {s s' : State c T} {l : Label c T} (h : Stuck s) (hl : NoRecovery l)
    (hs : step s l = some s') : Stuck s' := by
  obtain ⟨hcount, hnone⟩ := h
  have hout : ∀ t, (s.phase t).busy = false := fun t => Bool.not_eq_true _ ▸ hnone t
  cases trans_of_step hs with
  | enter ht hc => omega
  | @work t l g ht _ | @leave t ht | @repair t memGet ht | @finish t ht =>
    have := hout t
    rw [ht] at this
    cases this
  | recover _ => exact hl.elim
  | @crash t left ht =>
    refine ⟨hcount, fun u hu => ?_⟩
    have hu' := (busy_setPhase s t u .dead).mp hu
    split at hu'
    · cases hu'
    · exact hnone u hu'

/-- A whole recovery. -/
theorem recover_run {s : State c T} (h : Exclusive s) (hnone : ∀ u, ¬ Busy s u) {t : T}
    (ht : s.phase t = .outside) :
    ∃ s', Lts.exec step s [.recover t, .repair t false, .finish t] = some s' ∧
      s'.count = 1 ∧ (∀ u, ¬ Busy s' u) ∧ s'.mem.Tight ∧ s'.mem.objects = s.mem.objects := by
  have hcount : semTryWait s.count = 0 := by
    have := h.count
    unfold semTryWait
    split <;> omega
  set s₁ : State c T := { s.setPhase t .recovering with count := semTryWait s.count } with hs₁
  have h₁ : step s (.recover t) = some s₁ := if_pos ht
  have ht₁ : s₁.phase t = .recovering := Function.update_self _ _ _
  set s₂ : State c T := { s₁.setPhase t .repaired with mem := recoverIndex s.mem } with hs₂
  have h₂ : step s₁ (.repair t false) = some s₂ := if_pos ht₁
  have ht₂ : s₂.phase t = .repaired := Function.update_self _ _ _
  have h₃ : step s₂ (.finish t) =
      some { s₂.setPhase t .outside with count := s₂.count + 1 } := if_pos ht₂
  refine ⟨{ s₂.setPhase t .outside with count := s₂.count + 1 }, ?_, ?_, ?_, ?_, rfl⟩
  · rw [Lts.exec_cons h₁, Lts.exec_cons h₂, Lts.exec_cons h₃]
    rfl
  · change semTryWait s.count + 1 = 1
    rw [hcount]
  · intro u hu
    have hu' := (busy_setPhase s₂ t u .outside).mp hu
    split at hu'
    · cases hu'
    · rename_i hne
      have hu₁ := (busy_setPhase s₁ t u .repaired).mp hu'
      rw [if_neg hne] at hu₁
      have hu₀ := (busy_setPhase s t u .recovering).mp hu₁
      rw [if_neg hne] at hu₀
      exact hnone u hu₀
  · exact recoverIndex_tight s.mem

/-- **A recovery is needed and enough.** In every careful run, once a process has died in a
critical section or in a recovery, nobody enters a critical section until a recovery begins.
A recovery by any process that is outside, at any time at which nobody is busy, comes to its
end and leaves the semaphore free, the index exact and every slot as it was. -/
theorem recovery_reopens {g : Internal c} (hg : g.initialized = false) {ls : List (Label c T)}
    {s s' : State c T} (hrun : Lts.exec step (State.init g) ls = some s)
    (hall : Lts.AllSteps step Careful (State.init g) ls) {t : T} {left : Internal c}
    (hcrash : step s (.crash t left) = some s') (ht : Busy s t) :
    (∀ ks u, (∀ l ∈ ks, NoRecovery l) → Lts.exec step s' ks = some u → Stuck u) ∧
      ∀ ks u, Lts.exec step s' ks = some u → Lts.AllSteps step Careful s' ks →
        (∀ v, ¬ Busy u v) → ∀ v, u.phase v = .outside →
          ∃ w, Lts.exec step u [.recover v, .repair v false, .finish v] = some w ∧
            w.count = 1 ∧ (∀ x, ¬ Busy w x) ∧ w.mem.Tight ∧ w.mem.objects = u.mem.objects := by
  have h : Sound s := sound_exec hg hrun hall
  have hstuck : Stuck s' := stuck_of_crash h.exclusive ht hcrash
  refine ⟨fun ks u hks hu => ?_, fun ks u hu hcareful hnone v hv => ?_⟩
  · exact Lts.exec_invariant (fun _ _ _ => stuck_step) hstuck hu
      (Lts.allSteps_of_forall fun _ => hks)
  · have hsound : Sound u :=
      Lts.exec_invariant (fun _ _ _ h hl hs => sound_step h hl hs) hstuck.sound hu hcareful
    exact recover_run hsound.exclusive hnone hv

/-- The first process dies inside; the second one recovers. -/
theorem recovery_reopens_two :
    ∃ s s' w : State .two (Fin 2), Lts.exec step (State.init (.zero .two)) [.enter 0] = some s ∧
      step s (.crash 0 torn) = some s' ∧
      Lts.exec step s' [.recover 1, .repair 1 false, .finish 1] = some w ∧ w.count = 1 := by
  have hrun : ((Lts.exec step (State.init (.zero .two)) [.enter (0 : Fin 2)]).bind fun s =>
      (step s (.crash 0 torn)).map fun s' =>
        (s.phase 0, s'.phase 0, s'.phase 1)) = some (.inside, .dead, .outside) := by
    decide
  obtain ⟨s, hs, hobs⟩ := Option.bind_eq_some_iff.mp hrun
  obtain ⟨s', hs', hphases⟩ := Option.map_eq_some_iff.mp hobs
  rw [Prod.mk.injEq, Prod.mk.injEq] at hphases
  obtain ⟨h0, hdead, hout⟩ := hphases
  have hbusy : Busy s 0 := by
    rw [Busy, h0]
    rfl
  have hnone : ∀ v, ¬ Busy s' v := by
    rw [Fin.forall_fin_two]
    constructor
    · simp [Busy, hdead, Phase.busy]
    · simp [Busy, hout, Phase.busy]
  obtain ⟨-, hreopens⟩ := recovery_reopens rfl hs (by decide) hs' hbusy
  obtain ⟨w, hw, hcount, -⟩ := hreopens [] s' rfl trivial hnone 1 hout
  exact ⟨s, s', w, hs, hs', hw, hcount⟩

end Urt.Recovery
