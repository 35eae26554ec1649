import Mathlib.Tactic.Common

/-!
# Executable transition systems

A transition system is a partial step function `step : S → L → Option S`: `none` says that
the label cannot happen in that state. `exec` runs a list of labels, `AllSteps` says that a
condition on state and label holds at every step of a run, and `exec_invariant` is the rule
of invariants for runs whose steps all meet a condition. `exec_simulation` carries a run of
one system to a run of another, where one label may become a whole list of labels.
-/

namespace Lts

variable {S L T M : Type}

/-- Run a list of labels from a state; `none` if some label cannot happen. -/
def exec (step : S → L → Option S) : S → List L → Option S
  | s, [] => some s
  | s, l :: ls =>
      match step s l with
      | none => none
      | some t => exec step t ls

/-- The condition `cond` holds at every step of the run of `ls` from `s`. -/
def AllSteps (step : S → L → Option S) (cond : S → L → Prop) : S → List L → Prop
  | _, [] => True
  | s, l :: ls => cond s l ∧
      match step s l with
      | none => True
      | some t => AllSteps step cond t ls

instance decidableAllSteps (step : S → L → Option S) (cond : S → L → Prop)
    [∀ s l, Decidable (cond s l)] : ∀ s ls, Decidable (AllSteps step cond s ls)
  | _, [] => inferInstanceAs (Decidable True)
  | s, l :: ls =>
      match h : step s l with
      | none => decidable_of_iff (cond s l) (by simp [AllSteps, h])
      | some t =>
          have := decidableAllSteps step cond t ls
          decidable_of_iff (cond s l ∧ AllSteps step cond t ls) (by simp [AllSteps, h])

variable {step : S → L → Option S} {cond cond' : S → L → Prop}

theorem exec_cons {s t : S} {l : L} (h : step s l = some t) (ls : List L) :
    exec step s (l :: ls) = exec step t ls := by
  simp [exec, h]

theorem exec_append {s t : S} {ls : List L} (h : exec step s ls = some t) (ks : List L) :
    exec step s (ls ++ ks) = exec step t ks := by
  induction ls generalizing s with
  | nil =>
    cases h
    rfl
  | cons l ls ih =>
    rw [exec] at h
    cases hl : step s l with
    | none =>
      rw [hl] at h
      cases h
    | some u =>
      rw [hl] at h
      rw [List.cons_append, exec_cons hl, ih h]

/-- A run has its last step. -/
theorem exec_concat {s t : S} {ls : List L} {l : L} (h : exec step s (ls ++ [l]) = some t) :
    ∃ u, exec step s ls = some u ∧ step u l = some t := by
  induction ls generalizing s with
  | nil =>
    rw [List.nil_append, exec] at h
    cases hl : step s l with
    | none =>
      rw [hl] at h
      cases h
    | some u =>
      rw [hl] at h
      exact ⟨s, rfl, hl.trans h⟩
  | cons k ls ih =>
    rw [List.cons_append, exec] at h
    cases hk : step s k with
    | none =>
      rw [hk] at h
      cases h
    | some u =>
      rw [hk] at h
      rw [exec_cons hk]
      exact ih h

theorem AllSteps.mono {s : S} {ls : List L} (h : AllSteps step cond s ls)
    (hc : ∀ s l, cond s l → cond' s l) : AllSteps step cond' s ls := by
  induction ls generalizing s with
  | nil => trivial
  | cons l ls ih =>
    refine ⟨hc s l h.1, ?_⟩
    have h2 := h.2
    cases hs : step s l with
    | none => trivial
    | some t =>
      rw [hs] at h2
      exact ih h2

theorem AllSteps.and {s : S} {ls : List L} (h : AllSteps step cond s ls)
    (h' : AllSteps step cond' s ls) : AllSteps step (fun s l => cond s l ∧ cond' s l) s ls := by
  induction ls generalizing s with
  | nil => trivial
  | cons l ls ih =>
    refine ⟨⟨h.1, h'.1⟩, ?_⟩
    have h2 := h.2
    have h2' := h'.2
    cases hs : step s l with
    | none => trivial
    | some t =>
      rw [hs] at h2 h2'
      exact ih h2 h2'

theorem allSteps_congr (hc : ∀ s l, cond s l ↔ cond' s l) (s : S) (ls : List L) :
    AllSteps step cond s ls ↔ AllSteps step cond' s ls :=
  ⟨fun h => h.mono fun s l => (hc s l).mp, fun h => h.mono fun s l => (hc s l).mpr⟩

theorem AllSteps.append {s : S} {ls ks : List L} (h : AllSteps step cond s ls)
    (hks : ∀ t, exec step s ls = some t → AllSteps step cond t ks) :
    AllSteps step cond s (ls ++ ks) := by
  induction ls generalizing s with
  | nil => exact hks s rfl
  | cons l ls ih =>
    refine ⟨h.1, ?_⟩
    have h2 := h.2
    cases hs : step s l with
    | none => trivial
    | some t =>
      rw [hs] at h2
      exact ih h2 fun u hu => hks u (by rw [exec_cons hs, hu])

theorem allSteps_singleton {s : S} {l : L} (h : cond s l) : AllSteps step cond s [l] := by
  refine ⟨h, ?_⟩
  cases step s l with
  | none => trivial
  | some t => trivial

theorem allSteps_of_forall {s : S} {ls : List L} (h : ∀ t, ∀ l ∈ ls, cond t l) :
    AllSteps step cond s ls := by
  induction ls generalizing s with
  | nil => trivial
  | cons l ls ih =>
    refine ⟨h s l List.mem_cons_self, ?_⟩
    cases hs : step s l with
    | none => trivial
    | some t => exact ih fun t l hl => h t l (List.mem_cons_of_mem _ hl)

/-- A condition that holds at every step of a run holds at every step of its last part. -/
theorem AllSteps.right {s t : S} {ls ks : List L} (h : AllSteps step cond s (ls ++ ks))
    (hrun : exec step s ls = some t) : AllSteps step cond t ks := by
  induction ls generalizing s with
  | nil =>
    cases hrun
    exact h
  | cons l ls ih =>
    have hrest := h.2
    rw [exec] at hrun
    cases hl : step s l with
    | none =>
      rw [hl] at hrun
      cases hrun
    | some u =>
      rw [hl] at hrun hrest
      exact ih hrest hrun

/-- The rule of invariants: what each step under the condition preserves holds after every
run whose steps all meet the condition. -/
theorem exec_invariant {I : S → Prop} (hstep : ∀ s l t, I s → cond s l → step s l = some t → I t)
    {s t : S} {ls : List L} (hs : I s) (hrun : exec step s ls = some t)
    (hall : AllSteps step cond s ls) : I t := by
  induction ls generalizing s with
  | nil =>
    cases hrun
    exact hs
  | cons l ls ih =>
    have hrest := hall.2
    rw [exec] at hrun
    cases hl : step s l with
    | none =>
      rw [hl] at hrun
      cases hrun
    | some u =>
      rw [hl] at hrun hrest
      exact ih (hstep s l u hs hall.1 hl) hrun hrest

/-- The rule of invariants without a condition. -/
theorem exec_invariant' {I : S → Prop} (hstep : ∀ s l t, I s → step s l = some t → I t)
    {s t : S} {ls : List L} (hs : I s) (hrun : exec step s ls = some t) : I t := by
  induction ls generalizing s with
  | nil =>
    cases hrun
    exact hs
  | cons l ls ih =>
    rw [exec] at hrun
    cases hl : step s l with
    | none =>
      rw [hl] at hrun
      cases hrun
    | some u =>
      rw [hl] at hrun
      exact ih (hstep s l u hs hl) hrun

/-- What follows, under an invariant, from the condition of a step, holds of every step of a
run. -/
theorem allSteps_of_invariant {I : S → Prop}
    (hstep : ∀ s l t, I s → cond s l → step s l = some t → I t)
    (hcond : ∀ s l, I s → cond s l → cond' s l) {s : S} {ls : List L} (hs : I s)
    (hall : AllSteps step cond s ls) : AllSteps step cond' s ls := by
  induction ls generalizing s with
  | nil => trivial
  | cons l ls ih =>
    refine ⟨hcond s l hs hall.1, ?_⟩
    have hrest := hall.2
    cases hl : step s l with
    | none => trivial
    | some t =>
      rw [hl] at hrest
      exact ih (hstep s l t hs hall.1 hl) hrest

/-- Conditions that are the same, under an invariant, for every step that is possible hold of
the same runs. -/
theorem allSteps_iff_of_invariant {I : S → Prop} (hstep : ∀ s l t, I s → step s l = some t → I t)
    (hcond : ∀ s l t, I s → step s l = some t → (cond s l ↔ cond' s l)) {s t : S} {ls : List L}
    (hs : I s) (hrun : exec step s ls = some t) :
    AllSteps step cond s ls ↔ AllSteps step cond' s ls := by
  induction ls generalizing s with
  | nil => exact Iff.rfl
  | cons l ls ih =>
    cases hl : step s l with
    | none =>
      rw [exec, hl] at hrun
      cases hrun
    | some u =>
      rw [exec_cons hl] at hrun
      simp only [AllSteps, hl]
      rw [hcond s l u hs hl, ih (hstep s l u hs hl) hrun]

/-! ## Every state of a run -/

/-- `P` holds of every state the run of `ls` from `s` goes through, the first and the last
one included. -/
def AllStates (step : S → L → Option S) (P : S → Prop) : S → List L → Prop
  | s, [] => P s
  | s, l :: ls => P s ∧
      match step s l with
      | none => True
      | some t => AllStates step P t ls

theorem AllStates.first {P : S → Prop} {s : S} {ls : List L} (h : AllStates step P s ls) :
    P s := by
  cases ls with
  | nil => exact h
  | cons l ls => exact h.1

theorem AllStates.last {P : S → Prop} {s t : S} {ls : List L} (h : AllStates step P s ls)
    (hrun : exec step s ls = some t) : P t := by
  induction ls generalizing s with
  | nil =>
    cases hrun
    exact h
  | cons l ls ih =>
    have hrest := h.2
    rw [exec] at hrun
    cases hl : step s l with
    | none =>
      rw [hl] at hrun
      cases hrun
    | some u =>
      rw [hl] at hrun hrest
      exact ih hrest hrun

/-- The exact rule of invariants: if a step keeps the invariant when it meets the condition and
leads out of `P` when it does not, then `P` holds all through a run exactly when every step of
the run meets the condition. -/
theorem allStates_iff {I P : S → Prop} (hP : ∀ s, I s → P s)
    (hkeep : ∀ s l t, I s → step s l = some t → cond s l → I t)
    (hleave : ∀ s l t, I s → step s l = some t → ¬ cond s l → ¬ P t)
    {s t : S} {ls : List L} (hs : I s) (hrun : exec step s ls = some t) :
    AllStates step P s ls ↔ AllSteps step cond s ls := by
  induction ls generalizing s with
  | nil => exact ⟨fun _ => trivial, fun _ => hP s hs⟩
  | cons l ls ih =>
    cases hl : step s l with
    | none =>
      rw [exec, hl] at hrun
      cases hrun
    | some u =>
      rw [exec_cons hl] at hrun
      simp only [AllStates, AllSteps, hl]
      constructor
      · rintro ⟨-, hrest⟩
        have hu : P u := hrest.first
        have hc : cond s l := by
          by_contra hc
          exact hleave s l u hs hl hc hu
        exact ⟨hc, (ih (hkeep s l u hs hl hc) hrun).mp hrest⟩
      · rintro ⟨hc, hrest⟩
        exact ⟨hP s hs, (ih (hkeep s l u hs hl hc) hrun).mpr hrest⟩

/-- The exact rule of invariants for a loss that may show late: a step that does not meet the
condition leads from the invariant `I` into `J`, which no step leaves and which contradicts `P`
at the end of the run. -/
theorem allStates_iff_of_fall {I J P : S → Prop} (hP : ∀ s, I s → P s)
    (hkeep : ∀ s l t, I s → step s l = some t → cond s l → I t)
    (hfall : ∀ s l t, I s → step s l = some t → ¬ cond s l → J t)
    (hstay : ∀ s l t, J s → step s l = some t → J t)
    {s t : S} {ls : List L} (hs : I s) (hrun : exec step s ls = some t) (hend : J t → ¬ P t) :
    AllStates step P s ls ↔ AllSteps step cond s ls := by
  induction ls generalizing s with
  | nil => exact ⟨fun _ => trivial, fun _ => hP s hs⟩
  | cons l ls ih =>
    cases hl : step s l with
    | none =>
      rw [exec, hl] at hrun
      cases hrun
    | some u =>
      rw [exec_cons hl] at hrun
      simp only [AllStates, AllSteps, hl]
      constructor
      · rintro ⟨-, hrest⟩
        have hc : cond s l := by
          by_contra hc
          have hJ : J t := exec_invariant' hstay (hfall s l u hs hl hc) hrun
          exact hend hJ (hrest.last hrun)
        exact ⟨hc, (ih (hkeep s l u hs hl hc) hrun).mp hrest⟩
      · rintro ⟨hc, hrest⟩
        exact ⟨hP s hs, (ih (hkeep s l u hs hl hc) hrun).mpr hrest⟩

/-! ## Simulation -/

/-- What the run of a list of labels shows, label by label. -/
def trace (step : S → L → Option S) (event : S → L → M) : S → List L → List M
  | _, [] => []
  | s, l :: ls =>
      event s l ::
        match step s l with
        | none => []
        | some t => trace step event t ls

/-- The rule of simulation: if every step is matched, on its event, by a step of the other
system, then so is every run, on its trace. -/
theorem exec_simulation {stepT : T → M → Option T} {event : S → L → M} {R : S → T → Prop}
    (hsim : ∀ s l s' t, R s t → cond s l → step s l = some s' →
      ∃ t', stepT t (event s l) = some t' ∧ R s' t')
    {s s' : S} {t : T} {ls : List L} (hR : R s t) (hrun : exec step s ls = some s')
    (hall : AllSteps step cond s ls) :
    ∃ t', exec stepT t (trace step event s ls) = some t' ∧ R s' t' := by
  induction ls generalizing s t with
  | nil =>
    cases hrun
    exact ⟨t, rfl, hR⟩
  | cons l ls ih =>
    have hrest := hall.2
    rw [exec] at hrun
    cases hl : step s l with
    | none =>
      rw [hl] at hrun
      cases hrun
    | some u =>
      rw [hl] at hrun hrest
      obtain ⟨t₁, ht₁, hR₁⟩ := hsim s l u t hR hall.1 hl
      obtain ⟨t', ht', hR'⟩ := ih hR₁ hrun hrest
      refine ⟨t', ?_, hR'⟩
      rw [trace, hl, exec_cons ht₁]
      exact ht'

/-- A system whose every allowed step is possible runs every allowed list of labels. -/
theorem exec_total {I : S → Prop}
    (hstep : ∀ s l, I s → cond s l → ∃ t, step s l = some t ∧ I t) {s : S} {ls : List L}
    (hs : I s) (hall : AllSteps step cond s ls) : ∃ t, exec step s ls = some t := by
  induction ls generalizing s with
  | nil => exact ⟨s, rfl⟩
  | cons l ls ih =>
    obtain ⟨t, ht, hIt⟩ := hstep s l hs hall.1
    have hrest := hall.2
    rw [ht] at hrest
    rw [exec_cons ht]
    exact ih hIt hrest

end Lts
