import Urt.Registry.Basic

/-!
# Initialisation and exit of a process

`urt_init` and `urt_exit` of `src/setup_common.c` in user space. What they call belongs to the
back end, a record of operations on a state `σ`: the POSIX back end is in `Urt.Setup.Posix`,
the clocks of a bi-space build in `Urt.Setup.Calibration`.
-/

namespace Urt

/-- What `urt_init` returns other than `0`; `errno` is an error of one of the calls it makes. -/
inductive InitError where
  | ealready
  | ebusy
  | errno (e : Errno)
  deriving DecidableEq, Repr

/-- What `urt_init` and `urt_exit` call. -/
structure Backend (σ : Type) where
  /-- `_calibrate` -/
  calibrate : σ → σ
  /-- `urt_sys_init` -/
  sysInit : σ → Option Errno × σ
  /-- `urt_global_mem != NULL` -/
  mapped : σ → Bool
  /-- `urt_global_sem_get(URT_GLOBAL_LOCK_NAME)` -/
  semGet : σ → Option Errno × σ
  /-- `urt_global_sem_wait`; `none` if it does not return -/
  semWait : σ → Option σ
  /-- `urt_global_mem = urt_global_mem_get(URT_GLOBAL_MEM_NAME, sizeof *urt_global_mem, &error)` -/
  memGet : σ → Option Errno × σ
  /-- `urt_registry_init` -/
  registryInit : σ → Int × σ
  /-- `urt_global_sem_post` -/
  semPost : σ → σ
  /-- `urt_global_mem_free(URT_GLOBAL_MEM_NAME)` -/
  memFree : σ → σ
  /-- `urt_global_sem_free(URT_GLOBAL_LOCK_NAME)` -/
  semFree : σ → σ
  /-- `urt_sys_exit` -/
  sysExit : σ → σ

variable {σ : Type}

/-- `urt_init`: the error it returns, if any; `none` if it does not return. -/
def init (b : Backend σ) (s : σ) : Option (Option InitError × σ) :=
  match b.sysInit (b.calibrate s) with
  | (some e, s) => some (some (.errno e), s)
  | (none, s) =>
      if b.mapped s then some (some .ealready, s)
      else
        match b.semGet s with
        | (some e, s) => some (some (.errno e), s)
        | (none, s) =>
            match b.semWait s with
            | none => none
            | some s =>
                match b.memGet s with
                | (some e, s) => some (some (.errno e), b.semPost s)
                | (none, s) =>
                    let (r, s) := b.registryInit s
                    if r ≠ 0 then some (some .ebusy, b.semPost s) else some (none, b.semPost s)

/-- The part of `urt_init` after `urt_global_sem_get`. -/
def locked (b : Backend σ) (s : σ) : Option (Option InitError × σ) :=
  match b.semWait s with
  | none => none
  | some s =>
      match b.memGet s with
      | (some e, s) => some (some (.errno e), b.semPost s)
      | (none, s) =>
          let (r, s) := b.registryInit s
          if r ≠ 0 then some (some .ebusy, b.semPost s) else some (none, b.semPost s)

theorem init_eq_locked {b : Backend σ} {s s₁ s₂ : σ}
    (hsys : b.sysInit (b.calibrate s) = (none, s₁)) (hmapped : b.mapped s₁ = false)
    (hsem : b.semGet s₁ = (none, s₂)) : init b s = locked b s₂ := by
  unfold init
  rw [hsys]
  dsimp only
  rw [hmapped, hsem]
  rfl

/-- The ways in which `urt_init` fails. -/
theorem init_failed {b : Backend σ} {s s' : σ} {e : InitError}
    (h : init b s = some (some e, s')) :
    (∃ e', b.sysInit (b.calibrate s) = (some e', s') ∧ e = .errno e') ∨
    ∃ s₁, b.sysInit (b.calibrate s) = (none, s₁) ∧
      (b.mapped s₁ = true ∧ e = .ealready ∧ s' = s₁ ∨
        b.mapped s₁ = false ∧
          ((∃ e', b.semGet s₁ = (some e', s') ∧ e = .errno e') ∨
            ∃ s₂ s₃, b.semGet s₁ = (none, s₂) ∧ b.semWait s₂ = some s₃ ∧
              ((∃ e' s₄, b.memGet s₃ = (some e', s₄) ∧ e = .errno e' ∧ s' = b.semPost s₄) ∨
                ∃ s₄ r s₅, b.memGet s₃ = (none, s₄) ∧ b.registryInit s₄ = (r, s₅) ∧ r ≠ 0 ∧
                  e = .ebusy ∧ s' = b.semPost s₅))) := by
  unfold init at h
  cases hsys : b.sysInit (b.calibrate s) with
  | mk r₁ s₁ =>
  rw [hsys] at h
  cases r₁ with
  | some e' =>
    cases h
    exact .inl ⟨e', rfl, rfl⟩
  | none =>
    refine .inr ⟨s₁, rfl, ?_⟩
    dsimp only at h
    cases hmapped : b.mapped s₁ with
    | true =>
      rw [hmapped] at h
      cases h
      exact .inl ⟨rfl, rfl, rfl⟩
    | false =>
      rw [hmapped] at h
      refine .inr ⟨rfl, ?_⟩
      simp only [Bool.false_eq_true, if_false] at h
      cases hsem : b.semGet s₁ with
      | mk r₂ s₂ =>
      rw [hsem] at h
      cases r₂ with
      | some e' =>
        cases h
        exact .inl ⟨e', rfl, rfl⟩
      | none =>
        refine .inr ⟨s₂, ?_⟩
        dsimp only at h
        cases hwait : b.semWait s₂ with
        | none =>
          rw [hwait] at h
          cases h
        | some s₃ =>
          rw [hwait] at h
          refine ⟨s₃, rfl, rfl, ?_⟩
          dsimp only at h
          cases hmem : b.memGet s₃ with
          | mk r₄ s₄ =>
          rw [hmem] at h
          cases r₄ with
          | some e' =>
            cases h
            exact .inl ⟨e', s₄, rfl, rfl, rfl⟩
          | none =>
            dsimp only at h
            split at h
            · rename_i hr
              cases h
              exact .inr ⟨s₄, _, _, rfl, rfl, hr, rfl, rfl⟩
            · cases h

/-- `urt_exit` -/
def exit (b : Backend σ) (s : σ) : σ :=
  if b.mapped s then b.sysExit (b.semFree (b.memFree s)) else s

end Urt
