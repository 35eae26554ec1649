import Mathlib.Data.Finmap
import Urt.Registry.Basic

/-!
# What the registry is for: a directory of counted names

The abstract model of the registry: a finite map, of bounded capacity, from names to
entries. An entry is either reserved by its creator or counts the references to the object.
`act` says what each critical section means and what it answers; `step` is the transition
system whose labels are an operation together with its answer, so that a run of it is a
history of calls and correct answers.
-/

namespace Urt

/-- What the directory knows of a name. -/
structure Entry where
  reserved : Bool
  count : Nat
  deriving DecidableEq

/-- A finite map from names to entries. -/
abbrev Directory (Name : Type) : Type := Finmap fun _ : Name => Entry

namespace Directory

variable {Name : Type} [DecidableEq Name]

inductive Op (Name : Type) where
  | reserve (n : Name)
  | inc (n : Name)
  | dec (n : Name)
  | lookup (n : Name)
  | forceClear (n : Name)

inductive Answer (Name : Type) where
  /-- the entry of this name was added -/
  | granted (n : Name)
  | refused (e : Errno)
  /-- the entry of this name was found and counted -/
  | found (n : Name)
  | missing
  | done
  deriving DecidableEq

/-- One operation on a directory of the given capacity. -/
def act (capacity : Nat) (m : Directory Name) : Op Name → Answer Name × Directory Name
  | .reserve n =>
      if n ∈ m then (.refused .eexist, m)
      else if m.keys.card = capacity then (.refused .enospc, m)
      else (.granted n, m.insert n ⟨true, 0⟩)
  | .lookup n =>
      match m.lookup n with
      | none => (.missing, m)
      | some e => (.found n, m.insert n ⟨false, e.count + 1⟩)
  | .inc n =>
      match m.lookup n with
      | none => (.missing, m)
      | some e => (.done, m.insert n ⟨false, e.count + 1⟩)
  | .dec n =>
      match m.lookup n with
      | none => (.missing, m)
      | some e =>
          if e.count - 1 = 0 then (.done, m.erase n)
          else (.done, m.insert n ⟨false, e.count - 1⟩)
  | .forceClear n => (.done, m.erase n)

/-- The operations with their correct answers, as a transition system. -/
def step (capacity : Nat) (m : Directory Name) (l : Op Name × Answer Name) :
    Option (Directory Name) :=
  if (act capacity m l.1).1 = l.2 then some (act capacity m l.1).2 else none

/-- An operation that answers with an error changes nothing. -/
theorem act_failed (capacity : Nat) (m : Directory Name) (op : Op Name)
    (h : (act capacity m op).1 = .missing ∨ ∃ e, (act capacity m op).1 = .refused e) :
    (act capacity m op).2 = m := by
  cases op with
  | reserve n =>
    simp only [act] at h ⊢
    split
    · rfl
    · rename_i hn
      rw [if_neg hn] at h
      split
      · rfl
      · rename_i hc
        rw [if_neg hc] at h
        simp at h
  | inc n | lookup n =>
    simp only [act] at h ⊢
    cases hl : m.lookup n with
    | none => rfl
    | some e => simp [hl] at h
  | dec n =>
    simp only [act] at h ⊢
    cases hl : m.lookup n with
    | none => rfl
    | some e =>
      simp only [hl] at h
      split at h <;> simp at h
  | forceClear n => simp [act] at h

end Directory

end Urt
