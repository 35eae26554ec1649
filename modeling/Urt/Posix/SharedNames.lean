import Urt.Names

/-!
# Names of the registry and names of the system

The registry keeps the first six bytes of a name as they are (`_name_cpy`, `_name_eq`), and
the system is given what `urt_convert_name` makes of them: letters in upper case, and
nothing from the first byte on that an OS name cannot hold. The two agree on a pair of names
unless the names differ only in what `urt_convert_name` drops.
-/

namespace Urt

/-- What `urt_convert_name` writes for a byte; `none` where it stops. -/
def osByte (ch : UInt8) : Option UInt8 :=
  if isLower ch then some (ch - 97 + 65) else if isOsChar ch then some ch else none

/-- Some byte that an OS name is made of tells the names apart: up to it both names are made
of bytes that are written alike, and it is not. -/
def ToldApart (k : Nat) (m n : CString) : Prop :=
  ∃ i < k, (∀ j < i, osByte (m j) ≠ none ∧ osByte (m j) = osByte (n j)) ∧
    osByte (m i) ≠ osByte (n i)

theorem convertLoop_succ (k : Nat) (n : CString) :
    convertLoop (k + 1) n =
      match osByte (n 0) with
      | none => []
      | some b => b :: convertLoop k n.next := by
  rw [convertLoop, osByte]
  cases isLower (n 0) with
  | true => rfl
  | false => cases isOsChar (n 0) <;> rfl

/-- The first byte decides, or the rest of the names does. -/
theorem toldApart_succ (k : Nat) (m n : CString) :
    ToldApart (k + 1) m n ↔
      osByte (m 0) ≠ osByte (n 0) ∨
        osByte (m 0) ≠ none ∧ osByte (m 0) = osByte (n 0) ∧ ToldApart k m.next n.next := by
  constructor
  · rintro ⟨i, hi, hbefore, hne⟩
    cases i with
    | zero => exact .inl hne
    | succ i =>
      obtain ⟨hsome, heq⟩ := hbefore 0 (by omega)
      refine .inr ⟨hsome, heq, i, by omega, ?_, hne⟩
      intro j hj
      exact hbefore (j + 1) (by omega)
  · rintro (hne | ⟨hsome, heq, i, hi, hbefore, hne⟩)
    · exact ⟨0, by omega, fun j hj => absurd hj (by omega), hne⟩
    · refine ⟨i + 1, by omega, ?_, hne⟩
      intro j hj
      cases j with
      | zero => exact ⟨hsome, heq⟩
      | succ j => exact hbefore j (by omega)

theorem convertLoop_ne_iff (k : Nat) (m n : CString) :
    convertLoop k m ≠ convertLoop k n ↔ ToldApart k m n := by
  induction k generalizing m n with
  | zero =>
    constructor
    · intro h
      exact absurd rfl h
    · rintro ⟨i, hi, -⟩
      omega
  | succ k ih =>
    rw [toldApart_succ, convertLoop_succ, convertLoop_succ, ← ih]
    cases hm : osByte (m 0) with
    | none => cases hn : osByte (n 0) <;> simp
    | some b =>
      cases hn : osByte (n 0) with
      | none => simp
      | some b' => by_cases hb : b = b' <;> simp [hb]

theorem convertName_ne_iff (m n : CString) :
    convertName m ≠ convertName n ↔ ToldApart nameLen m n := by
  rw [← convertLoop_ne_iff]
  unfold convertName
  cases convertLoop nameLen m <;> cases convertLoop nameLen n <;> simp

/-- What the registry and the system should agree on for a pair of names: the stored copy of
one is equal to the other exactly when they have one OS name, so that names which the
registry tells apart are different objects of the system. -/
structure NamesAgree (dst : NameBuf) (m n : CString) : Prop where
  same : nameEq (nameCpy dst m).str n = true ↔ convertName m = convertName n
  apart : nameEq (nameCpy dst m).str n = false → convertName m ≠ convertName n

/-- **The registry and the system agree on a pair of names exactly when the names are equal up
to NUL or six bytes, or some byte that an OS name is made of tells them apart.** -/
theorem namesAgree_iff (dst : NameBuf) (m n : CString) :
    NamesAgree dst m n ↔ truncName m = truncName n ∨ ToldApart nameLen m n := by
  have heq : nameEq (nameCpy dst m).str n = true ↔ truncName m = truncName n := by
    rw [nameEq_iff, truncName_nameCpy]
  rw [← convertName_ne_iff]
  constructor
  · intro h
    by_cases hos : convertName m = convertName n
    · exact .inl (heq.mp (h.same.mpr hos))
    · exact .inr hos
  · rintro (htrunc | hos)
    · refine ⟨⟨fun _ => convertName_congr htrunc, fun _ => heq.mpr htrunc⟩, ?_⟩
      intro hne
      rw [heq.mpr htrunc] at hne
      cases hne
    · refine ⟨⟨fun h => convertName_congr (heq.mp h), fun h => absurd h hos⟩, ?_⟩
      intro _
      exact hos

/-- `abc` and `ABC` are both accepted and have one OS name, and so have `A-B` and `A-C`; the
registry keeps each of them as a name of its own. -/
theorem names_disagree :
    (convertName (.ofBytes [97, 98, 99])).isSome = true ∧
      (convertName (.ofBytes [65, 66, 67])).isSome = true ∧
      ¬ NamesAgree .zero (.ofBytes [97, 98, 99]) (.ofBytes [65, 66, 67]) ∧
      (convertName (.ofBytes [65, 45, 66])).isSome = true ∧
      (convertName (.ofBytes [65, 45, 67])).isSome = true ∧
      ¬ NamesAgree .zero (.ofBytes [65, 45, 66]) (.ofBytes [65, 45, 67]) := by
  refine ⟨by decide, by decide, ?_, by decide, by decide, ?_⟩
  · intro h
    exact h.apart (by decide) (by decide)
  · intro h
    exact h.apart (by decide) (by decide)

end Urt
