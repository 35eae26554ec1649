import Urt.Registry.Sections

/-!
# The stored copy of a name

`urt_reserve_name` keeps a name as `_name_cpy` copies it. `reserveName_storedAs` says what the
rest of the library relies on: the copy ends within its `URT_NAME_LEN + 1` bytes, it has the OS
name of the original, and `_name_eq` compares it with another string as far as both go, at most
`URT_NAME_LEN` bytes, and reads nothing of the other string beyond.
-/

namespace Urt

variable {c : Config}

/-! ## What `_name_eq` reads -/

/-- The loop of `_name_eq` and the test after it, with the offsets at which they read `n2`, in
the order of the reads. -/
def nameEqLoopReads : Nat → CString → CString → Bool × List Nat
  | 0, _, _ => (true, [])
  | k + 1, n1, n2 =>
      -- `*n1 == '\0'` ends the loop before it looks at `n2`; only then the last test does
      if n1 0 = 0 then (n2 0 == 0, [0])
      else if n1 0 = n2 0 then
        let r := nameEqLoopReads k n1.next n2.next
        (r.1, 0 :: r.2.map (· + 1))
      else (false, [0])

/-- `_name_eq`, with what it reads of `n2` -/
def nameEqReads (n1 n2 : CString) : Bool × List Nat := nameEqLoopReads nameLen n1 n2

theorem nameEqLoopReads_fst (k : Nat) (n1 n2 : CString) :
    (nameEqLoopReads k n1 n2).1 = nameEqLoop k n1 n2 := by
  induction k generalizing n1 n2 with
  | zero => rfl
  | succ k ih =>
    rw [nameEqLoopReads, nameEqLoop]
    by_cases h1 : n1 0 = 0
    · simp [h1]
    · by_cases h12 : n1 0 = n2 0
      · rw [if_neg h1, if_pos h12, if_pos (by simp [h12, h12 ▸ h1])]
        exact ih n1.next n2.next
      · simp [h1, h12]

/-- A byte is read only if it is one of the first `k` and no NUL comes before it. -/
theorem mem_nameEqLoopReads {k : Nat} {n1 n2 : CString} {p : Nat}
    (h : p ∈ (nameEqLoopReads k n1 n2).2) : p < k ∧ ∀ j < p, n2 j ≠ 0 := by
  induction k generalizing n1 n2 p with
  | zero => cases h
  | succ k ih =>
    have hfirst : p = 0 → p < k + 1 ∧ ∀ j < p, n2 j ≠ 0 := by
      intro hp
      subst hp
      exact ⟨Nat.succ_pos k, fun j hj => absurd hj (Nat.not_lt_zero j)⟩
    rw [nameEqLoopReads] at h
    split at h
    · exact hfirst (List.mem_singleton.mp h)
    · rename_i h1
      split at h
      · rename_i h12
        obtain hp | hp := List.mem_cons.mp h
        · exact hfirst hp
        · obtain ⟨q, hq, rfl⟩ := List.mem_map.mp hp
          obtain ⟨hlt, hbefore⟩ := ih hq
          refine ⟨by omega, ?_⟩
          intro j hj
          cases j with
          | zero => exact h12 ▸ h1
          | succ j => exact hbefore j (by omega)
      · exact hfirst (List.mem_singleton.mp h)

/-! ## Strings that agree -/

/-- The strings agree up to the first NUL, or on `k` bytes. -/
def AgreeTo (k : Nat) (m n : CString) : Prop := ∀ i < k, (∀ j < i, m j ≠ 0) → m i = n i

theorem agreeTo_succ (k : Nat) (m n : CString) :
    AgreeTo (k + 1) m n ↔ m 0 = n 0 ∧ (m 0 ≠ 0 → AgreeTo k m.next n.next) := by
  constructor
  · intro h
    refine ⟨h 0 (by omega) fun j hj => absurd hj (Nat.not_lt_zero j), ?_⟩
    intro h0 i hi hbefore
    apply h (i + 1) (by omega)
    intro j hj
    cases j with
    | zero => exact h0
    | succ j => exact hbefore j (by omega)
  · intro h i hi hbefore
    obtain ⟨hfirst, hrest⟩ := h
    cases i with
    | zero => exact hfirst
    | succ i =>
      apply hrest (hbefore 0 (by omega)) i (by omega)
      intro j hj
      exact hbefore (j + 1) (by omega)

/-- They agree exactly when they are the same as names. -/
theorem agreeTo_iff (k : Nat) (m n : CString) :
    AgreeTo k m n ↔ takeName k m = takeName k n := by
  induction k generalizing m n with
  | zero => exact ⟨fun _ => rfl, fun _ i hi => absurd hi (Nat.not_lt_zero i)⟩
  | succ k ih =>
    rw [agreeTo_succ, ih, takeName, takeName]
    by_cases hm : m 0 = 0
    · by_cases hn : n 0 = 0
      · simp [hm, hn]
      · simp [hm, hn, Ne.symm hn]
    · by_cases hn : n 0 = 0
      · simp [hm, hn]
      · simp [hm, hn]

/-! ## The copy -/

/-- The copy has a NUL somewhere in the buffer. -/
theorem nameCpyLoop_terminated (src : CString) {k i : Nat} (dst : NameBuf)
    (h : i + k = nameLen) : ∃ p : Fin (nameLen + 1), (nameCpyLoop src k i dst)[p] = 0 := by
  have hstop : ∃ p : Fin (nameLen + 1), (dst.setIfInBounds i 0)[p] = 0 :=
    ⟨⟨i, by omega⟩, Vector.getElem_setIfInBounds_self _⟩
  induction k generalizing i dst with
  | zero => exact hstop
  | succ k ih =>
    rw [nameCpyLoop]
    split
    · exact hstop
    · exact ih _ (by omega) ⟨⟨i + 1, by omega⟩, Vector.getElem_setIfInBounds_self _⟩

/-- What is kept of a name. -/
structure StoredAs (name : CString) (copy : NameBuf) : Prop where
  /-- the copy is NUL-terminated -/
  terminated : ∃ p : Fin (nameLen + 1), copy[p] = 0
  /-- it agrees with the name -/
  agrees : AgreeTo nameLen copy.str name
  /-- `urt_convert_name` makes the same of both -/
  converts : convertName copy.str = convertName name
  /-- `_name_eq` tells whether it agrees with another string -/
  eq_iff : ∀ other, nameEq copy.str other = true ↔ AgreeTo nameLen copy.str other
  /-- and reads that string neither past its NUL nor past `URT_NAME_LEN` bytes -/
  reads : ∀ other, (nameEqReads copy.str other).1 = nameEq copy.str other ∧
    ∀ p ∈ (nameEqReads copy.str other).2, p < nameLen ∧ ∀ j < p, other j ≠ 0

theorem storedAs_nameCpy (dst : NameBuf) (name : CString) : StoredAs name (nameCpy dst name) where
  terminated := nameCpyLoop_terminated name dst rfl
  agrees := (agreeTo_iff nameLen _ _).mpr (truncName_nameCpy dst name)
  converts := convertName_congr (truncName_nameCpy dst name)
  eq_iff other := (nameEq_iff _ other).trans (agreeTo_iff nameLen _ other).symm
  reads other := ⟨nameEqLoopReads_fst nameLen _ other, fun _ hp => mem_nameEqLoopReads hp⟩

/-- **Whatever string `urt_reserve_name` is given, the name it stores is terminated, has the OS
name of the string, and is compared with other strings within their bounds.** -/
theorem reserveName_storedAs {g g' : Internal c} {name : CString} {i : Slot c}
    (h : reserveName g name = (.ok i, g')) : StoredAs name (g'.objects i).name := by
  obtain ⟨j, -, herr⟩ | ⟨-, -, herr⟩ | ⟨j, -, -, hok⟩ := reserveName_cases g name
  · rw [herr] at h
    cases h
  · rw [herr] at h
    cases h
  · rw [hok] at h
    cases h
    rw [reserved_objects, Function.update_self]
    exact storedAs_nameCpy .zero name

/-- A string without any NUL is stored by its first six bytes. -/
theorem reserveName_storedAs_endless :
    StoredAs (fun _ => 65)
      ((reserveName (registryInit (.zero .two)).2 fun _ => 65).2.objects 0).name := by
  have h : reserveName (registryInit (.zero .two)).2 (fun _ => 65) =
      (.ok 0, (reserveName (registryInit (.zero .two)).2 fun _ => 65).2) := rfl
  exact reserveName_storedAs h

end Urt
