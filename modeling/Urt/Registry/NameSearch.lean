import Mathlib.Data.Fintype.Card
import Urt.Registry.FirstNames
import Urt.Registry.FreshNames

/-!
# The search for a free name

`_check_and_get_free_name` (`src/registry.c`) goes on until the name it has copied from the
counter is not found among the objects. Here the counter may hold any bytes, as after a crash.

An increment of such a counter either counts its last five characters on or resets it
(`counted`, `incrementName_reset`), so it comes to the first free name, and from there it counts
through all of them (`counterAfter_reset`). With fewer than `37 ^ 5` slots in use one of them is
free, and the search ends (`exists_offered`). What it returns is not found, which is less than
being free: `search_free_iff` says when it is.
-/

namespace Urt

variable {c : Config}

open Naming

/-! ## A counter with any content -/

/-- The counter after `k` increments. -/
def counterAfter (g : Internal c) (k : Nat) : NameBuf :=
  (fun b => (incrementName b).2)^[k] g.nextFreeName

theorem counterAfter_str (g : Internal c) (k : Nat) :
    (counterAfter g k).str = nameAfter g k := rfl

theorem counterAfter_zero (g : Internal c) : counterAfter g 0 = g.nextFreeName := rfl

theorem counterAfter_succ (g : Internal c) (k : Nat) :
    counterAfter g (k + 1) = (incrementName (counterAfter g k)).2 :=
  Function.iterate_succ_apply' _ _ _

/-- The last byte of the counter, which is not part of the name. -/
def setLast (b : NameBuf) (x : UInt8) : NameBuf := b.setIfInBounds nameLen x

theorem setLast_str (b : NameBuf) (x : UInt8) {i : Nat} (hi : i < nameLen) :
    (setLast b x).str i = b.str i := by
  rw [setLast, NameBuf.str_set (Nat.le_refl _), if_neg (by omega)]

theorem truncName_congr {m n : CString} (h : ∀ i < nameLen, m i = n i) :
    truncName m = truncName n := by
  have htake : ∀ (k : Nat) (m n : CString), (∀ i < k, m i = n i) → takeName k m = takeName k n := by
    intro k
    induction k with
    | zero => exact fun _ _ _ => rfl
    | succ k ih =>
      intro m n h
      rw [takeName, takeName, h 0 (by omega), ih m.next n.next fun i hi => h (i + 1) (by omega)]
  exact htake nameLen m n h

def Increment.setLast (x : UInt8) : Increment → Increment
  | .finished b => .finished (Urt.setLast b x)
  | .wrapped b => .wrapped (Urt.setLast b x)
  | .invalid b => .invalid (Urt.setLast b x)

theorem incrementLoop_setLast (x : UInt8) {i : Nat} (hi : i ≤ nameLen - 1) (b : NameBuf) :
    incrementLoop i (setLast b x) = (incrementLoop i b).setLast x := by
  induction i generalizing b with
  | zero => rfl
  | succ i ih =>
    rw [incrementLoop, incrementLoop, setLast_str _ _ (by omega)]
    have hset : ∀ digit, (setLast b x).setIfInBounds i digit =
        setLast (b.setIfInBounds i digit) x := by
      intro digit
      apply NameBuf.ext_str
      intro j _
      simp only [setLast, NameBuf.str_set (Nat.le_refl nameLen),
        NameBuf.str_set (show i ≤ nameLen by omega)]
      by_cases hj : i = j
      · rw [if_pos hj, if_neg (by omega), if_pos hj]
      · rw [if_neg hj, if_neg hj]
    cases nextDigit (b.str i) with
    | none => rfl
    | some r =>
      obtain ⟨digit, finished⟩ := r
      dsimp only
      rw [hset]
      cases finished with
      | true => rfl
      | false => exact ih (by omega) _

theorem resetName_setLast (x : UInt8) (b : NameBuf) :
    resetName (setLast b x) = setLast (resetName b) x := by
  apply NameBuf.ext_str
  intro i hi
  simp only [resetName_str, setLast, NameBuf.str_set (Nat.le_refl nameLen)]
  by_cases hend : nameLen = i
  · have hpos : 0 < nameLen := by decide
    rw [if_neg (by omega), if_neg (by omega), if_pos hend, if_pos hend]
  · rw [if_neg hend, if_neg hend]

/-- An increment does not look at the last byte. -/
theorem incrementName_setLast (x : UInt8) (b : NameBuf) :
    incrementName (setLast b x) = ((incrementName b).1, setLast (incrementName b).2 x) := by
  unfold incrementName
  rw [incrementLoop_setLast x (Nat.le_refl _)]
  cases incrementLoop (nameLen - 1) b with
  | finished b => rfl
  | wrapped b | invalid b =>
    dsimp only [Increment.setLast]
    rw [resetName_setLast]

/-- A reset makes the counter the first free name. -/
theorem resetName_eq_setLast (b : NameBuf) :
    resetName b = setLast (freeName 0) (b.str nameLen) := by
  have hlast : b = setLast (setLast b 0) (b.str nameLen) := by
    apply NameBuf.ext_str
    intro i hi
    rw [setLast, NameBuf.str_set (Nat.le_refl _), setLast, NameBuf.str_set (Nat.le_refl _)]
    split_ifs with hend
    · rw [hend]
    · rfl
  have hzero : resetName (setLast b 0) = freeName 0 :=
    resetName_eq (by rw [setLast, NameBuf.str_set (Nat.le_refl _), if_pos rfl])
  rw [← hzero, ← resetName_setLast, ← hlast]

/-! ## The counter comes to its start -/

/-- The number that the characters `i - 1` down to `0` stand for, the first of them the lowest
digit; any character that is no digit counts as some digit. -/
def counted : Nat → NameBuf → Nat
  | 0, _ => 0
  | i + 1, b => min (charDigit (b.str i)) 36 + 37 * counted i b

theorem counted_lt (i : Nat) (b : NameBuf) : counted i b < 37 ^ i := by
  induction i with
  | zero => exact Nat.one_pos
  | succ i ih =>
    have hdigit : min (charDigit (b.str i)) 36 ≤ 36 := Nat.min_le_right _ _
    rw [counted, Nat.pow_succ]
    omega

theorem counted_congr {i : Nat} {b b' : NameBuf} (h : ∀ j < i, b.str j = b'.str j) :
    counted i b = counted i b' := by
  induction i with
  | zero => rfl
  | succ i ih => rw [counted, counted, h i (Nat.lt_succ_self i), ih fun j hj => h j (by omega)]

theorem nextDigit_isDigit {ch digit : UInt8} {finished : Bool}
    (h : nextDigit ch = some (digit, finished)) : ∃ d < 37, digitChar d = ch := by
  apply exists_digitChar
  simp only [isUpper, isDigit, Bool.or_eq_true, Bool.and_eq_true, decide_eq_true_eq, beq_iff_eq]
  unfold nextDigit at h
  by_cases h₁ : ch = 95
  · exact .inr h₁
  rw [if_neg h₁] at h
  by_cases h₂ : ch ≥ 48 ∧ ch < 57
  · exact .inl (.inr ⟨h₂.1, UInt8.le_of_lt h₂.2⟩)
  rw [if_neg h₂] at h
  by_cases h₃ : ch = 57
  · rw [h₃]
    exact .inl (.inr (by decide))
  rw [if_neg h₃] at h
  by_cases h₄ : ch ≥ 65 ∧ ch < 90
  · exact .inl (.inl ⟨h₄.1, UInt8.le_of_lt h₄.2⟩)
  rw [if_neg h₄] at h
  by_cases h₅ : ch = 90
  · rw [h₅]
    exact .inl (.inl (by decide))
  rw [if_neg h₅] at h
  cases h

/-- A digit is followed by the next one; the last digit is followed by the first, and a carry. -/
theorem nextDigit_cases {ch digit : UInt8} {finished : Bool}
    (h : nextDigit ch = some (digit, finished)) :
    (finished = true ∧ charDigit digit = charDigit ch + 1 ∧ charDigit ch < 36) ∨
      (finished = false ∧ charDigit digit = 0 ∧ charDigit ch = 36) := by
  obtain ⟨d, hd, rfl⟩ := nextDigit_isDigit h
  have hnext := nextDigit_digitChar ⟨d, hd⟩
  dsimp only at hnext
  rw [h] at hnext
  have hvalue : charDigit (digitChar d) = d := charDigit_digitChar ⟨d, hd⟩
  rw [hvalue]
  by_cases hcarry : d + 1 < 37
  · rw [if_pos hcarry] at hnext
    cases hnext
    exact .inl ⟨rfl, charDigit_digitChar ⟨d + 1, hcarry⟩, by omega⟩
  · rw [if_neg hcarry] at hnext
    cases hnext
    exact .inr ⟨rfl, charDigit_digitChar ⟨0, by omega⟩, by omega⟩

/-- An increment that comes to an end adds one. -/
theorem counted_incrementLoop {i : Nat} (hi : i ≤ nameLen) {b b' : NameBuf}
    (h : incrementLoop i b = .finished b') :
    counted i b' = counted i b + 1 ∧ ∀ j, i ≤ j → b'.str j = b.str j := by
  induction i generalizing b with
  | zero => cases h
  | succ i ih =>
    rw [incrementLoop] at h
    cases hdigit : nextDigit (b.str i) with
    | none =>
      rw [hdigit] at h
      cases h
    | some r =>
      obtain ⟨digit, finished⟩ := r
      rw [hdigit] at h
      have hset : ∀ j, NameBuf.str (b.setIfInBounds i digit) j =
          if i = j then digit else b.str j :=
        NameBuf.str_set (by omega) digit
      have hlow : counted i (b.setIfInBounds i digit) = counted i b := by
        apply counted_congr
        intro j hj
        rw [hset, if_neg (by omega)]
      obtain ⟨rfl, hvalue, hlt⟩ | ⟨rfl, hvalue, hlast⟩ := nextDigit_cases hdigit
      · cases h
        constructor
        · rw [counted, counted, hset, if_pos rfl, hlow, hvalue]
          omega
        · intro j hj
          rw [hset, if_neg (by omega)]
      · -- the carry goes on to the characters before
        obtain ⟨hcount, hrest⟩ := ih (by omega) h
        constructor
        · rw [counted, counted, hrest i (Nat.le_refl i), hset, if_pos rfl, hcount, hlow, hvalue,
            hlast]
          omega
        · intro j hj
          rw [hrest j (by omega), hset, if_neg (by omega)]

/-- An increment that returns 0 adds one, any other resets the counter. -/
theorem incrementName_cases (b : NameBuf) :
    ((incrementName b).1 = 0 ∧
        counted (nameLen - 1) (incrementName b).2 = counted (nameLen - 1) b + 1) ∨
      ∃ x, (incrementName b).2 = setLast (freeName 0) x := by
  unfold incrementName
  cases hloop : incrementLoop (nameLen - 1) b with
  | finished b' => exact .inl ⟨rfl, (counted_incrementLoop (Nat.sub_le _ _) hloop).1⟩
  | wrapped b' | invalid b' => exact .inr ⟨_, resetName_eq_setLast b'⟩

/-- Whatever it holds, the counter comes to the first free name. -/
theorem exists_reset (g : Internal c) : ∃ j x, counterAfter g j = setLast (freeName 0) x := by
  by_contra hnever
  have hcount : ∀ j, counted (nameLen - 1) (counterAfter g j) =
      counted (nameLen - 1) g.nextFreeName + j := by
    intro j
    induction j with
    | zero => rw [counterAfter_zero, Nat.add_zero]
    | succ j ih =>
      rw [counterAfter_succ]
      obtain ⟨-, hcount⟩ | ⟨x, hx⟩ := incrementName_cases (counterAfter g j)
      · rw [hcount, ih, Nat.add_assoc]
      · exact absurd ⟨j + 1, x, (counterAfter_succ g j).trans hx⟩ hnever
  have hlt := counted_lt (nameLen - 1) (counterAfter g (37 ^ (nameLen - 1)))
  rw [hcount] at hlt
  omega

/-- From there on it counts through the free names. -/
theorem counterAfter_reset {g : Internal c} {j : Nat} {x : UInt8}
    (h : counterAfter g j = setLast (freeName 0) x) (k : Nat) :
    counterAfter g (j + k) = setLast (freeName k) x := by
  induction k with
  | zero => exact h
  | succ k ih => rw [← Nat.add_assoc, counterAfter_succ, ih, incrementName_setLast,
      incrementName_snd]

/-! ## The search -/

/-- The search would stop at the name of the counter after `k` increments: the next increment
does not fail, and the name is not found. -/
def Offered (g : Internal c) (k : Nat) : Prop :=
  ¬ (incrementName (counterAfter g k)).1 < 0 ∧ findByName g (nameAfter g k) = none

/-- No slot in use bears the name. -/
def Unborne (g : Internal c) (n : CString) : Prop :=
  ∀ i, g.used i = true → (g.objects i).tname ≠ truncName n

theorem findByName_of_unborne {g : Internal c} {n : CString} (h : Unborne g n) :
    findByName g n = none := by
  cases hfind : findByName g n with
  | none => rfl
  | some i =>
    obtain ⟨hused, hname, -⟩ := findByName_some hfind
    exact absurd hname (h i hused)

/-- With fewer than `37 ^ 5` slots in use, the search comes to a name that no slot in use
bears. -/
theorem exists_offered {g : Internal c}
    (hfew : (Finset.univ.filter fun i => g.used i = true).card < freeNames) :
    ∃ k, Offered g k ∧ Unborne g (nameAfter g k) := by
  obtain ⟨j, x, hreset⟩ := exists_reset g
  -- fewer names are borne than there are numerals
  have hcard : ((Finset.univ.filter fun i => g.used i = true).image
      fun i => (g.objects i).tname).card < ((Finset.range freeNames).image numeral).card := by
    rw [Finset.card_image_of_injOn (s := Finset.range freeNames), Finset.card_range]
    · exact lt_of_le_of_lt Finset.card_image_le hfew
    · intro a ha b hb hab
      exact numeral_injective (by simpa using ha) (by simpa using hb) hab
  obtain ⟨n, hn, hnot⟩ := Finset.exists_mem_notMem_of_card_lt_card hcard
  obtain ⟨k, -, rfl⟩ := Finset.mem_image.mp hn
  have hname : truncName (nameAfter g (j + k)) = numeral k := by
    rw [← counterAfter_str, counterAfter_reset hreset, ← truncName_freeName_eq]
    exact truncName_congr fun i hi => setLast_str _ _ hi
  have hfree : Unborne g (nameAfter g (j + k)) := by
    intro i hi he
    exact hnot (Finset.mem_image.mpr ⟨i, by simpa using hi, he.trans hname⟩)
  refine ⟨j + k, ⟨?_, findByName_of_unborne hfree⟩, hfree⟩
  rw [counterAfter_reset hreset, incrementName_setLast]
  exact incrementName_nonneg k

/-- The registry after one increment of the counter. -/
def Internal.next (g : Internal c) : Internal c :=
  { g with nextFreeName := (incrementName g.nextFreeName).2 }

theorem counterAfter_next (g : Internal c) (k : Nat) :
    counterAfter g.next k = counterAfter g (k + 1) := (Function.iterate_succ_apply _ _ _).symm

theorem nameAfter_next (g : Internal c) (k : Nat) : nameAfter g.next k = nameAfter g (k + 1) := by
  rw [← counterAfter_str, counterAfter_next, counterAfter_str]

theorem findByName_next (g : Internal c) (n : CString) : findByName g.next n = findByName g n :=
  rfl

theorem offered_next (g : Internal c) (k : Nat) : Offered g.next k ↔ Offered g (k + 1) := by
  rw [Offered, Offered, counterAfter_next, nameAfter_next, findByName_next]

theorem offered_zero_iff (g : Internal c) (name : CString) :
    Offered g 0 ↔ (decide ((incrementName g.nextFreeName).1 < 0) ||
      (findByName g.next (strncpy name g.nextFreeName.str nameLen)).isSome) = false := by
  have hfind : findByName g.next (strncpy name g.nextFreeName.str nameLen) =
      findByName g (nameAfter g 0) := findByName_congr (truncName_strncpy _ _) g
  rw [hfind, Bool.or_eq_false_iff, decide_eq_false_iff_not, Option.isSome_eq_false_iff,
    Option.isNone_iff_eq_none]
  exact Iff.rfl

/-- One round of the search. -/
theorem checkAndGetFreeName_succ (rounds : Nat) (g : Internal c) (name : CString) :
    (Offered g 0 → checkAndGetFreeName (rounds + 1) g name =
      some (strncpy name g.nextFreeName.str nameLen, g.next)) ∧
    (¬ Offered g 0 → checkAndGetFreeName (rounds + 1) g name =
      checkAndGetFreeName rounds g.next (strncpy name g.nextFreeName.str nameLen)) := by
  rw [offered_zero_iff g name, Bool.not_eq_false]
  constructor
  · intro h
    exact if_neg (Bool.not_eq_true _ ▸ h)
  · intro h
    exact if_pos h

/-- What the search returns is the first name it is offered. -/
theorem checkAndGetFreeName_first {rounds : Nat} {g g' : Internal c} {name buf : CString}
    (h : checkAndGetFreeName rounds g name = some (buf, g')) :
    ∃ k, Offered g k ∧ (∀ k' < k, ¬ Offered g k') ∧
      truncName buf = truncName (nameAfter g k) := by
  induction rounds generalizing g name with
  | zero => cases h
  | succ rounds ih =>
    obtain ⟨hstop, hgo⟩ := checkAndGetFreeName_succ rounds g name
    by_cases hoffered : Offered g 0
    · rw [hstop hoffered] at h
      cases h
      exact ⟨0, hoffered, fun k' hk' => absurd hk' (Nat.not_lt_zero k'),
        truncName_strncpy _ _⟩
    · rw [hgo hoffered] at h
      obtain ⟨k, hk, hfirst, hbuf⟩ := ih h
      refine ⟨k + 1, (offered_next g k).mp hk, ?_, ?_⟩
      · intro k' hk'
        cases k' with
        | zero => exact hoffered
        | succ k' =>
          rw [← offered_next]
          exact hfirst k' (by omega)
      · rw [hbuf, nameAfter_next]

/-- The search ends if it is offered a name. -/
theorem checkAndGetFreeName_ends {g : Internal c} {k : Nat} (h : Offered g k) (name : CString) :
    ∃ buf g', checkAndGetFreeName (k + 1) g name = some (buf, g') := by
  induction k generalizing g name with
  | zero => exact ⟨_, _, (checkAndGetFreeName_succ 0 g name).1 h⟩
  | succ k ih =>
    obtain ⟨hstop, hgo⟩ := checkAndGetFreeName_succ (k + 1) g name
    by_cases hoffered : Offered g 0
    · exact ⟨_, _, hstop hoffered⟩
    · rw [hgo hoffered]
      exact ih ((offered_next g k).mpr h) _

/-! ## When the name is free -/

/-- The search ends, and no slot in use bears the name it returns. -/
structure SearchFindsFree (g : Internal c) (name : CString) : Prop where
  ends : ∃ rounds buf g', checkAndGetFreeName rounds g name = some (buf, g')
  free : ∀ rounds buf g', checkAndGetFreeName rounds g name = some (buf, g') → Unborne g buf

/-- A slot in use bears the name, but none up to `objects_max_index`. -/
def BorneAboveIndex (g : Internal c) (n : CString) : Prop :=
  ¬ Unborne g n ∧
    ∀ i, g.used i = true → (g.objects i).tname = truncName n → g.objectsMaxIndex < i.val

/-- Counting on from the counter, each name that is borne above the index only comes after one
that no slot in use bears. Names at which an increment fails do not count. -/
def FreeNameFirst (g : Internal c) : Prop :=
  ∀ k, ¬ (incrementName (counterAfter g k)).1 < 0 → BorneAboveIndex g (nameAfter g k) →
    ∃ k' < k, ¬ (incrementName (counterAfter g k')).1 < 0 ∧ Unborne g (nameAfter g k')

/-- If no slot above `objects_max_index` is in use, names are not borne there. -/
theorem freeNameFirst_of_covered {g : Internal c} (h : g.Covered) : FreeNameFirst g := by
  intro k _ hborne
  refine absurd ?_ hborne.1
  intro i hi he
  exact absurd (h i hi) (Nat.not_le.mpr (hborne.2 i hi he))

theorem unborne_congr {g : Internal c} {m n : CString} (h : truncName m = truncName n) :
    Unborne g m ↔ Unborne g n := by
  unfold Unborne
  rw [h]

/-- A name that is not found is free or borne above the index. -/
theorem findByName_eq_none_iff {g : Internal c} {n : CString} :
    findByName g n = none ↔ Unborne g n ∨ BorneAboveIndex g n := by
  constructor
  · intro h
    by_cases hfree : Unborne g n
    · exact .inl hfree
    · refine .inr ⟨hfree, ?_⟩
      intro i hi he
      by_contra hle
      exact findByName_none h (by omega) hi he
  · intro h
    obtain hfree | ⟨-, habove⟩ := h
    · exact findByName_of_unborne hfree
    · cases hfind : findByName g n with
      | none => rfl
      | some i =>
        obtain ⟨hused, hname, hle⟩ := findByName_some hfind
        have hlt := habove i hused hname
        omega

/-- **With fewer than `37 ^ 5` slots in use and any content of the counter, the search for a
free name ends, and no slot in use bears the name it returns, exactly if each name on its way
that is borne only above `objects_max_index` comes after one that is free.** -/
theorem search_free_iff {g : Internal c}
    (hfew : (Finset.univ.filter fun i => g.used i = true).card < freeNames) (name : CString) :
    SearchFindsFree g name ↔ FreeNameFirst g := by
  constructor
  · intro hsearch k hwhole hborne
    have hk : Offered g k := ⟨hwhole, findByName_eq_none_iff.mpr (.inr hborne)⟩
    obtain ⟨buf, g', hrun⟩ := checkAndGetFreeName_ends hk name
    obtain ⟨k', hk', hfirst, hbuf⟩ := checkAndGetFreeName_first hrun
    have hfree := (unborne_congr hbuf).mp (hsearch.free _ _ _ hrun)
    refine ⟨k', ?_, hk'.1, hfree⟩
    by_contra hle
    obtain rfl | hlt := Nat.eq_or_lt_of_le (Nat.le_of_not_lt hle)
    · exact hborne.1 hfree
    · exact hfirst k hlt hk
  · intro hfirst
    obtain ⟨k, hk, -⟩ := exists_offered hfew
    refine ⟨⟨k + 1, checkAndGetFreeName_ends hk name⟩, ?_⟩
    intro rounds buf g' hrun
    obtain ⟨k, hk, hmin, hbuf⟩ := checkAndGetFreeName_first hrun
    rw [unborne_congr hbuf]
    obtain hfree | hborne := findByName_eq_none_iff.mp hk.2
    · exact hfree
    · -- the search would have stopped at the free name before
      obtain ⟨k', hlt, hwhole, hfree⟩ := hfirst k hk.1 hborne
      exact absurd ⟨hwhole, findByName_of_unborne hfree⟩ (hmin k' hlt)

/-- An empty registry whose counter holds zero bytes. -/
theorem search_free_zero : SearchFindsFree (Internal.zero .two) nameA :=
  (search_free_iff (by decide) nameA).mpr (freeNameFirst_of_covered fun i _ => by revert i; decide)

/-- A reachable state, all names having been returned once: slot 1 is in use above
`objects_max_index` and bears the first free name, and the search returns it. -/
theorem search_not_free :
    ∃ (ls : List (NameCall .two)) (s : Naming .two),
      Lts.exec namingStep (start (Internal.zero .two)) ls = some s ∧
      s.mem.namesExhausted = true ∧
      (Finset.univ.filter fun i => s.mem.used i = true).card < freeNames ∧
      ¬ SearchFindsFree s.mem nameA := by
  obtain ⟨s, hrun, hnext, hex, hfind, hused, hname⟩ := exec_latePublication
  obtain ⟨s', hrun', hmem, -, -⟩ :=
    exec_getFree_cycle (k := freeNames - 2) hnext hex (by decide) nameA
  have hfirst : s'.mem.nextFreeName = freeName 0 := by rw [hmem]
  have hoffered : Offered s'.mem 0 := by
    constructor
    · show ¬ (incrementName s'.mem.nextFreeName).1 < 0
      rw [hfirst]
      exact incrementName_nonneg 0
    · show findByName s'.mem s'.mem.nextFreeName.str = none
      rw [hfirst, hmem]
      exact hfind
  refine ⟨_, s', (Lts.exec_append hrun _).trans hrun', by rw [hmem], ?_, ?_⟩
  · have hslots : (Finset.univ.filter fun i => s'.mem.used i = true).card ≤ 2 :=
      Finset.card_le_univ _
    have hnames : 2 < freeNames := by decide
    omega
  · intro h
    apply h.free 1 _ _ ((checkAndGetFreeName_succ 0 s'.mem nameA).1 hoffered) 1
    · rw [hmem]
      exact hused
    · rw [truncName_strncpy, hfirst, hmem]
      exact hname

end Urt
