import Mathlib.Data.List.Basic
import Mathlib.Data.Vector.Basic
import Mathlib.Tactic.Common

/-!
# Names of shared objects

The registry compares and copies names with `_name_eq` and `_name_cpy` (`src/registry.c`);
the POSIX back end turns a name into an OS name with `urt_convert_name`
(`sys/posix/src/names.c`). All three read at most `URT_NAME_LEN` bytes. What the registry
sees of a name is `truncName`: its bytes up to the first NUL, at most six of them.
-/

namespace Urt

/-- `URT_NAME_LEN` -/
abbrev nameLen : Nat := 6

/-- The memory a `const char *` points at. -/
abbrev CString := Nat → UInt8

/-- A NUL-terminated string with the given bytes. -/
def CString.ofBytes (bytes : List UInt8) : CString := fun i => bytes.getD i 0

/-- `n` after `++n`. -/
def CString.next (n : CString) : CString := fun i => n (i + 1)

/-- `char[URT_NAME_LEN + 1]` -/
abbrev NameBuf := Vector UInt8 (nameLen + 1)

namespace NameBuf

def zero : NameBuf := Vector.replicate (nameLen + 1) 0

/-- The buffer read through a pointer to its first byte. -/
def str (b : NameBuf) : CString := fun i => b[i]?.getD 0

@[simp] theorem str_set {b : NameBuf} {i : Nat} (hi : i ≤ nameLen) (v : UInt8) (j : Nat) :
    str (b.setIfInBounds i v) j = if i = j then v else b.str j := by
  unfold str
  rw [Vector.getElem?_setIfInBounds]
  split
  · rw [if_pos (by omega)]
    rfl
  · rfl

end NameBuf

/-! ## Truncation -/

/-- The bytes of `n` up to the first NUL, at most `k` of them. -/
def takeName : Nat → CString → List UInt8
  | 0, _ => []
  | k + 1, n => if n 0 = 0 then [] else n 0 :: takeName k n.next

/-- The part of a name that counts: up to the first NUL, at most `URT_NAME_LEN` bytes. -/
def truncName (n : CString) : List UInt8 := takeName nameLen n

/-- A name without a NUL is cut after `k` bytes. -/
theorem takeName_eq_map {k : Nat} {n : CString} (h : ∀ i < k, n i ≠ 0) :
    takeName k n = (List.range k).map n := by
  induction k generalizing n with
  | zero => rfl
  | succ k ih =>
    have hrest : takeName k n.next = (List.range k).map n.next :=
      ih fun i hi => h (i + 1) (by omega)
    rw [takeName, if_neg (h 0 (by omega)), hrest, List.range_succ_eq_map, List.map_cons,
      List.map_map]
    rfl

/-- `URT_GLOBAL_LOCK_NAME`, `$URTGL` -/
def globalLockName : CString := .ofBytes [36, 85, 82, 84, 71, 76]

/-- `URT_GLOBAL_MEM_NAME`, `$URTGM` -/
def globalMemName : CString := .ofBytes [36, 85, 82, 84, 71, 77]

/-! ## `_name_eq` -/

/-- The loop of `_name_eq` with `k` characters left before `URT_NAME_LEN`. -/
def nameEqLoop : Nat → CString → CString → Bool
  | 0, _, _ => true
  | k + 1, n1, n2 =>
      if n1 0 != 0 && n1 0 == n2 0 then nameEqLoop k n1.next n2.next
      else n1 0 == 0 && n2 0 == 0

/-- `_name_eq` -/
def nameEq (n1 n2 : CString) : Bool := nameEqLoop nameLen n1 n2

theorem nameEqLoop_iff (k : Nat) (n1 n2 : CString) :
    nameEqLoop k n1 n2 = true ↔ takeName k n1 = takeName k n2 := by
  induction k generalizing n1 n2 with
  | zero => simp [nameEqLoop, takeName]
  | succ k ih =>
    unfold nameEqLoop takeName
    by_cases h1 : n1 0 = 0
    · by_cases h2 : n2 0 = 0 <;> simp [h1, h2]
    · by_cases h12 : n1 0 = n2 0
      · have h2 : ¬ n2 0 = 0 := h12 ▸ h1
        simp [h12, h2, ih]
      · by_cases h2 : n2 0 = 0 <;> simp [h1, h2, h12]

/-- `_name_eq` compares the truncated names. -/
theorem nameEq_iff (n1 n2 : CString) : nameEq n1 n2 = true ↔ truncName n1 = truncName n2 :=
  nameEqLoop_iff nameLen n1 n2

/-! ## `_name_cpy` -/

/-- The loop of `_name_cpy` at index `i`, with `k` characters left before `URT_NAME_LEN`,
and the write of the NUL after it. -/
def nameCpyLoop (src : CString) : Nat → Nat → NameBuf → NameBuf
  | 0, i, dst => dst.setIfInBounds i 0
  | k + 1, i, dst =>
      if src i = 0 then dst.setIfInBounds i 0
      else nameCpyLoop src k (i + 1) (dst.setIfInBounds i (src i))

/-- `_name_cpy` -/
def nameCpy (dst : NameBuf) (src : CString) : NameBuf := nameCpyLoop src nameLen 0 dst

/-- The copy leaves what is before its start alone and reads back, from there, as the
truncated source. -/
theorem nameCpyLoop_spec (src : CString) (k i : Nat) (dst : NameBuf) (h : i + k = nameLen) :
    (∀ j < i, NameBuf.str (nameCpyLoop src k i dst) j = dst.str j) ∧
      takeName k (fun j => NameBuf.str (nameCpyLoop src k i dst) (i + j)) =
        takeName k (fun j => src (i + j)) := by
  induction k generalizing i dst with
  | zero =>
    refine ⟨fun j hj => ?_, rfl⟩
    rw [nameCpyLoop, NameBuf.str_set (by omega), if_neg (by omega)]
  | succ k ih =>
    unfold nameCpyLoop
    split
    · rename_i h0
      refine ⟨fun j hj => ?_, ?_⟩
      · rw [NameBuf.str_set (by omega), if_neg (by omega)]
      · simp [takeName, NameBuf.str_set (show i ≤ nameLen by omega), h0]
    · rename_i h0
      obtain ⟨hbefore, hrest⟩ := ih (i + 1) (dst.setIfInBounds i (src i)) (by omega)
      refine ⟨fun j hj => ?_, ?_⟩
      · rw [hbefore j (by omega), NameBuf.str_set (by omega), if_neg (by omega)]
      · have hi :
            NameBuf.str (nameCpyLoop src k (i + 1) (dst.setIfInBounds i (src i))) i = src i := by
          rw [hbefore i (by omega), NameBuf.str_set (by omega), if_pos rfl]
        simp only [takeName, Nat.add_zero, hi, if_neg h0, List.cons.injEq, true_and]
        have hnext : ∀ f : CString, CString.next (fun j => f (i + j)) = fun j => f (i + 1 + j) :=
          fun f => funext fun j => congrArg f (by omega)
        rw [hnext (NameBuf.str _), hnext src]
        exact hrest

/-- The stored copy of a name has the same truncation as the name. -/
@[simp] theorem truncName_nameCpy (dst : NameBuf) (src : CString) :
    truncName (nameCpy dst src).str = truncName src := by
  simpa [truncName, nameCpy] using (nameCpyLoop_spec src nameLen 0 dst rfl).2

/-! ## `urt_convert_name` -/

/-- An OS name, as `shm_open` and `sem_open` take it. -/
abbrev OsName := List UInt8

def isLower (ch : UInt8) : Bool := 97 ≤ ch && ch ≤ 122
def isUpper (ch : UInt8) : Bool := 65 ≤ ch && ch ≤ 90
def isDigit (ch : UInt8) : Bool := 48 ≤ ch && ch ≤ 57

/-- `(from[i] >= 'A' && from[i] <= 'Z') || (from[i] >= '0' && from[i] <= '9')
|| from[i] == '_' || from[i] == '$'` -/
def isOsChar (ch : UInt8) : Bool := isUpper ch || isDigit ch || ch == 95 || ch == 36

/-- The loop of `urt_convert_name` with `k` characters left before `URT_NAME_LEN`. -/
def convertLoop : Nat → CString → List UInt8
  | 0, _ => []
  | k + 1, n =>
      if isLower (n 0) then (n 0 - 97 + 65) :: convertLoop k n.next
      else if !isOsChar (n 0) then []
      else n 0 :: convertLoop k n.next

/-- `urt_convert_name`; `none` stands for `EINVAL`. -/
def convertName (n : CString) : Option OsName :=
  match convertLoop nameLen n with
  | [] => none
  | body => some (47 :: body)

theorem convertLoop_congr {k : Nat} {m n : CString} (h : takeName k m = takeName k n) :
    convertLoop k m = convertLoop k n := by
  induction k generalizing m n with
  | zero => rfl
  | succ k ih =>
    unfold takeName at h
    unfold convertLoop
    by_cases hm : m 0 = 0
    · by_cases hn : n 0 = 0
      · rw [hm, hn]
        rfl
      · simp [hm, hn] at h
    · by_cases hn : n 0 = 0
      · simp [hm, hn] at h
      · simp only [hm, hn, if_false, List.cons.injEq] at h
        rw [h.1, ih h.2]

/-- The OS name depends on the truncated name only. -/
theorem convertName_congr {m n : CString} (h : truncName m = truncName n) :
    convertName m = convertName n := by
  unfold convertName
  rw [convertLoop_congr h]

/-- A documented name: one to six characters of `A-Z`, `0-9` and underscore. -/
def Documented (n : CString) : Prop :=
  truncName n ≠ [] ∧ ∀ ch ∈ truncName n, (isUpper ch || isDigit ch || ch == 95) = true

instance (n : CString) : Decidable (Documented n) :=
  @instDecidableAnd _ _ inferInstance (List.decidableBAll _ _)

theorem documented_congr {m n : CString} (h : truncName m = truncName n) :
    Documented m ↔ Documented n := by
  unfold Documented
  rw [h]

theorem isLower_of_documented {ch : UInt8} (h : (isUpper ch || isDigit ch || ch == 95) = true) :
    isLower ch = false := by
  simp only [isUpper, isDigit, isLower, Bool.or_eq_true, Bool.and_eq_true, decide_eq_true_eq,
    beq_iff_eq, UInt8.le_iff_toNat_le, ← UInt8.toNat_inj, Bool.and_eq_false_iff,
    decide_eq_false_iff_not, UInt8.reduceToNat] at h ⊢
  omega

theorem isOsChar_of_documented {ch : UInt8} (h : (isUpper ch || isDigit ch || ch == 95) = true) :
    isOsChar ch = true := by
  unfold isOsChar
  rw [h]
  rfl

theorem convertLoop_documented {k : Nat} {n : CString}
    (h : ∀ ch ∈ takeName k n, (isUpper ch || isDigit ch || ch == 95) = true) :
    convertLoop k n = takeName k n := by
  induction k generalizing n with
  | zero => rfl
  | succ k ih =>
    unfold takeName at h ⊢
    unfold convertLoop
    by_cases h0 : n 0 = 0
    · rw [if_pos h0, h0]
      rfl
    · rw [if_neg h0] at h ⊢
      have hc := h (n 0) List.mem_cons_self
      rw [isLower_of_documented hc, isOsChar_of_documented hc, ih fun ch hch =>
        h ch (List.mem_cons_of_mem _ hch)]
      rfl

/-- A documented name is its own OS name, after the leading slash. -/
theorem convertName_documented {n : CString} (h : Documented n) :
    convertName n = some (47 :: truncName n) := by
  have hloop : convertLoop nameLen n = truncName n := convertLoop_documented h.2
  unfold convertName
  rw [hloop]
  cases ht : truncName n with
  | nil => exact absurd ht h.1
  | cons ch rest => rfl

/-- Documented names that convert to the same OS name are the same to the registry. -/
theorem truncName_of_convertName {m n : CString} (hm : Documented m) (hn : Documented n)
    (h : convertName m = convertName n) : truncName m = truncName n := by
  rw [convertName_documented hm, convertName_documented hn] at h
  exact List.tail_eq_of_cons_eq (Option.some.inj h)

end Urt
