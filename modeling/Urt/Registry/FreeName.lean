import Urt.Lib.Odometer
import Urt.Registry.Sections

/-!
# Free names

`urt_get_free_name` (`src/registry.c`) hands out names of five characters followed by a dollar
sign. They are the numerals, in base 37, of a counter `next_free_name`; once the counter has
wrapped round, the function searches from it for a name that no object has.

`freeName k` is the name of number `k`. `incrementName_freeName` says that `_increment_name`
counts; `getFreeName_cases` says what a call of `urt_get_free_name` does when the counter holds
a name.
-/

namespace Urt

variable {c : Config}

/-! ## `_increment_name` -/

/-- The digit after `digit` and whether that finishes the increment; `none` for a character
that is no digit. -/
def nextDigit (digit : UInt8) : Option (UInt8 × Bool) :=
  if digit = 95 then some (48, true)
  else if digit ≥ 48 ∧ digit < 57 then some (digit + 1, true)
  else if digit = 57 then some (65, true)
  else if digit ≥ 65 ∧ digit < 90 then some (digit + 1, true)
  else if digit = 90 then some (95, false)
  else none

/-- How the loop of `_increment_name` ends. -/
inductive Increment where
  | finished (name : NameBuf)
  /-- the loop ran out of digits -/
  | wrapped (name : NameBuf)
  /-- `exit_internal` -/
  | invalid (name : NameBuf)

/-- The loop of `_increment_name`, with digits `i - 1` down to `0` still to do. -/
def incrementLoop : Nat → NameBuf → Increment
  | 0, name => .wrapped name
  | i + 1, name =>
      match nextDigit (name.str i) with
      | none => .invalid name
      | some (digit, finished) =>
          let name := name.setIfInBounds i digit
          if finished then .finished name else incrementLoop i name

/-- Underscores and a dollar sign, as `_increment_name` and `urt_registry_init` write them. -/
def resetName (name : NameBuf) : NameBuf :=
  ((List.range (nameLen - 1)).foldl (fun b i => b.setIfInBounds i 95) name).setIfInBounds
    (nameLen - 1) 36

/-- `_increment_name`: its return value and the name. -/
def incrementName (name : NameBuf) : Int × NameBuf :=
  match incrementLoop (nameLen - 1) name with
  | .finished name => (0, name)
  | .wrapped name => (1, resetName name)
  | .invalid name => (-1, resetName name)

/-! ## `urt_get_free_name` -/

/-- `strncpy(to, from, n)` -/
def strncpy (dst src : CString) (n : Nat) : CString := fun i =>
  if i < n then (if (List.range i).any (fun j => src j == 0) then 0 else src i) else dst i

/-- The loop of `_check_and_get_free_name`, for at most the given number of rounds. -/
def checkAndGetFreeName : Nat → Internal c → CString → Option (CString × Internal c)
  | 0, _, _ => none
  | k + 1, g, name =>
      let name := strncpy name g.nextFreeName.str nameLen
      let (ret, next) := incrementName g.nextFreeName
      let g := { g with nextFreeName := next }
      if ret < 0 || (findByName g name).isSome then checkAndGetFreeName k g name
      else some (name, g)

/-- `urt_get_free_name` with a buffer for the name: its error, if any, the buffer and the
registry; `none` if the search takes more than the given number of rounds. -/
def getFreeName (rounds : Nat) (g : Internal c) (name : CString) :
    Option (Option Errno × CString × Internal c) :=
  if g.namesExhausted then
    (checkAndGetFreeName rounds g name).map fun r => (none, r)
  else
    let name := strncpy name g.nextFreeName.str nameLen
    let (ret, next) := incrementName g.nextFreeName
    let g := { g with nextFreeName := next, namesExhausted := g.namesExhausted || ret != 0 }
    if ret < 0 then some (some .enospc, name, g) else some (none, name, g)

/-! ## Names as numbers -/

/-- The number of free names. -/
def freeNames : Nat := 37 ^ (nameLen - 1)

/-- The character of a digit: the underscore, `0` to `9`, `A` to `Z`. -/
def digitChar (d : Nat) : UInt8 :=
  if d = 0 then 95 else if d ≤ 10 then .ofNat (47 + d) else .ofNat (54 + d)

/-- The digit of a character. -/
def charDigit (ch : UInt8) : Nat :=
  if ch = 95 then 0 else if ch ≤ 57 then ch.toNat - 47 else ch.toNat - 54

/-- The name with the given digits, the lowest one first. -/
def nameOfDigits (ds : List Nat) : NameBuf :=
  Vector.ofFn fun i : Fin (nameLen + 1) =>
    if i.val < nameLen - 1 then digitChar (ds.getD (nameLen - 2 - i.val) 0)
    else if i.val = nameLen - 1 then 36 else 0

/-- The free name of number `k`. -/
def freeName (k : Nat) : NameBuf := nameOfDigits (Odometer.digits 37 (nameLen - 1) k)

theorem charDigit_digitChar : ∀ d : Fin 37, charDigit (digitChar d) = d := by decide

theorem nextDigit_digitChar : ∀ d : Fin 37, nextDigit (digitChar d) =
    if d.val + 1 < 37 then some (digitChar (d.val + 1), true) else some (digitChar 0, false) := by
  decide

theorem digitChar_ne_zero : ∀ d : Fin 37, digitChar d ≠ 0 := by decide

/-- A digit is one of the characters `A-Z`, `0-9` and underscore, and no dollar sign. -/
theorem digitChar_shape : ∀ d : Fin 37,
    (isUpper (digitChar d) || isDigit (digitChar d) || digitChar d == 95) = true ∧
      digitChar d ≠ 36 := by
  decide

theorem digitChar_injective {d e : Nat} (hd : d < 37) (he : e < 37)
    (h : digitChar d = digitChar e) : d = e := by
  have hd' := charDigit_digitChar ⟨d, hd⟩
  have he' := charDigit_digitChar ⟨e, he⟩
  dsimp only at hd' he'
  rw [← hd', ← he', h]

theorem nameOfDigits_str (ds : List Nat) {i : Nat} (hi : i ≤ nameLen) :
    NameBuf.str (nameOfDigits ds) i =
      if i < nameLen - 1 then digitChar (ds.getD (nameLen - 2 - i) 0)
      else if i = nameLen - 1 then 36 else 0 := by
  unfold NameBuf.str nameOfDigits
  rw [Vector.getElem?_ofFn, dif_pos (by omega)]
  rfl

theorem NameBuf.ext_str {b b' : NameBuf} (h : ∀ i ≤ nameLen, b.str i = b'.str i) : b = b' := by
  apply Vector.ext
  intro i hi
  have hstr := h i (by omega)
  unfold NameBuf.str at hstr
  rwa [Vector.getElem?_eq_getElem hi, Vector.getElem?_eq_getElem hi] at hstr

/-- Writing a character is writing a digit. -/
theorem nameOfDigits_set (front rest : List Nat) (d e : Nat)
    (h : front.length + rest.length + 1 = nameLen - 1) :
    (nameOfDigits (front ++ d :: rest)).setIfInBounds rest.length (digitChar e) =
      nameOfDigits (front ++ e :: rest) := by
  apply NameBuf.ext_str
  intro i hi
  rw [NameBuf.str_set (by omega), nameOfDigits_str _ hi, nameOfDigits_str _ hi]
  by_cases hir : rest.length = i
  · -- the digit written
    rw [if_pos hir, if_pos (by omega)]
    have hplace : nameLen - 2 - i = front.length := by omega
    rw [hplace]
    simp
  · rw [if_neg hir]
    by_cases hlow : i < nameLen - 1
    · rw [if_pos hlow, if_pos hlow]
      -- any other digit is before or after it
      congr 1
      simp only [List.getD_eq_getElem?_getD]
      congr 1
      rcases Nat.lt_trichotomy (nameLen - 2 - i) front.length with hlt | heq | hgt
      · rw [List.getElem?_append_left hlt, List.getElem?_append_left hlt]
      · omega
      · rw [List.getElem?_append_right (by omega), List.getElem?_append_right (by omega)]
        obtain ⟨j, hj⟩ : ∃ j, nameLen - 2 - i - front.length = j + 1 :=
          ⟨nameLen - 2 - i - front.length - 1, by omega⟩
        rw [hj, List.getElem?_cons_succ, List.getElem?_cons_succ]
    · rw [if_neg hlow, if_neg hlow]

/-- The loop of `_increment_name` is the odometer on the digits it has still to do. -/
theorem incrementLoop_nameOfDigits (front rest : List Nat) (hrest : ∀ d ∈ rest, d < 37)
    (h : front.length + rest.length = nameLen - 1) :
    incrementLoop rest.length (nameOfDigits (front ++ rest)) =
      if (Odometer.incr 37 rest).2 then .wrapped (nameOfDigits (front ++ (Odometer.incr 37 rest).1))
      else .finished (nameOfDigits (front ++ (Odometer.incr 37 rest).1)) := by
  induction rest generalizing front with
  | nil => rfl
  | cons d rest ih =>
    rw [List.length_cons] at h
    have hd := hrest d List.mem_cons_self
    have hread : NameBuf.str (nameOfDigits (front ++ d :: rest)) rest.length = digitChar d := by
      rw [nameOfDigits_str _ (by omega), if_pos (by omega)]
      have hplace : nameLen - 2 - rest.length = front.length := by omega
      rw [hplace]
      simp
    have hnext := nextDigit_digitChar ⟨d, hd⟩
    dsimp only at hnext
    rw [List.length_cons, incrementLoop, hread, hnext, Odometer.incr]
    by_cases hcarry : d + 1 < 37
    · simp only [if_pos hcarry, if_true, Bool.false_eq_true, if_false]
      rw [nameOfDigits_set front rest d (d + 1) (by omega)]
    · simp only [if_neg hcarry, Bool.false_eq_true, if_false]
      rw [nameOfDigits_set front rest d 0 (by omega)]
      -- what is done so far goes to the front
      have hrec := ih (front ++ [0]) (fun e he => hrest e (List.mem_cons_of_mem _ he)) (by
        rw [List.length_append, List.length_singleton]
        omega)
      simpa only [List.append_assoc, List.singleton_append] using hrec

/-- What `resetName` leaves in each place. -/
theorem resetName_str (b : NameBuf) (i : Nat) :
    (resetName b).str i =
      if i < nameLen - 1 then 95 else if i = nameLen - 1 then 36 else b.str i := by
  have hfold : ∀ (n : Nat) (b : NameBuf), n ≤ nameLen → NameBuf.str
      ((List.range n).foldl (fun b i => b.setIfInBounds i 95) b) i =
        if i < n then 95 else b.str i := by
    intro n b hn
    induction n with
    | zero => rfl
    | succ n ih =>
      rw [List.range_succ, List.foldl_append, List.foldl_cons, List.foldl_nil,
        NameBuf.str_set (by omega), ih (by omega)]
      split_ifs <;> first | rfl | omega
  rw [resetName, NameBuf.str_set (by omega), hfold _ _ (by omega)]
  by_cases hlow : i < nameLen - 1
  · rw [if_neg (by omega), if_pos hlow, if_pos hlow]
  · rw [if_neg hlow, if_neg hlow]
    exact if_congr eq_comm rfl rfl

theorem resetName_eq {b : NameBuf} (h : b.str nameLen = 0) : resetName b = freeName 0 := by
  have hzero : ∀ i ≤ nameLen, NameBuf.str (freeName 0) i =
      if i < nameLen - 1 then 95 else if i = nameLen - 1 then 36 else 0 := by decide
  apply NameBuf.ext_str
  intro i hi
  rw [hzero i hi, resetName_str]
  by_cases hend : i = nameLen
  · rw [hend, h]
  · split_ifs <;> first | rfl | omega

theorem firstFreeName_eq : firstFreeName = freeName 0 := resetName_eq rfl

/-- **`_increment_name` counts**: it turns the name of `k` into the name of `k + 1`, and says
when it has wrapped round. -/
theorem incrementName_freeName (k : Nat) :
    incrementName (freeName k) =
      if freeNames ∣ k + 1 then (1, freeName 0) else (0, freeName (k + 1)) := by
  have hloop := incrementLoop_nameOfDigits [] (Odometer.digits 37 (nameLen - 1) k)
    (fun d hd => Odometer.digits_lt (by omega) hd) (by simp)
  rw [Odometer.digits_length, List.nil_append, List.nil_append,
    Odometer.incr_digits (by omega)] at hloop
  unfold incrementName
  rw [freeName, hloop]
  dsimp only
  by_cases hlast : freeNames ∣ k + 1
  · have hwrap : decide (37 ^ (nameLen - 1) ∣ k + 1) = true := decide_eq_true hlast
    rw [if_pos hlast, if_pos hwrap]
    dsimp only
    rw [resetName_eq (nameOfDigits_str _ le_rfl)]
  · have hwrap : ¬ decide (37 ^ (nameLen - 1) ∣ k + 1) = true := by
      rw [decide_eq_true_iff]
      exact hlast
    rw [if_neg hlast, if_neg hwrap]
    rfl

theorem incrementName_fst (k : Nat) :
    (incrementName (freeName k)).1 = if freeNames ∣ k + 1 then 1 else 0 := by
  rw [incrementName_freeName]
  split <;> rfl

/-- The counter never holds an invalid character. -/
theorem incrementName_nonneg (k : Nat) : ¬ (incrementName (freeName k)).1 < 0 := by
  rw [incrementName_fst]
  split <;> omega

theorem incrementName_ne_zero (k : Nat) :
    ((incrementName (freeName k)).1 != 0) = decide (freeNames ∣ k + 1) := by
  rw [incrementName_fst]
  by_cases hdvd : freeNames ∣ k + 1
  · rw [if_pos hdvd, decide_eq_true hdvd]
    rfl
  · rw [if_neg hdvd, decide_eq_false hdvd]
    rfl

theorem freeName_mod (k : Nat) : freeName (k % freeNames) = freeName k :=
  congrArg nameOfDigits (Odometer.digits_mod (nameLen - 1) k)

/-- One step of the counter, whatever it is at. -/
theorem incrementName_snd (k : Nat) : (incrementName (freeName k)).2 = freeName (k + 1) := by
  rw [incrementName_freeName]
  split
  · rename_i hlast
    rw [← freeName_mod (k + 1), Nat.mod_eq_zero_of_dvd hlast]
  · rfl

/-! ## The shape of a free name -/

/-- Five characters of `A-Z`, `0-9` and underscore, followed by a dollar sign. -/
def IsFreeName (n : List UInt8) : Prop :=
  ∃ body : List UInt8, body.length = nameLen - 1 ∧
    (∀ ch ∈ body, (isUpper ch || isDigit ch || ch == 95) = true) ∧ n = body ++ [36]

theorem freeName_digit (k : Nat) {i : Nat} (hi : i < nameLen - 1) :
    ∃ d : Fin 37, (Odometer.digits 37 (nameLen - 1) k)[nameLen - 2 - i]? = some d.val ∧
      (freeName k).str i = digitChar d := by
  have hlt : nameLen - 2 - i < (Odometer.digits 37 (nameLen - 1) k).length := by
    rw [Odometer.digits_length]
    omega
  refine ⟨⟨_, Odometer.digits_lt (by omega) (List.getElem_mem hlt)⟩,
    List.getElem?_eq_getElem hlt, ?_⟩
  rw [freeName, nameOfDigits_str _ (by omega), if_pos hi, List.getD_eq_getElem?_getD,
    List.getElem?_eq_getElem hlt]
  rfl

theorem freeName_last (k : Nat) : (freeName k).str (nameLen - 1) = 36 := by
  rw [freeName, nameOfDigits_str _ (by omega), if_neg (by omega), if_pos rfl]

theorem truncName_freeName (k : Nat) :
    truncName (freeName k).str = (List.range (nameLen - 1)).map (freeName k).str ++ [36] := by
  have hnul : ∀ i < nameLen, (freeName k).str i ≠ 0 := by
    intro i hi
    by_cases hlast : i < nameLen - 1
    · obtain ⟨d, -, hd⟩ := freeName_digit k hlast
      rw [hd]
      exact digitChar_ne_zero d
    · have : i = nameLen - 1 := by omega
      rw [this, freeName_last]
      decide
  rw [truncName, takeName_eq_map hnul]
  change (List.range (nameLen - 1 + 1)).map _ = _
  rw [List.range_succ, List.map_append, List.map_singleton, freeName_last]

theorem isFreeName_freeName (k : Nat) : IsFreeName (truncName (freeName k).str) := by
  refine ⟨_, by rw [List.length_map, List.length_range], ?_, truncName_freeName k⟩
  intro ch hch
  obtain ⟨i, hi, rfl⟩ := List.mem_map.mp hch
  obtain ⟨d, -, hd⟩ := freeName_digit k (List.mem_range.mp hi)
  rw [hd]
  exact (digitChar_shape d).1

theorem IsFreeName.mem_dollar {n : List UInt8} (h : IsFreeName n) : (36 : UInt8) ∈ n := by
  obtain ⟨body, -, -, rfl⟩ := h
  exact List.mem_append_right _ List.mem_cons_self

/-- A free name does not begin with a dollar sign, and the two reserved names do. -/
theorem IsFreeName.ne_reserved {n : List UInt8} (h : IsFreeName n) :
    n ≠ truncName globalLockName ∧ n ≠ truncName globalMemName := by
  obtain ⟨body, hlen, hbody, rfl⟩ := h
  cases body with
  | nil => cases hlen
  | cons ch rest =>
    have hch := hbody ch List.mem_cons_self
    constructor
    · intro he
      have h36 : ch = 36 := (List.cons.inj he).1
      rw [h36] at hch
      exact absurd hch (by decide)
    · intro he
      have h36 : ch = 36 := (List.cons.inj he).1
      rw [h36] at hch
      exact absurd hch (by decide)

/-- Free names with different numbers differ. -/
theorem truncName_freeName_injective {j k : Nat} (hj : j < freeNames) (hk : k < freeNames)
    (h : truncName (freeName j).str = truncName (freeName k).str) : j = k := by
  rw [truncName_freeName, truncName_freeName] at h
  have hchars := List.append_cancel_right h
  apply Odometer.digits_injective hj hk
  apply List.ext_getElem?
  intro i
  by_cases hi : i < nameLen - 1
  · have hplace : nameLen - 2 - (nameLen - 2 - i) = i := by omega
    have hsame : (freeName j).str (nameLen - 2 - i) = (freeName k).str (nameLen - 2 - i) :=
      List.map_inj_left.mp hchars _ (List.mem_range.mpr (by omega))
    obtain ⟨d, hd, hdj⟩ := freeName_digit j (i := nameLen - 2 - i) (by omega)
    obtain ⟨e, he, hek⟩ := freeName_digit k (i := nameLen - 2 - i) (by omega)
    rw [hplace] at hd he
    rw [hd, he, digitChar_injective d.isLt e.isLt (by rw [← hdj, ← hek, hsame])]
  · rw [List.getElem?_eq_none (by rw [Odometer.digits_length]; omega),
      List.getElem?_eq_none (by rw [Odometer.digits_length]; omega)]

/-! ## What `urt_get_free_name` does -/

/-- A copy that goes on with NULs after the first NUL reads as the source. -/
theorem takeName_of_padded {k : Nat} {m n : CString}
    (h : ∀ i < k, m i = if (List.range i).any (fun j => n j == 0) then 0 else n i) :
    takeName k m = takeName k n := by
  induction k generalizing m n with
  | zero => rfl
  | succ k ih =>
    have h0 : m 0 = n 0 := h 0 (by omega)
    by_cases hn : n 0 = 0
    · rw [takeName, takeName, h0, if_pos hn, if_pos hn]
    · rw [takeName, takeName, h0, if_neg hn, if_neg hn]
      congr 1
      apply ih
      intro i hi
      have hm := h (i + 1) (by omega)
      rw [List.range_succ_eq_map, List.any_cons, List.any_map, beq_false_of_ne hn,
        Bool.false_or] at hm
      exact hm

/-- What the registry sees of a name is what `strncpy` has copied. -/
theorem truncName_strncpy (dst src : CString) :
    truncName (strncpy dst src nameLen) = truncName src := by
  apply takeName_of_padded
  intro i hi
  rw [strncpy, if_pos hi]

theorem findByName_congr {m n : CString} (h : truncName m = truncName n) (g : Internal c) :
    findByName g m = findByName g n := by
  unfold findByName
  congr 1
  funext i
  congr 1
  rw [Bool.eq_iff_iff, nameEq_iff, nameEq_iff, h]

/-- The search ends at the first name, from the counter on, that is not registered. -/
theorem checkAndGetFreeName_cases {rounds n : Nat} {g g' : Internal c} {name buf : CString}
    (hnext : g.nextFreeName = freeName n)
    (h : checkAndGetFreeName rounds g name = some (buf, g')) :
    ∃ k, truncName buf = truncName (freeName (n + k)).str ∧
      findByName g (freeName (n + k)).str = none ∧
      (∀ k' < k, findByName g (freeName (n + k')).str ≠ none) ∧
      g' = { g with nextFreeName := freeName (n + k + 1) } := by
  induction rounds generalizing n g name with
  | zero => cases h
  | succ rounds ih =>
    rw [checkAndGetFreeName] at h
    have hfound : findByName { g with nextFreeName := freeName (n + 1) }
        (strncpy name (freeName n).str nameLen) = findByName g (freeName n).str :=
      findByName_congr (truncName_strncpy _ _) g
    simp only [hnext, incrementName_snd, incrementName_nonneg, decide_false, Bool.false_or, hfound]
      at h
    split at h
    · -- registered: on to the next name
      rename_i hsome
      obtain ⟨k, hbuf, hnone, hall, rfl⟩ := ih (n := n + 1) rfl h
      have hplace : ∀ k, n + 1 + k = n + (k + 1) := by omega
      refine ⟨k + 1, by rw [hbuf, hplace], by rw [← hplace]; exact hnone, ?_, ?_⟩
      · intro k' hk'
        cases k' with
        | zero => exact Option.isSome_iff_ne_none.mp hsome
        | succ k' =>
          rw [← hplace]
          exact hall k' (by omega)
      · rw [hplace]
    · rename_i hnone
      cases h
      refine ⟨0, truncName_strncpy _ _, ?_, ?_, rfl⟩
      · simpa using hnone
      · intro k' hk'
        omega

/-- **What `urt_get_free_name` returns**: the name of the counter as long as the counter has
not wrapped round, then the first name from there on that is not registered. -/
theorem getFreeName_cases {rounds n : Nat} {g g' : Internal c} {name buf : CString}
    {err : Option Errno} (hnext : g.nextFreeName = freeName n)
    (h : getFreeName rounds g name = some (err, buf, g')) :
    err = none ∧ ∃ k, truncName buf = truncName (freeName (n + k)).str ∧
      (if g.namesExhausted then findByName g (freeName (n + k)).str = none ∧
        ∀ k' < k, findByName g (freeName (n + k')).str ≠ none else k = 0) ∧
      g' = { g with
        nextFreeName := freeName (n + k + 1)
        namesExhausted := g.namesExhausted || decide (freeNames ∣ n + 1) } := by
  unfold getFreeName at h
  split at h
  · rename_i hex
    obtain ⟨⟨buf', g''⟩, hloop, he⟩ := Option.map_eq_some_iff.mp h
    cases he
    obtain ⟨k, hbuf, hnone, hall, rfl⟩ := checkAndGetFreeName_cases hnext hloop
    refine ⟨rfl, k, hbuf, ?_, ?_⟩
    · rw [if_pos hex]
      exact ⟨hnone, hall⟩
    · rw [hex]
      rfl
  · rename_i hex
    simp only [hnext, incrementName_snd, incrementName_nonneg, if_false, incrementName_ne_zero]
      at h
    cases h
    refine ⟨rfl, 0, truncName_strncpy _ _, ?_, rfl⟩
    rw [if_neg hex]

/-- A call gives the name of the counter if that is not registered, or nobody looks. -/
theorem getFreeName_counter {g : Internal c} {n : Nat} (hnext : g.nextFreeName = freeName n)
    (hfree : g.namesExhausted = true → findByName g (freeName n).str = none) (rounds : Nat)
    (name : CString) :
    getFreeName (rounds + 1) g name = some (none, strncpy name (freeName n).str nameLen,
      { g with
        nextFreeName := freeName (n + 1)
        namesExhausted := g.namesExhausted || decide (freeNames ∣ n + 1) }) := by
  unfold getFreeName
  cases hex : g.namesExhausted with
  | true =>
    have hfound : (findByName { g with nextFreeName := freeName (n + 1) }
        (strncpy name (freeName n).str nameLen)).isSome = false := by
      rw [findByName_congr (truncName_strncpy _ _)]
      exact Option.isSome_eq_false_iff.mpr (Option.isNone_iff_eq_none.mpr (hfree hex))
    simp only [if_true, checkAndGetFreeName, hnext, incrementName_snd, incrementName_nonneg,
      decide_false, Bool.false_or, hfound]
    rw [if_neg Bool.false_ne_true, hex]
    rfl
  | false =>
    simp only [Bool.false_eq_true, if_false, hnext, incrementName_snd, incrementName_nonneg,
      incrementName_ne_zero]

end Urt
