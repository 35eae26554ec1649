import Mathlib.Data.List.Nodup
import Mathlib.Data.List.Range
import Urt.Registry.Naming

/-!
# The first free names

Until its counter wraps round, `urt_get_free_name` returns the numerals of 0, 1, 2 and so on,
whatever else is done to the registry. `numeral k` is the numeral of `k`, five digits in
base 37 and a dollar sign; `freeNames_inOrder` says which names have been returned in a run with
at most `37 ^ 5` calls.
-/

namespace Urt

variable {c : Config}

open Naming

/-! ## Numerals -/

/-- The five digits of `k` in base 37, the highest one first, and a dollar sign. -/
def numeral (k : Nat) : List UInt8 :=
  (List.range (nameLen - 1)).map (fun i => digitChar (k / 37 ^ (nameLen - 2 - i) % 37)) ++ [36]

theorem truncName_freeName_eq (k : Nat) : truncName (freeName k).str = numeral k := by
  rw [truncName_freeName, numeral]
  congr 1
  apply List.map_congr_left
  intro i hi
  have hi := List.mem_range.mp hi
  obtain ⟨d, hd, hchar⟩ := freeName_digit k hi
  rw [Odometer.digits_getElem? (by omega)] at hd
  rw [hchar, Option.some.inj hd]

theorem numeral_injective {j k : Nat} (hj : j < freeNames) (hk : k < freeNames)
    (h : numeral j = numeral k) : j = k := by
  rw [← truncName_freeName_eq, ← truncName_freeName_eq] at h
  exact truncName_freeName_injective hj hk h

/-- The characters of free names are the digits. -/
theorem exists_digitChar {ch : UInt8} (h : (isUpper ch || isDigit ch || ch == 95) = true) :
    ∃ d < 37, digitChar d = ch := by
  simp only [isUpper, isDigit, Bool.or_eq_true, Bool.and_eq_true, decide_eq_true_eq, beq_iff_eq,
    UInt8.le_iff_toNat_le] at h
  obtain (⟨hlow, hhigh⟩ | ⟨hlow, hhigh⟩) | rfl := h
  · -- `A` to `Z`
    change 65 ≤ ch.toNat at hlow
    change ch.toNat ≤ 90 at hhigh
    refine ⟨ch.toNat - 54, by omega, ?_⟩
    rw [digitChar, if_neg (by omega), if_neg (by omega), Nat.add_sub_cancel' (by omega),
      UInt8.ofNat_toNat]
  · -- `0` to `9`
    change 48 ≤ ch.toNat at hlow
    change ch.toNat ≤ 57 at hhigh
    refine ⟨ch.toNat - 47, by omega, ?_⟩
    rw [digitChar, if_neg (by omega), if_pos (by omega), Nat.add_sub_cancel' (by omega),
      UInt8.ofNat_toNat]
  · exact ⟨0, by omega, rfl⟩

/-- The digits that some characters stand for. -/
theorem exists_digits {body : List UInt8}
    (h : ∀ ch ∈ body, (isUpper ch || isDigit ch || ch == 95) = true) :
    ∃ ds : List Nat, (∀ d ∈ ds, d < 37) ∧ ds.map digitChar = body := by
  induction body with
  | nil => exact ⟨[], fun _ hd => absurd hd List.not_mem_nil, rfl⟩
  | cons ch body ih =>
    obtain ⟨ds, hlt, hmap⟩ := ih fun x hx => h x (List.mem_cons_of_mem _ hx)
    obtain ⟨d, hd, hchar⟩ := exists_digitChar (h ch List.mem_cons_self)
    refine ⟨d :: ds, ?_, by rw [List.map_cons, hchar, hmap]⟩
    intro e he
    obtain rfl | he := List.mem_cons.mp he
    · exact hd
    · exact hlt e he

/-- The names of that form are the numerals below `37 ^ 5`. -/
theorem isFreeName_iff (n : List UInt8) : IsFreeName n ↔ ∃ k < freeNames, numeral k = n := by
  constructor
  · intro h
    obtain ⟨body, hlen, hbody, rfl⟩ := h
    obtain ⟨ds, hlt, rfl⟩ := exists_digits hbody
    rw [List.length_map] at hlen
    have hrev : ∀ d ∈ ds.reverse, d < 37 := fun d hd => hlt d (List.mem_reverse.mp hd)
    obtain ⟨k, hk, hdigits⟩ := Odometer.digits_surjective hrev
    rw [List.length_reverse, hlen] at hk hdigits
    refine ⟨k, hk, ?_⟩
    rw [numeral]
    congr 1
    apply List.ext_getElem?
    intro i
    by_cases hi : i < nameLen - 1
    · have hdigit := Odometer.digits_getElem? (b := 37) (n := nameLen - 1)
        (i := nameLen - 2 - i) (by omega) k
      rw [hdigits, List.getElem?_reverse (by omega), hlen] at hdigit
      rw [List.getElem?_map, List.getElem?_map, List.getElem?_range hi]
      rw [show nameLen - 1 - 1 - (nameLen - 2 - i) = i by omega] at hdigit
      rw [hdigit]
      rfl
    · rw [List.getElem?_eq_none (by simpa using hi),
        List.getElem?_eq_none (by rw [List.length_map]; omega)]
  · intro h
    obtain ⟨k, -, rfl⟩ := h
    rw [← truncName_freeName_eq]
    exact isFreeName_freeName k

/-! ## Runs -/

/-- The call is one of `urt_get_free_name`. -/
def NameCall.isGetFree : NameCall c → Bool
  | .getFree _ _ => true
  | _ => false

/-- The number of calls of `urt_get_free_name`. -/
def getFreeCalls (ls : List (NameCall c)) : Nat := ls.countP NameCall.isGetFree

/-- After `n` calls of `urt_get_free_name`, at most `37 ^ 5`: the first `n` numerals have been
returned, in order. -/
structure Naming.InOrder (s : Naming c) (n : Nat) : Prop where
  next : s.mem.nextFreeName = freeName n
  initialized : s.mem.initialized = true
  exhausted : s.mem.namesExhausted = decide (n = freeNames)
  /-- the last name comes first -/
  handed : s.handed = ((List.range n).map numeral).reverse

theorem inOrder_start {g : Internal c} (h : g.initialized = false) : (start g).InOrder 0 := by
  unfold start registryInit
  rw [h]
  exact ⟨firstFreeName_eq, rfl, rfl, rfl⟩

/-- What a call returns as long as there have been fewer than `37 ^ 5`. -/
theorem Naming.InOrder.getFreeName {s : Naming c} {n : Nat} (h : s.InOrder n) (hn : n < freeNames)
    (rounds : Nat) (name : CString) :
    getFreeName rounds s.mem name = some (none, strncpy name (freeName n).str nameLen,
      { s.mem with
        nextFreeName := freeName (n + 1)
        namesExhausted := decide (n + 1 = freeNames) }) := by
  have hex : s.mem.namesExhausted = false := by
    rw [h.exhausted]
    exact decide_eq_false (by omega)
  have hlast : decide (freeNames ∣ n + 1) = decide (n + 1 = freeNames) := by
    apply decide_eq_decide.mpr
    constructor
    · intro hdvd
      exact Nat.le_antisymm hn (Nat.le_of_dvd (Nat.succ_pos n) hdvd)
    · intro he
      rw [he]
  unfold Urt.getFreeName
  rw [hex, if_neg Bool.false_ne_true]
  simp only [h.next, incrementName_snd, incrementName_nonneg, if_false, incrementName_ne_zero,
    Bool.false_or, hlast]

theorem Naming.InOrder.step {s s' : Naming c} {l : NameCall c} {n : Nat} (h : s.InOrder n)
    (hs : namingStep s l = some s') (hn : n + getFreeCalls [l] ≤ freeNames) :
    s'.InOrder (n + getFreeCalls [l]) := by
  by_cases hl : ∃ rounds name, l = .getFree rounds name
  · obtain ⟨rounds, name, rfl⟩ := hl
    have hn : n + 1 ≤ freeNames := hn
    rw [namingStep, h.getFreeName hn] at hs
    obtain rfl := Option.some.inj hs
    refine ⟨rfl, h.initialized, rfl, ?_⟩
    show truncName (strncpy name _ nameLen) :: s.handed = _
    rw [truncName_strncpy, truncName_freeName_eq, h.handed]
    show _ = ((List.range (n + 1)).map numeral).reverse
    rw [List.range_succ, List.map_append, List.reverse_append]
    rfl
  · have hcalls : getFreeCalls [l] = 0 := by
      cases l with
      | getFree rounds name => exact absurd ⟨rounds, name, rfl⟩ hl
      | registry | recover | init | record => rfl
    rw [hcalls, Nat.add_zero]
    obtain ⟨rounds, name, buf, k, rfl, -⟩ | ⟨name, i, -, -, -, rfl⟩ | ⟨g, rfl, hq, -⟩ :=
      namingStep_cases h.next h.initialized hs
    · exact absurd ⟨rounds, name, rfl⟩ hl
    · constructor
      · rw [register_mem]
        exact h.next
      · rw [register_mem]
        exact h.initialized
      · rw [register_mem]
        exact h.exhausted
      · rw [register_handed]
        exact h.handed
    · exact ⟨hq.sameNames.nextFreeName.trans h.next, hq.sameNames.initialized.trans h.initialized,
        hq.sameNames.namesExhausted.trans h.exhausted, h.handed⟩

theorem Naming.InOrder.exec {s s' : Naming c} {ls : List (NameCall c)} {n : Nat}
    (h : s.InOrder n) (hrun : Lts.exec namingStep s ls = some s')
    (hn : n + getFreeCalls ls ≤ freeNames) : s'.InOrder (n + getFreeCalls ls) := by
  induction ls generalizing s n with
  | nil =>
    cases hrun
    exact h
  | cons l ls ih =>
    have hcount : getFreeCalls (l :: ls) = getFreeCalls [l] + getFreeCalls ls := by
      rw [← List.singleton_append]
      exact List.countP_append
    rw [hcount, ← Nat.add_assoc] at hn ⊢
    cases hl : namingStep s l with
    | none =>
      rw [Lts.exec, hl] at hrun
      cases hrun
    | some t =>
      rw [Lts.exec_cons hl] at hrun
      exact ih (h.step hl (by omega)) hrun hn

/-- The names that have been returned after `n` calls of `urt_get_free_name`, and what the next
call does. -/
structure FirstNames (s : Naming c) (n : Nat) : Prop where
  /-- the numerals below `n` have been returned, in order -/
  inOrder : s.handed.reverse = (List.range n).map numeral
  /-- no two of them are the same -/
  distinct : s.handed.Nodup
  /-- the first `37 ^ 5` are all names of that form -/
  exhaust : n = freeNames → ∀ name, IsFreeName name ↔ name ∈ s.handed
  /-- call number `37 ^ 5` sets `names_exhausted`, and no earlier one -/
  exhausted : s.mem.namesExhausted = true ↔ n = freeNames
  /-- the next call succeeds and returns the numeral of `n` -/
  next : n < freeNames → ∀ rounds name, ∃ buf g,
    getFreeName rounds s.mem name = some (none, buf, g) ∧ truncName buf = numeral n ∧
      (g.namesExhausted = true ↔ n + 1 = freeNames)

theorem Naming.InOrder.firstNames {s : Naming c} {n : Nat} (h : s.InOrder n)
    (hn : n ≤ freeNames) : FirstNames s n where
  inOrder := by rw [h.handed, List.reverse_reverse]
  distinct := by
    rw [h.handed, List.nodup_reverse]
    apply List.Nodup.map_on _ List.nodup_range
    intro j hj k hk he
    have hj := List.mem_range.mp hj
    have hk := List.mem_range.mp hk
    exact numeral_injective (by omega) (by omega) he
  exhaust := by
    intro he name
    rw [isFreeName_iff, h.handed, List.mem_reverse, List.mem_map]
    simp only [List.mem_range, he]
  exhausted := by rw [h.exhausted, decide_eq_true_iff]
  next := by
    intro hlt rounds name
    refine ⟨_, _, h.getFreeName hlt rounds name, ?_, decide_eq_true_iff⟩
    rw [truncName_strncpy, truncName_freeName_eq]

/-- **The first `37 ^ 5` free names**: whatever is done to the registry in between, the calls of
`urt_get_free_name` return the numerals of 0, 1, 2 and so on, which are distinct and all names
of that form, and call number `37 ^ 5` sets `names_exhausted`. -/
theorem freeNames_inOrder {g : Internal c} {ls : List (NameCall c)} {s : Naming c}
    (h : g.initialized = false) (hrun : Lts.exec namingStep (start g) ls = some s)
    (hcalls : getFreeCalls ls ≤ freeNames) : FirstNames s (getFreeCalls ls) := by
  have horder := (inOrder_start h).exec hrun (n := 0) (by rwa [Nat.zero_add])
  rw [Nat.zero_add] at horder
  exact horder.firstNames hcalls

/-- A name is registered between two calls. -/
theorem freeNames_inOrder_two :
    ∃ s, Lts.exec namingStep (start (Internal.zero .two))
        [.getFree 1 (.ofBytes []), .registry (.reserve (.ofBytes [65])),
          .getFree 1 (.ofBytes [])] = some s ∧ FirstNames s 2 :=
  ⟨_, (Option.some_get (by decide)).symm,
    freeNames_inOrder rfl (Option.some_get (by decide)).symm (by decide)⟩

end Urt
