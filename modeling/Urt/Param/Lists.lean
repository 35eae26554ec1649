import Urt.Param.Integers
import Urt.Param.Tokens

/-!
# Lists of integers and of strings

What `parse_arg` makes of an array whose value is a list of numbers (`storesInts_of_length_lt`),
and of one of strings (`storesStrings_iff`). Both are about lists that `index`, an `unsigned int`,
can count, and an empty last string is not stored.
-/

namespace Urt

open Libc

/-! ## What is stored -/

section Stored

variable {p : ModuleParam} {malloc : Nat → Bool} (blocks : Nat) {arg : Text}
  {vals : List ArgValue}

/-- The values that are read go to the first places, and the others keep what they have. -/
theorem parseArg_var (hvals : (p.reading malloc arg).2 = vals) (hlength : vals.length < 2 ^ 32) :
    (∀ i v, vals[i]? = some v →
      (parseArg malloc blocks p arg).param.var i = v.cell (blocks + p.type.blocks * i)) ∧
    ∀ i, vals.length ≤ i → (parseArg malloc blocks p arg).param.var i = p.var i := by
  rw [parseArg_eq, hvals]
  refine ⟨fun i v hv => storeAll_of_lt _ _ _ hlength hv, fun i hi => ?_⟩
  obtain ⟨m, v, hv, hplace, -⟩ | ⟨-, hsame⟩ := storeAll_cases p.type.blocks p.var 0 blocks vals i
  · have hm := (List.getElem?_eq_some_iff.mp hv).1
    omega
  · exact hsame

/-- The counts are set if there is no error. -/
theorem parseArg_count (hread : p.reading malloc arg = (none, vals)) :
    (parseArg malloc blocks p arg).err = none ∧
      (parseArg malloc blocks p arg).param.num = vals.length % 2 ^ 32 ∧
      (parseArg malloc blocks p arg).param.nump = p.nump.map fun _ => vals.length % 2 ^ 32 := by
  rw [parseArg_eq, hread]
  exact ⟨rfl, rfl, rfl⟩

theorem parseArg_error {e : ArgError} (hread : p.reading malloc arg = (some e, vals)) :
    (parseArg malloc blocks p arg).err = some e ∧
      (parseArg malloc blocks p arg).param.num = p.num ∧
      (parseArg malloc blocks p arg).param.nump = p.nump := by
  rw [parseArg_eq, hread]
  exact ⟨rfl, rfl, rfl⟩

end Stored

/-! ## Integers -/

/-- What `parse_arg` is to do with a list of numbers. -/
structure StoresInts (p : ModuleParam) (xs : List Int) (r : Parsed) : Prop where
  stored : ∀ i x, i < p.max → xs[i]? = some x → r.param.var i = .int x
  untouched : ∀ i, p.max ≤ i ∨ xs.length ≤ i → r.param.var i = p.var i
  fits : xs.length ≤ p.max →
    r.err = none ∧ r.param.num = xs.length ∧ r.param.nump = p.nump.map fun _ => xs.length
  tooMany : p.max < xs.length →
    r.err = some .e2big ∧ r.param.num = p.num ∧ r.param.nump = p.nump

/-- A number of the type is read as itself, whatever follows the comma. -/
theorem IntType.attempt_intText {t : IntType} {n : Int} (hn : t.InRange n) (malloc : Bool)
    {rest : Text} (hrest : EndsElement rest) :
    t.type.attempt true malloc (intText n ++ rest) = .ok (.int n) := by
  have hnumber := hn.isNumber
  have htext : elementText true (intText n ++ rest) = intText n :=
    takeWhile_of_endsElement (fun h => (hnumber.ne_of_mem h).1 rfl) hrest
  obtain ⟨hlarge, hvalue⟩ := tooLarge_of_isNumber (htext.symm ▸ hnumber)
  rw [attempt_eq, readInt_eq t (List.append_ne_nil_of_left_ne_nil hnumber.ne_nil rest),
    if_neg (fun h => hlarge.mp h hn), hvalue hn]

/-- The argument that gives a parameter a list of numbers. -/
def intsArgument (quoted : Bool) (name : Text) (xs : List Int) : Text :=
  argumentOf quoted name (joined (xs.map intText))

/-- What is read of a list of numbers. -/
theorem reading_ints {t : IntType} {p : ModuleParam} (htype : p.type = t.type)
    (harray : p.isArray = true) (hname : IsIdentifier p.name) {xs : List Int} (hne : xs ≠ [])
    (hrange : ∀ x ∈ xs, t.InRange x) (quoted : Bool) (malloc : Nat → Bool) :
    p.reading malloc (intsArgument quoted p.name xs) =
      if p.max < 2 ^ 32 ∧ p.max < xs.length then (some .e2big, (xs.map .int).take p.max)
      else (none, xs.map .int) := by
  have hchar : ∀ x ∈ xs, ∀ ch ∈ intText x, ch ≠ 44 ∧ ch ≠ 34 :=
    fun x hx ch hch => (hrange x hx).isNumber.ne_of_mem hch
  have hhead : (joined (xs.map intText)).head? ≠ some 34 := by
    cases xs with
    | nil => exact absurd rfl hne
    | cons x xs =>
      obtain ⟨rest, hjoined, -⟩ := joined_cons (intText x) (xs.map intText)
      have htext := (hrange x List.mem_cons_self).isNumber.ne_nil
      rw [List.map_cons, hjoined, List.head?_append_of_ne_nil _ htext]
      intro h
      exact (hchar x List.mem_cons_self 34 (List.mem_of_head? h)).2 rfl
  have harg : (unquote (intsArgument quoted p.name xs)).1 = joined (xs.map intText) :=
    unquote_argumentOf (not_mem_of_isIdentifier hname) (.inr hhead)
  have hcomma : ∀ s ∈ xs.map intText, 44 ∉ s := by
    intro s hs hmem
    obtain ⟨x, hx, rfl⟩ := List.mem_map.mp hs
    exact (hchar x hx 44 hmem).1 rfl
  have hlast : LastSeen (xs.map intText) := by
    right
    intro h
    obtain ⟨x, hx, hnil⟩ := List.mem_map.mp (List.mem_of_getLast? h)
    exact (hrange x hx).isNumber.ne_nil hnil
  have hlength : (xs.map ArgValue.int).length = (xs.map intText).length := by
    rw [List.length_map, List.length_map]
  have hvals : ∀ k s v, (xs.map intText)[k]? = some s → (xs.map ArgValue.int)[k]? = some v →
      ∀ rest, EndsElement rest → p.type.attempt true (malloc k) (s ++ rest) = .ok v := by
    intro k s v hs hv rest hrest
    rw [List.getElem?_map, Option.map_eq_some_iff] at hs hv
    obtain ⟨x, hx, rfl⟩ := hs
    obtain ⟨y, hy, rfl⟩ := hv
    obtain rfl := Option.some.inj (hx.symm.trans hy)
    rw [htype]
    exact IntType.attempt_intText (hrange x (List.mem_of_getElem? hx)) _ hrest
  rw [reading_of_tokens (htype ▸ t.converter_ne_none) harray harg
    (fun h => hne (List.map_eq_nil_iff.mp h)) hcomma hlast hlength hvals, List.length_map]

section Outcomes

variable {p : ModuleParam} {malloc : Nat → Bool} {arg : Text} {xs : List Int} (blocks : Nat)

/-- More numbers than places: `E2BIG`, after as many numbers as there are places. -/
theorem storesInts_of_tooMany
    (hread : p.reading malloc arg = (some .e2big, (xs.map .int).take p.max))
    (hmax : p.max < 2 ^ 32) (hmany : p.max < xs.length) :
    StoresInts p xs (parseArg malloc blocks p arg) := by
  have hlength : ((xs.map ArgValue.int).take p.max).length = p.max := by
    rw [List.length_take, List.length_map]
    omega
  obtain ⟨hvar, hrest⟩ := parseArg_var blocks (congrArg Prod.snd hread) (hlength.trans_lt hmax)
  constructor
  · intro i x hi hx
    apply hvar i (.int x)
    rw [List.getElem?_take_of_lt hi, List.getElem?_map, hx]
    rfl
  · intro i hi
    apply hrest
    rw [hlength]
    omega
  · intro hle
    omega
  · intro _
    exact parseArg_error blocks hread

/-- No more numbers than places, and fewer than `2 ^ 32`. -/
theorem storesInts_of_fits (hread : p.reading malloc arg = (none, xs.map .int))
    (hmax : xs.length ≤ p.max) (hlength : xs.length < 2 ^ 32) :
    StoresInts p xs (parseArg malloc blocks p arg) := by
  obtain ⟨herr, hnum, hnump⟩ := parseArg_count blocks hread
  obtain ⟨hvar, hrest⟩ := parseArg_var blocks (congrArg Prod.snd hread)
    ((List.length_map _).trans_lt hlength)
  rw [List.length_map, Nat.mod_eq_of_lt hlength] at hnum hnump
  constructor
  · intro i x _ hx
    apply hvar i (.int x)
    rw [List.getElem?_map, hx]
    rfl
  · intro i hi
    apply hrest
    rw [List.length_map]
    omega
  · intro _
    exact ⟨herr, hnum, hnump⟩
  · intro hlt
    omega

/-- The count comes back to what is left of the length. -/
theorem not_storesInts_of_wraps (hread : p.reading malloc arg = (none, xs.map .int))
    (hlength : 2 ^ 32 ≤ xs.length) : ¬ StoresInts p xs (parseArg malloc blocks p arg) := by
  obtain ⟨herr, hnum, -⟩ := parseArg_count blocks hread
  rw [List.length_map] at hnum
  intro h
  by_cases hfits : xs.length ≤ p.max
  · have hcount := (h.fits hfits).2.1
    rw [hnum] at hcount
    omega
  · have htoo := (h.tooMany (Nat.lt_of_not_le hfits)).1
    rw [herr] at htoo
    cases htoo

end Outcomes

/-- A list of numbers is stored, up to the capacity of the array, and counted exactly if its length
or the capacity is below `2 ^ 32`. -/
theorem storesInts_iff {t : IntType} {p : ModuleParam} (htype : p.type = t.type)
    (harray : p.isArray = true) (hname : IsIdentifier p.name) {xs : List Int} (hne : xs ≠ [])
    (hrange : ∀ x ∈ xs, t.InRange x) (quoted : Bool) (malloc : Nat → Bool) (blocks : Nat) :
    StoresInts p xs (parseArg malloc blocks p (intsArgument quoted p.name xs)) ↔
      xs.length < 2 ^ 32 ∨ p.max < 2 ^ 32 := by
  have hread := reading_ints htype harray hname hne hrange quoted malloc
  by_cases hmany : p.max < 2 ^ 32 ∧ p.max < xs.length
  · rw [if_pos hmany] at hread
    exact iff_of_true (storesInts_of_tooMany blocks hread hmany.1 hmany.2) (.inr hmany.1)
  · rw [if_neg hmany] at hread
    by_cases hlength : xs.length < 2 ^ 32
    · exact iff_of_true (storesInts_of_fits blocks hread (by omega) hlength) (.inl hlength)
    · exact iff_of_false (not_storesInts_of_wraps blocks hread (by omega)) (by omega)

/-- **Lists of numbers.** A list of fewer than `2 ^ 32` numbers of the type is stored and counted
if the array has room for it, and otherwise as much of it as there is room for, with `E2BIG`. -/
theorem storesInts_of_length_lt {t : IntType} {p : ModuleParam} (htype : p.type = t.type)
    (harray : p.isArray = true) (hname : IsIdentifier p.name) {xs : List Int} (hne : xs ≠ [])
    (hrange : ∀ x ∈ xs, t.InRange x) (hlength : xs.length < 2 ^ 32) (quoted : Bool)
    (malloc : Nat → Bool) (blocks : Nat) :
    StoresInts p xs (parseArg malloc blocks p (intsArgument quoted p.name xs)) :=
  (storesInts_iff htype harray hname hne hrange quoted malloc blocks).mpr (.inl hlength)

/-- `test_arg2`, an array of three bytes -/
def byteArray : ModuleParam :=
  .common [116, 101, 115, 116, 95, 97, 114, 103, 50] .byte 3 (fun _ => .int 0) (some 0) true

theorem storesInts_of_length_lt_bytes :
    StoresInts byteArray [0, 255] (parseArg (fun _ => true) 0 byteArray
      (intsArgument false byteArray.name [0, 255])) :=
  storesInts_of_length_lt (t := .byte) rfl rfl (by decide) (by decide) (by decide) (by decide) false
    (fun _ => true) 0

/-! ## Strings -/

/-- What `parse_arg` is to do with a list of strings. -/
structure StoresStrings (p : ModuleParam) (ss : List Text) (r : Parsed) : Prop where
  succeeds : r.err = none
  stored : ∀ i s, ss[i]? = some s → (r.param.var i).value = some (.text s)
  count : r.param.num = ss.length

theorem charp_converter_ne_none : ParamType.charp.converter ≠ none := Option.some_ne_none _

theorem attempt_charp_eq (malloc : Bool) (value : Text) :
    ParamType.charp.attempt true malloc value =
      if malloc then .ok (.text (value.takeWhile (· != 44))) else .error .enomem := by
  cases malloc <;> rfl

section Strings

variable {p : ModuleParam} (htype : p.type = .charp) (harray : p.isArray = true) {arg : Text}
  {ss : List Text} (harg : (unquote arg).1 = joined ss) (hne : ss ≠ [])
  (hcomma : ∀ s ∈ ss, 44 ∉ s) (malloc : Nat → Bool) (blocks : Nat)

include htype harray harg hne hcomma

/-- Where the strings are stored and counted, no more of them than there are places. -/
theorem storesStrings_of (hmax : ss.length ≤ p.max) (hmalloc : ∀ k < ss.length, malloc k = true)
    (hlast : LastSeen ss) (hlength : ss.length < 2 ^ 32) :
    StoresStrings p ss (parseArg malloc blocks p arg) := by
  have hvals : ∀ k s v, ss[k]? = some s → (ss.map ArgValue.text)[k]? = some v →
      ∀ rest, EndsElement rest → p.type.attempt true (malloc k) (s ++ rest) = .ok v := by
    intro k s v hs hv rest hrest
    rw [List.getElem?_map, hs] at hv
    rw [htype, attempt_charp_eq, hmalloc k (List.getElem?_eq_some_iff.mp hs).1, if_pos rfl,
      takeWhile_of_endsElement (hcomma s (List.mem_of_getElem? hs)) hrest, ← Option.some.inj hv]
  have hread := reading_of_tokens (htype ▸ charp_converter_ne_none) harray harg hne hcomma hlast
    (List.length_map _) hvals
  rw [if_neg (by omega)] at hread
  obtain ⟨herr, hnum, -⟩ := parseArg_count blocks hread
  obtain ⟨hvar, -⟩ := parseArg_var blocks (congrArg Prod.snd hread)
    ((List.length_map _).trans_lt hlength)
  refine ⟨herr, ?_, ?_⟩
  · intro i s hs
    have hcell := hvar i (.text s) (by rw [List.getElem?_map, hs]; rfl)
    rw [hcell, ArgValue.value_cell]
  · rw [hnum, List.length_map, Nat.mod_eq_of_lt hlength]

/-- Where all of them are counted, none was left out and there was memory for each. -/
theorem of_storesStrings (h : StoresStrings p ss (parseArg malloc blocks p arg)) :
    (∀ k < ss.length, malloc k = true) ∧ LastSeen ss ∧ ss.length < 2 ^ 32 := by
  have hread := reading_joined (htype ▸ charp_converter_ne_none) harray harg malloc
  rw [htype] at hread
  have herr := h.succeeds
  have hcount := h.count
  rw [parseArg_eq] at herr hcount
  change (p.reading malloc arg).1 = none at herr
  dsimp only at hcount
  rw [if_pos herr] at hcount
  have hseen : (p.reading malloc arg).2.length = (seen ss).length := by
    rw [hread] at herr ⊢
    rw [(collect_values herr).1, elements_joined hne hcomma, List.length_map]
  have hpos := List.length_pos_iff.mpr hne
  have hlength := seen_length hne
  have hlast : LastSeen ss := by
    by_contra hnot
    rw [if_neg hnot] at hlength
    omega
  rw [if_pos hlast] at hlength
  refine ⟨?_, hlast, by omega⟩
  intro k hk
  rw [hread, collect_eq_none_iff] at herr
  have hget : k < (elements true (joined ss)).length := by
    rw [elements_joined hne hcomma, List.length_map, hlength]
    exact hk
  obtain ⟨-, v, hv⟩ := herr k _ (List.getElem?_eq_getElem hget)
  rw [attempt_charp_eq, Nat.zero_add] at hv
  by_contra hnot
  rw [if_neg hnot] at hv
  cases hv

end Strings

/-- **When a list of strings is stored**: exactly if there is memory for each, the last one is not
empty unless it is the only one, and there are fewer than `2 ^ 32`. -/
theorem storesStrings_iff {p : ModuleParam} (htype : p.type = .charp) (harray : p.isArray = true)
    (hname : IsIdentifier p.name) {ss : List Text} (hne : ss ≠ []) (hcomma : ∀ s ∈ ss, 44 ∉ s)
    (hmax : ss.length ≤ p.max) (malloc : Nat → Bool) (blocks : Nat) :
    StoresStrings p ss (parseArg malloc blocks p (argumentOf true p.name (joined ss))) ↔
      (∀ k < ss.length, malloc k = true) ∧ LastSeen ss ∧ ss.length < 2 ^ 32 := by
  have harg : (unquote (argumentOf true p.name (joined ss))).1 = joined ss :=
    unquote_argumentOf (not_mem_of_isIdentifier hname) (.inl rfl)
  constructor
  · exact of_storesStrings htype harray harg hne hcomma malloc blocks
  · intro h
    exact storesStrings_of htype harray harg hne hcomma malloc blocks hmax h.1 h.2.1 h.2.2

/-- `test_arg3`, an array of three strings -/
def stringArray : ModuleParam :=
  .common [116, 101, 115, 116, 95, 97, 114, 103, 51] .charp 3 (fun _ => .pointer 0) (some 0) true

theorem storesStrings_iff_quote :
    StoresStrings stringArray [[], [34, 61]] (parseArg (fun _ => true) 0 stringArray
      (argumentOf true stringArray.name (joined [[], [34, 61]]))) ↔
      (∀ k < [[], [34, 61]].length, (fun _ => true) k = true) ∧ LastSeen [[], [34, 61]] ∧
        [[], [34, 61]].length < 2 ^ 32 :=
  storesStrings_iff rfl rfl (by decide) (by decide) (by decide) (by decide) (fun _ => true) 0

/-- Of `"a,"` only the first string is stored. -/
theorem not_storesStrings :
    ¬ ∀ (p : ModuleParam), p.type = .charp → p.isArray = true → IsIdentifier p.name →
      ∀ ss : List Text, ss ≠ [] → (∀ s ∈ ss, 44 ∉ s) → ss.length ≤ p.max →
      ∀ blocks : Nat,
      StoresStrings p ss (parseArg (fun _ => true) blocks p
        (argumentOf true p.name (joined ss))) := by
  intro h
  have hcount := (h stringArray rfl rfl (by decide) [[97], []] (by decide) (by decide) (by decide)
    0).count
  have hone : (parseArg (fun _ => true) 0 stringArray
      (argumentOf true stringArray.name (joined [[97], []]))).param.num = 1 := by
    decide +kernel
  rw [hone] at hcount
  cases hcount

end Urt
