import Urt.Param.Lists

/-!
# Boolean parameters

The documentation gives six spellings, `0`, `1`, `n`, `y`, `N` and `Y`. `extract_bool` looks at the
first character only, and compares it with the character of code 1 in the place of `'1'`. An empty
text is true, also where it is the only token of a list, and an empty last token of a longer list
is not seen. `boolsRead_iff` says for which values this makes no difference.
-/

namespace Urt

open Libc

/-- The types that are read with `extract_bool`. -/
inductive BoolType where
  | bool
  | cBool
  | invbool
  deriving DecidableEq, Repr

namespace BoolType

def type : BoolType → ParamType
  | bool => .bool
  | cBool => .cBool
  | invbool => .invbool

/-- The value is negated. -/
def inv : BoolType → Bool
  | bool | cBool => false
  | invbool => true

theorem attempt_eq (t : BoolType) (isArray malloc : Bool) (value : Text) :
    t.type.attempt isArray malloc value = readBool t.inv value := by
  cases t <;> rfl

theorem converter_ne_none (t : BoolType) : t.type.converter ≠ none := by
  cases t <;> exact Option.some_ne_none _

end BoolType

/-! ## The documentation -/

/-- The spellings that the documentation gives. -/
def DocumentedBool (s : Text) : Prop := s ∈ [[48], [49], [110], [121], [78], [89]]

instance (s : Text) : Decidable (DocumentedBool s) := inferInstanceAs (Decidable (_ ∈ _))

/-- What they stand for. -/
def truth (s : Text) : Bool := s == [49] || s == [121] || s == [89]

/-- What `parse_arg` is to do with a list of tokens. -/
structure ReadsBools (inv : Bool) (tokens : List Text) (r : Parsed) : Prop where
  succeeds : r.err = none ↔ ∀ s ∈ tokens, DocumentedBool s
  stored : (∀ s ∈ tokens, DocumentedBool s) →
    (∀ i s, tokens[i]? = some s → r.param.var i = .bool (truth s != inv)) ∧
      r.param.num = tokens.length
  rejected : (¬ ∀ s ∈ tokens, DocumentedBool s) → r.err = some .einval

/-- What `parse_arg` is to do with the value of a scalar. -/
structure ReadsBool (inv : Bool) (value : Text) (r : Parsed) : Prop where
  absent : value = [] → r.err = none ∧ r.param.var 0 = .bool (true != inv)
  documented : DocumentedBool value → r.err = none ∧ r.param.var 0 = .bool (truth value != inv)
  rejected : value ≠ [] → ¬ DocumentedBool value → r.err = some .einval

/-! ## The code -/

/-- The characters that `extract_bool` lets pass. -/
def Accepts (ch : UInt8) : Prop := ch ∈ ([48, 1, 121, 110, 89, 78] : List UInt8)

instance (ch : UInt8) : Decidable (Accepts ch) := inferInstanceAs (Decidable (_ ∈ _))

/-- The text begins with another character. -/
def Misspelt (s : Text) : Prop := ∃ ch, s.head? = some ch ∧ ¬ Accepts ch

/-- The token at place `i` is misspelt, or it is empty and followed by a comma. -/
def RejectedAt (tokens : List Text) (i : Nat) : Prop :=
  ∃ s, tokens[i]? = some s ∧ (Misspelt s ∨ s = [] ∧ i + 1 < tokens.length)

theorem extractBool_cons (ch : UInt8) (rest : Text) :
    extractBool (ch :: rest) =
      if Accepts ch then some (ch == 49 || ch == 121 || ch == 89) else none := by
  rw [extractBool]
  by_cases h : Accepts ch
  · rw [if_pos h, if_neg]
    intro hnot
    simp only [Accepts, List.mem_cons, List.not_mem_nil, or_false] at h
    tauto
  · rw [if_neg h, if_pos]
    simp only [Accepts, List.mem_cons, List.not_mem_nil, or_false, not_or] at h
    tauto

theorem extractBool_eq_none_iff (value : Text) : extractBool value = none ↔ Misspelt value := by
  cases value with
  | nil => exact iff_of_false (Option.some_ne_none _) (fun ⟨ch, hch, _⟩ => by cases hch)
  | cons ch rest =>
    rw [extractBool_cons]
    by_cases h : Accepts ch
    · rw [if_pos h]
      refine iff_of_false (Option.some_ne_none _) ?_
      intro hnot
      obtain ⟨c, hc, hno⟩ := hnot
      obtain rfl := Option.some.inj hc
      exact hno h
    · rw [if_neg h]
      exact iff_of_true rfl ⟨ch, rfl, h⟩

/-- A documented spelling other than `1` is read as it should be, whatever follows. -/
theorem extractBool_append {s : Text} (h : DocumentedBool s) (hone : s ≠ [49]) (rest : Text) :
    extractBool (s ++ rest) = some (truth s) := by
  simp only [DocumentedBool, List.mem_cons, List.not_mem_nil, or_false] at h
  obtain rfl | rfl | rfl | rfl | rfl | rfl := h
  · rfl
  · exact absurd rfl hone
  · rfl
  · rfl
  · rfl
  · rfl

theorem misspelt_append {s : Text} (h : Misspelt s) (rest : Text) : Misspelt (s ++ rest) := by
  obtain ⟨ch, hch, hnot⟩ := h
  refine ⟨ch, ?_, hnot⟩
  rw [List.head?_append, hch]
  rfl

/-- The text that the loop sees at a token is misspelt exactly if the token is rejected. -/
theorem misspelt_iff_rejectedAt {tokens : List Text} (hne : tokens ≠ [])
    (hcomma : ∀ s ∈ tokens, 44 ∉ s) {i : Nat} {value : Text}
    (h : (elements true (joined tokens))[i]? = some value) :
    Misspelt value ↔ RejectedAt tokens i := by
  obtain ⟨s, rest, hs, hvalue, hends, hrest⟩ := elements_getElem? hne hcomma h
  rw [hvalue]
  constructor
  · intro hmisspelt
    refine ⟨s, hs, ?_⟩
    obtain ⟨ch, hch, hnot⟩ := hmisspelt
    cases s with
    | cons b s => exact .inl ⟨ch, hch, hnot⟩
    | nil =>
      have hlt := (List.getElem?_eq_some_iff.mp hs).1
      refine .inr ⟨rfl, ?_⟩
      by_contra hge
      rw [hrest.mpr (by omega)] at hch
      cases hch
  · intro hrejected
    obtain ⟨s', hs', hcase⟩ := hrejected
    obtain rfl := Option.some.inj (hs.symm.trans hs')
    obtain hmisspelt | ⟨rfl, hlt⟩ := hcase
    · exact misspelt_append hmisspelt rest
    · -- the text begins with the comma
      cases rest with
      | nil => exact absurd (hrest.mp rfl) (Nat.ne_of_lt hlt)
      | cons ch rest =>
        obtain rfl := hends ch rfl
        exact ⟨44, rfl, by decide⟩

/-- A token that is rejected is seen. -/
theorem RejectedAt.lt_length {tokens : List Text} {i : Nat} (h : RejectedAt tokens i)
    (hne : tokens ≠ []) (hcomma : ∀ s ∈ tokens, 44 ∉ s) :
    i < (elements true (joined tokens)).length := by
  rw [elements_joined hne hcomma, List.length_map]
  obtain ⟨s, hs, hcase⟩ := h
  apply lt_seen_length hs
  obtain ⟨ch, hch, -⟩ | ⟨-, hlt⟩ := hcase
  · left
    intro hnil
    rw [hnil] at hch
    cases hch
  · exact .inr hlt

theorem readBool_eq_error_iff {inv : Bool} {value : Text} {e : ArgError} :
    readBool inv value = .error e ↔ Misspelt value ∧ e = .einval := by
  rw [← extractBool_eq_none_iff, readBool]
  cases extractBool value with
  | none => exact ⟨fun h => ⟨rfl, (Except.error.inj h).symm⟩, fun h => h.2 ▸ rfl⟩
  | some b => exact iff_of_false (fun h => by cases h) (fun h => by cases h.1)

/-! ## Lists -/

/-- The lists that are read as documented: every spelling is documented and none is `1`, and they
can be counted; or one is not documented, and there is one that is rejected. -/
def BoolsClear (tokens : List Text) : Prop :=
  (∀ s ∈ tokens, DocumentedBool s ∧ s ≠ [49]) ∧ tokens.length < 2 ^ 32 ∨
    (∃ s ∈ tokens, ¬ DocumentedBool s) ∧ ∃ i, RejectedAt tokens i

section Lists

variable {t : BoolType} {p : ModuleParam} (htype : p.type = t.type) (harray : p.isArray = true)
  {arg : Text} {tokens : List Text} (harg : (unquote arg).1 = joined tokens) (hne : tokens ≠ [])
  (hcomma : ∀ s ∈ tokens, 44 ∉ s) (hmax : tokens.length ≤ p.max) (malloc : Nat → Bool)

include htype harray harg

theorem reading_bools :
    p.reading malloc arg =
      collect p.max (fun _ value => readBool t.inv value) 0 (elements true (joined tokens)) := by
  rw [reading_joined (htype ▸ t.converter_ne_none) harray harg, htype]
  simp only [t.attempt_eq]

include hne hcomma hmax

/-- A list is accepted exactly if no token is rejected. -/
theorem reading_bools_err :
    (p.reading malloc arg).1 = none ↔ ∀ i, ¬ RejectedAt tokens i := by
  rw [reading_bools htype harray harg, collect_eq_none_iff]
  constructor
  · intro h i hrejected
    have hlength := hrejected.lt_length hne hcomma
    have hmisspelt := (misspelt_iff_rejectedAt hne hcomma (List.getElem?_eq_getElem hlength)).mpr
      hrejected
    obtain ⟨-, v, hv⟩ := h i _ (List.getElem?_eq_getElem hlength)
    rw [readBool_eq_error_iff.mpr ⟨hmisspelt, rfl⟩] at hv
    cases hv
  · intro h m value hm
    rw [Nat.zero_add]
    refine ⟨place_lt hne hcomma hmax hm, ?_⟩
    cases hread : readBool t.inv value with
    | ok v => exact ⟨v, rfl⟩
    | error e =>
      have hmisspelt := (readBool_eq_error_iff.mp hread).1
      exact absurd ((misspelt_iff_rejectedAt hne hcomma hm).mp hmisspelt) (h m)

/-- The only error is `EINVAL`. -/
theorem reading_bools_einval {e : ArgError} (h : (p.reading malloc arg).1 = some e) :
    e = .einval := by
  rw [reading_bools htype harray harg] at h
  obtain ⟨m, value, hm, ⟨hfull, -⟩ | hread⟩ := collect_error h
  · rw [Nat.zero_add] at hfull
    exact absurd hfull (Nat.not_le_of_lt (place_lt hne hcomma hmax hm))
  · exact (readBool_eq_error_iff.mp hread).2

/-- A list in which every spelling is documented and none is `1` is read as it should be. -/
theorem reading_bools_of_documented (hall : ∀ s ∈ tokens, DocumentedBool s ∧ s ≠ [49]) :
    p.reading malloc arg = (none, tokens.map fun s => .bool (truth s != t.inv)) := by
  have hlast : LastSeen tokens := by
    right
    intro h
    exact absurd (hall [] (List.mem_of_getLast? h)).1 (by decide)
  have hvals : ∀ k s v, tokens[k]? = some s →
      (tokens.map fun s => ArgValue.bool (truth s != t.inv))[k]? = some v →
      ∀ rest, EndsElement rest → p.type.attempt true (malloc k) (s ++ rest) = .ok v := by
    intro k s v hs hv rest _
    obtain ⟨hdoc, hone⟩ := hall s (List.mem_of_getElem? hs)
    rw [List.getElem?_map, hs] at hv
    rw [htype, t.attempt_eq, readBool, extractBool_append hdoc hone, ← Option.some.inj hv]
  rw [reading_of_tokens (htype ▸ t.converter_ne_none) harray harg hne hcomma hlast
    (List.length_map _) hvals, if_neg (by omega)]

theorem parseArg_bools_err (blocks : Nat) :
    (parseArg malloc blocks p arg).err = none ↔ ∀ i, ¬ RejectedAt tokens i := by
  rw [← reading_bools_err htype harray harg hne hcomma hmax malloc, parseArg_eq]

/-- A list that is read as documented is clear. -/
theorem boolsClear_of_readsBools (blocks : Nat)
    (h : ReadsBools t.inv tokens (parseArg malloc blocks p arg)) : BoolsClear tokens := by
  have herr := parseArg_bools_err htype harray harg hne hcomma hmax malloc blocks
  by_cases hall : ∀ s ∈ tokens, DocumentedBool s
  · left
    have hnone := h.succeeds.mpr hall
    refine ⟨?_, ?_⟩
    · intro s hs
      refine ⟨hall s hs, ?_⟩
      intro hone
      obtain ⟨i, hi⟩ := List.mem_iff_getElem?.mp hs
      rw [hone] at hi
      exact herr.mp hnone i ⟨[49], hi, .inl ⟨49, rfl, by decide⟩⟩
    · have hnum := (h.stored hall).2
      rw [parseArg_eq] at hnone hnum
      dsimp only at hnone hnum
      rw [if_pos hnone] at hnum
      omega
  · right
    have heinval := h.rejected hall
    obtain ⟨s, hs, hdoc⟩ := not_forall₂.mp hall
    refine ⟨⟨s, hs, hdoc⟩, ?_⟩
    by_contra hno
    rw [herr.mpr (not_exists.mp hno)] at heinval
    cases heinval

/-- A list of documented spellings other than `1` that can be counted is stored. -/
theorem readsBools_of_documented (hall : ∀ s ∈ tokens, DocumentedBool s ∧ s ≠ [49])
    (hlength : tokens.length < 2 ^ 32) (blocks : Nat) :
    ReadsBools t.inv tokens (parseArg malloc blocks p arg) := by
  have hread := reading_bools_of_documented htype harray harg hne hcomma hmax malloc hall
  have hdoc : ∀ s ∈ tokens, DocumentedBool s := fun s hs => (hall s hs).1
  obtain ⟨hnone, hnum, -⟩ := parseArg_count blocks hread
  obtain ⟨hvar, -⟩ := parseArg_var blocks (congrArg Prod.snd hread)
    ((List.length_map _).trans_lt hlength)
  refine ⟨iff_of_true hnone hdoc, ?_, fun hnot => absurd hdoc hnot⟩
  intro _
  refine ⟨?_, ?_⟩
  · intro i s hs
    apply hvar i (.bool (truth s != t.inv))
    rw [List.getElem?_map, hs]
    rfl
  · rw [hnum, List.length_map, Nat.mod_eq_of_lt hlength]

/-- A list that is rejected, and is to be. -/
theorem readsBools_of_rejected (hnot : ¬ ∀ s ∈ tokens, DocumentedBool s) {i : Nat}
    (hi : RejectedAt tokens i) (blocks : Nat) :
    ReadsBools t.inv tokens (parseArg malloc blocks p arg) := by
  have herr := parseArg_bools_err htype harray harg hne hcomma hmax malloc blocks
  have heinval : (parseArg malloc blocks p arg).err = some .einval := by
    cases he : (parseArg malloc blocks p arg).err with
    | none => exact absurd hi (herr.mp he i)
    | some e =>
      rw [parseArg_eq] at he
      rw [reading_bools_einval htype harray harg hne hcomma hmax malloc he]
  refine ⟨iff_of_false ?_ hnot, fun hall => absurd hall hnot, fun _ => heinval⟩
  rw [heinval]
  exact Option.some_ne_none _

/-- A list is read as documented exactly if it is clear. -/
theorem readsBools_iff (blocks : Nat) :
    ReadsBools t.inv tokens (parseArg malloc blocks p arg) ↔ BoolsClear tokens := by
  constructor
  · exact boolsClear_of_readsBools htype harray harg hne hcomma hmax malloc blocks
  · intro h
    obtain ⟨hall, hlength⟩ | ⟨⟨s, hs, hdoc⟩, i, hi⟩ := h
    · exact readsBools_of_documented htype harray harg hne hcomma hmax malloc hall hlength blocks
    · have hnot : ¬ ∀ s ∈ tokens, DocumentedBool s := fun hall => hdoc (hall s hs)
      exact readsBools_of_rejected htype harray harg hne hcomma hmax malloc hnot hi blocks

end Lists

/-! ## Scalars -/

/-- The values that are read as documented: none, a documented spelling other than `1`, and any
other text that begins with a character that is not let pass. -/
def BoolClear (value : Text) : Prop :=
  value = [] ∨ DocumentedBool value ∧ value ≠ [49] ∨ ¬ DocumentedBool value ∧ Misspelt value

/-- What `parse_arg` does with a scalar. -/
theorem parseArg_bool {t : BoolType} {p : ModuleParam} (htype : p.type = t.type)
    (harray : p.isArray = false) (hmax : 0 < p.max) (malloc : Nat → Bool) (blocks : Nat)
    (arg : Text) :
    match extractBool (unquote arg).1 with
    | none => (parseArg malloc blocks p arg).err = some .einval
    | some b => (parseArg malloc blocks p arg).err = none ∧
        (parseArg malloc blocks p arg).param.var 0 = .bool (b != t.inv) := by
  have hread : p.reading malloc arg =
      match extractBool (unquote arg).1 with
      | none => (some .einval, [])
      | some b => (none, [.bool (b != t.inv)]) := by
    have hroom : ¬ 0 % 2 ^ 32 ≥ p.max := Nat.not_le_of_lt hmax
    rw [ModuleParam.reading, if_neg (htype ▸ t.converter_ne_none), harray, htype, elements,
      if_neg Bool.false_ne_true, collect, if_neg hroom, t.attempt_eq, readBool]
    cases extractBool (unquote arg).1 with
    | none => rfl
    | some b => rfl
  cases hb : extractBool (unquote arg).1 with
  | none =>
    rw [hb] at hread
    exact (parseArg_error blocks hread).1
  | some b =>
    rw [hb] at hread
    have hone : [ArgValue.bool (b != t.inv)].length < 2 ^ 32 := Nat.one_lt_two_pow (by decide)
    exact ⟨(parseArg_count blocks hread).1,
      (parseArg_var blocks (congrArg Prod.snd hread) hone).1 0 _ rfl⟩

/-- A scalar is read as documented exactly if its value is clear. -/
theorem readsBool_iff {t : BoolType} {p : ModuleParam} (htype : p.type = t.type)
    (harray : p.isArray = false) (hmax : 0 < p.max) (malloc : Nat → Bool) (blocks : Nat)
    (arg : Text) :
    ReadsBool t.inv (unquote arg).1 (parseArg malloc blocks p arg) ↔
      BoolClear (unquote arg).1 := by
  have hparse := parseArg_bool htype harray hmax malloc blocks arg
  generalize (unquote arg).1 = value at hparse ⊢
  constructor
  · intro h
    by_cases hnil : value = []
    · exact .inl hnil
    right
    by_cases hdoc : DocumentedBool value
    · left
      refine ⟨hdoc, ?_⟩
      intro hone
      rw [hone] at hparse
      change (parseArg malloc blocks p arg).err = some .einval at hparse
      rw [(h.documented hdoc).1] at hparse
      cases hparse
    · right
      refine ⟨hdoc, (extractBool_eq_none_iff value).mp ?_⟩
      cases hb : extractBool value with
      | none => rfl
      | some b =>
        rw [hb] at hparse
        have heinval := h.rejected hnil hdoc
        rw [hparse.1] at heinval
        cases heinval
  · intro h
    obtain hnil | ⟨hdoc, hone⟩ | ⟨hnot, hmisspelt⟩ := h
    · rw [hnil] at hparse ⊢
      exact ⟨fun _ => hparse, fun hdoc => absurd hdoc (by decide), fun hne => absurd rfl hne⟩
    · have hb := extractBool_append hdoc hone []
      rw [List.append_nil] at hb
      rw [hb] at hparse
      refine ⟨?_, fun _ => hparse, fun _ hnot => absurd hdoc hnot⟩
      intro hnil
      rw [hnil] at hdoc
      exact absurd hdoc (by decide)
    · rw [(extractBool_eq_none_iff value).mpr hmisspelt] at hparse
      refine ⟨?_, fun hdoc => absurd hdoc hnot, fun _ _ => hparse⟩
      intro hnil
      obtain ⟨ch, hch, -⟩ := hmisspelt
      rw [hnil] at hch
      cases hch

/-- **When booleans are read as documented**: a list exactly if it is clear, and a scalar exactly
if its value is. -/
theorem boolsRead_iff {t : BoolType} {p : ModuleParam} (htype : p.type = t.type)
    (malloc : Nat → Bool) (blocks : Nat) (arg : Text) :
    (p.isArray = true → ∀ tokens : List Text, tokens ≠ [] → (∀ s ∈ tokens, 44 ∉ s) →
      tokens.length ≤ p.max → (unquote arg).1 = joined tokens →
      (ReadsBools t.inv tokens (parseArg malloc blocks p arg) ↔ BoolsClear tokens)) ∧
    (p.isArray = false → 0 < p.max →
      (ReadsBool t.inv (unquote arg).1 (parseArg malloc blocks p arg) ↔
        BoolClear (unquote arg).1)) := by
  constructor
  · intro harray tokens hne hcomma hmax harg
    exact readsBools_iff htype harray harg hne hcomma hmax malloc blocks
  · intro harray hmax
    exact readsBool_iff htype harray hmax malloc blocks arg

/-- `flags`, an array of two -/
def flagArray : ModuleParam :=
  .common [102, 108, 97, 103, 115] .invbool 2 (fun _ => .bool false) (some 0) true

/-- `flag` -/
def flagParam : ModuleParam :=
  .common [102, 108, 97, 103] .bool 1 (fun _ => .bool false) none false

theorem boolsRead_iff_flags :
    (ReadsBools true [[121], [78]] (parseArg (fun _ => true) 0 flagArray
      (argumentOf false flagArray.name (joined [[121], [78]]))) ↔ BoolsClear [[121], [78]]) ∧
    (ReadsBool false (unquote flagParam.name).1
      (parseArg (fun _ => true) 0 flagParam flagParam.name) ↔
        BoolClear (unquote flagParam.name).1) :=
  ⟨(boolsRead_iff (t := .invbool) rfl (fun _ => true) 0 _).1 rfl [[121], [78]] (by decide)
      (by decide) (by decide) (by decide),
    (boolsRead_iff (t := .bool) rfl (fun _ => true) 0 _).2 rfl (by decide)⟩

/-- `flag=1` is rejected. -/
theorem not_boolsRead :
    ¬ ∀ (t : BoolType) (p : ModuleParam), p.type = t.type →
      ∀ (malloc : Nat → Bool) (blocks : Nat) (arg : Text),
      (p.isArray = true → ∀ tokens : List Text, tokens ≠ [] → (∀ s ∈ tokens, 44 ∉ s) →
        tokens.length ≤ p.max → (unquote arg).1 = joined tokens →
        ReadsBools t.inv tokens (parseArg malloc blocks p arg)) ∧
      (p.isArray = false → 0 < p.max →
        ReadsBool t.inv (unquote arg).1 (parseArg malloc blocks p arg)) := by
  intro h
  obtain ⟨htrue, -⟩ := ((h .bool flagParam rfl (fun _ => true) 0
    (argumentOf false flagParam.name [49])).2 rfl (by decide)).documented (by decide)
  have heinval : (parseArg (fun _ => true) 0 flagParam
      (argumentOf false flagParam.name [49])).err = some .einval := by
    decide +kernel
  rw [heinval] at htrue
  cases htrue

end Urt
