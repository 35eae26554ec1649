import Urt.Param.Meaning

/-!
# Lists of tokens

The value of an array is a list of tokens with commas between them (`joined`), and the argument may
have it in quotes (`argumentOf`). The texts that the loop of `parse_arg` converts begin with the
tokens, but an empty last token is seen only if it is the only one: the loop ends on an empty rest
(`elements_joined`). `reading_of_tokens` says what is read if each token has a value.
-/

namespace Urt

open Libc

/-! ## Tokens in a value -/

/-- The tokens with commas between them. -/
def joined (tokens : List Text) : Text := [44].intercalate tokens

/-- An element ends here: nothing follows, or a comma. -/
def EndsElement (rest : Text) : Prop := ∀ ch, rest.head? = some ch → ch = 44

/-- What `parse_arg` is left with at each token it sees. -/
def seen : List Text → List (List Text)
  | [] => []
  | s :: tokens => (s :: tokens) :: if tokens = [[]] then [] else seen tokens

/-- The last token is not empty, or it is the only one. -/
def LastSeen (tokens : List Text) : Prop := tokens.length = 1 ∨ tokens.getLast? ≠ some []

instance (tokens : List Text) : Decidable (LastSeen tokens) :=
  inferInstanceAs (Decidable (_ ∨ _))

theorem joined_cons_cons (s s' : Text) (tokens : List Text) :
    joined (s :: s' :: tokens) = s ++ 44 :: joined (s' :: tokens) := by
  rw [joined, List.intercalate_cons_cons, List.append_assoc]
  rfl

/-- A list of tokens begins with the first one. -/
theorem joined_cons (s : Text) (tokens : List Text) :
    ∃ rest, joined (s :: tokens) = s ++ rest ∧ EndsElement rest ∧ (rest = [] ↔ tokens = []) := by
  cases tokens with
  | nil =>
    refine ⟨[], ?_, fun ch hch => (by cases hch), iff_of_true rfl rfl⟩
    rw [joined, List.intercalate_singleton, List.append_nil]
  | cons s' tokens =>
    refine ⟨44 :: joined (s' :: tokens), joined_cons_cons s s' tokens, ?_, ?_⟩
    · intro ch hch
      exact (Option.some.inj hch).symm
    · exact iff_of_false (List.cons_ne_nil _ _) (List.cons_ne_nil _ _)

theorem joined_eq_nil_iff {tokens : List Text} (hne : tokens ≠ []) :
    joined tokens = [] ↔ tokens = [[]] := by
  cases tokens with
  | nil => exact absurd rfl hne
  | cons s tokens =>
    obtain ⟨rest, hjoined, -, hrest⟩ := joined_cons s tokens
    rw [hjoined, List.append_eq_nil_iff, List.cons.injEq, hrest]

theorem takeWhile_of_endsElement {s rest : Text} (hs : 44 ∉ s) (hrest : EndsElement rest) :
    (s ++ rest).takeWhile (· != 44) = s := by
  rw [List.takeWhile_append_of_pos]
  · cases rest with
    | nil => exact List.append_nil s
    | cons ch rest =>
      obtain rfl := hrest ch rfl
      rw [List.takeWhile_cons_of_neg (by decide), List.append_nil]
  · intro ch hch
    rw [bne_iff_ne]
    exact fun he => hs (he ▸ hch)

theorem laterElements_append {s rest : Text} (hs : 44 ∉ s) :
    laterElements (s ++ rest) = laterElements rest := by
  induction s with
  | nil => rfl
  | cons ch s ih =>
    have hch : ch ≠ 44 := fun h => hs (h ▸ List.mem_cons_self)
    rw [List.cons_append, laterElements, if_neg (fun h => hch h.1)]
    exact ih fun h => hs (List.mem_cons_of_mem ch h)

/-- The loop of `parse_arg` goes from token to token. -/
theorem elements_joined {tokens : List Text} (hne : tokens ≠ []) (hcomma : ∀ s ∈ tokens, 44 ∉ s) :
    elements true (joined tokens) = (seen tokens).map joined := by
  induction tokens with
  | nil => exact absurd rfl hne
  | cons s tokens ih =>
    rw [elements, if_pos rfl, seen, List.map_cons]
    refine congrArg _ ?_
    have hs := hcomma s List.mem_cons_self
    cases tokens with
    | nil =>
      have hlater : laterElements (s ++ []) = [] := laterElements_append hs
      rw [List.append_nil] at hlater
      rw [joined, List.intercalate_singleton, hlater]
      rfl
    | cons s' tokens =>
      rw [joined_cons_cons, laterElements_append hs, laterElements]
      by_cases hlast : s' :: tokens = [[]]
      · rw [if_pos hlast, hlast]
        rfl
      · have hrest : joined (s' :: tokens) ≠ [] :=
          fun h => hlast ((joined_eq_nil_iff (List.cons_ne_nil _ _)).mp h)
        have hih := ih (List.cons_ne_nil _ _) fun s hs => hcomma s (List.mem_cons_of_mem _ hs)
        rw [if_pos ⟨rfl, hrest⟩, if_neg hlast, ← hih, elements, if_pos rfl]

theorem lastSeen_cons (s : Text) {tokens : List Text} (hne : tokens ≠ []) :
    LastSeen (s :: tokens) ↔ tokens ≠ [[]] ∧ LastSeen tokens := by
  cases tokens with
  | nil => exact absurd rfl hne
  | cons s' tokens =>
    have hlength : (s :: s' :: tokens).length ≠ 1 := fun h => by cases h
    unfold LastSeen
    rw [or_iff_right hlength, List.getLast?_cons_cons]
    cases tokens with
    | nil => simp
    | cons s'' tokens => simp

theorem seen_length {tokens : List Text} (hne : tokens ≠ []) :
    (seen tokens).length = if LastSeen tokens then tokens.length else tokens.length - 1 := by
  induction tokens with
  | nil => exact absurd rfl hne
  | cons s tokens ih =>
    rw [seen, List.length_cons]
    by_cases htokens : tokens = []
    · have hlast : LastSeen [s] := .inl rfl
      subst htokens
      rw [if_neg (List.cons_ne_nil _ _).symm, if_pos hlast]
      rfl
    · by_cases hlast : tokens = [[]]
      · rw [if_pos hlast, if_neg (fun h => ((lastSeen_cons s htokens).mp h).1 hlast), hlast]
        rfl
      · have hpos := List.length_pos_iff.mpr htokens
        rw [if_neg hlast, ih htokens, List.length_cons]
        simp only [lastSeen_cons s htokens, ne_eq, hlast, not_false_eq_true, true_and]
        split <;> omega

/-- A token is seen unless it is empty and the last one. -/
theorem lt_seen_length {tokens : List Text} {i : Nat} {s : Text} (hs : tokens[i]? = some s)
    (hnot : s ≠ [] ∨ i + 1 < tokens.length) : i < (seen tokens).length := by
  obtain ⟨hi, hget⟩ := List.getElem?_eq_some_iff.mp hs
  rw [seen_length (List.ne_nil_of_length_pos (Nat.zero_lt_of_lt hi))]
  by_cases hlast : LastSeen tokens
  · rw [if_pos hlast]
    exact hi
  · rw [if_neg hlast]
    obtain ⟨-, hempty⟩ := not_or.mp hlast
    obtain hne | hlt := hnot
    · by_contra hge
      obtain rfl : i = tokens.length - 1 := by omega
      rw [← List.getLast?_eq_getElem?] at hs
      rw [hs] at hempty
      exact hempty fun h => hne (Option.some.inj h)
    · omega

theorem seen_getElem? {tokens : List Text} {i : Nat} {l : List Text}
    (h : (seen tokens)[i]? = some l) : l = tokens.drop i ∧ l ≠ [] := by
  induction tokens generalizing i with
  | nil => cases h
  | cons s tokens ih =>
    cases i with
    | zero =>
      cases h
      exact ⟨rfl, List.cons_ne_nil _ _⟩
    | succ i =>
      rw [seen, List.getElem?_cons_succ] at h
      split at h
      · cases h
      · exact ih h

/-- Each text that the loop converts begins with its token. -/
theorem elements_getElem? {tokens : List Text} (hne : tokens ≠ [])
    (hcomma : ∀ s ∈ tokens, 44 ∉ s) {i : Nat} {value : Text}
    (h : (elements true (joined tokens))[i]? = some value) :
    ∃ s rest, tokens[i]? = some s ∧ value = s ++ rest ∧ EndsElement rest ∧
      (rest = [] ↔ i + 1 = tokens.length) := by
  rw [elements_joined hne hcomma, List.getElem?_map, Option.map_eq_some_iff] at h
  obtain ⟨l, hl, rfl⟩ := h
  obtain ⟨hdrop, hl⟩ := seen_getElem? hl
  cases l with
  | nil => exact absurd rfl hl
  | cons s later =>
    obtain ⟨rest, hjoined, hends, hrest⟩ := joined_cons s later
    have hs : tokens[i]? = some s := by
      rw [← List.head?_drop, ← hdrop, List.head?_cons]
    have hlength := congrArg List.length hdrop
    rw [List.length_cons, List.length_drop] at hlength
    refine ⟨s, rest, hs, hjoined, hends, hrest.trans ?_⟩
    rw [← List.length_eq_zero_iff]
    omega

/-- There is a place for each of them if there is one for each token. -/
theorem place_lt {tokens : List Text} (hne : tokens ≠ []) (hcomma : ∀ s ∈ tokens, 44 ∉ s)
    {max : Nat} (hmax : tokens.length ≤ max) {i : Nat} {value : Text}
    (h : (elements true (joined tokens))[i]? = some value) : i % 2 ^ 32 < max := by
  obtain ⟨s, -, hs, -⟩ := elements_getElem? hne hcomma h
  have hlt := (List.getElem?_eq_some_iff.mp hs).1
  exact (Nat.mod_le i _).trans_lt (hlt.trans_le hmax)

/-! ## Arguments -/

/-- `name=value`, or `name="value"` -/
def argumentOf (quoted : Bool) (name value : Text) : Text :=
  name ++ 61 :: if quoted then 34 :: (value ++ [34]) else value

theorem getNextValue_append {name : Text} (hname : 61 ∉ name) (value : Text) :
    getNextValue (name ++ 61 :: value) 61 = value := by
  induction name with
  | nil =>
    rw [List.nil_append, getNextValue_cons, if_pos rfl]
  | cons ch name ih =>
    have hch : ch ≠ 61 := fun h => hname (h ▸ List.mem_cons_self)
    rw [List.cons_append, getNextValue_cons, if_neg hch]
    exact ih fun h => hname (List.mem_cons_of_mem ch h)

/-- The quotes are removed. -/
theorem unquote_argumentOf {quoted : Bool} {name value : Text} (hname : 61 ∉ name)
    (hquoted : quoted = true ∨ value.head? ≠ some 34) :
    (unquote (argumentOf quoted name value)).1 = value := by
  unfold unquote argumentOf
  rw [getNextValue_append hname]
  cases quoted with
  | true =>
    have hlast : (name ++ 61 :: 34 :: (value ++ [34])).getLast? = some 34 := by
      rw [← List.cons_append, ← List.cons_append, ← List.append_assoc, List.getLast?_concat]
    rw [if_pos rfl, if_pos (List.head?_cons ..), if_pos hlast, ← List.cons_append,
      List.dropLast_concat]
    rfl
  | false =>
    have hhead : value.head? ≠ some 34 := hquoted.resolve_left Bool.false_ne_true
    rw [if_neg Bool.false_ne_true, if_neg hhead]

theorem not_mem_of_isIdentifier {name : Text} (h : IsIdentifier name) : 61 ∉ name := by
  intro hmem
  cases h.2 61 hmem

/-! ## Reading -/

/-- Where every text has a value, the values are read as long as there is room. -/
theorem collect_of_values {max : Nat} {attempt : Nat → Text → Except ArgError ArgValue} {k : Nat}
    {values : List Text} {vals : List ArgValue} (hlength : vals.length = values.length)
    (hvals : ∀ m value v, values[m]? = some value → vals[m]? = some v →
      attempt (k + m) value = .ok v) (hk : max < 2 ^ 32 → k ≤ max) :
    collect max attempt k values =
      if max < 2 ^ 32 ∧ max < k + values.length then (some .e2big, vals.take (max - k))
      else (none, vals) := by
  induction values generalizing k vals with
  | nil =>
    rw [List.length_eq_zero_iff.mp hlength, if_neg]
    · rfl
    · intro h
      have hle := hk h.1
      exact Nat.not_lt_of_le hle h.2
  | cons value values ih =>
    cases vals with
    | nil => cases hlength
    | cons v vals =>
      have hv : attempt k value = .ok v := hvals 0 value v rfl rfl
      rw [collect, hv]
      by_cases hfull : k % 2 ^ 32 ≥ max
      · have hmax : max < 2 ^ 32 := Nat.lt_of_le_of_lt hfull (Nat.mod_lt k (by decide))
        have hkmax := hk hmax
        have hzero : max - k = 0 := by omega
        rw [List.length_cons, if_pos hfull, if_pos ⟨hmax, by omega⟩, hzero, List.take_zero]
      · have hplace : ∀ m, k + 1 + m = k + (m + 1) := by omega
        have hih := ih (k := k + 1) (Nat.succ.inj hlength)
          (fun m value v hm hv => hplace m ▸ hvals (m + 1) value v hm hv) (by omega)
        rw [if_neg hfull, hih, List.length_cons, hplace]
        by_cases hmore : max < 2 ^ 32 ∧ max < k + (values.length + 1)
        · have hroom : max - k = max - (k + 1) + 1 := by omega
          rw [if_pos hmore, if_pos hmore, hroom, List.take_succ_cons]
        · rw [if_neg hmore, if_neg hmore]

/-- An error is that of a text, or says that there is no place for one. -/
theorem collect_error {max : Nat} {attempt : Nat → Text → Except ArgError ArgValue} {k : Nat}
    {values : List Text} {e : ArgError} (h : (collect max attempt k values).1 = some e) :
    ∃ m value, values[m]? = some value ∧
      (max ≤ (k + m) % 2 ^ 32 ∧ e = .e2big ∨ attempt (k + m) value = .error e) := by
  induction values generalizing k with
  | nil => cases h
  | cons value values ih =>
    rw [collect] at h
    by_cases hfull : k % 2 ^ 32 ≥ max
    · rw [if_pos hfull] at h
      exact ⟨0, value, rfl, .inl ⟨hfull, (Option.some.inj h).symm⟩⟩
    · rw [if_neg hfull] at h
      cases hattempt : attempt k value with
      | error e' =>
        rw [hattempt] at h
        obtain rfl := Option.some.inj h
        exact ⟨0, value, rfl, .inr hattempt⟩
      | ok v =>
        rw [hattempt] at h
        obtain ⟨m, w, hw, hcase⟩ := ih h
        have hplace : k + (m + 1) = k + 1 + m := by omega
        exact ⟨m + 1, w, hw, hplace ▸ hcase⟩

/-- The value of an array is read from the texts at its tokens. -/
theorem reading_joined {p : ModuleParam} {arg : Text} {tokens : List Text}
    (hconv : p.type.converter ≠ none) (harray : p.isArray = true)
    (harg : (unquote arg).1 = joined tokens) (malloc : Nat → Bool) :
    p.reading malloc arg = collect p.max (fun k value => p.type.attempt true (malloc k) value) 0
      (elements true (joined tokens)) := by
  rw [ModuleParam.reading, if_neg hconv, harg, harray]

/-- What is read of a list of tokens that have values, up to the capacity of the array; `index` is
always below a capacity of `2 ^ 32` or more. -/
theorem reading_of_tokens {p : ModuleParam} {malloc : Nat → Bool} {arg : Text}
    {tokens : List Text} {vals : List ArgValue} (hconv : p.type.converter ≠ none)
    (harray : p.isArray = true) (harg : (unquote arg).1 = joined tokens) (hne : tokens ≠ [])
    (hcomma : ∀ s ∈ tokens, 44 ∉ s) (hlast : LastSeen tokens)
    (hlength : vals.length = tokens.length)
    (hvals : ∀ k s v, tokens[k]? = some s → vals[k]? = some v → ∀ rest, EndsElement rest →
      p.type.attempt true (malloc k) (s ++ rest) = .ok v) :
    p.reading malloc arg =
      if p.max < 2 ^ 32 ∧ p.max < tokens.length then (some .e2big, vals.take p.max)
      else (none, vals) := by
  have helements : (elements true (joined tokens)).length = tokens.length := by
    rw [elements_joined hne hcomma, List.length_map, seen_length hne, if_pos hlast]
  rw [reading_joined hconv harray harg, collect_of_values (hlength.trans helements.symm),
    Nat.zero_add, helements, Nat.sub_zero]
  · intro m value v hm hv
    obtain ⟨s, rest, hs, hvalue, hends, -⟩ := elements_getElem? hne hcomma hm
    rw [hvalue, Nat.zero_add]
    exact hvals m s v hs hv rest hends
  · exact fun _ => Nat.zero_le _

end Urt
