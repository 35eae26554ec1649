import Urt.Param.Reading

/-!
# Arguments and parameters

An argument matches the parameter whose name is its key: the text before the first `=`, with
underscores for the dashes. `given` is the text that each parameter of a table is given of one
argument: removing the quotes changes the argument, so a second parameter that matched would be
given another text. Where the names are distinct identifiers at most one parameter matches
(`given_eq`).
-/

namespace Urt

open Libc

/-! ## Keys -/

/-- The key of an argument. -/
def key (arg : Text) : Text := (arg.takeWhile (· != 61)).map underscored

/-- Whether a character may stand in a C identifier. -/
def isIdentifierChar (ch : UInt8) : Bool :=
  (65 ≤ ch && ch ≤ 90) || (97 ≤ ch && ch ≤ 122) || isdigit ch || ch == 95

/-- A C identifier. -/
def IsIdentifier (name : Text) : Prop :=
  (name.head?.any fun ch => !isdigit ch) = true ∧ ∀ ch ∈ name, isIdentifierChar ch = true

instance (name : Text) : Decidable (IsIdentifier name) :=
  @instDecidableAnd _ _ inferInstance (List.decidableBAll _ _)

theorem ne_of_isIdentifierChar {ch : UInt8} (h : isIdentifierChar ch = true) :
    ch ≠ 45 ∧ ch ≠ 61 := by
  constructor
  · rintro rfl
    exact absurd h (by decide)
  · rintro rfl
    exact absurd h (by decide)

theorem underscored_eq_iff {n ch : UInt8} (hn : n ≠ 45) :
    n = underscored ch ↔ n = ch ∨ n = 95 ∧ ch = 45 := by
  unfold underscored
  split
  · rename_i hch
    subst hch
    simp [hn]
  · rename_i hch
    simp [hch]

theorem paramMatches_iff_key {name : Text} (hname : ∀ ch ∈ name, isIdentifierChar ch = true)
    (arg : Text) : paramMatches name arg = true ↔ key arg = name := by
  induction name generalizing arg with
  | nil =>
    cases arg with
    | nil => simp [paramMatches, key]
    | cons ch chs =>
      by_cases hch : ch = 61
      · simp [paramMatches, key, hch]
      · simp [paramMatches, key, hch]
  | cons n ns ih =>
    obtain ⟨hdash, heq⟩ := ne_of_isIdentifierChar (hname n List.mem_cons_self)
    cases arg with
    | nil => simp [paramMatches, key]
    | cons ch chs =>
      rw [paramMatches, key]
      by_cases hch : ch = 61
      · -- the key has ended, the name has not
        subst hch
        simp [heq]
      · rw [List.takeWhile_cons_of_pos (by simpa using hch), List.map_cons]
        by_cases hn : n = underscored ch
        · rw [if_pos ⟨hn, hch⟩, ih (fun c hc => hname c (List.mem_cons_of_mem _ hc)), ← hn,
            List.cons.injEq]
          exact ⟨fun h => ⟨rfl, h⟩, fun h => h.2⟩
        · rw [if_neg (fun h => hn h.1)]
          have hne : n ≠ ch := fun h => hn ((underscored_eq_iff hdash).mpr (.inl h))
          constructor
          · intro h
            exact absurd (eq_of_beq h) hne
          · intro h
            exact absurd (List.cons.inj h).1.symm hn

/-- **A parameter matches an argument exactly if its name is the key of the argument, so neither
an argument whose key goes on after the name nor one whose key is only the beginning of it.** -/
theorem paramMatches_exact {name : Text} (hname : IsIdentifier name) (arg : Text) :
    (paramMatches name arg = true ↔ key arg = name) ∧
      (∀ ext, ext ≠ [] → key arg = name ++ ext → paramMatches name arg = false) ∧
      ∀ ext, ext ≠ [] → name = key arg ++ ext → paramMatches name arg = false := by
  have hkey : paramMatches name arg = true ↔ key arg = name := paramMatches_iff_key hname.2 arg
  refine ⟨hkey, ?_, ?_⟩
  · intro ext hext hlonger
    rw [← Bool.not_eq_true, hkey, hlonger, List.append_right_eq_self]
    exact hext
  · intro ext hext hshorter
    rw [← Bool.not_eq_true, hkey]
    intro h
    rw [h, List.self_eq_append_right] at hshorter
    exact hext hshorter

/-- `test-arg3=1` is for `test_arg3`. -/
theorem paramMatches_exact_test :
    paramMatches [116, 101, 115, 116, 95, 97, 114, 103, 51]
      [116, 101, 115, 116, 45, 97, 114, 103, 51, 61, 49] = true :=
  (paramMatches_exact (by decide) _).1.mpr (by decide)

/-- Removing the quotes does not change the key. -/
theorem key_unquote (arg : Text) : key (unquote arg).2 = key arg := by
  unfold unquote
  dsimp only
  split
  · rename_i hquote
    split
    · -- the closing quote comes after the `=`
      have hne : getNextValue arg 61 ≠ [] := by
        intro h
        rw [h] at hquote
        cases hquote
      obtain ⟨rest, hstr⟩ : ∃ rest, strchr arg 61 = some rest := by
        unfold getNextValue at hne
        cases hs : strchr arg 61 with
        | none =>
          rw [hs] at hne
          exact absurd rfl hne
        | some rest => exact ⟨rest, rfl⟩
      obtain ⟨harg, hhead⟩ := strchr_eq_some hstr
      have htail : rest.tail ≠ [] := by
        unfold getNextValue at hne
        rwa [hstr] at hne
      cases rest with
      | nil => cases hhead
      | cons ch chs =>
        obtain rfl := Option.some.inj hhead
        rw [List.tail_cons] at htail
        have hdrop : arg.dropLast = arg.takeWhile (· != 61) ++ 61 :: chs.dropLast := by
          conv_lhs => rw [harg]
          rw [List.dropLast_append_of_ne_nil (List.cons_ne_nil _ _),
            List.dropLast_cons_of_ne_nil htail]
        unfold key
        rw [hdrop]
        have hall : ∀ b ∈ arg.takeWhile (· != 61), (b != 61) = true :=
          fun b hb => List.all_eq_true.mp List.all_takeWhile b hb
        rw [List.takeWhile_append_of_pos hall]
        simp
    · rfl
  · rfl

/-! ## One argument, all parameters -/

/-- The text that parameter number `k` is given of an argument, if it matches. -/
def given : List Text → Text → Nat → Option Text
  | [], _, _ => none
  | name :: _, arg, 0 => if paramMatches name arg then some arg else none
  | name :: names, arg, k + 1 =>
      given names (if paramMatches name arg then (unquote arg).2 else arg) k

/-- No further parameter matches an argument whose key is not among the names. -/
theorem given_eq_none {names : List Text} (hid : ∀ name ∈ names, IsIdentifier name) {arg : Text}
    (harg : key arg ∉ names) (k : Nat) : given names arg k = none := by
  induction names generalizing k with
  | nil => rfl
  | cons name names ih =>
    have hno : ¬ paramMatches name arg = true := by
      rw [paramMatches_iff_key (hid name List.mem_cons_self).2]
      exact fun h => harg (h ▸ List.mem_cons_self)
    cases k with
    | zero => rw [given, if_neg hno]
    | succ k =>
      rw [given, if_neg hno]
      exact ih (fun n hn => hid n (List.mem_cons_of_mem _ hn))
        (fun h => harg (List.mem_cons_of_mem _ h)) k

/-- With distinct identifiers for names, a parameter that matches is given the argument as it
is. -/
theorem given_eq {names : List Text} (hid : ∀ name ∈ names, IsIdentifier name)
    (hnodup : names.Nodup) {arg name : Text} {k : Nat} (hk : names[k]? = some name) :
    given names arg k = if paramMatches name arg then some arg else none := by
  induction names generalizing k with
  | nil => cases hk
  | cons n names ih =>
    have hid' : ∀ name ∈ names, IsIdentifier name :=
      fun name hname => hid name (List.mem_cons_of_mem _ hname)
    cases k with
    | zero =>
      cases hk
      rfl
    | succ k =>
      rw [List.getElem?_cons_succ] at hk
      rw [given]
      by_cases hmatch : paramMatches n arg = true
      · -- the key is `n`, so it is none of the other names
        have hkey := (paramMatches_iff_key (hid n List.mem_cons_self).2 arg).mp hmatch
        have hother : key (unquote arg).2 ∉ names := by
          rw [key_unquote, hkey]
          exact (List.nodup_cons.mp hnodup).1
        have hname : name ≠ n := by
          rintro rfl
          exact (List.nodup_cons.mp hnodup).1 (List.mem_of_getElem? hk)
        rw [if_pos hmatch, given_eq_none hid' hother, if_neg]
        rw [paramMatches_iff_key (hid' name (List.mem_of_getElem? hk)).2, hkey]
        exact hname.symm
      · rw [if_neg hmatch]
        exact ih hid' (List.nodup_cons.mp hnodup).2 hk

section

variable (malloc : Nat → Nat → Bool) (j : Nat) (arg : Text) (ps : List ModuleParam)
  (blocks : Nat) (err : Option ArgError)

@[simp] theorem matchParams_length :
    (matchParams malloc j arg ps blocks err).params.length = ps.length := by
  induction ps generalizing j arg blocks err with
  | nil => rfl
  | cons p ps ih =>
    rw [matchParams]
    split
    · exact congrArg (· + 1) (ih ..)
    · exact congrArg (· + 1) (ih ..)

/-- A parameter that is given no text is left alone, and any other is parsed. -/
theorem matchParams_param {k : Nat} {p : ModuleParam} (hp : ps[k]? = some p) :
    ∃ b, (matchParams malloc j arg ps blocks err).params[k]? =
      some (match given (ps.map (·.name)) arg k with
        | none => p
        | some text => (parseArg (malloc (j + k)) b p text).param) := by
  induction ps generalizing j arg blocks err k with
  | nil => cases hp
  | cons q ps ih =>
    cases k with
    | zero =>
      cases hp
      rw [matchParams, List.map_cons, given]
      by_cases hmatch : paramMatches p.name arg = true
      · rw [if_pos hmatch, if_pos hmatch]
        exact ⟨blocks, rfl⟩
      · rw [if_neg hmatch, if_neg hmatch]
        exact ⟨blocks, rfl⟩
    | succ k =>
      have hplace : j + (k + 1) = j + 1 + k := by omega
      rw [matchParams, List.map_cons, given, hplace]
      by_cases hmatch : paramMatches q.name arg = true
      · rw [if_pos hmatch, if_pos hmatch]
        have hrest := ih (j + 1) (parseArg (malloc j) blocks q arg).arg
          (parseArg (malloc j) blocks q arg).blocks
          ((parseArg (malloc j) blocks q arg).err.or err) hp
        rw [parseArg_eq] at hrest ⊢
        exact hrest
      · rw [if_neg hmatch, if_neg hmatch]
        exact ih (j + 1) arg blocks err hp

/-- What holds of every parameter that is given a text: the first one and the others. -/
theorem forall_given_cons {P : Nat → ModuleParam → Text → Prop} {q : ModuleParam} :
    (∀ k p text, (q :: ps)[k]? = some p → given ((q :: ps).map (·.name)) arg k = some text →
      P k p text) ↔
    (paramMatches q.name arg = true → P 0 q arg) ∧
      ∀ k p text, ps[k]? = some p →
        given (ps.map (·.name)) (if paramMatches q.name arg then (unquote arg).2 else arg) k =
          some text → P (k + 1) p text := by
  rw [List.map_cons]
  constructor
  · intro h
    refine ⟨fun hmatch => h 0 q arg rfl ?_, fun k p text hp hgiven => h (k + 1) p text hp hgiven⟩
    rw [given, if_pos hmatch]
  · intro h k p text hp hgiven
    cases k with
    | zero =>
      cases hp
      rw [given] at hgiven
      split at hgiven
      · rename_i hmatch
        cases hgiven
        exact h.1 hmatch
      · cases hgiven
    | succ k => exact h.2 k p text hp hgiven

/-- There is no error if there was none and every parameter that is given a text reads it. -/
theorem matchParams_err :
    (matchParams malloc j arg ps blocks err).err = none ↔
      err = none ∧ ∀ k p text, ps[k]? = some p → given (ps.map (·.name)) arg k = some text →
        (p.reading (malloc (j + k)) text).1 = none := by
  induction ps generalizing j arg blocks err with
  | nil => exact ⟨fun h => ⟨h, fun _ _ _ hp => by cases hp⟩, fun h => h.1⟩
  | cons q ps ih =>
    rw [matchParams, forall_given_cons]
    by_cases hmatch : paramMatches q.name arg = true
    · rw [if_pos hmatch, if_pos hmatch]
      dsimp only
      rw [ih, parseArg_eq, Option.or_eq_none_iff]
      simp only [Nat.add_right_comm j 1]
      exact ⟨fun h => ⟨h.1.2, fun _ => h.1.1, h.2⟩, fun h => ⟨⟨h.2.1 hmatch, h.1⟩, h.2.2⟩⟩
    · rw [if_neg hmatch, if_neg hmatch]
      dsimp only
      rw [ih]
      simp only [Nat.add_right_comm j 1]
      exact ⟨fun h => ⟨h.1, fun hm => absurd hm hmatch, h.2⟩, fun h => ⟨h.1, h.2.2⟩⟩

theorem matchParams_matchesAny :
    (matchParams malloc j arg ps blocks err).matchesAny = true ↔
      ∃ p ∈ ps, paramMatches p.name arg = true := by
  induction ps generalizing j blocks err with
  | nil => simp [matchParams]
  | cons q ps ih =>
    rw [matchParams]
    by_cases hmatch : paramMatches q.name arg = true
    · rw [if_pos hmatch]
      exact ⟨fun _ => ⟨q, List.mem_cons_self, hmatch⟩, fun _ => rfl⟩
    · rw [if_neg hmatch]
      dsimp only
      rw [ih]
      constructor
      · rintro ⟨p, hp, hpm⟩
        exact ⟨p, List.mem_cons_of_mem _ hp, hpm⟩
      · rintro ⟨p, hp, hpm⟩
        rcases List.mem_cons.mp hp with rfl | hp
        · exact absurd hpm hmatch
        · exact ⟨p, hp, hpm⟩

end

end Urt
