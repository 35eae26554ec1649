import Mathlib.Data.List.Forall2
import Urt.Param.Matching

/-!
# What the arguments mean

For a table whose names are distinct identifiers, `urt_parse_args` has a meaning that does not
mention its loops: it returns 0 if every argument names a parameter and can be read for it, and
then each parameter has the values of the last argument that names it (`Meets`).
`parseArgs_meaning` says that the code does what this says of arguments with fewer than `2 ^ 32`
elements each: `parse_arg` counts elements in an `unsigned int` (`parseArgs_meaning_iff`).
`Agrees` is the invariant of the loop over the arguments; one argument is `agrees_step`.
-/

namespace Urt

open Libc

/-! ## The meaning -/

/-- The argument denotes the given values: one for each element. -/
def ModuleParam.Denotes (p : ModuleParam) (arg : Text) (vals : List ArgValue) : Prop :=
  (elements p.isArray (unquote arg).1).map (p.type.read p.isArray) = vals.map .ok

/-- The last of the given arguments that names the parameter. -/
def ModuleParam.lastMention (p : ModuleParam) (args : List Text) : Option Text :=
  (args.filter (paramMatches p.name)).getLast?

/-- What the given arguments make of parameter `p`. -/
def Meets (args : List Text) (p p' : ModuleParam) : Prop :=
  match p.lastMention args with
  | none =>
      p'.var = p.var ∧ p'.num = p.num ∧
        p'.nump = if p.isArray then p.nump.map fun _ => 0 else p.nump
  | some arg =>
      ∃ vals, p.Denotes arg vals ∧ vals.length ≤ p.max ∧ p'.num = vals.length ∧
        (∀ k v, vals[k]? = some v → (p'.var k).value = some v) ∧
        p'.nump = p.nump.map fun _ => vals.length

/-- The argument matches some parameter, and `parse_arg` succeeds for each that it matches. -/
def Accepted (malloc : Nat → Nat → Bool) (params : List ModuleParam) (arg : Text) : Prop :=
  (∃ p ∈ params, paramMatches p.name arg = true) ∧
    ∀ (j : Nat) (p : ModuleParam), params[j]? = some p → paramMatches p.name arg = true →
      (parseArg (malloc j) 0 p arg).err = none

/-- Nobody asks for help, and every argument is accepted. -/
def AllAccepted (malloc : Nat → Nat → Nat → Bool) (params : List ModuleParam)
    (args : List Text) : Prop :=
  ∀ (i : Nat) (arg : Text), args[i]? = some arg →
    isHelp arg = false ∧ Accepted (malloc i) params arg

/-- What `urt_parse_args` is to do: it returns 0 if all arguments are accepted, and then each
parameter is what the arguments make of it. -/
structure MeansArgs (malloc : Nat → Nat → Nat → Bool) (params : List ModuleParam)
    (argv : List Text) : Prop where
  returns : (urtParseArgs malloc params argv).1 = .err none ↔ AllAccepted malloc params argv.tail
  values : (urtParseArgs malloc params argv).1 = .err none →
    List.Forall₂ (Meets argv.tail) params (urtParseArgs malloc params argv).2.params

/-- The last of the given arguments that names the parameter has fewer than `2 ^ 32` elements. -/
def ModuleParam.Counted (p : ModuleParam) (args : List Text) : Prop :=
  ∀ arg, p.lastMention args = some arg →
    (elements p.isArray (unquote arg).1).length < 2 ^ 32

/-! ## Reading -/

theorem read_of_attempt {t : ParamType} {isArray malloc : Bool} {value : Text} {v : ArgValue}
    (h : t.attempt isArray malloc value = .ok v) : t.read isArray value = .ok v := by
  unfold ParamType.attempt at h
  split at h
  · cases h
  · exact h

/-- An argument has as many values as elements. -/
theorem ModuleParam.Denotes.length_eq {p : ModuleParam} {arg : Text} {vals : List ArgValue}
    (h : p.Denotes arg vals) : vals.length = (elements p.isArray (unquote arg).1).length := by
  have hlength := congrArg List.length h
  rw [List.length_map, List.length_map] at hlength
  exact hlength.symm

/-- What is read without an error is what the argument denotes, and `index` is below `max` at each
of its elements. -/
theorem denotes_of_reading {p : ModuleParam} {malloc : Nat → Bool} {arg : Text}
    (h : (p.reading malloc arg).1 = none) :
    p.Denotes arg (p.reading malloc arg).2 ∧
      ∀ m < (elements p.isArray (unquote arg).1).length, m % 2 ^ 32 < p.max := by
  unfold ModuleParam.reading at h ⊢
  split at h
  · cases h
  · rename_i hconv
    rw [if_neg hconv]
    obtain ⟨hlength, hall⟩ := collect_values h
    refine ⟨?_, fun m hm => ?_⟩
    · apply List.ext_getElem?
      intro k
      rw [List.getElem?_map, List.getElem?_map]
      cases hk : (elements p.isArray (unquote arg).1)[k]? with
      | none =>
        have hk' := hk
        rw [List.getElem?_eq_none_iff, ← hlength] at hk'
        rw [List.getElem?_eq_none hk']
        rfl
      | some value =>
        obtain ⟨v, hv, hok⟩ := hall k value hk
        rw [hv, Option.map_some, Option.map_some, read_of_attempt hok]
    · have hroom := (collect_eq_none_iff.mp h m _ (List.getElem?_eq_getElem hm)).1
      rwa [Nat.zero_add] at hroom

/-! ## What parsing leaves alone -/

/-- All but the variable and the counts is the same. -/
structure ModuleParam.Same (p p' : ModuleParam) : Prop where
  name : p'.name = p.name
  type : p'.type = p.type
  max : p'.max = p.max
  isArray : p'.isArray = p.isArray
  nump : p'.nump.isSome = p.nump.isSome

theorem ModuleParam.same_reset (p : ModuleParam) : p.Same p.reset := by
  unfold reset
  split
  · exact ⟨rfl, rfl, rfl, rfl, Option.isSome_map⟩
  · exact ⟨rfl, rfl, rfl, rfl, rfl⟩

theorem ModuleParam.Same.parseArg {p q : ModuleParam} (h : p.Same q) (malloc : Nat → Bool)
    (blocks : Nat) (arg : Text) : p.Same (parseArg malloc blocks q arg).param := by
  rw [parseArg_eq]
  refine ⟨h.name, h.type, h.max, h.isArray, ?_⟩
  dsimp only
  split
  · rw [Option.isSome_map]
    exact h.nump
  · exact h.nump

theorem ModuleParam.Same.reading {p q : ModuleParam} (h : p.Same q) (malloc : Nat → Bool)
    (arg : Text) : q.reading malloc arg = p.reading malloc arg := by
  unfold ModuleParam.reading
  rw [h.type, h.max, h.isArray]

theorem ModuleParam.Same.map_nump {p q : ModuleParam} (h : p.Same q) (n : Nat) :
    (q.nump.map fun _ => n) = p.nump.map fun _ => n := by
  have hsome := h.nump
  cases hp : p.nump with
  | none =>
    rw [hp] at hsome
    rw [Option.isSome_eq_false_iff.mp hsome |> Option.isNone_iff_eq_none.mp]
  | some a =>
    rw [hp] at hsome
    obtain ⟨b, hb⟩ := Option.isSome_iff_exists.mp hsome
    rw [hb]
    rfl

theorem names_eq_of_same {params ps : List ModuleParam} (hlength : ps.length = params.length)
    (h : ∀ (j : Nat) (p : ModuleParam), params[j]? = some p → ∃ p', ps[j]? = some p' ∧ p.Same p') :
    ps.map (·.name) = params.map (·.name) := by
  apply List.ext_getElem?
  intro j
  rw [List.getElem?_map, List.getElem?_map]
  cases hj : params[j]? with
  | none =>
    rw [List.getElem?_eq_none_iff, ← hlength] at hj
    rw [List.getElem?_eq_none hj]
  | some p =>
    obtain ⟨p', hp', hsame⟩ := h j p hj
    rw [hp', Option.map_some, Option.map_some, hsame.name]

/-! ## The loop over the arguments -/

/-- The state after the arguments `args`, for the table `params`. -/
structure Agrees (params : List ModuleParam) (args : List Text) (s : ArgState) : Prop where
  length : s.params.length = params.length
  param : ∀ (j : Nat) (p : ModuleParam), params[j]? = some p →
    ∃ p', s.params[j]? = some p' ∧ p.Same p' ∧
      (s.err = none → (Meets args p p' ↔ p.Counted args))

theorem lastMention_concat (p : ModuleParam) (args : List Text) (arg : Text) :
    p.lastMention (args ++ [arg]) =
      if paramMatches p.name arg then some arg else p.lastMention args := by
  unfold ModuleParam.lastMention
  rw [List.filter_append]
  by_cases hmatch : paramMatches p.name arg = true
  · rw [if_pos hmatch, List.filter_cons_of_pos hmatch, List.filter_nil, List.getLast?_concat]
  · rw [if_neg hmatch, List.filter_cons_of_neg hmatch, List.filter_nil, List.append_nil]

theorem Agrees.names {params : List ModuleParam} {args : List Text} {s : ArgState}
    (h : Agrees params args s) : s.params.map (·.name) = params.map (·.name) :=
  names_eq_of_same h.length fun j p hp => by
    obtain ⟨p', hp', hsame, -⟩ := h.param j p hp
    exact ⟨p', hp', hsame⟩

/-- A parameter after an argument that names it: it has the values unless they were too many to
be counted. -/
theorem meets_parseArg {p q : ModuleParam} (hsame : p.Same q) {malloc : Nat → Bool} {arg : Text}
    (hread : (p.reading malloc arg).1 = none) (hmatch : paramMatches p.name arg = true)
    (args : List Text) (b : Nat) :
    Meets (args ++ [arg]) p (parseArg malloc b q arg).param ↔ p.Counted (args ++ [arg]) := by
  obtain ⟨hdenotes, hroom⟩ := denotes_of_reading hread
  have hlength := hdenotes.length_eq
  have hlast := hroom ((elements p.isArray (unquote arg).1).length - 1)
    (Nat.sub_lt (Nat.succ_pos _) Nat.one_pos)
  unfold Meets ModuleParam.Counted
  rw [lastMention_concat, if_pos hmatch, parseArg_eq, hsame.reading, if_pos hread, if_pos hread]
  dsimp only
  constructor
  · rintro ⟨vals, hvals, -, hnum, -⟩ arg' he
    cases he
    rw [← hvals.length_eq, ← hnum]
    exact Nat.mod_lt _ (by decide)
  · intro hcount
    have hlt := hcount arg rfl
    have hmod : (p.reading malloc arg).2.length % 2 ^ 32 = (p.reading malloc arg).2.length := by
      rw [hlength]
      exact Nat.mod_eq_of_lt hlt
    refine ⟨_, hdenotes, by omega, hmod, fun k v hk => ?_, ?_⟩
    · rw [storeAll_of_lt _ _ _ (by omega) hk]
      exact ArgValue.value_cell _ v
    · rw [hmod]
      exact hsame.map_nump _

section Step

variable {params : List ModuleParam} (hnodup : (params.map (·.name)).Nodup)
  (hid : ∀ p ∈ params, IsIdentifier p.name) {args : List Text} {s : ArgState}

include hnodup hid

/-- Each parameter that matches is given the argument itself. -/
theorem Agrees.given (h : Agrees params args s) (arg : Text) {j : Nat} {p : ModuleParam}
    (hp : params[j]? = some p) :
    given (s.params.map (·.name)) arg j = if paramMatches p.name arg then some arg else none := by
  have hid' : ∀ name ∈ params.map (·.name), IsIdentifier name := by
    intro name hname
    obtain ⟨p, hp, rfl⟩ := List.mem_map.mp hname
    exact hid p hp
  rw [h.names]
  apply given_eq hid' hnodup
  rw [List.getElem?_map, hp]
  rfl

/-- There is no error after an argument if there was none and each parameter it names reads it. -/
theorem Agrees.err_iff (h : Agrees params args s) (malloc : Nat → Nat → Bool) (arg : Text) :
    (matchParams malloc 0 arg s.params s.blocks s.err).err = none ↔
      s.err = none ∧ ∀ (j : Nat) (p : ModuleParam), params[j]? = some p →
        paramMatches p.name arg = true → (p.reading (malloc j) arg).1 = none := by
  rw [matchParams_err]
  refine and_congr_right fun _ => ⟨fun hall j p hp hmatch => ?_, fun hall j q text hq hg => ?_⟩
  · obtain ⟨p', hp', hsame, -⟩ := h.param j p hp
    have hread := hall j p' arg hp' (by rw [h.given hnodup hid arg hp, if_pos hmatch])
    rwa [Nat.zero_add, hsame.reading] at hread
  · have hlt : j < params.length := by
      rw [← h.length]
      exact (List.getElem?_eq_some_iff.mp hq).1
    obtain ⟨p', hp', hsame, -⟩ := h.param j params[j] (List.getElem?_eq_getElem hlt)
    obtain rfl := Option.some.inj (hq.symm.trans hp')
    rw [h.given hnodup hid arg (List.getElem?_eq_getElem hlt)] at hg
    split at hg
    · rename_i hmatch
      cases hg
      rw [Nat.zero_add, hsame.reading]
      exact hall j _ (List.getElem?_eq_getElem hlt) hmatch
    · cases hg

omit hnodup hid in
theorem Agrees.matchesAny_iff (h : Agrees params args s) (malloc : Nat → Nat → Bool) (arg : Text) :
    (matchParams malloc 0 arg s.params s.blocks s.err).matchesAny = true ↔
      ∃ p ∈ params, paramMatches p.name arg = true := by
  have hnames : ∀ ps : List ModuleParam, (∃ p ∈ ps, paramMatches p.name arg = true) ↔
      ∃ name ∈ ps.map (·.name), paramMatches name arg = true := by
    intro ps
    simp
  rw [matchParams_matchesAny, hnames, hnames, h.names]

/-- One argument. -/
theorem agrees_step (h : Agrees params args s) (malloc : Nat → Nat → Bool) (arg : Text)
    {m : Matching} (hm : m = matchParams malloc 0 arg s.params s.blocks s.err) {s' : ArgState}
    (hs' : s' = { m.toArgState with err := if m.matchesAny then m.err else some .einval }) :
    (s'.err = none ↔ s.err = none ∧ Accepted malloc params arg) ∧
      Agrees params (args ++ [arg]) s' := by
  have hmatches := h.matchesAny_iff malloc arg
  have herr := h.err_iff hnodup hid malloc arg
  rw [← hm] at hmatches herr
  have haccepted : s'.err = none ↔ s.err = none ∧ Accepted malloc params arg := by
    have hparse : ∀ (p : ModuleParam) (j : Nat),
        (parseArg (malloc j) 0 p arg).err = (p.reading (malloc j) arg).1 := by
      intro p j
      rw [parseArg_eq]
    unfold Accepted
    simp only [hparse]
    rw [hs']
    dsimp only
    by_cases hany : m.matchesAny = true
    · rw [if_pos hany, herr]
      exact ⟨fun hall => ⟨hall.1, hmatches.mp hany, hall.2⟩, fun hall => ⟨hall.1, hall.2.2⟩⟩
    · rw [if_neg hany]
      exact ⟨fun hnone => (by cases hnone), fun hall => absurd (hmatches.mpr hall.2.1) hany⟩
  refine ⟨haccepted, ?_, fun j p hp => ?_⟩
  · rw [hs', hm]
    exact (matchParams_length ..).trans h.length
  · obtain ⟨p', hp', hsame, hmeets⟩ := h.param j p hp
    obtain ⟨b, hb⟩ := matchParams_param malloc 0 arg s.params s.blocks s.err hp'
    rw [h.given hnodup hid arg hp, Nat.zero_add, ← hm] at hb
    have hget : s'.params[j]? = m.params[j]? := by rw [hs']
    rw [hget, hb]
    by_cases hmatch : paramMatches p.name arg = true
    · rw [if_pos hmatch]
      refine ⟨_, rfl, hsame.parseArg _ _ _, fun hnone => ?_⟩
      have hread := (haccepted.mp hnone).2.2 j p hp hmatch
      rw [parseArg_eq] at hread
      exact meets_parseArg hsame hread hmatch args b
    · rw [if_neg hmatch]
      refine ⟨p', rfl, hsame, fun hnone => ?_⟩
      have hbefore := hmeets (haccepted.mp hnone).1
      unfold Meets ModuleParam.Counted at hbefore ⊢
      rwa [lastMention_concat, if_neg hmatch]

end Step

theorem parseArgsLoop_agrees {params : List ModuleParam} (hnodup : (params.map (·.name)).Nodup)
    (hid : ∀ p ∈ params, IsIdentifier p.name) (malloc : Nat → Nat → Nat → Bool) (i : Nat)
    (rest : List Text) {args : List Text} {s : ArgState} (h : Agrees params args s) :
    ((parseArgsLoop malloc i rest s).1 = .err none ↔ s.err = none ∧
      ∀ k arg, rest[k]? = some arg → isHelp arg = false ∧ Accepted (malloc (i + k)) params arg) ∧
    ((parseArgsLoop malloc i rest s).1 = .err none →
      ∀ (j : Nat) (p : ModuleParam), params[j]? = some p →
        ∃ p', (parseArgsLoop malloc i rest s).2.params[j]? = some p' ∧
          (Meets (args ++ rest) p p' ↔ p.Counted (args ++ rest))) ∧
    (parseArgsLoop malloc i rest s).2.params.length = params.length := by
  induction rest generalizing i args s with
  | nil =>
    refine ⟨⟨fun hret => ⟨ArgsReturn.err.inj hret, fun k arg hk => by cases hk⟩, fun hnone => ?_⟩,
      fun hret j p hp => ?_, h.length⟩
    · rw [parseArgsLoop, hnone.1]
    · obtain ⟨p', hp', -, hmeets⟩ := h.param j p hp
      rw [List.append_nil]
      exact ⟨p', hp', hmeets (ArgsReturn.err.inj hret)⟩
  | cons arg rest ih =>
    rw [parseArgsLoop]
    by_cases hhelp : isHelp arg = true
    · rw [if_pos hhelp]
      refine ⟨⟨fun hret => (by cases hret), fun hall => ?_⟩, fun hret => (by cases hret), h.length⟩
      rw [(hall.2 0 arg rfl).1] at hhelp
      cases hhelp
    · rw [if_neg hhelp]
      obtain ⟨haccepted, hagrees⟩ := agrees_step hnodup hid h (malloc i) arg rfl rfl
      obtain ⟨hret, hmeets, hlength⟩ := ih (i + 1) hagrees
      rw [List.append_assoc, List.singleton_append] at hmeets
      refine ⟨?_, hmeets, hlength⟩
      rw [hret, haccepted]
      have hplace : ∀ k, i + (k + 1) = i + 1 + k := by omega
      constructor
      · rintro ⟨⟨hnone, hacc⟩, hrest⟩
        refine ⟨hnone, fun k arg' hk => ?_⟩
        cases k with
        | zero =>
          cases hk
          exact ⟨by simpa using hhelp, hacc⟩
        | succ k =>
          rw [hplace]
          exact hrest k arg' hk
      · rintro ⟨hnone, hall⟩
        refine ⟨⟨hnone, (hall 0 arg rfl).2⟩, fun k arg' hk => ?_⟩
        rw [← hplace]
        exact hall (k + 1) arg' hk

theorem agrees_reset (params : List ModuleParam) :
    Agrees params [] { params := params.map .reset, blocks := 0, err := none } := by
  refine ⟨List.length_map _, fun j p hp => ⟨p.reset, ?_, p.same_reset, fun _ => ?_⟩⟩
  · rw [List.getElem?_map, hp]
    rfl
  · refine iff_of_true ?_ fun arg h => by cases h
    unfold Meets ModuleParam.reset
    cases hp : p.isArray with
    | true => exact ⟨rfl, rfl, rfl⟩
    | false => exact ⟨rfl, rfl, rfl⟩

/-- `urt_parse_args` returns 0 exactly if all arguments are accepted, and then the parameters that
can be counted are what the arguments make of them, and no others. -/
theorem urtParseArgs_spec (malloc : Nat → Nat → Nat → Bool) {params : List ModuleParam}
    (argv : List Text) (hnodup : (params.map (·.name)).Nodup)
    (hid : ∀ p ∈ params, IsIdentifier p.name) :
    ((urtParseArgs malloc params argv).1 = .err none ↔ AllAccepted malloc params argv.tail) ∧
    ((urtParseArgs malloc params argv).1 = .err none →
      List.Forall₂ (fun p p' => Meets argv.tail p p' ↔ p.Counted argv.tail) params
        (urtParseArgs malloc params argv).2.params) := by
  obtain ⟨hret, hmeets, hlength⟩ :=
    parseArgsLoop_agrees hnodup hid malloc 0 argv.tail (agrees_reset params)
  refine ⟨?_, fun hnone => ?_⟩
  · rw [urtParseArgs, hret]
    simp only [Nat.zero_add, true_and, AllAccepted]
  · rw [List.forall₂_iff_get]
    refine ⟨hlength.symm, fun j hj hj' => ?_⟩
    obtain ⟨p', hp', hmeet⟩ := hmeets hnone j params[j] (List.getElem?_eq_getElem hj)
    have hget : (urtParseArgs malloc params argv).2.params[j]? = some p' := hp'
    rw [List.getElem?_eq_getElem hj'] at hget
    rw [List.get_eq_getElem, List.get_eq_getElem, Option.some.inj hget]
    exact hmeet

/-- `urt_parse_args` returns 0 exactly if all arguments are accepted, and gives each parameter the
values of the last argument that names it, exactly if that argument has fewer than `2 ^ 32`
elements whenever all arguments are accepted. -/
theorem parseArgs_meaning_iff (malloc : Nat → Nat → Nat → Bool) {params : List ModuleParam}
    (argv : List Text) (hnodup : (params.map (·.name)).Nodup)
    (hid : ∀ p ∈ params, IsIdentifier p.name) :
    MeansArgs malloc params argv ↔
      (AllAccepted malloc params argv.tail → ∀ p ∈ params, p.Counted argv.tail) := by
  obtain ⟨hret, hmeets⟩ := urtParseArgs_spec malloc argv hnodup hid
  constructor
  · intro h haccepted p hp
    have hnone := hret.mpr haccepted
    obtain ⟨j, hj, rfl⟩ := List.getElem_of_mem hp
    have hvalues := h.values hnone
    have hj' := hj.trans_eq hvalues.length_eq
    exact ((hmeets hnone).get hj hj').mp (hvalues.get hj hj')
  · intro h
    refine ⟨hret, fun hnone => ?_⟩
    have hcounted := h (hret.mp hnone)
    have hboth := (List.forall₂_and_left _ _).mpr ⟨hcounted, hmeets hnone⟩
    exact hboth.imp fun p p' hp => hp.2.mpr hp.1

/-- No parameter sees more elements in an argument than an array does. -/
theorem length_elements_le (isArray : Bool) (value : Text) :
    (elements isArray value).length ≤ (elements true value).length := by
  cases isArray with
  | true => exact le_rfl
  | false => exact Nat.succ_le_succ (Nat.zero_le _)

/-- **What the arguments mean.** If no argument has `2 ^ 32` elements, `urt_parse_args` returns 0
exactly if all arguments are accepted, and then each parameter has the values of the last argument
that names it, and keeps its own if there is none. -/
theorem parseArgs_meaning (malloc : Nat → Nat → Nat → Bool) {params : List ModuleParam}
    (argv : List Text) (hnodup : (params.map (·.name)).Nodup)
    (hid : ∀ p ∈ params, IsIdentifier p.name)
    (hlength : ∀ arg ∈ argv.tail, (elements true (unquote arg).1).length < 2 ^ 32) :
    MeansArgs malloc params argv := by
  apply (parseArgs_meaning_iff malloc argv hnodup hid).mpr
  intro _ p _ arg hlast
  have harg := List.mem_of_mem_filter (List.mem_of_getLast? hlast)
  exact (length_elements_le p.isArray _).trans_lt (hlength arg harg)

/-- `test_arg` of type `int` and `test_arg3`, an array of three `charp` -/
def testParams : List ModuleParam :=
  [.common [116, 101, 115, 116, 95, 97, 114, 103] .int 4 (fun _ => .int 0) none false,
    .common [116, 101, 115, 116, 95, 97, 114, 103, 51] .charp 3 (fun _ => .pointer 0) (some 0) true]

/-- `prog test_arg=123456 test-arg3="a b,c"` -/
def testArgv : List Text :=
  [[112, 114, 111, 103], [116, 101, 115, 116, 95, 97, 114, 103, 61, 49, 50, 51, 52, 53, 54],
    [116, 101, 115, 116, 45, 97, 114, 103, 51, 61, 34, 97, 32, 98, 44, 99, 34]]

theorem parseArgs_meaning_test :
    MeansArgs (fun _ _ _ => true) testParams testArgv :=
  parseArgs_meaning (fun _ _ _ => true) testArgv (by decide) (by decide) (by decide)

example : (urtParseArgs (fun _ _ _ => true) testParams testArgv).1 = .err none := by
  decide +kernel

end Urt
