import Mathlib.Algebra.Order.Ring.Int
import Urt.Lib.Register
import Urt.Param.Meaning

/-!
# Who frees the strings

`to_charp` copies each string into memory of its own, and `urt_free_args` frees the first `num`
elements of every parameter of type `charp`. `num` is the only record of what is owned: it is set
when an argument was read without an error, and is an `unsigned int`, so copies made before an
error, copies that a later argument of the same parameter writes over, and `2 ^ 32` copies of one
argument are lost.

`Owned` says that no copy is in two cells and that `urt_free_args` finds nothing but copies; it
holds whatever the arguments are, so nothing is freed twice. What is left is to count:
`freedOnce_iff` says exactly when nothing is lost.
-/

namespace Urt

open Libc

/-! ## The condition -/

/-- The block that a pointer points at, if `to_charp` has allocated it. -/
def Cell.block? : Cell → Option Nat
  | .copy block _ => some block
  | _ => none

/-- Every block is passed to `free` exactly once, and nothing else is. -/
def FreedOnce (blocks : Nat) (freed : List Cell) : Prop :=
  (∀ b < blocks, (freed.map Cell.block?).count (some b) = 1) ∧
    ∀ cell ∈ freed, ∃ b < blocks, cell.block? = some b

/-- The parameter as `URT_MODULE_PARAM` and `URT_MODULE_PARAM_ARRAY` make it: `num` is zero, and
nothing has been allocated. -/
structure ModuleParam.Declared (p : ModuleParam) : Prop where
  num : p.num = 0
  var : ∀ k, (p.var k).block? = none

/-- The arguments that are looked at: those before `--help` and `-h`. -/
def lookedAt (argv : List Text) : List Text := argv.tail.takeWhile fun arg => !isHelp arg

/-- The text that parameter number `j` is given of argument number `i`, if it matches. -/
def textOf (params : List ModuleParam) (args : List Text) (i j : Nat) : Option Text :=
  args[i]?.bind fun arg => given (params.map (·.name)) arg j

variable (malloc : Nat → Nat → Nat → Bool) (params : List ModuleParam) (args : List Text)

/-- Argument number `i` has its first element copied for parameter number `j`, of type `charp`. -/
def Copied (i j : Nat) : Prop :=
  ∃ p text, params[j]? = some p ∧ textOf params args i j = some text ∧ p.type = .charp ∧
    0 < p.max ∧ malloc i j 0 = true

/-- The elements of argument number `i` fit into parameter number `j` and can be counted, and
there is memory for all of them. -/
def Fits (i j : Nat) : Prop :=
  ∃ p text, params[j]? = some p ∧ textOf params args i j = some text ∧
    (elements p.isArray (unquote text).1).length ≤ p.max ∧
    (elements p.isArray (unquote text).1).length < 2 ^ 32 ∧
    ∀ k < (elements p.isArray (unquote text).1).length, malloc i j k = true

/-- How many copies argument number `i` makes for parameter number `j`. -/
def copies (i j : Nat) : Nat :=
  match params[j]?, textOf params args i j with
  | some p, some text => p.type.blocks * (p.reading (malloc i j) text).2.length
  | _, _ => 0

/-- Whether argument number `i` sets the count of parameter number `j`, of type `charp`. -/
def counts (i j : Nat) : Bool :=
  match params[j]?, textOf params args i j with
  | some p, some text => p.type = .charp ∧ (p.reading (malloc i j) text).1 = none
  | _, _ => false

/-! ## Reading strings -/

theorem attempt_charp (isArray malloc : Bool) (value : Text) :
    (∃ v, ParamType.charp.attempt isArray malloc value = .ok v) ↔ malloc = true := by
  unfold ParamType.attempt
  cases malloc with
  | false => simp
  | true => simp [ParamType.read]

/-- Texts are read for the type `charp` only. -/
theorem attempt_text {t : ParamType} {isArray malloc : Bool} {value : Text} {v : ArgValue}
    (h : t.attempt isArray malloc value = .ok v) :
    (∃ s, v = .text s) ↔ t = .charp := by
  have hread := read_of_attempt h
  have hint : ∀ {cast : Int → Int} {cnv : Text → Int × Bool},
      readInt cast cnv value = .ok v → ¬ ∃ s, v = .text s := by
    rintro cast cnv h ⟨s, rfl⟩
    unfold readInt at h
    split at h
    · cases h
    · split at h
      · cases h
      · split at h <;> cases h
  have hbool : ∀ {inv : Bool}, readBool inv value = .ok v → ¬ ∃ s, v = .text s := by
    rintro inv h ⟨s, rfl⟩
    unfold readBool at h
    split at h <;> cases h
  cases t with
  | charp =>
    cases hread
    exact ⟨fun _ => rfl, fun _ => ⟨_, rfl⟩⟩
  | bool => exact ⟨fun hv => absurd hv (hbool hread), fun ht => by cases ht⟩
  | cBool => exact ⟨fun hv => absurd hv (hbool hread), fun ht => by cases ht⟩
  | invbool => exact ⟨fun hv => absurd hv (hbool hread), fun ht => by cases ht⟩
  | other => cases hread
  | _ => exact ⟨fun hv => absurd hv (hint hread), fun ht => by cases ht⟩

theorem collect_mem {max : Nat} {attempt : Nat → Text → Except ArgError ArgValue} {k : Nat}
    {values : List Text} {v : ArgValue} (h : v ∈ (collect max attempt k values).2) :
    ∃ m value, attempt m value = .ok v := by
  induction values generalizing k with
  | nil => cases h
  | cons value values ih =>
    rw [collect] at h
    split at h
    · cases h
    · cases hattempt : attempt k value with
      | error e =>
        rw [hattempt] at h
        cases h
      | ok w =>
        rw [hattempt] at h
        rcases List.mem_cons.mp h with rfl | h
        · exact ⟨k, value, hattempt⟩
        · exact ih h

theorem reading_text {p : ModuleParam} {malloc : Nat → Bool} {arg : Text} {v : ArgValue}
    (h : v ∈ (p.reading malloc arg).2) : (∃ s, v = .text s) ↔ p.type = .charp := by
  unfold ModuleParam.reading at h
  split at h
  · cases h
  · obtain ⟨k, value, hattempt⟩ := collect_mem h
    exact attempt_text hattempt

theorem reading_charp {p : ModuleParam} (hp : p.type = .charp) (malloc : Nat → Bool)
    (arg : Text) :
    ((p.reading malloc arg).1 = none ↔
      ∀ k < (elements p.isArray (unquote arg).1).length,
        k % 2 ^ 32 < p.max ∧ malloc k = true) ∧
    (0 < (p.reading malloc arg).2.length ↔ 0 < p.max ∧ malloc 0 = true) := by
  have hconv : p.type.converter ≠ none := by
    rw [hp]
    exact Option.some_ne_none _
  unfold ModuleParam.reading
  rw [if_neg hconv, hp]
  constructor
  · rw [collect_eq_none_iff]
    refine ⟨fun h k hk => ?_, fun h k value hk => ?_⟩
    · have hv := h k _ (List.getElem?_eq_getElem hk)
      rwa [Nat.zero_add, attempt_charp] at hv
    · rw [Nat.zero_add, attempt_charp]
      exact h k (List.getElem?_eq_some_iff.mp hk).1
  · rw [elements, collect]
    by_cases hmax : 0 % 2 ^ 32 ≥ p.max
    · rw [if_pos hmax]
      exact ⟨fun h => absurd h (lt_irrefl 0), fun h => absurd h.1 (by omega)⟩
    · rw [if_neg hmax]
      have hattempt := attempt_charp p.isArray (malloc 0) (unquote arg).1
      cases hv : ParamType.charp.attempt p.isArray (malloc 0) (unquote arg).1 with
      | error e =>
        rw [hv] at hattempt
        refine ⟨fun h => absurd h (lt_irrefl 0), fun h => ?_⟩
        obtain ⟨v, hv'⟩ := hattempt.mpr h.2
        cases hv'
      | ok v =>
        exact ⟨fun _ => ⟨by omega, hattempt.mp ⟨v, hv⟩⟩, fun _ => Nat.succ_pos _⟩

/-! ## The account in terms of the arguments -/

variable {malloc params args}

theorem copies_pos_iff {i j : Nat} : 0 < copies malloc params args i j ↔
    Copied malloc params args i j := by
  unfold copies Copied
  cases hp : params[j]? with
  | none => simp
  | some p =>
    cases htext : textOf params args i j with
    | none => simp
    | some text =>
      simp only [Option.some.injEq, exists_and_left, exists_eq_left', ParamType.blocks]
      by_cases ht : p.type = .charp
      · rw [if_pos ht, Nat.one_mul, (reading_charp ht _ _).2]
        simp [ht]
      · simp [ht]

/-- An argument that sets the count has all its elements copied. -/
theorem counts_iff {i j : Nat} : counts malloc params args i j = true ↔
    ∃ p text, params[j]? = some p ∧ textOf params args i j = some text ∧ p.type = .charp ∧
      copies malloc params args i j = (elements p.isArray (unquote text).1).length ∧
      ∀ k < (elements p.isArray (unquote text).1).length,
        k % 2 ^ 32 < p.max ∧ malloc i j k = true := by
  unfold counts copies
  cases hp : params[j]? with
  | none => simp
  | some p =>
    cases htext : textOf params args i j with
    | none => simp
    | some text =>
      simp only [decide_eq_true_eq, Option.some.injEq, exists_and_left, exists_eq_left']
      refine and_congr_right fun ht => ?_
      rw [(reading_charp ht _ _).1, ParamType.blocks, if_pos ht, Nat.one_mul]
      refine ⟨fun hall => ⟨?_, hall⟩, fun hall => hall.2⟩
      exact (denotes_of_reading ((reading_charp ht _ _).1.mpr hall)).1.length_eq

theorem copies_pos_of_counts {i j : Nat} (h : counts malloc params args i j = true) :
    0 < copies malloc params args i j := by
  obtain ⟨p, text, -, -, -, hcopies, -⟩ := counts_iff.mp h
  rw [hcopies]
  exact Nat.succ_pos _

/-- The count that an argument sets is right exactly if it fits. -/
theorem counts_copies_iff {i j : Nat} :
    counts malloc params args i j = true ∧
        copies malloc params args i j % 2 ^ 32 = copies malloc params args i j ↔
      (∃ p, params[j]? = some p ∧ p.type = .charp) ∧ Fits malloc params args i j := by
  rw [counts_iff]
  constructor
  · rintro ⟨⟨p, text, hp, htext, ht, hcopies, hall⟩, hcount⟩
    rw [hcopies] at hcount
    have hlt : (elements p.isArray (unquote text).1).length < 2 ^ 32 := by omega
    refine ⟨⟨p, hp, ht⟩, p, text, hp, htext, ?_, hlt, fun k hk => (hall k hk).2⟩
    have hlast := (hall ((elements p.isArray (unquote text).1).length - 1)
      (Nat.sub_lt (Nat.succ_pos _) Nat.one_pos)).1
    omega
  · rintro ⟨⟨p, hp, ht⟩, q, text, hq, htext, hmax, hlt, hmalloc⟩
    obtain rfl := Option.some.inj (hp.symm.trans hq)
    have hcounts : counts malloc params args i j = true := by
      unfold counts
      rw [hp, htext]
      simp only [decide_eq_true_eq]
      exact ⟨ht, (reading_charp ht _ _).1.mpr fun k hk => ⟨by omega, hmalloc k hk⟩⟩
    have hcounted := counts_iff.mp hcounts
    refine ⟨hcounted, ?_⟩
    obtain ⟨q, text', hq, htext', -, hcopies, -⟩ := hcounted
    obtain rfl := Option.some.inj (hp.symm.trans hq)
    obtain rfl := Option.some.inj (htext.symm.trans htext')
    rw [hcopies]
    exact Nat.mod_eq_of_lt hlt

/-! ## No copy is in two cells -/

theorem block?_cell {p : ModuleParam} {malloc : Nat → Bool} {arg : Text} {v : ArgValue}
    (h : v ∈ (p.reading malloc arg).2) (b : Nat) :
    (v.cell b).block? = if p.type = .charp then some b else none := by
  have htext := reading_text h
  split
  · rename_i ht
    obtain ⟨s, rfl⟩ := htext.mpr ht
    rfl
  · rename_i ht
    cases v with
    | text s => exact absurd (htext.mp ⟨s, rfl⟩) ht
    | _ => rfl

/-- The blocks of a parameter that was parsed: those it had, and new ones, in the order in which
they were allocated. -/
theorem parseArg_block? {p : ModuleParam} {malloc : Nat → Bool} {arg : Text} {blocks k b : Nat}
    (h : ((parseArg malloc blocks p arg).param.var k).block? = some b) :
    (p.var k).block? = some b ∨
      ∃ m, m % 2 ^ 32 = k ∧ b = blocks + m ∧ b < (parseArg malloc blocks p arg).blocks := by
  rw [parseArg_eq] at h ⊢
  dsimp only at h ⊢
  rcases storeAll_cases p.type.blocks p.var 0 blocks (p.reading malloc arg).2 k with
    ⟨m, v, hv, hm, hcell⟩ | ⟨-, hcell⟩
  · rw [hcell, block?_cell (List.mem_of_getElem? hv)] at h
    split at h
    · rename_i ht
      have hlt : m < (p.reading malloc arg).2.length := (List.getElem?_eq_some_iff.mp hv).1
      simp only [ParamType.blocks, if_pos ht, Nat.one_mul, Option.some.injEq] at h ⊢
      exact .inr ⟨m, by rwa [Nat.zero_add] at hm, h.symm, by omega⟩
    · cases h
  · rw [hcell] at h
    exact .inl h

/-- Every copy is in one cell, below the number of blocks, and the elements that
`urt_free_args` will free are copies. -/
structure Owned (ps : List ModuleParam) (blocks : Nat) : Prop where
  below : ∀ p ∈ ps, ∀ k b, (p.var k).block? = some b → b < blocks
  once : ∀ p ∈ ps, ∀ k k' b, (p.var k).block? = some b → (p.var k').block? = some b → k = k'
  apart : ps.Pairwise fun p q =>
    ∀ k k' b, (p.var k).block? = some b → (q.var k').block? ≠ some b
  filled : ∀ p ∈ ps, p.type = .charp → ∀ k < p.num, (p.var k).block?.isSome = true

theorem Owned.mono {ps : List ModuleParam} {blocks blocks' : Nat} (h : Owned ps blocks)
    (hle : blocks ≤ blocks') : Owned ps blocks' :=
  ⟨fun p hp k b hb => (h.below p hp k b hb).trans_le hle, h.once, h.apart, h.filled⟩

theorem Owned.tail {p : ModuleParam} {ps : List ModuleParam} {blocks : Nat}
    (h : Owned (p :: ps) blocks) : Owned ps blocks :=
  ⟨fun q hq => h.below q (List.mem_cons_of_mem _ hq),
    fun q hq => h.once q (List.mem_cons_of_mem _ hq), h.apart.of_cons,
    fun q hq => h.filled q (List.mem_cons_of_mem _ hq)⟩

/-- A parameter in front of others that have blocks of their own. -/
theorem Owned.cons {p : ModuleParam} {ps : List ModuleParam} {blocks : Nat} (h : Owned ps blocks)
    (hbelow : ∀ k b, (p.var k).block? = some b → b < blocks)
    (honce : ∀ k k' b, (p.var k).block? = some b → (p.var k').block? = some b → k = k')
    (hapart : ∀ q ∈ ps, ∀ k k' b, (p.var k).block? = some b → (q.var k').block? ≠ some b)
    (hfilled : p.type = .charp → ∀ k < p.num, (p.var k).block?.isSome = true) :
    Owned (p :: ps) blocks := by
  refine ⟨?_, ?_, List.pairwise_cons.mpr ⟨hapart, h.apart⟩, ?_⟩
  · intro q hq
    rcases List.mem_cons.mp hq with rfl | hq
    · exact hbelow
    · exact h.below q hq
  · intro q hq
    rcases List.mem_cons.mp hq with rfl | hq
    · exact honce
    · exact h.once q hq
  · intro q hq
    rcases List.mem_cons.mp hq with rfl | hq
    · exact hfilled
    · exact h.filled q hq

theorem parseArg_filled {p : ModuleParam} (malloc : Nat → Bool) (arg : Text) (blocks : Nat)
    (ht : p.type = .charp) (h : ∀ k < p.num, (p.var k).block?.isSome = true) {k : Nat}
    (hk : k < (parseArg malloc blocks p arg).param.num) :
    ((parseArg malloc blocks p arg).param.var k).block?.isSome = true := by
  rw [parseArg_eq] at hk ⊢
  dsimp only at hk ⊢
  rcases storeAll_cases p.type.blocks p.var 0 blocks (p.reading malloc arg).2 k with
    ⟨m, v, hv, -, hcell⟩ | ⟨hothers, hcell⟩
  · rw [hcell, block?_cell (List.mem_of_getElem? hv), if_pos ht]
    rfl
  · -- a cell that was not written is below the old count
    rw [hcell]
    split at hk
    · have hlt := Nat.mod_lt (p.reading malloc arg).2.length (show 2 ^ 32 > 0 by decide)
      have hle := Nat.mod_le (p.reading malloc arg).2.length (2 ^ 32)
      exact absurd (by omega) (hothers k (by omega))
    · exact h k hk

theorem parseArg_blocks_le (malloc : Nat → Bool) (blocks : Nat) (p : ModuleParam) (arg : Text) :
    blocks ≤ (parseArg malloc blocks p arg).blocks := by
  rw [parseArg_eq]
  exact Nat.le_add_right _ _

/-- Every copy in these parameters was in those before, or is in a block from number `blocks`
on. -/
def NewFrom (blocks : Nat) (ps ps' : List ModuleParam) : Prop :=
  ∀ q ∈ ps', ∀ k b, (q.var k).block? = some b →
    (∃ p ∈ ps, ∃ k', (p.var k').block? = some b) ∨ blocks ≤ b

/-- A parameter that is left alone, in front of others that have new copies only. -/
theorem Owned.keep_cons {p : ModuleParam} {ps ps' : List ModuleParam} {blocks blocks' : Nat}
    (h : Owned (p :: ps) blocks) (hps : Owned ps' blocks') (hle : blocks ≤ blocks')
    (hnew : NewFrom blocks ps ps') : Owned (p :: ps') blocks' := by
  have hbelow := h.below p List.mem_cons_self
  refine hps.cons (fun k b hb => (hbelow k b hb).trans_le hle) (h.once p List.mem_cons_self) ?_
    (h.filled p List.mem_cons_self)
  intro q hq k k' b hb hb'
  rcases hnew q hq k' b hb' with ⟨q₀, hq₀, k₀, hb₀⟩ | hge
  · exact List.rel_of_pairwise_cons h.apart hq₀ k k₀ b hb hb₀
  · have := hbelow k b hb
    omega

/-- A parameter that is parsed, in front of others that have new copies only. -/
theorem Owned.parse_cons {p : ModuleParam} {ps ps' : List ModuleParam} {blocks blocks' : Nat}
    (h : Owned (p :: ps) blocks) (malloc : Nat → Bool) (arg : Text) (hps : Owned ps' blocks')
    (hle : (parseArg malloc blocks p arg).blocks ≤ blocks')
    (hnew : NewFrom (parseArg malloc blocks p arg).blocks ps ps') :
    Owned ((parseArg malloc blocks p arg).param :: ps') blocks' := by
  have hgrow := parseArg_blocks_le malloc blocks p arg
  have hbefore := h.below p List.mem_cons_self
  have hbelow : ∀ k b, ((parseArg malloc blocks p arg).param.var k).block? = some b →
      b < (parseArg malloc blocks p arg).blocks := by
    intro k b hb
    rcases parseArg_block? hb with hb | ⟨-, -, -, hb⟩
    · exact (hbefore k b hb).trans_le hgrow
    · exact hb
  refine hps.cons (fun k b hb => (hbelow k b hb).trans_le hle) ?_ ?_ fun ht k hk => ?_
  · -- a block from before is below the new ones, and these are in different cells
    intro k k' b hb hb'
    rcases parseArg_block? hb with hk | ⟨m, hm, hk, -⟩
    · rcases parseArg_block? hb' with hk' | ⟨m', -, hk', -⟩
      · exact h.once p List.mem_cons_self k k' b hk hk'
      · have := hbefore k b hk
        omega
    · rcases parseArg_block? hb' with hk' | ⟨m', hm', hk', -⟩
      · have := hbefore k' b hk'
        omega
      · have hmm : m = m' := by omega
        rw [← hm, ← hm', hmm]
  · intro q hq k k' b hb hb'
    rcases hnew q hq k' b hb' with ⟨q₀, hq₀, k₀, hb₀⟩ | hge
    · rcases parseArg_block? hb with hk | ⟨m, -, hk, -⟩
      · exact List.rel_of_pairwise_cons h.apart hq₀ k k₀ b hk hb₀
      · have := h.below q₀ (List.mem_cons_of_mem _ hq₀) k₀ b hb₀
        omega
    · have := hbelow k b hb
      omega
  · have htype : (parseArg malloc blocks p arg).param.type = p.type := by rw [parseArg_eq]
    rw [htype] at ht
    exact parseArg_filled malloc arg blocks ht (h.filled p List.mem_cons_self ht) hk

/-- One argument: what is owned stays apart, and every copy that appears is new. -/
theorem matchParams_owned (malloc : Nat → Nat → Bool) (j : Nat) (arg : Text)
    {ps : List ModuleParam} {blocks : Nat} (err : Option ArgError) (h : Owned ps blocks)
    {m : Matching} (hm : m = matchParams malloc j arg ps blocks err) :
    Owned m.params m.blocks ∧ blocks ≤ m.blocks ∧ NewFrom blocks ps m.params := by
  induction ps generalizing j arg blocks err m with
  | nil =>
    subst hm
    exact ⟨h, le_refl _, fun q hq => by cases hq⟩
  | cons p ps ih =>
    rw [matchParams] at hm
    by_cases hmatch : paramMatches p.name arg = true
    · rw [if_pos hmatch] at hm
      dsimp only at hm
      have hgrow := parseArg_blocks_le (malloc j) blocks p arg
      obtain ⟨howned, hle, hnew⟩ := ih (j + 1) (parseArg (malloc j) blocks p arg).arg
        ((parseArg (malloc j) blocks p arg).err.or err) (h.tail.mono hgrow) rfl
      subst hm
      refine ⟨h.parse_cons (malloc j) arg howned hle hnew, hgrow.trans hle, ?_⟩
      intro q hq k b hb
      rcases List.mem_cons.mp hq with rfl | hq
      · rcases parseArg_block? hb with hk | ⟨m, -, hk, -⟩
        · exact .inl ⟨p, List.mem_cons_self, k, hk⟩
        · exact .inr (by omega)
      · rcases hnew q hq k b hb with ⟨q₀, hq₀, hk₀⟩ | hge
        · exact .inl ⟨q₀, List.mem_cons_of_mem _ hq₀, hk₀⟩
        · exact .inr (hgrow.trans hge)
    · rw [if_neg hmatch] at hm
      dsimp only at hm
      obtain ⟨howned, hle, hnew⟩ := ih (j + 1) arg err h.tail rfl
      subst hm
      refine ⟨h.keep_cons howned hle hnew, hle, ?_⟩
      intro q hq k b hb
      rcases List.mem_cons.mp hq with rfl | hq
      · exact .inl ⟨q, List.mem_cons_self, k, hb⟩
      · rcases hnew q hq k b hb with ⟨q₀, hq₀, hk₀⟩ | hge
        · exact .inl ⟨q₀, List.mem_cons_of_mem _ hq₀, hk₀⟩
        · exact .inr hge

/-! ## Counting the copies -/

theorem sum_range_of_getElem? {ps : List ModuleParam} {f : ModuleParam → Nat} {g : Nat → Nat}
    (h : ∀ (j : Nat) (p : ModuleParam), ps[j]? = some p → f p = g j) :
    (ps.map f).sum = ∑ j ∈ Finset.range ps.length, g j := by
  induction ps generalizing g with
  | nil => rfl
  | cons p ps ih =>
    rw [List.map_cons, List.sum_cons, List.length_cons, Finset.sum_range_succ', Nat.add_comm,
      ih (g := fun j => g (j + 1)) fun j q hq => h (j + 1) q hq, h 0 p rfl]

/-- One argument takes the blocks for its copies. -/
theorem matchParams_blocks (malloc : Nat → Nat → Bool) (j : Nat) (arg : Text)
    (ps : List ModuleParam) (blocks : Nat) (err : Option ArgError) {amount : Nat → Nat}
    (hamount : ∀ (k : Nat) (p : ModuleParam), ps[k]? = some p → amount k =
      match given (ps.map (·.name)) arg k with
      | none => 0
      | some text => p.type.blocks * (p.reading (malloc (j + k)) text).2.length) :
    (matchParams malloc j arg ps blocks err).blocks =
      blocks + ∑ k ∈ Finset.range ps.length, amount k := by
  induction ps generalizing j arg blocks err amount with
  | nil => rfl
  | cons p ps ih =>
    have hhead := hamount 0 p rfl
    rw [List.map_cons, given] at hhead
    have hplace : ∀ k, j + (k + 1) = j + 1 + k := by omega
    have htail : ∀ (k : Nat) (q : ModuleParam), ps[k]? = some q → amount (k + 1) =
        match given (ps.map (·.name))
          (if paramMatches p.name arg then (unquote arg).2 else arg) k with
        | none => 0
        | some text => q.type.blocks * (q.reading (malloc (j + 1 + k)) text).2.length := by
      intro k q hq
      rw [hamount (k + 1) q hq, List.map_cons, given, hplace]
    rw [matchParams, List.length_cons, Finset.sum_range_succ']
    by_cases hmatch : paramMatches p.name arg = true
    · rw [if_pos hmatch] at hhead ⊢
      simp only [if_pos hmatch] at htail
      simp only [Nat.add_zero] at hhead
      rw [parseArg_eq]
      dsimp only
      rw [ih (j + 1) (unquote arg).2 _ _ htail, hhead]
      omega
    · rw [if_neg hmatch] at hhead ⊢
      simp only [if_neg hmatch] at htail
      dsimp only at hhead ⊢
      rw [ih (j + 1) arg _ _ htail, hhead, Nat.add_zero]

/-- The account after the first `n` arguments. -/
structure Ledger (malloc : Nat → Nat → Nat → Bool) (params : List ModuleParam)
    (args : List Text) (n : Nat) (s : ArgState) : Prop where
  length : s.params.length = params.length
  param : ∀ (j : Nat) (p : ModuleParam), params[j]? = some p →
    ∃ p', s.params[j]? = some p' ∧ p.Same p' ∧ (p.type = .charp → p'.num =
      Register.kept (fun i => copies malloc params args i j % 2 ^ 32)
        (fun i => counts malloc params args i j) n)
  blocks : s.blocks = ∑ i ∈ Finset.range n, ∑ j ∈ Finset.range params.length,
    copies malloc params args i j
  owned : Owned s.params s.blocks

/-- One argument. -/
theorem Ledger.step {n : Nat} {s : ArgState} (h : Ledger malloc params args n s) {arg : Text}
    (harg : args[n]? = some arg) {m : Matching}
    (hm : m = matchParams (malloc n) 0 arg s.params s.blocks s.err) (err : Option ArgError) :
    Ledger malloc params args (n + 1) { m.toArgState with err := err } := by
  have hnames : s.params.map (·.name) = params.map (·.name) :=
    names_eq_of_same h.length fun j p hp => by
      obtain ⟨p', hp', hsame, -⟩ := h.param j p hp
      exact ⟨p', hp', hsame⟩
  have htext : ∀ j, textOf params args n j = given (s.params.map (·.name)) arg j := by
    intro j
    rw [textOf, harg, hnames]
    rfl
  refine ⟨?_, fun j p hp => ?_, ?_, ?_⟩
  · rw [hm]
    exact (matchParams_length ..).trans h.length
  · obtain ⟨p', hp', hsame, hnum⟩ := h.param j p hp
    obtain ⟨b, hb⟩ := matchParams_param (malloc n) 0 arg s.params s.blocks s.err hp'
    rw [← htext, Nat.zero_add, ← hm] at hb
    cases hgiven : textOf params args n j with
    | none =>
      rw [hgiven] at hb
      refine ⟨p', hb, hsame, fun ht => ?_⟩
      rw [Register.kept, counts, hp, hgiven, if_neg Bool.false_ne_true, hnum ht]
    | some text =>
      rw [hgiven] at hb
      refine ⟨_, hb, hsame.parseArg _ _ _, fun ht => ?_⟩
      dsimp only
      rw [parseArg_eq, hsame.reading, Register.kept, counts, copies, hp, hgiven]
      simp only [ht, true_and, decide_eq_true_eq, ParamType.blocks, if_true, Nat.one_mul]
      rw [hnum ht]
  · rw [Finset.sum_range_succ, ← h.blocks, ← h.length, hm]
    dsimp only
    apply matchParams_blocks
    intro k p' hp'
    have hlt : k < params.length := by
      rw [← h.length]
      exact (List.getElem?_eq_some_iff.mp hp').1
    obtain ⟨q, hq, hsame, -⟩ := h.param k params[k] (List.getElem?_eq_getElem hlt)
    obtain rfl := Option.some.inj (hp'.symm.trans hq)
    rw [copies, List.getElem?_eq_getElem hlt, htext, Nat.zero_add]
    cases given (s.params.map (·.name)) arg k with
    | none => rfl
    | some text =>
      dsimp only
      rw [hsame.type, hsame.reading]
  · exact (matchParams_owned (malloc n) 0 arg s.err h.owned hm).1

theorem parseArgsLoop_ledger (n : Nat) {rest : List Text} {s : ArgState}
    (h : Ledger malloc params args n s) (hn : n ≤ args.length)
    (hrest : ∀ k, args[n + k]? = (rest.takeWhile fun arg => !isHelp arg)[k]?) :
    Ledger malloc params args args.length (parseArgsLoop malloc n rest s).2 := by
  induction rest generalizing n s with
  | nil =>
    have hend := List.getElem?_eq_none_iff.mp (hrest 0)
    have hlast : n = args.length := by omega
    subst hlast
    exact h
  | cons arg rest ih =>
    rw [parseArgsLoop]
    by_cases hhelp : isHelp arg = true
    · rw [if_pos hhelp]
      rw [List.takeWhile_cons_of_neg (by simpa using hhelp)] at hrest
      have hend := List.getElem?_eq_none_iff.mp (hrest 0)
      have hlast : n = args.length := by omega
      subst hlast
      exact h
    · rw [if_neg hhelp]
      rw [List.takeWhile_cons_of_pos (by simpa using hhelp)] at hrest
      have harg : args[n]? = some arg := hrest 0
      have hlt := (List.getElem?_eq_some_iff.mp harg).1
      apply ih (n + 1) (h.step harg rfl _) (by omega)
      intro k
      have hplace : n + 1 + k = n + (k + 1) := by omega
      rw [hplace, hrest (k + 1)]
      rfl

theorem ledger_start (malloc : Nat → Nat → Nat → Bool) (params : List ModuleParam)
    (args : List Text) (h : ∀ p ∈ params, p.Declared) :
    Ledger malloc params args 0 { params := params.map .reset, blocks := 0, err := none } := by
  have hreset : ∀ p : ModuleParam, p.reset.var = p.var ∧ p.reset.num = p.num := by
    intro p
    unfold ModuleParam.reset
    split <;> exact ⟨rfl, rfl⟩
  have hnone : ∀ p ∈ params.map ModuleParam.reset, ∀ k, (p.var k).block? = none := by
    intro p hp k
    obtain ⟨q, hq, rfl⟩ := List.mem_map.mp hp
    rw [(hreset q).1]
    exact (h q hq).var k
  refine ⟨List.length_map _, fun j p hp => ⟨p.reset, ?_, p.same_reset, fun _ => ?_⟩, rfl,
    ?_, ?_, ?_, ?_⟩
  · rw [List.getElem?_map, hp]
    rfl
  · rw [(hreset p).2, (h p (List.mem_of_getElem? hp)).num]
    rfl
  · intro p hp k b hb
    rw [hnone p hp k] at hb
    cases hb
  · intro p hp k k' b hb
    rw [hnone p hp k] at hb
    cases hb
  · apply List.pairwise_of_forall_mem_list
    intro p hp q _ k k' b hb
    rw [hnone p hp k] at hb
    cases hb
  · intro p hp _ k hk
    obtain ⟨q, hq, rfl⟩ := List.mem_map.mp hp
    rw [(hreset q).2, (h q hq).num] at hk
    exact absurd hk (Nat.not_lt_zero k)

/-! ## What is freed -/

theorem map_eq_map_some {α β : Type} {f : α → Option β} {l : List α}
    (h : ∀ x ∈ l, (f x).isSome = true) : l.map f = (l.filterMap f).map some := by
  induction l with
  | nil => rfl
  | cons x l ih =>
    obtain ⟨y, hy⟩ := Option.isSome_iff_exists.mp (h x List.mem_cons_self)
    rw [List.map_cons, List.filterMap_cons_some hy, List.map_cons, hy,
      ih fun z hz => h z (List.mem_cons_of_mem _ hz)]

/-- `urt_free_args` frees different copies, as many as the counts say. -/
theorem Owned.freed {ps : List ModuleParam} {blocks : Nat} (h : Owned ps blocks) :
    ∃ ids : List Nat, (urtFreeArgs ps).map Cell.block? = ids.map some ∧ ids.Nodup ∧
      (∀ b ∈ ids, b < blocks ∧ ∃ p ∈ ps, ∃ k, (p.var k).block? = some b) ∧
      ids.length = (ps.map fun p => if p.type = .charp then p.num else 0).sum := by
  induction ps with
  | nil => exact ⟨[], rfl, List.nodup_nil, fun b hb => absurd hb List.not_mem_nil, rfl⟩
  | cons p ps ih =>
    obtain ⟨ids, hmap, hnodup, hmem, hlength⟩ := ih h.tail
    have hmem' : ∀ b ∈ ids, b < blocks ∧ ∃ q ∈ p :: ps, ∃ k, (q.var k).block? = some b := by
      intro b hb
      obtain ⟨hlt, q, hq, hk⟩ := hmem b hb
      exact ⟨hlt, q, List.mem_cons_of_mem _ hq, hk⟩
    rw [urtFreeArgs, List.flatMap_cons, List.map_append, List.map_cons, List.sum_cons]
    change ∃ ids' : List Nat, _ ++ (urtFreeArgs ps).map Cell.block? = _ ∧ _
    by_cases ht : p.type = .charp
    · rw [if_pos ht, if_pos ht, List.map_map, hmap]
      have hsome : ∀ k ∈ List.range p.num, ((Cell.block? ∘ p.var) k).isSome = true :=
        fun k hk => h.filled p List.mem_cons_self ht k (List.mem_range.mp hk)
      have hhead := map_eq_map_some hsome
      have hblock : ∀ b ∈ (List.range p.num).filterMap (Cell.block? ∘ p.var),
          ∃ k, (p.var k).block? = some b := by
        intro b hb
        obtain ⟨k, -, hk⟩ := List.mem_filterMap.mp hb
        exact ⟨k, hk⟩
      refine ⟨(List.range p.num).filterMap (Cell.block? ∘ p.var) ++ ids, ?_, ?_, ?_, ?_⟩
      · rw [hhead, List.map_append]
      · apply List.Nodup.append _ hnodup
        · -- no copy is both in this parameter and in a later one
          intro b hb hb'
          obtain ⟨k, hk⟩ := hblock b hb
          obtain ⟨-, q, hq, k', hk'⟩ := hmem b hb'
          exact List.rel_of_pairwise_cons h.apart hq k k' b hk hk'
        · exact List.nodup_range.filterMap fun k k' b hk hk' =>
            h.once p List.mem_cons_self k k' b hk hk'
      · intro b hb
        rcases List.mem_append.mp hb with hb | hb
        · obtain ⟨k, hk⟩ := hblock b hb
          exact ⟨h.below p List.mem_cons_self k b hk, p, List.mem_cons_self, k, hk⟩
        · exact hmem' b hb
      · have hlen := congrArg List.length hhead
        rw [List.length_map, List.length_map, List.length_range] at hlen
        rw [List.length_append, hlength, ← hlen]
    · rw [if_neg ht, if_neg ht, List.map_nil, List.nil_append, Nat.zero_add]
      exact ⟨ids, hmap, hnodup, hmem', hlength⟩

/-- Nothing is freed twice; everything is freed if the counts add up. -/
theorem Owned.freedOnce_iff {ps : List ModuleParam} {blocks : Nat} (h : Owned ps blocks) :
    FreedOnce blocks (urtFreeArgs ps) ↔
      (ps.map fun p => if p.type = .charp then p.num else 0).sum = blocks := by
  obtain ⟨ids, hmap, hnodup, hmem, hlength⟩ := h.freed
  rw [← hlength, ← Register.count_eq_one_iff hnodup fun b hb => (hmem b hb).1]
  have hcount : ∀ b, ((urtFreeArgs ps).map Cell.block?).count (some b) = ids.count b := by
    intro b
    rw [hmap]
    exact List.count_map_of_injective ids some (Option.some_injective _) b
  unfold FreedOnce
  simp only [hcount]
  refine ⟨fun hall => hall.1, fun hall => ⟨hall, fun cell hcell => ?_⟩⟩
  have hblock : cell.block? ∈ ids.map some := hmap ▸ List.mem_map_of_mem hcell
  obtain ⟨b, hb, he⟩ := List.mem_map.mp hblock
  exact ⟨b, (hmem b hb).1, he.symm⟩

/-- Only arguments and parameters that there are have anything copied. -/
theorem Copied.lt {i j : Nat} (h : Copied malloc params args i j) :
    i < args.length ∧ j < params.length := by
  obtain ⟨p, text, hp, htext, -⟩ := h
  refine ⟨?_, (List.getElem?_eq_some_iff.mp hp).1⟩
  by_contra hge
  rw [textOf, List.getElem?_eq_none (not_lt.mp hge)] at htext
  cases htext

/-- What is freed, per parameter: what its last argument without an error has counted. -/
theorem Ledger.freed {n : Nat} {s : ArgState} (h : Ledger malloc params args n s) :
    (s.params.map fun p => if p.type = .charp then p.num else 0).sum =
      ∑ j ∈ Finset.range params.length,
        Register.kept (fun i => copies malloc params args i j % 2 ^ 32)
          (fun i => counts malloc params args i j) n := by
  rw [← h.length]
  apply sum_range_of_getElem?
  intro j p' hp'
  have hlt : j < params.length := by
    rw [← h.length]
    exact (List.getElem?_eq_some_iff.mp hp').1
  obtain ⟨q, hq, hsame, hnum⟩ := h.param j params[j] (List.getElem?_eq_getElem hlt)
  obtain rfl := Option.some.inj (hp'.symm.trans hq)
  rw [hsame.type]
  split
  · rename_i ht
    exact hnum ht
  · rename_i ht
    have hno : ∀ i, counts malloc params args i j = false := by
      intro i
      rw [← Bool.not_eq_true, counts_iff]
      rintro ⟨p, text, hp, -, htp, -⟩
      rw [List.getElem?_eq_getElem hlt] at hp
      cases hp
      exact ht htp
    rw [Register.kept_eq_zero hno]

/-- **When every copy is freed once**: exactly if, for each parameter of type `charp`, at most one
argument has its first element copied, and that one fits, can be counted and gets memory for all
of its elements. -/
theorem args_freed_once_iff (malloc : Nat → Nat → Nat → Bool) {params : List ModuleParam}
    (argv : List Text) (h : ∀ p ∈ params, p.Declared) :
    FreedOnce (urtParseArgs malloc params argv).2.blocks
        (urtFreeArgs (urtParseArgs malloc params argv).2.params) ↔
      ∀ i j, Copied malloc params (lookedAt argv) i j → Fits malloc params (lookedAt argv) i j ∧
        ∀ i', Copied malloc params (lookedAt argv) i' j → i' = i := by
  have hledger : Ledger malloc params (lookedAt argv) (lookedAt argv).length
      (urtParseArgs malloc params argv).2 :=
    parseArgsLoop_ledger 0 (ledger_start malloc params _ h) (Nat.zero_le _) fun k => by
      rw [Nat.zero_add]
      rfl
  generalize (urtParseArgs malloc params argv).2 = s at hledger
  generalize lookedAt argv = args at hledger
  have hvalue : ∀ j i, copies malloc params args i j % 2 ^ 32 ≤ copies malloc params args i j :=
    fun j i => Nat.mod_le _ _
  -- per parameter, what is freed against what was copied
  rw [hledger.owned.freedOnce_iff, hledger.freed, hledger.blocks, Finset.sum_comm,
    Finset.sum_eq_sum_iff_of_le fun j _ => Register.kept_le_total (hvalue j) args.length]
  constructor
  · intro hall i j hcopied
    obtain ⟨hi, hj⟩ := hcopied.lt
    have hj' := hall j (Finset.mem_range.mpr hj)
    rw [Register.kept_eq_total_iff (hvalue j) fun i => copies_pos_of_counts] at hj'
    obtain ⟨hcounts, hothers⟩ := hj' i hi (copies_pos_iff.mpr hcopied)
    refine ⟨(counts_copies_iff.mp hcounts).2, fun i' hi' => ?_⟩
    exact hothers i' hi'.lt.1 (copies_pos_iff.mpr hi')
  · intro hall j _
    rw [Register.kept_eq_total_iff (hvalue j) fun i => copies_pos_of_counts]
    intro i _ hpos
    have hcopied := copies_pos_iff.mp hpos
    obtain ⟨hfits, hothers⟩ := hall i j hcopied
    obtain ⟨p, text, hp, htext, ht, -⟩ := hcopied
    exact ⟨counts_copies_iff.mpr ⟨⟨p, hp, ht⟩, hfits⟩, fun i' _ hpos' =>
      hothers i' (copies_pos_iff.mp hpos')⟩

/-- The parameter `sem_name` of a program. -/
def semNameParams : List ModuleParam :=
  [.common [115, 101, 109, 95, 110, 97, 109, 101] .charp 8 (fun _ => .pointer 0) none false]

/-- `prog sem_name=A sem_name=B` -/
def semNameTwice : List Text :=
  [[112, 114, 111, 103], [115, 101, 109, 95, 110, 97, 109, 101, 61, 65],
    [115, 101, 109, 95, 110, 97, 109, 101, 61, 66]]

theorem declared_semNameParams : ∀ p ∈ semNameParams, p.Declared := by
  intro p hp
  obtain rfl := List.mem_singleton.mp hp
  exact ⟨rfl, fun _ => rfl⟩

theorem args_freed_once_iff_twice :
    FreedOnce (urtParseArgs (fun _ _ _ => true) semNameParams semNameTwice).2.blocks
        (urtFreeArgs (urtParseArgs (fun _ _ _ => true) semNameParams semNameTwice).2.params) ↔
      ∀ i j, Copied (fun _ _ _ => true) semNameParams (lookedAt semNameTwice) i j →
        Fits (fun _ _ _ => true) semNameParams (lookedAt semNameTwice) i j ∧
        ∀ i', Copied (fun _ _ _ => true) semNameParams (lookedAt semNameTwice) i' j → i' = i :=
  args_freed_once_iff _ _ declared_semNameParams

/-- The copy made for the first of two arguments is lost. -/
theorem args_not_freed_once :
    ¬ ∀ (malloc : Nat → Nat → Nat → Bool) (params : List ModuleParam) (argv : List Text),
      (∀ p ∈ params, p.Declared) →
      FreedOnce (urtParseArgs malloc params argv).2.blocks
        (urtFreeArgs (urtParseArgs malloc params argv).2.params) := by
  intro h
  have hfreed := h (fun _ _ _ => true) semNameParams semNameTwice declared_semNameParams
  have hfirst := hfreed.1 0 (by decide +kernel)
  revert hfirst
  decide +kernel

end Urt
