import Urt.Param.Basic

/-!
# What `parse_arg` reads

The loop of `parse_arg` sees the value of an argument and then, for an array, what follows each
comma: `elements`. Each of them denotes a value of the parameter's type or an error,
`ParamType.read`, apart from `malloc`. `reading` is the list of the values up to the first error,
and `parseArg_eq` says that `parse_arg` stores these from index 0 on. `index` is an `unsigned int`:
element number `k` has the place `k % 2 ^ 32`.
-/

namespace Urt

open Libc

/-! ## Values -/

/-- The value of an element. -/
inductive ArgValue where
  | int (n : Int)
  | bool (b : Bool)
  | text (text : Text)
  deriving DecidableEq, Repr

/-- The value in a cell. -/
def Cell.value : Cell → Option ArgValue
  | .int n => some (.int n)
  | .bool b => some (.bool b)
  | .copy _ text => some (.text text)
  | .pointer _ => none

/-- The cell that holds a value; a text in the given block. -/
def ArgValue.cell (block : Nat) : ArgValue → Cell
  | .int n => .int n
  | .bool b => .bool b
  | .text s => .copy block s

@[simp] theorem ArgValue.value_cell (block : Nat) (v : ArgValue) :
    (v.cell block).value = some v := by
  cases v <;> rfl

/-- The integer that `TO_X` reads. -/
def readInt (cast : Int → Int) (cnv : Text → Int × Bool) (value : Text) :
    Except ArgError ArgValue :=
  if value = [] then .error .einval
  else if (cnv value).2 then .error .erange
  else if cast (cnv value).1 ≠ (cnv value).1 then .error .erange
  else .ok (.int (cnv value).1)

def readBool (inv : Bool) (value : Text) : Except ArgError ArgValue :=
  match extractBool value with
  | none => .error .einval
  | some b => .ok (.bool (b != inv))

/-- What a text denotes for a parameter of the given type. -/
def ParamType.read (isArray : Bool) (value : Text) : ParamType → Except ArgError ArgValue
  | .byte => readInt (castUnsigned 8) strtoul value
  | .short => readInt (castSigned 16) strtol value
  | .ushort => readInt (castUnsigned 16) strtoul value
  | .int => readInt (castSigned 32) strtol value
  | .uint => readInt (castUnsigned 32) strtoul value
  | .long => readInt (castSigned 64) strtol value
  | .ulong => readInt (castUnsigned 64) strtoul value
  | .charp => .ok (.text (if isArray then value.takeWhile (· != 44) else value))
  | .bool | .cBool => readBool false value
  | .invbool => readBool true value
  | .other _ => .error .einval

/-- The blocks that an element of this type takes. -/
def ParamType.blocks (t : ParamType) : Nat := if t = .charp then 1 else 0

/-- What a text denotes, if memory can be had for it. -/
def ParamType.attempt (t : ParamType) (isArray malloc : Bool) (value : Text) :
    Except ArgError ArgValue :=
  if t = .charp ∧ malloc = false then .error .enomem else t.read isArray value

/-! ## Elements -/

/-- What follows the commas of a text, as long as something does. -/
def laterElements : Text → List Text
  | [] => []
  | ch :: rest =>
      if ch = 44 ∧ rest ≠ [] then rest :: laterElements rest else laterElements rest

/-- The texts that the loop of `parse_arg` converts. -/
def elements (isArray : Bool) (value : Text) : List Text :=
  value :: if isArray then laterElements value else []

theorem getNextValue_cons (ch : UInt8) (rest : Text) (delim : UInt8) :
    getNextValue (ch :: rest) delim = if ch = delim then rest else getNextValue rest delim := by
  unfold getNextValue
  rw [strchr]
  by_cases hch : ch = delim
  · rw [if_pos hch, if_pos hch]
    rfl
  · rw [if_neg hch, if_neg hch]

theorem laterElements_eq (value : Text) :
    laterElements value =
      if getNextValue value 44 = [] then []
      else getNextValue value 44 :: laterElements (getNextValue value 44) := by
  induction value with
  | nil => rfl
  | cons ch rest ih =>
    rw [laterElements, getNextValue_cons]
    by_cases hch : ch = 44
    · rw [if_pos hch]
      by_cases hrest : rest = []
      · rw [if_neg (fun h => h.2 hrest), if_pos hrest, hrest]
        rfl
      · rw [if_pos ⟨hch, hrest⟩, if_neg hrest]
    · rw [if_neg (fun h => hch h.1), if_neg hch]
      exact ih

/-- The values of the given texts, from element number `k` on, up to the first error. -/
def collect (max : Nat) (attempt : Nat → Text → Except ArgError ArgValue) :
    Nat → List Text → Option ArgError × List ArgValue
  | _, [] => (none, [])
  | k, value :: values =>
      if k % 2 ^ 32 ≥ max then (some .e2big, [])
      else
        match attempt k value with
        | .error e => (some e, [])
        | .ok v =>
            ((collect max attempt (k + 1) values).1, v :: (collect max attempt (k + 1) values).2)

/-- There is no error if there is a place for each value and all can be had. -/
theorem collect_eq_none_iff {max : Nat} {attempt : Nat → Text → Except ArgError ArgValue}
    {k : Nat} {values : List Text} :
    (collect max attempt k values).1 = none ↔
      ∀ m value, values[m]? = some value →
        (k + m) % 2 ^ 32 < max ∧ ∃ v, attempt (k + m) value = .ok v := by
  induction values generalizing k with
  | nil => exact ⟨fun _ _ _ hm => (by cases hm), fun _ => rfl⟩
  | cons value values ih =>
    rw [collect]
    have hplace : ∀ m, k + (m + 1) = k + 1 + m := by omega
    by_cases hfull : k % 2 ^ 32 ≥ max
    · rw [if_pos hfull]
      refine ⟨fun h => (by cases h), fun h => ?_⟩
      have hroom := (h 0 value rfl).1
      rw [Nat.add_zero] at hroom
      omega
    · rw [if_neg hfull]
      cases hattempt : attempt k value with
      | error e =>
        refine ⟨fun h => (by cases h), fun h => ?_⟩
        obtain ⟨v, hv⟩ := (h 0 value rfl).2
        rw [Nat.add_zero, hattempt] at hv
        cases hv
      | ok v =>
        dsimp only
        rw [ih]
        constructor
        · intro hall m w hm
          cases m with
          | zero =>
            cases hm
            exact ⟨by omega, v, hattempt⟩
          | succ m =>
            rw [hplace]
            exact hall m w hm
        · intro hall m w hm
          rw [← hplace]
          exact hall (m + 1) w hm

/-- Without an error every element has its value. -/
theorem collect_values {max : Nat} {attempt : Nat → Text → Except ArgError ArgValue}
    {k : Nat} {values : List Text} (h : (collect max attempt k values).1 = none) :
    (collect max attempt k values).2.length = values.length ∧
      ∀ m value, values[m]? = some value →
        ∃ v, (collect max attempt k values).2[m]? = some v ∧ attempt (k + m) value = .ok v := by
  induction values generalizing k with
  | nil => exact ⟨rfl, fun _ _ hm => by cases hm⟩
  | cons value values ih =>
    rw [collect] at h ⊢
    by_cases hfull : k % 2 ^ 32 ≥ max
    · rw [if_pos hfull] at h
      cases h
    · rw [if_neg hfull] at h ⊢
      cases hattempt : attempt k value with
      | error e =>
        rw [hattempt] at h
        cases h
      | ok v =>
        rw [hattempt] at h
        obtain ⟨hlength, hall⟩ := ih h
        refine ⟨congrArg (· + 1) hlength, fun m w hm => ?_⟩
        cases m with
        | zero =>
          cases hm
          exact ⟨v, rfl, hattempt⟩
        | succ m =>
          obtain ⟨x, hx, hok⟩ := hall m w hm
          exact ⟨x, hx, by rw [← hok, Nat.add_assoc, Nat.add_comm 1]⟩

/-- What an argument gives a parameter: an error, if any, and the values before it. -/
def ModuleParam.reading (p : ModuleParam) (malloc : Nat → Bool) (arg : Text) :
    Option ArgError × List ArgValue :=
  if p.type.converter = none then (some .einval, [])
  else
    collect p.max (fun k value => p.type.attempt p.isArray (malloc k) value) 0
      (elements p.isArray (unquote arg).1)

/-! ## Conversions -/

/-- A conversion stores what the text denotes, or nothing. -/
def Converts (t : ParamType) (convert : Converter) : Prop :=
  ∀ malloc blocks p value index, convert malloc blocks p value index =
    match t.attempt p.isArray malloc value with
    | .error e => { err := some e, param := p, blocks := blocks }
    | .ok v =>
        { err := none, param := p.store index (v.cell blocks), blocks := blocks + t.blocks }

theorem toX_converts {t : ParamType} {cast : Int → Int} {cnv : Text → Int × Bool}
    (ht : t ≠ .charp) (hread : ∀ isArray value, t.read isArray value = readInt cast cnv value) :
    Converts t (toX cast cnv) := by
  intro malloc blocks p value index
  rw [ParamType.attempt, if_neg (fun h => ht h.1), hread, ParamType.blocks, if_neg ht]
  unfold toX readInt
  dsimp only
  split
  · rfl
  · split
    · rfl
    · split <;> rfl

theorem toCharp_converts : Converts .charp toCharp := by
  intro malloc blocks p value index
  unfold toCharp ParamType.attempt ParamType.read ParamType.blocks
  cases malloc with
  | false => rfl
  | true =>
    cases hp : p.isArray with
    | false => simp [ArgValue.cell]
    | true =>
      cases hs : strchr value 44 with
      | none => simp [ArgValue.cell, strchr_eq_none hs]
      | some rest => simp [ArgValue.cell, take_of_strchr hs]

theorem toBool_converts {t : ParamType} (ht : t = .bool ∨ t = .cBool) : Converts t toBool := by
  intro malloc blocks p value index
  rcases ht with rfl | rfl
  all_goals
    unfold toBool ParamType.attempt ParamType.read readBool ParamType.blocks
    cases extractBool value with
    | none => rfl
    | some b => cases b <;> rfl

theorem toInvbool_converts : Converts .invbool toInvbool := by
  intro malloc blocks p value index
  unfold toInvbool ParamType.attempt ParamType.read readBool ParamType.blocks
  cases extractBool value with
  | none => rfl
  | some b => cases b <;> rfl

/-- Each type has the conversion for what its texts denote. -/
theorem converter_converts {t : ParamType} {convert : Converter} (h : t.converter = some convert) :
    Converts t convert := by
  cases t with
  | charp =>
    cases h
    exact toCharp_converts
  | bool =>
    cases h
    exact toBool_converts (.inl rfl)
  | cBool =>
    cases h
    exact toBool_converts (.inr rfl)
  | invbool =>
    cases h
    exact toInvbool_converts
  | other => cases h
  | _ =>
    cases h
    exact toX_converts (by decide) fun _ _ => rfl

/-! ## The loop -/

/-- The variable after the given values were stored, from element number `k` on; each takes
`stride` blocks, from number `blocks` on. -/
def storeAll (stride : Nat) : (Nat → Cell) → Nat → Nat → List ArgValue → Nat → Cell
  | var, _, _, [] => var
  | var, k, blocks, v :: vals =>
      storeAll stride (Function.update var (k % 2 ^ 32) (v.cell blocks)) (k + 1) (blocks + stride)
        vals

/-- A cell holds one of the values whose place it is, or what it held before. -/
theorem storeAll_cases (stride : Nat) (var : Nat → Cell) (k blocks : Nat)
    (vals : List ArgValue) (i : Nat) :
    (∃ m v, vals[m]? = some v ∧ (k + m) % 2 ^ 32 = i ∧
      storeAll stride var k blocks vals i = v.cell (blocks + stride * m)) ∨
    (∀ m < vals.length, (k + m) % 2 ^ 32 ≠ i) ∧ storeAll stride var k blocks vals i = var i := by
  induction vals generalizing var k blocks with
  | nil => exact .inr ⟨fun m hm => absurd hm (Nat.not_lt_zero m), rfl⟩
  | cons v vals ih =>
    rw [storeAll]
    rcases ih (Function.update var (k % 2 ^ 32) (v.cell blocks)) (k + 1) (blocks + stride) with
      ⟨m, w, hw, hplace, hcell⟩ | ⟨hothers, hcell⟩
    · refine .inl ⟨m + 1, w, hw, ?_, ?_⟩
      · rw [← hplace, Nat.add_assoc, Nat.add_comm 1]
      · rw [hcell, Nat.mul_succ, Nat.add_assoc, Nat.add_comm stride]
    · rw [hcell]
      by_cases hi : i = k % 2 ^ 32
      · refine .inl ⟨0, v, rfl, hi.symm, ?_⟩
        rw [hi, Function.update_self]
        rfl
      · refine .inr ⟨fun m hm => ?_, Function.update_of_ne hi _ _⟩
        cases m with
        | zero => exact Ne.symm hi
        | succ m =>
          have hm' : m < vals.length := Nat.lt_of_succ_lt_succ hm
          have hne := hothers m hm'
          rwa [Nat.add_assoc, Nat.add_comm 1] at hne

/-- Fewer than `2 ^ 32` values are stored one after the other. -/
theorem storeAll_of_lt (stride : Nat) (var : Nat → Cell) (blocks : Nat) {vals : List ArgValue}
    (hlen : vals.length < 2 ^ 32) {i : Nat} {v : ArgValue} (hv : vals[i]? = some v) :
    storeAll stride var 0 blocks vals i = v.cell (blocks + stride * i) := by
  have hi := (List.getElem?_eq_some_iff.mp hv).1
  rcases storeAll_cases stride var 0 blocks vals i with ⟨m, w, hw, hplace, hcell⟩ | ⟨hothers, -⟩
  · have hm := (List.getElem?_eq_some_iff.mp hw).1
    have hmi : m = i := by omega
    subst hmi
    rw [hcell, Option.some.inj (hw.symm.trans hv)]
  · exact absurd (by omega) (hothers i hi)

/-- In an array, with something after the comma, there are further elements. -/
theorem later_of_more {isArray : Bool} {value : Text}
    (h : isArray = true ∧ getNextValue value 44 ≠ []) :
    (if isArray then laterElements value else []) =
      elements isArray (getNextValue value 44) := by
  rw [laterElements_eq, if_pos h.1, if_neg h.2, elements, if_pos h.1]

theorem later_of_last {isArray : Bool} {value : Text}
    (h : ¬ (isArray = true ∧ getNextValue value 44 ≠ [])) :
    (if isArray then laterElements value else []) = [] := by
  by_cases harray : isArray = true
  · have hrest : getNextValue value 44 = [] := by
      by_contra hrest
      exact h ⟨harray, hrest⟩
    rw [if_pos harray, laterElements_eq, if_pos hrest]
  · rw [if_neg harray]

/-- The loop of `parse_arg` collects the values of the elements and stores them. -/
theorem parseLoop_eq {t : ParamType} {convert : Converter} (hc : Converts t convert)
    (malloc : Nat → Bool) (p : ModuleParam) (value : Text) (k blocks : Nat)
    {r : Option ArgError × List ArgValue}
    (hr : r = collect p.max (fun m v => t.attempt p.isArray (malloc m) v) k
      (elements p.isArray value)) :
    ∃ last, parseLoop convert malloc p value k blocks =
        { err := r.1
          param := { p with var := storeAll t.blocks p.var k blocks r.2 }
          blocks := blocks + t.blocks * r.2.length
          index := last } ∧
      (r.1 = none → last = (k + r.2.length) % 2 ^ 32) := by
  induction hn : value.length using Nat.strongRecOn generalizing value p k blocks r
  rename_i n ih
  rw [elements, collect] at hr
  rw [parseLoop]
  dsimp only
  by_cases hfull : k % 2 ^ 32 ≥ p.max
  · rw [if_pos hfull] at hr ⊢
    subst hr
    exact ⟨k % 2 ^ 32, rfl, fun h => by cases h⟩
  · rw [if_neg hfull] at hr ⊢
    rw [hc]
    cases hattempt : t.attempt p.isArray (malloc k) value with
    | error e =>
      rw [hattempt] at hr
      subst hr
      refine ⟨(k + 1) % 2 ^ 32, ?_, fun h => by cases h⟩
      rw [dif_neg (fun h => by cases h.1)]
      rfl
    | ok v =>
      rw [hattempt] at hr
      dsimp only at hr ⊢
      by_cases hmore : p.isArray = true ∧ getNextValue value 44 ≠ []
      · rw [later_of_more hmore] at hr
        obtain ⟨last, heq, hlast⟩ := ih _ (hn ▸ getNextValue_length value 44 hmore.2)
          (p.store (k % 2 ^ 32) (v.cell blocks)) (getNextValue value 44) (k + 1)
          (blocks + t.blocks) rfl rfl
        refine ⟨last, ?_, ?_⟩
        · rw [dif_pos ⟨rfl, hmore.1, hmore.2⟩, heq, hr]
          dsimp only
          rw [List.length_cons, Nat.mul_succ, Nat.add_assoc, Nat.add_comm t.blocks]
          rfl
        · intro hnone
          rw [hr] at hnone ⊢
          rw [hlast hnone, List.length_cons, Nat.add_assoc, Nat.add_comm 1]
          rfl
      · rw [later_of_last hmore] at hr
        subst hr
        refine ⟨(k + 1) % 2 ^ 32, ?_, fun _ => rfl⟩
        rw [dif_neg (fun h => hmore h.2)]
        simp [collect, storeAll, ModuleParam.store]

/-- **`parse_arg`** stores the values of the argument, and its count if there is no error. -/
theorem parseArg_eq (malloc : Nat → Bool) (blocks : Nat) (p : ModuleParam) (arg : Text) :
    parseArg malloc blocks p arg =
      { err := (p.reading malloc arg).1
        param :=
          { p with
            var := storeAll p.type.blocks p.var 0 blocks (p.reading malloc arg).2
            num := if (p.reading malloc arg).1 = none then
              (p.reading malloc arg).2.length % 2 ^ 32 else p.num
            nump := if (p.reading malloc arg).1 = none then
              p.nump.map fun _ => (p.reading malloc arg).2.length % 2 ^ 32 else p.nump }
        blocks := blocks + p.type.blocks * (p.reading malloc arg).2.length
        arg := (unquote arg).2 } := by
  unfold parseArg
  cases hconv : p.type.converter with
  | none =>
    rw [ModuleParam.reading, if_pos hconv]
    rfl
  | some convert =>
    have hreading : p.reading malloc arg =
        collect p.max (fun m v => p.type.attempt p.isArray (malloc m) v) 0
          (elements p.isArray (unquote arg).1) := by
      rw [ModuleParam.reading, if_neg (by rw [hconv]; exact Option.some_ne_none _)]
    obtain ⟨last, heq, hlast⟩ := parseLoop_eq (converter_converts hconv) malloc p
      (unquote arg).1 0 blocks hreading
    dsimp only
    rw [heq]
    dsimp only
    cases herr : (p.reading malloc arg).1 with
    | some e => simp
    | none =>
      rw [hlast herr]
      simp

end Urt
