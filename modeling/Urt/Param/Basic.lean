import Urt.Lib.Strtol

/-!
# Parameters and arguments

`src/param.c`: `urt_parse_args` reads the arguments of a program into the variables of a table
of parameters, and `urt_free_args` frees the strings it has copied. The table is the one that
`URT_MODULE_PARAM_START` begins (`include/urt_param.h`), without its fake first entry; each
parameter has a variable and, if given, a counter of its own.

`malloc` may fail. `malloc i j k` says whether it succeeds for element `k` of the `i`-th
argument (not counting the name of the program) and the `j`-th parameter. The blocks it returns
are numbered in the order of the calls.
-/

namespace Urt

open Libc

/-! ## The table -/

/-- The strings that `type` is compared with. -/
inductive ParamType where
  | byte
  | short
  | ushort
  | int
  | uint
  | long
  | ulong
  | charp
  | bool
  /-- `"_Bool"`, what `bool` is defined as where it is a macro -/
  | cBool
  | invbool
  /-- any other string -/
  | other (type : Text)
  deriving DecidableEq, Repr

/-- One element of a variable. -/
inductive Cell where
  | int (n : Int)
  | bool (b : Bool)
  /-- a pointer to a copy that `to_charp` has made: its block and its text -/
  | copy (block : Nat) (text : Text)
  /-- any other pointer -/
  | pointer (address : Nat)
  deriving DecidableEq, Repr

/-- `struct urt_module_param`; `desc` is for the help text only. -/
structure ModuleParam where
  name : Text
  type : ParamType
  max : Nat
  /-- the elements of the variable -/
  var : Nat → Cell
  num : Nat
  /-- `*nump`, if `nump` is not `NULL` -/
  nump : Option Nat
  isArray : Bool

/-- `URT_MODULE_PARAM_COMMON`, for a variable with the given contents -/
def ModuleParam.common (name : Text) (type : ParamType) (max : Nat) (var : Nat → Cell)
    (nump : Option Nat) (isArray : Bool) : ModuleParam :=
  { name := name, type := type, max := max, var := var, num := 0, nump := nump,
    isArray := isArray }

/-- The errors of parsing. -/
inductive ArgError where
  | einval
  | erange
  | e2big
  | enomem
  deriving DecidableEq, Repr

/-- `var[index] = cell` -/
def ModuleParam.store (p : ModuleParam) (index : Nat) (cell : Cell) : ModuleParam :=
  { p with var := Function.update p.var index cell }

/-! ## `param_matches` -/

/-- `*value == '-' ? '_' : *value` -/
def underscored (ch : UInt8) : UInt8 := if ch = 45 then 95 else ch

/-- `param_matches` -/
def paramMatches : Text → Text → Bool
  | [], [] => true
  | [], ch :: _ => ch == 61
  | _ :: _, [] => false
  | n :: ns, ch :: chs =>
      if n = underscored ch ∧ ch ≠ 61 then paramMatches ns chs else n == ch

/-! ## Conversions -/

/-- What a conversion returns, and the parameter and the number of blocks after it. -/
structure Converted where
  err : Option ArgError
  param : ModuleParam
  blocks : Nat

/-- A function `to_...`, given whether `malloc` succeeds if it is called, and the number of
blocks. -/
abbrev Converter := Bool → Nat → ModuleParam → Text → Nat → Converted

/-- `TO_X` -/
def toX (cast : Int → Int) (cnv : Text → Int × Bool) : Converter :=
  fun _ blocks p value index =>
    if value = [] then { err := some .einval, param := p, blocks := blocks }
    else
      let (temp, erange) := cnv value
      if erange then { err := some .erange, param := p, blocks := blocks }
      else if cast temp ≠ temp then { err := some .erange, param := p, blocks := blocks }
      else { err := none, param := p.store index (.int temp), blocks := blocks }

/-- A cast to an unsigned type of the given width. -/
def castUnsigned (width : Nat) (n : Int) : Int := n % 2 ^ width

/-- A cast to a signed type of the given width. -/
def castSigned (width : Nat) (n : Int) : Int := n.bmod (2 ^ width)

def toByte : Converter := toX (castUnsigned 8) strtoul
def toShort : Converter := toX (castSigned 16) strtol
def toUshort : Converter := toX (castUnsigned 16) strtoul
def toInt : Converter := toX (castSigned 32) strtol
def toUint : Converter := toX (castUnsigned 32) strtoul
def toLong : Converter := toX (castSigned 64) strtol
def toUlong : Converter := toX (castUnsigned 64) strtoul

/-- `to_charp` -/
def toCharp : Converter := fun malloc blocks p value index =>
  let nextComma := if p.isArray then strchr value 44 else none
  let len := match nextComma with
    | none => value.length
    | some rest => value.length - rest.length
  if malloc then
    { err := none, param := p.store index (.copy blocks (value.take len)), blocks := blocks + 1 }
  else { err := some .enomem, param := p, blocks := blocks }

/-- `extract_bool`, which compares with the character of code 1, not with `'1'`; `none` stands
for `EINVAL`. -/
def extractBool : Text → Option Bool
  | [] => some true
  | ch :: _ =>
      if ch ≠ 48 ∧ ch ≠ 1 ∧ ch ≠ 121 ∧ ch ≠ 110 ∧ ch ≠ 89 ∧ ch ≠ 78 then none
      else some (ch == 49 || ch == 121 || ch == 89)

/-- `to_bool` -/
def toBool : Converter := fun _ blocks p value index =>
  match extractBool value with
  | none => { err := some .einval, param := p, blocks := blocks }
  | some b => { err := none, param := p.store index (.bool b), blocks := blocks }

/-- `to_invbool` -/
def toInvbool : Converter := fun _ blocks p value index =>
  match extractBool value with
  | none => { err := some .einval, param := p, blocks := blocks }
  | some b => { err := none, param := p.store index (.bool !b), blocks := blocks }

/-- The chain of `strcmp` in `parse_arg`. -/
def ParamType.converter : ParamType → Option Converter
  | .byte => some toByte
  | .short => some toShort
  | .ushort => some toUshort
  | .int => some toInt
  | .uint => some toUint
  | .long => some toLong
  | .ulong => some toUlong
  | .charp => some toCharp
  | .bool => some toBool
  | .cBool => some toBool
  | .invbool => some toInvbool
  | .other _ => none

/-! ## `parse_arg` -/

/-- `get_next_value` -/
def getNextValue (value : Text) (delim : UInt8) : Text :=
  match strchr value delim with
  | some rest => rest.tail
  | none => []

theorem getNextValue_length (value : Text) (delim : UInt8) (h : getNextValue value delim ≠ []) :
    (getNextValue value delim).length < value.length := by
  unfold getNextValue at h ⊢
  cases hs : strchr value delim with
  | none =>
    rw [hs] at h
    exact absurd rfl h
  | some rest =>
    obtain ⟨hvalue, hhead⟩ := strchr_eq_some hs
    cases rest with
    | nil => cases hhead
    | cons ch chs =>
      rw [hvalue, List.length_append]
      exact Nat.lt_of_lt_of_le (Nat.lt_succ_self chs.length) (Nat.le_add_left _ _)

/-- How the loop of `parse_arg` ends. -/
structure LoopEnd extends Converted where
  index : Nat

/-- The `do ... while` loop of `parse_arg`, from element number `k` on. `index` is an
`unsigned int`. -/
def parseLoop (convert : Converter) (malloc : Nat → Bool) (p : ModuleParam) (value : Text)
    (k blocks : Nat) : LoopEnd :=
  let index := k % 2 ^ 32
  if index ≥ p.max then { err := some .e2big, param := p, blocks := blocks, index := index }
  else
    let r := convert (malloc k) blocks p value index
    if _h : r.err = none ∧ r.param.isArray = true ∧ getNextValue value 44 ≠ [] then
      parseLoop convert malloc r.param (getNextValue value 44) (k + 1) r.blocks
    else { r with index := (k + 1) % 2 ^ 32 }
  termination_by value.length
  decreasing_by exact getNextValue_length value 44 _h.2.2

/-- The value of an argument and the argument itself, once the quotes are removed: the opening
quote is skipped and the closing one overwritten. -/
def unquote (arg : Text) : Text × Text :=
  let value := getNextValue arg 61
  if value.head? = some 34 then
    if arg.getLast? = some 34 then (value.dropLast.tail, arg.dropLast) else (value, arg)
  else (value, arg)

/-- What `parse_arg` returns, and the parameter, the number of blocks and the argument after it. -/
structure Parsed extends Converted where
  arg : Text

/-- `parse_arg` -/
def parseArg (malloc : Nat → Bool) (blocks : Nat) (p : ModuleParam) (arg : Text) : Parsed :=
  let (value, arg) := unquote arg
  match p.type.converter with
  | none => { err := some .einval, param := p, blocks := blocks, arg := arg }
  | some convert =>
      let r := parseLoop convert malloc p value 0 blocks
      match r.err with
      | some e => { err := some e, param := r.param, blocks := r.blocks, arg := arg }
      | none =>
          { err := none
            param := { r.param with num := r.index, nump := r.param.nump.map fun _ => r.index }
            blocks := r.blocks
            arg := arg }

/-! ## `urt_parse_args` and `urt_free_args` -/

/-- The table, the number of blocks and `*err`. -/
structure ArgState where
  params : List ModuleParam
  blocks : Nat
  err : Option ArgError

/-- How the inner loop of `urt_parse_args` ends. -/
structure Matching extends ArgState where
  matchesAny : Bool

/-- The inner loop of `urt_parse_args`: one argument against the parameters from number `j` on. -/
def matchParams (malloc : Nat → Nat → Bool) :
    Nat → Text → List ModuleParam → Nat → Option ArgError → Matching
  | _, _, [], blocks, err => { params := [], blocks := blocks, err := err, matchesAny := false }
  | j, arg, p :: ps, blocks, err =>
      if paramMatches p.name arg then
        let r := parseArg (malloc j) blocks p arg
        let s := matchParams malloc (j + 1) r.arg ps r.blocks (r.err.or err)
        { s with params := r.param :: s.params, matchesAny := true }
      else
        let s := matchParams malloc (j + 1) arg ps blocks err
        { s with params := p :: s.params }

/-- `strcmp(argv[i], "--help") == 0 || strcmp(argv[i], "-h") == 0` -/
def isHelp (arg : Text) : Bool := arg == [45, 45, 104, 101, 108, 112] || arg == [45, 104]

/-- What `urt_parse_args` returns: `*err`, or `-1` after the help text. -/
inductive ArgsReturn where
  | err (e : Option ArgError)
  | help
  deriving DecidableEq, Repr

/-- The outer loop of `urt_parse_args`, from argument number `i` on. -/
def parseArgsLoop (malloc : Nat → Nat → Nat → Bool) :
    Nat → List Text → ArgState → ArgsReturn × ArgState
  | _, [], s => (.err s.err, s)
  | i, arg :: args, s =>
      if isHelp arg then (.help, s)
      else
        let m := matchParams (malloc i) 0 arg s.params s.blocks s.err
        parseArgsLoop malloc (i + 1) args
          { m.toArgState with err := if m.matchesAny then m.err else some .einval }

/-- `*nump` of an array is reset. -/
def ModuleParam.reset (p : ModuleParam) : ModuleParam :=
  if p.isArray then { p with nump := p.nump.map fun _ => 0 } else p

/-- `urt_parse_args`: what it returns, and the table, the number of blocks and `*err` after it -/
def urtParseArgs (malloc : Nat → Nat → Nat → Bool) (params : List ModuleParam)
    (argv : List Text) : ArgsReturn × ArgState :=
  parseArgsLoop malloc 0 argv.tail { params := params.map .reset, blocks := 0, err := none }

/-- `urt_free_args`: the pointers it passes to `free`, in their order -/
def urtFreeArgs (params : List ModuleParam) : List Cell :=
  params.flatMap fun p => if p.type = .charp then (List.range p.num).map p.var else []

end Urt
