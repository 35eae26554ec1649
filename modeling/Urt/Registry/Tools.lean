import Urt.Registry.Index

/-!
# The tools

`tools/names` prints the slots in use (`urt_print_names`); `tools/clear` force-clears the names
among its arguments, and `tools/dump` dumps the objects under them. What the first prints can be
given to the others: the names in the table are found again (`truncName_printed`), and after `--`
every argument is a name (`namesOf_end`).
-/

namespace Urt

variable {c : Config} {ω : Type}

/-- A name that no slot has is registered if a slot is free. -/
theorem reserveName_ok_iff {g : Internal c} {name : CString} (h : findByName g name = none) :
    (∃ i, (reserveName g name).1 = .ok i) ↔ ∃ i, g.used i = false := by
  simp only [reserveName, h]
  cases hfree : findFree g with
  | none =>
    refine ⟨fun ⟨i, hi⟩ => ?_, fun ⟨i, hi⟩ => ?_⟩
    · cases hi
    · rw [findFree_none hfree i] at hi
      cases hi
  | some i => exact ⟨fun _ => ⟨i, (findFree_some hfree).1⟩, fun _ => ⟨i, rfl⟩⟩

/-! ## `urt_print_names` -/

/-- A row of the table. -/
structure NameRow where
  index : Nat
  name : List UInt8
  count : UInt32
  reserved : Bool
  bookkeeping : Bool
  size : UInt64
  /-- `none` for `??????` -/
  type : Option Kind
  deriving DecidableEq

/-- What is printed. -/
structure NameTable where
  rows : List NameRow
  maxIndex : Nat
  nextFreeName : List UInt8
  cycled : Bool
  deriving DecidableEq

/-- `obj->size - (obj->has_bookkeeping?16:0)` and the other columns of a slot -/
def nameRow (i : Slot c) (o : RegisteredObject) : NameRow where
  index := i.val
  name := takeName (nameLen + 1) o.name.str
  count := o.count
  reserved := o.reserved
  bookkeeping := o.hasBookkeeping
  size := o.size - if o.hasBookkeeping then 16 else 0
  type := Kind.ofType? o.type

/-- `urt_print_names` -/
def printNames (g : Internal c) : NameTable where
  rows := (List.finRange c.maxObjects).filterMap fun i =>
    if !(g.objects i).reserved && (g.objects i).count == 0 then none
    else some (nameRow i (g.objects i))
  maxIndex := g.objectsMaxIndex
  nextFreeName := takeName (nameLen + 1) g.nextFreeName.str
  cycled := g.namesExhausted

/-- The names in the table, in order. -/
def printedNames (g : Internal c) : List (List UInt8) := (printNames g).rows.map NameRow.name

/-- There is a row for every slot in use, in the order of the slots. -/
theorem printNames_rows (g : Internal c) :
    (printNames g).rows =
      ((List.finRange c.maxObjects).filter g.used).map fun i => nameRow i (g.objects i) := by
  have hskip : ∀ i, (!(g.objects i).reserved && (g.objects i).count == 0) = !g.used i := by
    intro i
    rw [Internal.used, RegisteredObject.inUse, Bool.not_or, bne, Bool.not_not]
  unfold printNames
  dsimp only
  induction List.finRange c.maxObjects with
  | nil => rfl
  | cons i is ih =>
    rw [List.filterMap_cons, ih, hskip, List.filter_cons]
    cases g.used i <;> rfl

theorem mem_printNames {g : Internal c} {row : NameRow} :
    row ∈ (printNames g).rows ↔ ∃ i, g.used i = true ∧ nameRow i (g.objects i) = row := by
  rw [printNames_rows]
  simp [List.mem_filter]

/-- A string cut after at least `k` bytes has the same first `k` bytes. -/
theorem takeName_ofBytes {k m : Nat} (hkm : k ≤ m) (n : CString) :
    takeName k (.ofBytes (takeName m n)) = takeName k n := by
  induction k generalizing m n with
  | zero => rfl
  | succ k ih =>
    obtain ⟨m, rfl⟩ := Nat.exists_eq_succ_of_ne_zero (show m ≠ 0 by omega)
    by_cases h0 : n 0 = 0
    · have hnil : takeName (m + 1) n = [] := if_pos h0
      rw [hnil, takeName, takeName, if_pos h0, if_pos]
      rfl
    · have hcons : takeName (m + 1) n = n 0 :: takeName m n.next := if_neg h0
      rw [hcons, takeName, takeName, if_neg h0, if_neg]
      · exact congrArg (n 0 :: ·) (ih (by omega) n.next)
      · exact h0

/-- A printed name is found under the slot it was printed for. -/
theorem truncName_printed (i : Slot c) (o : RegisteredObject) :
    truncName (.ofBytes (nameRow i o).name) = o.tname :=
  takeName_ofBytes (Nat.le_succ nameLen) o.name.str

/-! ## `tools/clear` -/

/-- `"--help"`, `"-h"` and `"--"` -/
def helpOption : List UInt8 := [45, 45, 104, 101, 108, 112]

@[inherit_doc helpOption]
def helpLetter : List UInt8 := [45, 104]

@[inherit_doc helpOption]
def endOfOptions : List UInt8 := [45, 45]

/-- The loop of `tools/clear` over its arguments; the flag is `ignore_options`. -/
def clearTool (forceClear : CString → ω → Option ω) : Bool → List (List UInt8) → ω → Option ω
  | _, [], w => some w
  | false, arg :: args, w =>
      if arg = helpOption ∨ arg = helpLetter then some w
      else if arg = endOfOptions then clearTool forceClear true args w
      else (forceClear (.ofBytes arg) w).bind (clearTool forceClear false args)
  | true, arg :: args, w => (forceClear (.ofBytes arg) w).bind (clearTool forceClear true args)

/-- The names among the arguments of `tools/clear`: all up to a request for help, where the
first `--` makes everything after it a name. -/
def namesOf (args : List (List UInt8)) : List CString :=
  let options := args.takeWhile (· != endOfOptions)
  let before := options.takeWhile fun arg => arg != helpOption && arg != helpLetter
  (before ++ if before.length = options.length then args.drop (options.length + 1) else []).map
    CString.ofBytes

theorem namesOf_cons (arg : List UInt8) (args : List (List UInt8)) :
    namesOf (arg :: args) =
      if arg = helpOption ∨ arg = helpLetter then []
      else if arg = endOfOptions then args.map CString.ofBytes
      else CString.ofBytes arg :: namesOf args := by
  have hne : ∀ arg, arg = helpOption ∨ arg = helpLetter → arg ≠ endOfOptions := by
    rintro _ (rfl | rfl) <;> decide
  unfold namesOf
  by_cases hhelp : arg = helpOption ∨ arg = helpLetter
  · have hstop : ¬ (arg != helpOption && arg != helpLetter) = true := by
      rcases hhelp with rfl | rfl <;> decide
    have hopt : (arg != endOfOptions) = true := bne_iff_ne.mpr (hne arg hhelp)
    rw [if_pos hhelp]
    simp [hopt, hstop]
  · have hgo : (arg != helpOption && arg != helpLetter) = true := by
      rw [not_or] at hhelp
      simp [hhelp.1, hhelp.2]
    rw [if_neg hhelp]
    by_cases hend : arg = endOfOptions
    · simp [hend]
    · have hopt : (arg != endOfOptions) = true := bne_iff_ne.mpr hend
      rw [if_neg hend]
      simp only [List.takeWhile_cons, hopt, if_true, hgo, List.length_cons,
        Nat.add_right_cancel_iff, List.drop_succ_cons, List.cons_append, List.map_cons]

/-- After `--` the tool clears every argument. -/
theorem clearTool_ignore (forceClear : CString → ω → Option ω) (args : List (List UInt8)) (w : ω) :
    clearTool forceClear true args w =
      (args.map CString.ofBytes).foldlM (fun w name => forceClear name w) w := by
  induction args generalizing w with
  | nil => rfl
  | cons arg args ih =>
    rw [clearTool, List.map_cons, List.foldlM_cons]
    exact congrArg _ (funext ih)

/-- The tool clears the names among its arguments, in order. -/
theorem clearTool_eq (forceClear : CString → ω → Option ω) (args : List (List UInt8)) (w : ω) :
    clearTool forceClear false args w =
      (namesOf args).foldlM (fun w name => forceClear name w) w := by
  induction args generalizing w with
  | nil => rfl
  | cons arg args ih =>
    rw [clearTool, namesOf_cons]
    split
    · rfl
    · split
      · exact clearTool_ignore forceClear args w
      · rw [List.foldlM_cons]
        exact congrArg _ (funext ih)

/-! ## `tools/dump` -/

/-- `"--size"` and `"-s"` -/
def sizeOption : List UInt8 := [45, 45, 115, 105, 122, 101]

@[inherit_doc sizeOption]
def sizeLetter : List UInt8 := [45, 115]

/-- The arguments of a call of `urt_dump_memory`. -/
structure DumpRequest where
  name : List UInt8
  start : UInt64
  stop : UInt64
  deriving DecidableEq

section

variable {β : Type} (sscanf : List UInt8 → Option UInt64)

/-- The loop of `tools/dump` over its arguments. `sscanf` is what `sscanf` with `"%zu"` stores, if
it does; `skip` is how many arguments `++i` in the body of the loop has taken, and the flag is
`ignore_options`. -/
def dumpTool (dump : DumpRequest → ω → Option (β × ω)) :
    (skip : Nat) → Bool → UInt64 → UInt64 → List (List UInt8) → ω → Option (List β × ω)
  | _, _, _, _, [], w => some ([], w)
  | skip + 1, ignore, start, stop, _ :: args, w => dumpTool dump skip ignore start stop args w
  | 0, true, start, stop, arg :: args, w =>
      (dump ⟨arg, start, stop⟩ w).bind fun r =>
        (dumpTool dump 0 true 0 0 args r.2).map fun q => (r.1 :: q.1, q.2)
  | 0, false, start, stop, arg :: args, w =>
      if arg = helpOption ∨ arg = helpLetter then some ([], w)
      else if arg = sizeOption ∨ arg = sizeLetter then
        match args with
        | first :: second :: _ =>
            match sscanf first with
            | none => dumpTool dump 1 false start stop args w
            | some n =>
                match sscanf second with
                | none => dumpTool dump 1 false n stop args w
                | some m => dumpTool dump 2 false n m args w
        | _ => some ([], w)
      else if arg = endOfOptions then dumpTool dump 0 true start stop args w
      else
        (dump ⟨arg, start, stop⟩ w).bind fun r =>
          (dumpTool dump 0 false 0 0 args r.2).map fun q => (r.1 :: q.1, q.2)

/-- The calls of `urt_dump_memory` that the arguments ask for. -/
def dumpRequests : (skip : Nat) → Bool → UInt64 → UInt64 → List (List UInt8) → List DumpRequest
  | _, _, _, _, [] => []
  | skip + 1, ignore, start, stop, _ :: args => dumpRequests skip ignore start stop args
  | 0, true, start, stop, arg :: args => ⟨arg, start, stop⟩ :: dumpRequests 0 true 0 0 args
  | 0, false, start, stop, arg :: args =>
      if arg = helpOption ∨ arg = helpLetter then []
      else if arg = sizeOption ∨ arg = sizeLetter then
        match args with
        | first :: second :: _ =>
            match sscanf first with
            | none => dumpRequests 1 false start stop args
            | some n =>
                match sscanf second with
                | none => dumpRequests 1 false n stop args
                | some m => dumpRequests 2 false n m args
        | _ => []
      else if arg = endOfOptions then dumpRequests 0 true start stop args
      else ⟨arg, start, stop⟩ :: dumpRequests 0 false 0 0 args

/-- One call after another. -/
def dumpAll (dump : DumpRequest → ω → Option (β × ω)) :
    List DumpRequest → ω → Option (List β × ω)
  | [], w => some ([], w)
  | request :: requests, w =>
      (dump request w).bind fun r =>
        (dumpAll dump requests r.2).map fun q => (r.1 :: q.1, q.2)

/-- The tool makes the calls that its arguments ask for, in order. -/
theorem dumpTool_eq (dump : DumpRequest → ω → Option (β × ω)) (skip : Nat) (ignore : Bool)
    (start stop : UInt64) (args : List (List UInt8)) (w : ω) :
    dumpTool sscanf dump skip ignore start stop args w =
      dumpAll dump (dumpRequests sscanf skip ignore start stop args) w := by
  induction args generalizing skip ignore start stop w with
  | nil => rfl
  | cons arg args ih =>
    cases skip with
    | succ skip => exact ih skip ignore start stop w
    | zero =>
      cases ignore with
      | true =>
        rw [dumpTool, dumpRequests, dumpAll]
        simp only [ih]
      | false =>
        unfold dumpTool dumpRequests
        by_cases hhelp : arg = helpOption ∨ arg = helpLetter
        · rw [if_pos hhelp, if_pos hhelp]
          rfl
        rw [if_neg hhelp, if_neg hhelp]
        by_cases hsize : arg = sizeOption ∨ arg = sizeLetter
        · rw [if_pos hsize, if_pos hsize]
          split
          · split
            · exact ih 1 false start stop w
            · split
              · exact ih 1 false _ stop w
              · exact ih 2 false _ _ w
          · rfl
        rw [if_neg hsize, if_neg hsize]
        split
        · exact ih 0 true start stop w
        · rw [dumpAll]
          simp only [ih]

end

/-- `-s 2 9 A -- -h` asks for bytes 2 to 9 of `A` and for all of `-h`. -/
example : dumpRequests (fun arg => arg.head?.map fun ch => ch.toUInt64 - 48) 0 false 0 0
    [sizeLetter, [50], [57], [65], endOfOptions, helpLetter] =
    [⟨[65], 2, 9⟩, ⟨helpLetter, 0, 0⟩] := by
  decide

end Urt
