import Urt.Lib.Stride
import Urt.Posix.Sizes

/-!
# What `urt_dump_memory` prints

`urt_dump_memory` (`src/registry.c`) prints a part of an object sixteen bytes in a line: the
offset of the first byte, the bytes in hexadecimal, and the bytes as characters. `dumpMemory`
says which bytes it reads, `printMemory` also how it prints them. `content` is what it reads: the
byte of the object at an offset.

`printMemory_dumped` says that both parts of the lines are the bytes asked for, as far as the
object has them.
-/

namespace Urt

variable {c : Config}

/-! ## The lines -/

/-- A hexadecimal column: the byte at an offset, or blanks. In both, `gap` is the further space
before the ninth column. -/
inductive HexColumn where
  | byte (gap : Bool) (offset : UInt64) (value : UInt8)
  | blank (gap : Bool)
  deriving DecidableEq, Repr

/-- A character column: what is shown for the byte at an offset. -/
structure CharColumn where
  offset : UInt64
  shown : UInt8
  deriving DecidableEq, Repr

structure DumpLine where
  label : UInt64
  hex : List HexColumn
  chars : List CharColumn
  deriving DecidableEq, Repr

/-- `isalnum(c)?c:'.'` -/
def printable (ch : UInt8) : UInt8 := if isUpper ch || isLower ch || isDigit ch then ch else 46

/-- `for (; j < 16; ++j)`, with `n` columns left. -/
def blankColumns : Nat → Nat → List HexColumn
  | 0, _ => []
  | n + 1, j => .blank (j == 8) :: blankColumns n (j + 1)

section

variable (content : UInt64 → UInt8) (i stop : UInt64)

/-- The hexadecimal columns from column `j` on, with `n` columns left. -/
def hexColumns : Nat → Nat → List HexColumn
  | 0, _ => []
  | n + 1, j =>
      if i + .ofNat j < stop then
        .byte (j == 8) (i + .ofNat j) (content (i + .ofNat j)) :: hexColumns n (j + 1)
      else blankColumns (n + 1) j

/-- The characters from column `j` on, with `n` columns left. -/
def charColumns : Nat → Nat → List CharColumn
  | 0, _ => []
  | n + 1, j =>
      if i + .ofNat j < stop then
        ⟨i + .ofNat j, printable (content (i + .ofNat j))⟩ :: charColumns n (j + 1)
      else []

/-- The line that begins at `i`. -/
def dumpLine : DumpLine := ⟨i, hexColumns content i stop 16 0, charColumns content i stop 16 0⟩

end

/-- The lines from `i` on, for at most the given number of rounds. -/
def dumpLines (content : UInt64 → UInt8) : Nat → UInt64 → UInt64 → Option (List DumpLine)
  | 0, _, _ => none
  | k + 1, i, stop =>
      if i < stop then (dumpLines content k (i + 16) stop).map (dumpLine content i stop :: ·)
      else some []

/-- What is printed. -/
inductive DumpOutput where
  | noSuchName
  | badType (type : UInt8)
  | failedToAttach (error : Errno)
  | contents (lines : List DumpLine)

/-- `urt_dump_memory` -/
def printMemory (content : UInt64 → UInt8) (k : Nat) (env : SysEnv) (busy : List Bool)
    (name : CString) (start stop : UInt64) (w : World c) : Option (DumpOutput × World c) :=
  match findByName w.mem name with
  | none => some (.noSuchName, w)
  | some i =>
      match Kind.ofType? (w.mem.objects i).type with
      | none => some (.badType (w.mem.objects i).type, w)
      | some kind =>
          let size := dumpSize (w.mem.objects i)
          match shobjAttach kind env name w with
          | (.error e, w) => some (.failedToAttach e, w)
          | (.ok obj, w) =>
              (dumpLines content k (dumpStart size start) (dumpEnd size stop)).map fun lines =>
                (.contents lines, detach busy obj w)

/-! ## The bytes of a line -/

def HexColumn.offset? : HexColumn → Option UInt64
  | byte _ offset _ => some offset
  | blank _ => none

/-- The bytes of the hexadecimal columns. -/
def DumpLine.hexOffsets (line : DumpLine) : List UInt64 := line.hex.filterMap HexColumn.offset?

/-- The bytes of the character columns. -/
def DumpLine.charOffsets (line : DumpLine) : List UInt64 := line.chars.map CharColumn.offset

theorem filterMap_blankColumns (n j : Nat) :
    (blankColumns n j).filterMap HexColumn.offset? = [] := by
  induction n generalizing j with
  | zero => rfl
  | succ n ih => exact ih (j + 1)

@[simp] theorem length_blankColumns (n j : Nat) : (blankColumns n j).length = n := by
  induction n generalizing j with
  | zero => rfl
  | succ n ih => rw [blankColumns, List.length_cons, ih]

variable {content : UInt64 → UInt8} {i stop : UInt64}

theorem offsets_hexColumns (n j : Nat) :
    (hexColumns content i stop n j).filterMap HexColumn.offset? =
      ((List.range' j n).map fun j => i + .ofNat j).takeWhile (· < stop) := by
  induction n generalizing j with
  | zero => rfl
  | succ n ih =>
    rw [hexColumns, List.range'_succ, List.map_cons, List.takeWhile_cons]
    by_cases h : i + .ofNat j < stop
    · rw [if_pos h, if_pos (decide_eq_true h), ← ih]
      rfl
    · rw [if_neg h, if_neg (by simpa using h)]
      exact filterMap_blankColumns (n + 1) j

theorem offsets_charColumns (n j : Nat) :
    (charColumns content i stop n j).map CharColumn.offset =
      ((List.range' j n).map fun j => i + .ofNat j).takeWhile (· < stop) := by
  induction n generalizing j with
  | zero => rfl
  | succ n ih =>
    rw [charColumns, List.range'_succ, List.map_cons, List.takeWhile_cons]
    by_cases h : i + .ofNat j < stop
    · rw [if_pos h, if_pos (decide_eq_true h), ← ih]
      rfl
    · rw [if_neg h, if_neg (by simpa using h)]
      rfl

@[simp] theorem hexOffsets_dumpLine : (dumpLine content i stop).hexOffsets = dumpRow i stop := by
  rw [dumpRow, List.range_eq_range']
  exact offsets_hexColumns 16 0

@[simp] theorem charOffsets_dumpLine : (dumpLine content i stop).charOffsets = dumpRow i stop := by
  rw [dumpRow, List.range_eq_range']
  exact offsets_charColumns 16 0

theorem length_hexColumns (n j : Nat) : (hexColumns content i stop n j).length = n := by
  induction n generalizing j with
  | zero => rfl
  | succ n ih =>
    rw [hexColumns]
    split
    · rw [List.length_cons, ih]
    · exact length_blankColumns (n + 1) j

theorem byte_notMem_blankColumns (gap : Bool) (offset : UInt64) (value : UInt8) (n j : Nat) :
    .byte gap offset value ∉ blankColumns n j := by
  induction n generalizing j with
  | zero => exact List.not_mem_nil
  | succ n ih =>
    intro hmem
    obtain hmem | hmem := List.mem_cons.mp hmem
    · cases hmem
    · exact ih (j + 1) hmem

theorem shown_hexColumns {n j : Nat} {gap : Bool} {offset : UInt64} {value : UInt8}
    (h : .byte gap offset value ∈ hexColumns content i stop n j) : value = content offset := by
  induction n generalizing j with
  | zero => cases h
  | succ n ih =>
    rw [hexColumns] at h
    split at h
    · obtain h | h := List.mem_cons.mp h
      · cases h
        rfl
      · exact ih h
    · exact absurd h (byte_notMem_blankColumns gap offset value (n + 1) j)

theorem shown_charColumns {n j : Nat} {ch : CharColumn}
    (h : ch ∈ charColumns content i stop n j) : ch.shown = printable (content ch.offset) := by
  induction n generalizing j with
  | zero => cases h
  | succ n ih =>
    rw [charColumns] at h
    split at h
    · obtain rfl | h := List.mem_cons.mp h
      · rfl
      · exact ih h
    · cases h

theorem toNat_add_ofNat {i : UInt64} {j : Nat} (h : i.toNat + j < 2 ^ 64) :
    (i + .ofNat j).toNat = i.toNat + j := by
  rw [UInt64.toNat_add, UInt64.toNat_ofNat', Nat.mod_eq_of_lt (a := j) (by omega)]
  exact Nat.mod_eq_of_lt h

theorem toNat_rowFrom {n j : Nat} (hle : i.toNat + j + n ≤ 2 ^ 64) :
    (((List.range' j n).map fun j => i + .ofNat j).takeWhile (· < stop)).map UInt64.toNat =
      List.range' (i.toNat + j) (min n (stop.toNat - (i.toNat + j))) := by
  induction n generalizing j with
  | zero =>
    rw [Nat.zero_min]
    rfl
  | succ n ih =>
    have hj : (i + .ofNat j).toNat = i.toNat + j := toNat_add_ofNat (by omega)
    rw [List.range'_succ, List.map_cons, List.takeWhile_cons]
    by_cases h : i + .ofNat j < stop
    · have hlt : i.toNat + j < stop.toNat := by
        rw [← hj]
        exact UInt64.lt_iff_toNat_lt.mp h
      have hmin : min (n + 1) (stop.toNat - (i.toNat + j)) =
          min n (stop.toNat - (i.toNat + (j + 1))) + 1 := by omega
      rw [if_pos (decide_eq_true h), List.map_cons, ih (by omega), hj, hmin, List.range'_succ]
      rfl
    · have hend : stop.toNat ≤ i.toNat + j := by
        rw [← hj]
        exact UInt64.le_iff_toNat_le.mp (UInt64.not_lt.mp h)
      rw [if_neg (by simpa using h), Nat.sub_eq_zero_of_le hend, Nat.min_zero]
      rfl

/-- A row is what is left of the sixteen bytes before `stop`. -/
theorem toNat_dumpRow (hi : i.toNat + 16 ≤ 2 ^ 64) :
    (dumpRow i stop).map UInt64.toNat =
      List.range' i.toNat (min 16 (stop.toNat - i.toNat)) := by
  rw [dumpRow, List.range_eq_range']
  exact toNat_rowFrom hi

/-! ## The lines together -/

/-- The lines hold the rows that `dumpMemory` reads. -/
theorem dumpRows_eq (content : UInt64 → UInt8) (k : Nat) (i stop : UInt64) :
    dumpRows k i stop = (dumpLines content k i stop).map (·.map DumpLine.hexOffsets) := by
  induction k generalizing i with
  | zero => rfl
  | succ k ih =>
    rw [dumpRows, dumpLines]
    split
    · rw [ih, Option.map_map, Option.map_map]
      congr 1
      funext lines
      simp
    · rfl

theorem mem_dumpLines {k : Nat} {i stop : UInt64} {lines : List DumpLine}
    (h : dumpLines content k i stop = some lines) {line : DumpLine} (hline : line ∈ lines) :
    ∃ j < stop, line = dumpLine content j stop := by
  induction k generalizing i lines with
  | zero => cases h
  | succ k ih =>
    rw [dumpLines] at h
    split at h
    · rename_i hi
      obtain ⟨rest, hrest, rfl⟩ := Option.map_eq_some_iff.mp h
      obtain rfl | hline := List.mem_cons.mp hline
      · exact ⟨i, hi, rfl⟩
      · exact ih hrest hline
    · cases h
      cases hline

theorem dumpLines_done (content : UInt64 → UInt8) {i : UInt64} (h : stop.toNat ≤ i.toNat) {k : Nat}
    (hk : 0 < k) : dumpLines content k i stop = some [] := by
  cases k with
  | zero => cases hk
  | succ k =>
    rw [dumpLines, if_neg (UInt64.not_lt.mpr (UInt64.le_iff_toNat_le.mpr h))]

/-- Enough rounds come to an end, with rows of the bytes from `i` to `stop`. -/
theorem dumpLines_enough (content : UInt64 → UInt8) {n : Nat} {i : UInt64}
    (hstop : stop.toNat + 16 < 2 ^ 64) (hn : stop.toNat ≤ i.toNat + 16 * n) :
    ∃ lines, (∀ k, n < k → dumpLines content k i stop = some lines) ∧
      Stride.Cut 16 stop.toNat i.toNat
        (lines.map fun line => line.hexOffsets.map UInt64.toNat) := by
  induction n generalizing i with
  | zero => exact ⟨[], fun k hk => dumpLines_done content hn hk, .done hn⟩
  | succ n ih =>
    by_cases hlt : i.toNat < stop.toNat
    · have hnext : (i + 16).toNat = i.toNat + 16 := toNat_add_sixteen (by omega)
      obtain ⟨lines, hlines, hcut⟩ := ih (i := i + 16) (by omega)
      refine ⟨dumpLine content i stop :: lines, ?_, ?_⟩
      · intro k hk
        cases k with
        | zero => cases hk
        | succ k =>
          rw [dumpLines, if_pos (UInt64.lt_iff_toNat_lt.mpr hlt), hlines k (by omega)]
          rfl
      · rw [List.map_cons, hexOffsets_dumpLine, toNat_dumpRow (by omega)]
        rw [hnext] at hcut
        exact .row hlt hcut
    · refine ⟨[], ?_, .done (by omega)⟩
      intro k hk
      exact dumpLines_done content (by omega) (by omega)

/-! ## The whole dump -/

/-- The lines that `urt_dump_memory` has printed. -/
def DumpOutput.lines : DumpOutput → List DumpLine
  | contents lines => lines
  | _ => []

/-- `printMemory` reads what `dumpMemory` does. -/
theorem dumpMemory_eq (content : UInt64 → UInt8) (k : Nat) (env : SysEnv) (busy : List Bool)
    (name : CString) (start stop : UInt64) (w : World c) :
    dumpMemory k env busy name start stop w =
      (printMemory content k env busy name start stop w).map fun r =>
        (r.1.lines.map DumpLine.hexOffsets, r.2) := by
  rw [dumpMemory, printMemory]
  cases findByName w.mem name with
  | none => rfl
  | some i =>
    dsimp only
    cases Kind.ofType? (w.mem.objects i).type with
    | none => rfl
    | some kind =>
      dsimp only
      cases shobjAttach kind env name w with
      | mk r w₁ =>
        cases r with
        | error e => rfl
        | ok obj =>
          dsimp only
          rw [dumpRows_eq content, Option.map_map, Option.map_map]
          rfl

/-- The size of an object as its user knows it. -/
def userSize (ro : RegisteredObject) : Nat :=
  if ro.hasBookkeeping then ro.size.toNat - 16 else ro.size.toNat

/-- The bytes asked for, as far as the object has them: `stop = 0` asks for all of them. -/
def askedBytes (size start stop : Nat) : List Nat :=
  let first := min start size
  let behind := if stop = 0 ∨ size < stop then size else stop
  List.range' first (behind - first)

/-- The lines show the given bytes, of an object of this size. -/
structure Dumped (content : UInt64 → UInt8) (size : Nat) (bytes : List Nat)
    (lines : List DumpLine) : Prop where
  /-- the hexadecimal columns are the bytes, in order -/
  hex : (lines.flatMap DumpLine.hexOffsets).map UInt64.toNat = bytes
  /-- and so are the characters -/
  chars : (lines.flatMap DumpLine.charOffsets).map UInt64.toNat = bytes
  /-- both show what the object has there -/
  shown : ∀ line ∈ lines,
    (∀ gap offset value, .byte gap offset value ∈ line.hex → value = content offset) ∧
      ∀ ch ∈ line.chars, ch.shown = printable (content ch.offset)
  /-- a line is labelled by its first byte -/
  label : ∀ line ∈ lines, line.hexOffsets.head? = some line.label
  /-- all lines but the last have sixteen bytes, and that one at most as many -/
  full : ∀ line ∈ lines.dropLast, line.hexOffsets.length = 16
  short : ∀ line ∈ lines, line.hexOffsets.length ≤ 16
  /-- in the last line blanks stand for the others -/
  aligned : ∀ line ∈ lines, line.hex.length = 16
  /-- no byte at or beyond the size is read -/
  within : ∀ line ∈ lines, ∀ offset ∈ line.hexOffsets ++ line.charOffsets, offset.toNat < size

/-- A size that `urt_dump_memory` can count with: with the bookkeeping at least 16, otherwise at
most `SIZE_MAX - 16`. -/
def ProperSize (ro : RegisteredObject) : Prop :=
  if ro.hasBookkeeping then 16 ≤ ro.size.toNat else ro.size.toNat + 16 < 2 ^ 64

instance (ro : RegisteredObject) : Decidable (ProperSize ro) := @instDecidableIte _ _ _ _ _ _

theorem toNat_dumpSize {ro : RegisteredObject} (h : ProperSize ro) :
    (dumpSize ro).toNat = userSize ro ∧ userSize ro + 16 < 2 ^ 64 := by
  unfold ProperSize at h
  unfold dumpSize userSize
  have hlt : ro.size.toNat < 2 ^ 64 := UInt64.toNat_lt ro.size
  split
  · rename_i hbook
    rw [if_pos hbook] at h
    have hle : (16 : UInt64) ≤ ro.size := UInt64.le_iff_toNat_le.mpr h
    rw [UInt64.toNat_sub_of_le _ _ hle]
    exact ⟨rfl, by omega⟩
  · rename_i hbook
    rw [if_neg hbook] at h
    exact ⟨rfl, h⟩

theorem toNat_dumpStart (size start : UInt64) :
    (dumpStart size start).toNat = min start.toNat size.toNat := by
  unfold dumpStart
  split
  · rename_i h
    exact (Nat.min_eq_right (Nat.le_of_lt (UInt64.lt_iff_toNat_lt.mp h))).symm
  · rename_i h
    exact (Nat.min_eq_left (UInt64.le_iff_toNat_le.mp (UInt64.not_lt.mp h))).symm

theorem toNat_dumpEnd (size stop : UInt64) :
    (dumpEnd size stop).toNat =
      if stop.toNat = 0 ∨ size.toNat < stop.toNat then size.toNat else stop.toNat := by
  have hcond : (stop = 0 ∨ stop > size) ↔ stop.toNat = 0 ∨ size.toNat < stop.toNat := by
    rw [← UInt64.toNat_inj, gt_iff_lt, UInt64.lt_iff_toNat_lt]
    rfl
  unfold dumpEnd
  split
  · rename_i h
    rw [if_pos (hcond.mp h)]
  · rename_i h
    rw [if_neg (mt hcond.mpr h)]

theorem head?_dumpRow {i stop : UInt64} (h : i < stop) : (dumpRow i stop).head? = some i := by
  have hzero : i + .ofNat 0 = i := UInt64.add_zero i
  rw [dumpRow, List.range_succ_eq_map, List.map_cons, hzero, List.takeWhile_cons,
    if_pos (decide_eq_true h)]
  rfl

theorem dumpLines_dumped (content : UInt64 → UInt8) (size start stop : UInt64)
    (hsize : size.toNat + 16 < 2 ^ 64) :
    ∃ lines n, (∀ k, n < k →
        dumpLines content k (dumpStart size start) (dumpEnd size stop) = some lines) ∧
      Dumped content size.toNat (askedBytes size.toNat start.toNat stop.toNat) lines := by
  have hend : (dumpEnd size stop).toNat ≤ size.toNat :=
    UInt64.le_iff_toNat_le.mp (dumpEnd_le size stop)
  have hstop : (dumpEnd size stop).toNat + 16 < 2 ^ 64 := by omega
  have hn : (dumpEnd size stop).toNat ≤
      (dumpStart size start).toNat + 16 * (dumpEnd size stop).toNat := by omega
  obtain ⟨lines, hlines, hcut⟩ := dumpLines_enough content hstop hn
  have hline : ∀ line ∈ lines, ∃ j < dumpEnd size stop,
      line = dumpLine content j (dumpEnd size stop) :=
    fun line hmem => mem_dumpLines (hlines _ (Nat.lt_succ_self _)) hmem
  have hchars : ∀ line ∈ lines, line.charOffsets = line.hexOffsets := by
    intro line hmem
    obtain ⟨j, -, rfl⟩ := hline line hmem
    rw [charOffsets_dumpLine, hexOffsets_dumpLine]
  have hlength : ∀ line : DumpLine,
      (line.hexOffsets.map UInt64.toNat).length = line.hexOffsets.length :=
    fun line => List.length_map _
  have hbytes : (lines.flatMap DumpLine.hexOffsets).map UInt64.toNat =
      askedBytes size.toNat start.toNat stop.toNat := by
    rw [List.map_flatMap, List.flatMap_def, hcut.flatten, toNat_dumpStart, toNat_dumpEnd]
    rfl
  refine ⟨lines, _, hlines, ?_⟩
  constructor
  · exact hbytes
  · rw [List.flatMap_def, List.map_congr_left hchars, ← List.flatMap_def]
    exact hbytes
  · intro line hmem
    obtain ⟨j, -, rfl⟩ := hline line hmem
    exact ⟨fun gap offset value => shown_hexColumns, fun ch => shown_charColumns⟩
  · intro line hmem
    obtain ⟨j, hj, rfl⟩ := hline line hmem
    rw [hexOffsets_dumpLine]
    exact head?_dumpRow hj
  · intro line hmem
    have hrow := List.mem_map_of_mem (f := fun line => line.hexOffsets.map UInt64.toNat) hmem
    rw [List.map_dropLast] at hrow
    rw [← hlength]
    exact hcut.length_dropLast _ hrow
  · intro line hmem
    rw [← hlength]
    exact hcut.length_le _ (List.mem_map_of_mem hmem)
  · intro line hmem
    obtain ⟨j, -, rfl⟩ := hline line hmem
    exact length_hexColumns 16 0
  · intro line hmem offset hoffset
    rw [hchars line hmem, List.mem_append, or_self] at hoffset
    have hlt : offset.toNat < (dumpEnd size stop).toNat :=
      hcut.lt (List.mem_map_of_mem hmem) (List.mem_map_of_mem hoffset)
    omega

/-- **`urt_dump_memory` comes to an end, and of an object that it can attach to it prints exactly
the bytes asked for, as far as the object has them, and reads no others.** -/
theorem printMemory_dumped {w : World c} {name : CString} {i : Slot c}
    (hfind : findByName w.mem name = some i) (hsize : ProperSize (w.mem.objects i))
    (content : UInt64 → UInt8) (env : SysEnv) (busy : List Bool) (start stop : UInt64) :
    ∃ out w' n, (∀ k, n < k →
        printMemory content k env busy name start stop w = some (out, w')) ∧
      ∀ kind, Kind.ofType? (w.mem.objects i).type = some kind →
        (∀ e, (shobjAttach kind env name w).1 = .error e → out = .failedToAttach e) ∧
          ∀ obj, (shobjAttach kind env name w).1 = .ok obj → ∃ lines, out = .contents lines ∧
            Dumped content (userSize (w.mem.objects i))
              (askedBytes (userSize (w.mem.objects i)) start.toNat stop.toNat) lines := by
  obtain ⟨hnat, hroom⟩ := toNat_dumpSize hsize
  unfold printMemory
  rw [hfind]
  dsimp only
  cases Kind.ofType? (w.mem.objects i).type with
  | none =>
    refine ⟨_, _, 0, fun k _ => rfl, ?_⟩
    intro kind hkind
    cases hkind
  | some kind =>
    dsimp only
    cases hattach : shobjAttach kind env name w with
    | mk r w₁ =>
      cases r with
      | error e =>
        refine ⟨_, _, 0, fun k _ => rfl, ?_⟩
        intro kind' hkind
        cases hkind
        rw [hattach]
        refine ⟨?_, fun obj hok => by cases hok⟩
        intro e' herr
        cases herr
        rfl
      | ok obj =>
        obtain ⟨lines, n, hlines, hdumped⟩ :=
          dumpLines_dumped content (dumpSize (w.mem.objects i)) start stop (hnat ▸ hroom)
        refine ⟨.contents lines, detach busy obj w₁, n, ?_, ?_⟩
        · intro k hk
          dsimp only
          rw [hlines k hk]
          rfl
        · intro kind' hkind
          cases hkind
          rw [hattach]
          rw [hnat] at hdumped
          refine ⟨?_, fun _ _ => ⟨lines, rfl, hdumped⟩⟩
          intro e herr
          cases herr

/-- The bytes of a segment of a hundred from the ninetieth on. -/
theorem printMemory_dumped_ninety :
    ∃ lines w' n, (∀ k, n < k →
        printMemory (·.toUInt8) k SysEnv.ok [] (.ofBytes [65]) 90 0
          (shmemNew SysEnv.ok (.ofBytes [65]) 100 (World.empty .two)).2 =
            some (.contents lines, w')) ∧
      Dumped (·.toUInt8) 100 (List.range' 90 10) lines := by
  have hfind : findByName (shmemNew SysEnv.ok (.ofBytes [65]) 100 (World.empty .two)).2.mem
      (.ofBytes [65]) = some 0 := rfl
  obtain ⟨out, w', n, hout, hkinds⟩ :=
    printMemory_dumped hfind (by decide) (·.toUInt8) SysEnv.ok [] 90 0
  obtain ⟨lines, rfl, hlines⟩ := (hkinds .mem rfl).2 _ rfl
  exact ⟨lines, w', n, hout, hlines⟩

end Urt
