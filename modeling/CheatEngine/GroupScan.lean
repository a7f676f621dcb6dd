import Mathlib.Tactic

/-!
# Testing a block of memory for a group of values

A group scan looks for blocks that hold several values.  In order, the
elements of the group follow each other from the start of the block on.  Out
of order, each element is looked for in the whole block, at an offset that no
earlier element has.

The tests of strings do not distinguish upper and lower case.  They change the
letters in the buffer to upper case while they read them.
-/

namespace CheatEngine
namespace GroupScan

abbrev Memory := ℤ → UInt8

inductive VariableType
  | vtByte
  | vtWord
  | vtDWord
  | vtQWord
  | vtSingle
  | vtDouble
  | vtString
  | vtUnicodeString
  | vtCustom
deriving DecidableEq, Repr

/-- `accepts` is the comparison of a float with the range of the element, or
of the value that a custom type makes of the bytes.  The size of a wildcard can
be negative. -/
structure Element where
  wildcard : Bool
  vartype : VariableType
  valuei : ℕ
  accepts : List UInt8 → Bool
  value : List UInt8
  widevalue : List ℕ
  bytesize : ℤ
  value_le : wildcard = false → vartype = .vtString →
    value.length ≤ bytesize
  widevalue_le : wildcard = false → vartype = .vtUnicodeString →
    2 * widevalue.length ≤ bytesize

structure Group where
  elements : List Element
  blocksize : ℕ
  outoforder : Bool
  outoforder_aligned : Bool
  floatscanWithoutExponents : Bool
  wildcards : outoforder = true → ∀ element ∈ elements,
    element.wildcard = false

def bytesAt (memory : Memory) (address : ℤ) (count : ℕ) : List UInt8 :=
  (List.range count).map fun index : ℕ => memory (address + index)

def numberOf : List UInt8 → ℕ
  | [] => 0
  | byte :: rest => byte.toNat + 256 * numberOf rest

def readNumber (memory : Memory) (address : ℤ) (count : ℕ) : ℕ :=
  numberOf (bytesAt memory address count)

def upperCase (byte : UInt8) : UInt8 :=
  if 0x61 ≤ byte ∧ byte ≤ 0x7a then byte - 0x20 else byte

def raiseCase (memory : Memory) (address : ℤ) : Memory :=
  Function.update memory address (upperCase (memory address))

def testString (memory : Memory) (buf : ℤ) : List UInt8 → Memory × Bool
  | [] => (memory, true)
  | char :: ts =>
    if char ≠ raiseCase memory buf buf then (raiseCase memory buf, false)
    else testString (raiseCase memory buf) (buf + 1) ts

def testWideString (memory : Memory) (buf : ℤ) : List ℕ → Memory × Bool
  | [] => (memory, true)
  | char :: ts =>
    if char ≠ readNumber (raiseCase memory buf) buf 2 then
      (raiseCase memory buf, false)
    else testWideString (raiseCase memory buf) (buf + 2) ts

namespace Element

variable (element : Element)

def size : ℤ :=
  match element.vartype with
  | .vtByte => 1
  | .vtWord => 2
  | .vtDWord | .vtSingle => 4
  | .vtQWord | .vtDouble => 8
  | .vtString | .vtUnicodeString | .vtCustom => element.bytesize

def reads : ℕ :=
  match element.vartype with
  | .vtByte => 1
  | .vtWord => 2
  | .vtDWord | .vtSingle => 4
  | .vtQWord | .vtDouble => 8
  | .vtString => element.value.length
  | .vtUnicodeString => 2 * element.widevalue.length
  | .vtCustom => element.bytesize.toNat

def compare (memory : Memory) (newvalue : ℤ) : Memory × Bool :=
  match element.vartype with
  | .vtByte => (memory, element.wildcard ||
      readNumber memory newvalue 1 == element.valuei % 2 ^ 8)
  | .vtWord => (memory, element.wildcard ||
      readNumber memory newvalue 2 == element.valuei % 2 ^ 16)
  | .vtDWord => (memory, element.wildcard ||
      readNumber memory newvalue 4 == element.valuei % 2 ^ 32)
  | .vtQWord => (memory, element.wildcard ||
      readNumber memory newvalue 8 == element.valuei % 2 ^ 64)
  | .vtSingle => (memory, element.wildcard ||
      element.accepts (bytesAt memory newvalue 4))
  | .vtDouble => (memory, element.wildcard ||
      element.accepts (bytesAt memory newvalue 8))
  | .vtString =>
    if element.wildcard then (memory, true)
    else testString memory newvalue element.value
  | .vtUnicodeString =>
    if element.wildcard then (memory, true)
    else testWideString memory newvalue element.widevalue
  | .vtCustom => (memory, element.wildcard ||
      element.accepts (bytesAt memory newvalue element.bytesize.toNat))

end Element

def compareFrom : List Element → Memory → ℤ → Memory × Bool
  | [], memory, _ => (memory, true)
  | element :: rest, memory, newvalue =>
    match element.compare memory newvalue with
    | (after, false) => (after, false)
    | (after, true) => compareFrom rest after (newvalue + element.size)

/-- The loop of the scan functions over the offsets of the block: `test` at
`i`, `i+align`, ... below `bound`. -/
def scan (test : Memory → ℕ → Memory × Bool) (bound align : ℕ) :
    ℕ → Memory → ℕ → Memory × Option ℕ
  | 0, memory, _ => (memory, none)
  | fuel + 1, memory, i =>
    if i < bound then
      match test memory i with
      | (after, true) => (after, some i)
      | (after, false) => scan test bound align fuel after (i + align)
    else
      (memory, none)

namespace Group

variable (group : Group)

def compareblock (memory : Memory) (newvalue : ℤ) : Memory × Bool :=
  compareFrom group.elements memory newvalue

def align (size : ℕ) : ℕ :=
  if group.outoforder_aligned then size else 1

def alignOffset (size currentoffset : ℕ) : ℕ :=
  if group.outoforder_aligned then (currentoffset + (size - 1)) / size * size
  else currentoffset

def farSingle (bytes : List UInt8) : Bool :=
  group.floatscanWithoutExponents &&
    decide (0 < numberOf bytes ∧
      10 < |(127 : ℤ) - (numberOf bytes / 2 ^ 23 % 2 ^ 8 : ℕ)|)

def farDouble (bytes : List UInt8) : Bool :=
  group.floatscanWithoutExponents &&
    decide (0 < numberOf bytes ∧
      10 < |(1023 : ℤ) - (numberOf bytes / 2 ^ 52 % 2 ^ 11 : ℕ)|)

section

variable (element : Element) (memory : Memory) (buf : ℤ) (startoffset : ℕ)

def valueScan (accepts : List UInt8 → Bool) (count bound align : ℕ) :
    Memory × Option ℕ :=
  scan (fun memory i => (memory, accepts (bytesAt memory (buf + i) count)))
    bound align (group.blocksize + 1) memory startoffset

def ByteScan : Memory × Option ℕ :=
  group.valueScan memory buf startoffset
    (fun bytes => numberOf bytes == element.valuei % 2 ^ 8) 1
    group.blocksize 1

def WordScan : Memory × Option ℕ :=
  group.valueScan memory buf startoffset
    (fun bytes => numberOf bytes == element.valuei % 2 ^ 16) 2
    (group.blocksize - 1) (group.align 2)

def DWordScan : Memory × Option ℕ :=
  group.valueScan memory buf startoffset
    (fun bytes => numberOf bytes == element.valuei % 2 ^ 32) 4
    (group.blocksize - 3) (group.align 4)

def QWordScan : Memory × Option ℕ :=
  group.valueScan memory buf startoffset
    (fun bytes => numberOf bytes == element.valuei % 2 ^ 64) 8
    (group.blocksize - 7) (group.align 4)

def SingleScan : Memory × Option ℕ :=
  group.valueScan memory buf startoffset
    (fun bytes => element.accepts bytes && !group.farSingle bytes) 4
    (group.blocksize - 3) (group.align 4)

def DoubleScan : Memory × Option ℕ :=
  group.valueScan memory buf startoffset
    (fun bytes => element.accepts bytes && !group.farDouble bytes) 8
    (group.blocksize - 7) (group.align 4)

def CustomScan : Memory × Option ℕ :=
  group.valueScan memory buf startoffset element.accepts
    element.bytesize.toNat (group.blocksize - element.bytesize - 1).toNat
    (group.align 4)

def StringScan : Memory × Option ℕ :=
  scan (fun memory i => testString memory (buf + i) element.value)
    group.blocksize 1 (group.blocksize + 1) memory startoffset

def WideStringScan : Memory × Option ℕ :=
  scan (fun memory i => testWideString memory (buf + i) element.widevalue)
    group.blocksize 1 (group.blocksize + 1) memory startoffset

def nextOffset : Memory × Option ℕ :=
  match element.vartype with
  | .vtByte => group.ByteScan element memory buf startoffset
  | .vtWord => group.WordScan element memory buf
      (group.alignOffset 2 startoffset)
  | .vtDWord => group.DWordScan element memory buf
      (group.alignOffset 4 startoffset)
  | .vtQWord => group.QWordScan element memory buf
      (group.alignOffset 4 startoffset)
  | .vtSingle => group.SingleScan element memory buf
      (group.alignOffset 4 startoffset)
  | .vtDouble => group.DoubleScan element memory buf
      (group.alignOffset 4 startoffset)
  | .vtString => group.StringScan element memory buf startoffset
  | .vtUnicodeString => group.WideStringScan element memory buf startoffset
  | .vtCustom => group.CustomScan element memory buf
      (group.alignOffset 4 startoffset)

end

/-- The loop that goes on while the offset is in the list of the offsets of
the earlier elements. -/
def freeOffset (element : Element) (buf : ℤ) (taken : List ℕ) :
    ℕ → Memory → ℕ → Memory × Option ℕ
  | 0, memory, _ => (memory, none)
  | fuel + 1, memory, currentoffset =>
    match group.nextOffset element memory buf currentoffset with
    | (after, none) => (after, none)
    | (after, some offset) =>
      if offset ∈ taken then
        freeOffset element buf taken fuel after (offset + 1)
      else
        (after, some offset)

/-- The offsets of the elements from one on, after those that are taken. -/
def placeFrom (buf : ℤ) : List Element → List ℕ → Memory →
    Memory × List ℕ × Bool
  | [], taken, memory => (memory, taken, true)
  | element :: rest, taken, memory =>
    match group.freeOffset element buf taken (group.blocksize + 1) memory 0
      with
    | (after, none) => (after, taken, false)
    | (after, some offset) => placeFrom buf rest (taken ++ [offset]) after

def compareblock_outoforder (memory : Memory) (newvalue : ℤ) :
    Memory × List ℕ × Bool :=
  match group.placeFrom newvalue group.elements [] memory with
  | (after, offsets, result) =>
    (after, offsets, result && (!group.outoforder || offsets.contains 0))

def CheckRoutine (memory : Memory) (newvalue : ℤ) : Memory × Bool :=
  if group.outoforder then
    let result := group.compareblock_outoforder memory newvalue
    (result.1, result.2.2)
  else
    group.compareblock memory newvalue

end Group

/-! ## What the tests do to the buffer -/

theorem upperCase_upperCase (byte : UInt8) :
    upperCase (upperCase byte) = upperCase byte := by
  unfold upperCase
  split
  · rename_i hletter
    obtain ⟨hlow, hhigh⟩ := hletter
    have hspace : (0x20 : UInt8) ≤ byte :=
      UInt8.le_trans (by decide : (0x20 : UInt8) ≤ 0x61) hlow
    have hsub : (byte - 0x20).toNat = byte.toNat - 0x20 :=
      UInt8.toNat_sub_of_le _ _ hspace
    rw [if_neg]
    rintro ⟨hagain, -⟩
    rw [UInt8.le_iff_toNat_le] at hagain hhigh
    rw [hsub] at hagain
    change 0x61 ≤ byte.toNat - 0x20 at hagain
    change byte.toNat ≤ 0x7a at hhigh
    omega
  · rfl

def Raised (memory after : Memory) : Prop :=
  ∀ address, after address = memory address ∨
    after address = upperCase (memory address)

namespace Raised

variable {memory after last : Memory}

theorem refl (memory : Memory) : Raised memory memory :=
  fun _ => .inl rfl

theorem trans (hfirst : Raised memory after) (hsecond : Raised after last) :
    Raised memory last := by
  intro address
  rcases hsecond address with hsame | hraised
  · rw [hsame]
    exact hfirst address
  · rcases hfirst address with hsame' | hraised'
    · rw [hraised, hsame']
      exact .inr rfl
    · rw [hraised, hraised', upperCase_upperCase]
      exact .inr rfl

theorem upperCase_eq (hraised : Raised memory after) (address : ℤ) :
    upperCase (after address) = upperCase (memory address) := by
  rcases hraised address with hsame | hupper
  · rw [hsame]
  · rw [hupper, upperCase_upperCase]

theorem eq_of_upperCase_eq (hraised : Raised memory after) {address : ℤ}
    (hupper : upperCase (memory address) = memory address) :
    after address = memory address := by
  rcases hraised address with hsame | hchanged
  · exact hsame
  · rw [hchanged, hupper]

end Raised

variable (memory : Memory) (address buf : ℤ) (index : ℕ)

theorem raiseCase_self :
    raiseCase memory address address = upperCase (memory address) :=
  Function.update_self ..

theorem raiseCase_of_ne {memory : Memory} {address other : ℤ}
    (hne : other ≠ address) : raiseCase memory address other = memory other :=
  Function.update_of_ne hne ..

theorem raiseCase_next :
    raiseCase memory buf (buf + 1 + index) =
      memory (buf + (index + 1 : ℕ)) := by
  rw [raiseCase_of_ne (by omega)]
  push_cast
  ring_nf

theorem raiseCase_nextWide :
    raiseCase memory buf (buf + 2 + 2 * index) =
      memory (buf + 2 * (index + 1 : ℕ)) := by
  rw [raiseCase_of_ne (by omega)]
  push_cast
  ring_nf

theorem raiseCase_nextHigh :
    raiseCase memory buf (buf + 2 + 2 * index + 1) =
      memory (buf + 2 * (index + 1 : ℕ) + 1) := by
  rw [raiseCase_of_ne (by omega)]
  push_cast
  ring_nf

theorem raised_raiseCase : Raised memory (raiseCase memory address) := by
  intro other
  by_cases heq : other = address
  · rw [heq, raiseCase_self]
    exact .inr rfl
  · rw [raiseCase_of_ne heq]
    exact .inl rfl

theorem testString_raised (ts : List UInt8) :
    Raised memory (testString memory buf ts).1 := by
  induction ts generalizing memory buf with
  | nil => exact Raised.refl memory
  | cons char ts ih =>
    rw [testString]
    split
    · exact raised_raiseCase memory buf
    · exact (raised_raiseCase memory buf).trans (ih _ _)

theorem testString_iff {memory : Memory} {buf : ℤ} {ts : List UInt8} :
    (testString memory buf ts).2 = true ↔
      ∀ index : ℕ, ∀ hindex : index < ts.length,
        upperCase (memory (buf + index)) = ts[index] := by
  induction ts generalizing memory buf with
  | nil => simp [testString]
  | cons char ts ih =>
    rw [testString, raiseCase_self]
    constructor
    · intro hmatch index hindex
      split at hmatch
      · cases hmatch
      · rename_i heq
        cases index with
        | zero => simpa using (not_not.mp heq).symm
        | succ index =>
          rw [← raiseCase_next memory buf index]
          exact ih.mp hmatch index (Nat.lt_of_succ_lt_succ hindex)
    · intro hall
      have hfirst : upperCase (memory buf) = char := by
        simpa using hall 0 (Nat.succ_pos _)
      rw [if_neg (not_not.mpr hfirst.symm)]
      refine ih.mpr fun index hindex => ?_
      rw [raiseCase_next]
      exact hall (index + 1) (Nat.succ_lt_succ hindex)

theorem readNumber_two :
    readNumber memory address 2 =
      (memory address).toNat + 256 * (memory (address + 1)).toNat := by
  simp [readNumber, bytesAt, numberOf, List.range_succ]

theorem testWideString_raised (ts : List ℕ) :
    Raised memory (testWideString memory buf ts).1 := by
  induction ts generalizing memory buf with
  | nil => exact Raised.refl memory
  | cons char ts ih =>
    rw [testWideString]
    split
    · exact raised_raiseCase memory buf
    · exact (raised_raiseCase memory buf).trans (ih _ _)

/-- The upper case letter in the low byte and the high byte as it is. -/
def wideChar (memory : Memory) (address : ℤ) : ℕ :=
  (upperCase (memory address)).toNat + 256 * (memory (address + 1)).toNat

theorem readNumber_raiseCase :
    readNumber (raiseCase memory buf) buf 2 = wideChar memory buf := by
  have hne : buf + 1 ≠ buf := by omega
  rw [readNumber_two, raiseCase_self, raiseCase_of_ne hne, wideChar]

theorem testWideString_iff {memory : Memory} {buf : ℤ} {ts : List ℕ} :
    (testWideString memory buf ts).2 = true ↔
      ∀ index : ℕ, ∀ hindex : index < ts.length,
        wideChar memory (buf + 2 * index) = ts[index] := by
  induction ts generalizing memory buf with
  | nil => simp [testWideString]
  | cons char ts ih =>
    have hlater : ∀ index : ℕ, wideChar (raiseCase memory buf)
        (buf + 2 + 2 * index) =
          wideChar memory (buf + 2 * (index + 1 : ℕ)) := by
      intro index
      unfold wideChar
      rw [raiseCase_nextWide, raiseCase_nextHigh]
    rw [testWideString, readNumber_raiseCase]
    constructor
    · intro hmatch index hindex
      split at hmatch
      · cases hmatch
      · rename_i heq
        cases index with
        | zero => simpa using (not_not.mp heq).symm
        | succ index =>
          rw [← hlater]
          exact ih.mp hmatch index (Nat.lt_of_succ_lt_succ hindex)
    · intro hall
      have hfirst : wideChar memory buf = char := by
        simpa using hall 0 (Nat.succ_pos _)
      rw [if_neg (not_not.mpr hfirst.symm)]
      refine ih.mpr fun index hindex => ?_
      rw [hlater]
      exact hall (index + 1) (Nat.succ_lt_succ hindex)

theorem Element.compare_raised (element : Element) (memory : Memory)
    (newvalue : ℤ) : Raised memory (element.compare memory newvalue).1 := by
  unfold compare
  split
  case h_7 =>
    split
    · exact Raised.refl memory
    · exact testString_raised memory newvalue _
  case h_8 =>
    split
    · exact Raised.refl memory
    · exact testWideString_raised memory newvalue _
  all_goals exact Raised.refl memory

theorem compareFrom_raised (elements : List Element) (memory : Memory)
    (newvalue : ℤ) :
    Raised memory (compareFrom elements memory newvalue).1 := by
  induction elements generalizing memory newvalue with
  | nil => exact Raised.refl memory
  | cons element rest ih =>
    have hfirst := element.compare_raised memory newvalue
    rw [compareFrom]
    split
    · rename_i hresult
      rw [hresult] at hfirst
      exact hfirst
    · rename_i hresult
      rw [hresult] at hfirst
      exact hfirst.trans (ih _ _)

theorem scan_raised {test : Memory → ℕ → Memory × Bool}
    (htest : ∀ memory i, Raised memory (test memory i).1)
    (bound align fuel : ℕ) (memory : Memory) (i : ℕ) :
    Raised memory (scan test bound align fuel memory i).1 := by
  induction fuel generalizing memory i with
  | zero => exact Raised.refl memory
  | succ fuel ih =>
    have hfirst := htest memory i
    rw [scan]
    split
    · split
      · rename_i hresult
        rw [hresult] at hfirst
        exact hfirst
      · rename_i hresult
        rw [hresult] at hfirst
        exact hfirst.trans (ih _ _)
    · exact Raised.refl memory

namespace Group

variable (group : Group) (element : Element) (memory : Memory) (buf : ℤ)

theorem valueScan_raised (startoffset : ℕ) (accepts : List UInt8 → Bool)
    (count bound align : ℕ) :
    Raised memory (group.valueScan memory buf startoffset accepts count bound
      align).1 :=
  scan_raised (fun memory _ => Raised.refl memory) _ _ _ _ _

theorem nextOffset_raised (startoffset : ℕ) :
    Raised memory (group.nextOffset element memory buf startoffset).1 := by
  unfold nextOffset
  split
  case h_7 => exact scan_raised (fun _ _ => testString_raised _ _ _) _ _ _ _ _
  case h_8 =>
    exact scan_raised (fun _ _ => testWideString_raised _ _ _) _ _ _ _ _
  all_goals exact group.valueScan_raised _ _ _ _ _ _ _

theorem freeOffset_raised (taken : List ℕ) (fuel currentoffset : ℕ) :
    Raised memory (group.freeOffset element buf taken fuel memory
      currentoffset).1 := by
  induction fuel generalizing memory currentoffset with
  | zero => exact Raised.refl memory
  | succ fuel ih =>
    have hfirst := group.nextOffset_raised element memory buf currentoffset
    rw [freeOffset]
    split
    · rename_i hresult
      rw [hresult] at hfirst
      exact hfirst
    · rename_i hresult
      rw [hresult] at hfirst
      split
      · exact hfirst.trans (ih _ _)
      · exact hfirst

theorem placeFrom_raised (elements : List Element) (taken : List ℕ) :
    Raised memory (group.placeFrom buf elements taken memory).1 := by
  induction elements generalizing taken memory with
  | nil => exact Raised.refl memory
  | cons element rest ih =>
    have hfirst := group.freeOffset_raised element memory buf taken
      (group.blocksize + 1) 0
    rw [placeFrom]
    split
    · rename_i hresult
      rw [hresult] at hfirst
      exact hfirst
    · rename_i hresult
      rw [hresult] at hfirst
      exact hfirst.trans (ih _ _)

theorem CheckRoutine_raised :
    Raised memory (group.CheckRoutine memory buf).1 := by
  unfold CheckRoutine
  split
  · exact group.placeFrom_raised memory buf _ _
  · exact compareFrom_raised _ _ _

end Group

end GroupScan
end CheatEngine
