import CheatEngine.BitField

/-!
# Binary scans

A binary scan looks for a row of bits that may start at any bit of a byte.
The pattern is a text of the digits 0 and 1 and the wildcards ? and *, the
first character for the highest bit; blanks are skipped.  `BinaryExact` loads
eight bytes once and shifts them for each of the eight start bits.
-/

namespace CheatEngine
namespace MemScanBinary

open List BitField

def isWildcard (char : Char) : Bool :=
  char = '?' || char = '*'

def isDigit (char : Char) : Bool :=
  char = '0' || char = '1' || isWildcard char

def isBlank (char : Char) : Bool :=
  char = ' ' || char = '\x08'

def invalidCharacter (char : Char) : String :=
  String.singleton char ++ " is not a valid character inside a binary string"

def invalidBinaryNotation : String := "Invalid binary notation"

def countDigits : List Char → ℕ → Except String ℕ
  | [], result => .ok result
  | char :: rest, result =>
    if isDigit char then
      countDigits rest (result + 1)
    else if isBlank char then
      countDigits rest result
    else
      .error (invalidCharacter char)

def byteCount (digits : ℕ) : ℕ :=
  if digits > 1 then
    if digits % 8 = 0 then 1 + digits / 8 else 2 + digits / 8
  else
    digits

def getBytecountBinaryString (st : List Char) : Except String ℕ := do
  let result ← countDigits st 0
  if result = 0 then
    .error invalidBinaryNotation
  else
    .ok (byteCount result)

def configureMasks (binarystring : List Char) :
    List Char → List Char × List Char → Except String (List Char × List Char)
  | [], masks => .ok masks
  | char :: rest, (andmask, bitmask) =>
    if isWildcard char then
      configureMasks binarystring rest (andmask ++ ['0'], bitmask ++ ['0'])
    else if char = '0' || char = '1' then
      configureMasks binarystring rest (andmask ++ ['1'], bitmask ++ [char])
    else if isBlank char then
      configureMasks binarystring rest (andmask, bitmask)
    else
      .error (String.ofList binarystring ++ " is an invalid notation")

/-- The loop of `BinToInt`, from the last character on. -/
def sumDigits : ℕ → List Char → ℕ
  | _, [] => 0
  | exponent, char :: rest =>
    (if char = '1' then 2 ^ exponent else 0) + sumDigits (exponent + 1) rest

def BinToInt (s : List Char) : BitVec 64 :=
  BitVec.ofNat 64 (sumDigits 0 s.reverse)

structure Scanner where
  variablesize : ℕ
  andmask : BitVec 64
  bitmask : BitVec 64
deriving DecidableEq, Repr

def configurescanroutine (binarystring : List Char) :
    Except String Scanner := do
  let variablesize ← getBytecountBinaryString binarystring
  let masks ← configureMasks binarystring binarystring ([], [])
  return {
    variablesize
    andmask := BinToInt masks.1
    bitmask := BinToInt masks.2 }

namespace Scanner

variable (scanner : Scanner)

def binaryExact (newvalue : Buffer) (i : ℕ) : Bool :=
  (load 8 newvalue 0 >>> i) &&& scanner.andmask = scanner.bitmask

def binarySaveResult (newvalue : Buffer) (address : ℕ) : List (ℕ × ℕ) :=
  ((List.range 8).filter (scanner.binaryExact newvalue)).map
    fun i => (address, i)

/-- The scan buffer at an address: `variablesize` bytes of the memory, and
whatever lies behind them. -/
def newvalue (memory : Buffer) (address : ℕ) (behind : Buffer) : Buffer :=
  fun k => if k < scanner.variablesize then memory (address + k) else behind k

def scan (memory : Buffer) (address : ℕ) (behind : Buffer) : List (ℕ × ℕ) :=
  scanner.binarySaveResult (scanner.newvalue memory address behind) address

end Scanner

structure Pattern where
  text : List Char
  valid : ∀ char ∈ text, isDigit char = true ∨ isBlank char = true
  digits_pos : 0 < (text.filter isDigit).length
  digits_le : (text.filter isDigit).length ≤ 64

namespace Pattern

variable (pattern : Pattern)

def digits : List Char :=
  pattern.text.filter isDigit

def digitAt (position : ℕ) : Option Char :=
  pattern.digits.reverse[position]?

def IsFixed (position : ℕ) : Prop :=
  pattern.digitAt position = some '0' ∨ pattern.digitAt position = some '1'

def Matches (memory : Buffer) (address i : ℕ) : Prop :=
  ∀ position, pattern.IsFixed position →
    (bitAt memory (8 * address + i + position) = true ↔
      pattern.digitAt position = some '1')

def ScansExactly : Prop :=
  ∃ scanner, configurescanroutine pattern.text = .ok scanner ∧
    ∀ memory behind address i,
      (address, i) ∈ scanner.scan memory address behind ↔
        i ≤ 7 ∧ pattern.Matches memory address i

end Pattern

/-! ## The masks -/

theorem countDigits_valid {st : List Char}
    (hvalid : ∀ char ∈ st, isDigit char = true ∨ isBlank char = true)
    (result : ℕ) :
    countDigits st result = .ok (result + (st.filter isDigit).length) := by
  induction st generalizing result with
  | nil => rfl
  | cons char rest ih =>
    have hrest := fun other hother =>
      hvalid other (mem_cons_of_mem char hother)
    by_cases hdigit : isDigit char = true
    · rw [countDigits, if_pos hdigit, ih hrest, filter_cons_of_pos hdigit,
        length_cons]
      congr 1
      omega
    · have hblank := (hvalid char mem_cons_self).resolve_left hdigit
      rw [countDigits, if_neg hdigit, if_pos hblank, ih hrest,
        filter_cons_of_neg hdigit]

def andDigit (char : Char) : Char :=
  if isWildcard char then '0' else '1'

def bitDigit (char : Char) : Char :=
  if isWildcard char then '0' else char

theorem configureMasks_valid (binarystring : List Char) {st : List Char}
    (hvalid : ∀ char ∈ st, isDigit char = true ∨ isBlank char = true)
    (andmask bitmask : List Char) :
    configureMasks binarystring st (andmask, bitmask) =
      .ok (andmask ++ (st.filter isDigit).map andDigit,
        bitmask ++ (st.filter isDigit).map bitDigit) := by
  induction st generalizing andmask bitmask with
  | nil => simp [configureMasks]
  | cons char rest ih =>
    have hrest := fun other hother =>
      hvalid other (mem_cons_of_mem char hother)
    by_cases hwild : isWildcard char = true
    · have hdigit : isDigit char = true := by simp [isDigit, hwild]
      simp [configureMasks, hwild, ih hrest, hdigit, andDigit, bitDigit]
    · by_cases hfixed : (char = '0' || char = '1') = true
      · have hdigit : isDigit char = true := by
          rw [isDigit, hfixed, Bool.true_or]
        rw [configureMasks, if_neg hwild, if_pos hfixed, ih hrest,
          filter_cons_of_pos hdigit]
        simp [andDigit, bitDigit, hwild]
      · have hdigit : ¬ isDigit char = true := by
          rw [isDigit, Bool.or_eq_true, not_or]
          exact ⟨hfixed, hwild⟩
        have hblank := (hvalid char mem_cons_self).resolve_left hdigit
        rw [configureMasks, if_neg hwild, if_neg hfixed, if_pos hblank,
          ih hrest, filter_cons_of_neg hdigit]

theorem sumDigits_eq (exponent : ℕ) (chars : List Char) :
    sumDigits exponent chars = 2 ^ exponent * sumDigits 0 chars := by
  induction chars generalizing exponent with
  | nil => rfl
  | cons char rest ih =>
    rw [sumDigits, sumDigits, ih (exponent + 1), ih (0 + 1), Nat.pow_succ]
    split <;> ring

theorem testBit_sumDigits (chars : List Char) (position : ℕ) :
    (sumDigits 0 chars).testBit position =
      decide (chars[position]? = some '1') := by
  induction chars generalizing position with
  | nil => simp [sumDigits]
  | cons char rest ih =>
    rw [sumDigits, sumDigits_eq]
    cases position with
    | zero =>
      rw [Nat.testBit_zero]
      by_cases hone : char = '1' <;> simp [hone, Nat.add_mod]
    | succ position =>
      rw [Nat.testBit_succ, getElem?_cons_succ, ← ih]
      congr 1
      split <;> omega

theorem getLsbD_BinToInt (s : List Char) (position : ℕ) :
    (BinToInt s).getLsbD position =
      (decide (position < 64) &&
        decide (s.reverse[position]? = some '1')) := by
  rw [BinToInt, BitVec.getLsbD_ofNat, testBit_sumDigits]

namespace Pattern

variable {pattern : Pattern}

def scanner (pattern : Pattern) : Scanner where
  variablesize := byteCount pattern.digits.length
  andmask := BinToInt (pattern.digits.map andDigit)
  bitmask := BinToInt (pattern.digits.map bitDigit)

theorem configure_eq (pattern : Pattern) :
    configurescanroutine pattern.text = .ok pattern.scanner := by
  have hpos : (pattern.text.filter isDigit).length ≠ 0 :=
    Nat.ne_of_gt pattern.digits_pos
  have hcount := countDigits_valid pattern.valid 0
  have hmasks := configureMasks_valid pattern.text pattern.valid [] []
  rw [Nat.zero_add] at hcount
  unfold configurescanroutine getBytecountBinaryString
  rw [hcount, hmasks]
  simp only [bind, Except.bind, pure, Except.pure, nil_append]
  rw [if_neg hpos]
  rfl

variable {position : ℕ}

theorem digitAt_lt {char : Char}
    (hdigit : pattern.digitAt position = some char) :
    position < pattern.digits.length := by
  have hlt := (List.getElem?_eq_some_iff.mp hdigit).1
  rwa [length_reverse] at hlt

theorem isFixed_lt (hfixed : pattern.IsFixed position) :
    position < pattern.digits.length := by
  rcases hfixed with hzero | hone
  · exact digitAt_lt hzero
  · exact digitAt_lt hone

theorem isDigit_of_digitAt {char : Char}
    (hdigit : pattern.digitAt position = some char) : isDigit char = true := by
  have hmem := mem_of_getElem? hdigit
  rw [mem_reverse] at hmem
  exact (mem_filter.mp hmem).2

theorem getLsbD_map (change : Char → Char) (position : ℕ) :
    (BinToInt (pattern.digits.map change)).getLsbD position = true ↔
      ∃ char, pattern.digitAt position = some char ∧ change char = '1' := by
  rw [getLsbD_BinToInt, ← map_reverse, getElem?_map]
  simp only [Bool.and_eq_true, decide_eq_true_eq, Option.map_eq_some_iff]
  constructor
  · exact fun hboth => hboth.2
  · intro hchar
    obtain ⟨char, hdigit, -⟩ := id hchar
    exact ⟨lt_of_lt_of_le (digitAt_lt hdigit) pattern.digits_le, hchar⟩

theorem getLsbD_andmask (position : ℕ) :
    pattern.scanner.andmask.getLsbD position = true ↔
      pattern.IsFixed position := by
  rw [scanner, getLsbD_map]
  constructor
  · rintro ⟨char, hdigit, hand⟩
    have hwild : ¬ isWildcard char = true := by
      intro hwild
      rw [andDigit, if_pos hwild] at hand
      exact absurd hand (by decide)
    have hkind := isDigit_of_digitAt hdigit
    simp only [isDigit, hwild, Bool.or_false, Bool.or_eq_true,
      decide_eq_true_eq] at hkind
    rcases hkind with rfl | rfl
    · exact Or.inl hdigit
    · exact Or.inr hdigit
  · rintro (hzero | hone)
    · exact ⟨_, hzero, by decide⟩
    · exact ⟨_, hone, by decide⟩

theorem getLsbD_bitmask (position : ℕ) :
    pattern.scanner.bitmask.getLsbD position = true ↔
      pattern.digitAt position = some '1' := by
  rw [scanner, getLsbD_map]
  constructor
  · rintro ⟨char, hdigit, hbit⟩
    unfold bitDigit at hbit
    split at hbit
    · exact absurd hbit (by decide)
    · rwa [hbit] at hdigit
  · intro hone
    exact ⟨'1', hone, by decide⟩

/-- The shifted window is compared at the digits that are not wildcards; the
bits that are shifted in are 0. -/
theorem binaryExact_iff (newvalue : Buffer) (i : ℕ) :
    pattern.scanner.binaryExact newvalue i = true ↔
      ∀ position, pattern.IsFixed position →
        ((i + position < 64 ∧ bitAt newvalue (i + position) = true) ↔
          pattern.digitAt position = some '1') := by
  have hbit : ∀ position,
      (load 8 newvalue 0 >>> i &&& pattern.scanner.andmask).getLsbD
          position = true ↔
        (i + position < 64 ∧ bitAt newvalue (i + position) = true) ∧
          pattern.IsFixed position := by
    intro position
    rw [BitVec.getLsbD_and, BitVec.getLsbD_ushiftRight, getLsbD_load,
      Bool.and_eq_true, Bool.and_eq_true, decide_eq_true_eq,
      getLsbD_andmask, Nat.mul_zero, Nat.zero_add]
  rw [Scanner.binaryExact, decide_eq_true_eq]
  constructor
  · intro heq position hfixed
    rw [← getLsbD_bitmask, ← heq, hbit]
    exact ⟨fun hset => ⟨hset, hfixed⟩, fun hboth => hboth.1⟩
  · intro hall
    apply BitVec.eq_of_getLsbD_eq
    intro position _
    rw [Bool.eq_iff_iff, hbit, getLsbD_bitmask]
    constructor
    · rintro ⟨hset, hfixed⟩
      exact (hall position hfixed).mp hset
    · intro hone
      have hfixed : pattern.IsFixed position := Or.inr hone
      exact ⟨(hall position hfixed).mpr hone, hfixed⟩

theorem reach_lt_byteCount {digits i : ℕ} (hi : i ≤ 7)
    (hposition : position < digits) :
    (i + position) / 8 < byteCount digits := by
  unfold byteCount
  split
  · split <;> omega
  · omega

theorem mem_scan_iff (memory behind : Buffer) (address i : ℕ) :
    (address, i) ∈ pattern.scanner.scan memory address behind ↔
      i ≤ 7 ∧ ∀ position, pattern.IsFixed position →
        ((i + position < 64 ∧
            bitAt memory (8 * address + i + position) = true) ↔
          pattern.digitAt position = some '1') := by
  have hmem : (address, i) ∈ pattern.scanner.scan memory address behind ↔
      i ≤ 7 ∧ pattern.scanner.binaryExact
        (pattern.scanner.newvalue memory address behind) i = true := by
    simp [Scanner.scan, Scanner.binarySaveResult, Nat.lt_succ_iff]
  rw [hmem, binaryExact_iff]
  refine and_congr_right fun hi => forall_congr' fun position =>
    imp_congr_right fun hfixed => ?_
  have hreach := reach_lt_byteCount hi (isFixed_lt hfixed)
  have hnewvalue : bitAt (pattern.scanner.newvalue memory address behind)
      (i + position) = bitAt memory (8 * address + i + position) := by
    have hbyte : (8 * address + i + position) / 8 =
        address + (i + position) / 8 := by
      omega
    have hbit : (8 * address + i + position) % 8 = (i + position) % 8 := by
      omega
    have hread : pattern.scanner.newvalue memory address behind
        ((i + position) / 8) = memory (address + (i + position) / 8) :=
      if_pos hreach
    rw [bitAt, bitAt, hbyte, hbit, hread]
  rw [hnewvalue]

end Pattern

def ofBits (bits : ℕ → Bool) : Buffer := fun k =>
  UInt8.ofBitVec
    ((BitVec.ofBoolListLE ((List.range 8).map fun t => bits (8 * k + t))).cast
      (by simp))

theorem bitAt_ofBits (bits : ℕ → Bool) (position : ℕ) :
    bitAt (ofBits bits) position = bits position := by
  have hlt : position % 8 < 8 := Nat.mod_lt _ (by norm_num)
  have hposition : 8 * (position / 8) + position % 8 = position :=
    Nat.div_add_mod position 8
  have hbit : ((List.range 8).map fun t =>
      bits (8 * (position / 8) + t))[position % 8]? = some (bits position) := by
    rw [getElem?_map, getElem?_range hlt, Option.map_some, hposition]
  rw [bitAt, ofBits]
  simp only [BitVec.getLsbD_cast, BitVec.getLsbD_ofBoolListLE]
  rw [getD_eq_getElem?_getD, hbit, Option.getD_some]

namespace Pattern

variable (pattern : Pattern)

def FitsWindow : Prop :=
  ∀ position, 57 ≤ position → ¬ pattern.IsFixed position

variable {pattern}

def matchingBits (pattern : Pattern) (position : ℕ) : Bool :=
  pattern.digitAt (position - 7) = some '1'

theorem matchingBits_add (position : ℕ) :
    pattern.matchingBits (7 + position) = true ↔
      pattern.digitAt position = some '1' := by
  rw [matchingBits, Nat.add_sub_cancel_left, decide_eq_true_eq]

theorem digitAt_ne_one (hexact : pattern.ScansExactly) {position : ℕ}
    (hposition : 57 ≤ position) : pattern.digitAt position ≠ some '1' := by
  intro hone
  obtain ⟨scanner, hscanner, hscan⟩ := hexact
  cases hscanner.symm.trans pattern.configure_eq
  have hreported := (hscan (ofBits pattern.matchingBits) (fun _ => 0) 0 7).mpr
    ⟨le_refl 7, fun other _ => by
      rw [bitAt_ofBits, Nat.mul_zero, Nat.zero_add, matchingBits_add]⟩
  have hwindow := ((mem_scan_iff _ _ _ _).mp hreported).2 position
    (Or.inr hone)
  have hinside := (hwindow.mpr hone).1
  omega

theorem digitAt_ne_zero (hexact : pattern.ScansExactly) {position : ℕ}
    (hposition : 57 ≤ position) : pattern.digitAt position ≠ some '0' := by
  intro hzero
  have hone := fun other hother => @digitAt_ne_one pattern hexact other hother
  obtain ⟨scanner, hscanner, hscan⟩ := hexact
  cases hscanner.symm.trans pattern.configure_eq
  have hreported : (0, 7) ∈ pattern.scanner.scan
      (ofBits fun bit => pattern.matchingBits bit || bit = 7 + position) 0
      fun _ => 0 := by
    rw [mem_scan_iff]
    refine ⟨le_refl 7, fun other hfixed => ?_⟩
    rw [bitAt_ofBits, Nat.mul_zero, Nat.zero_add, Bool.or_eq_true,
      matchingBits_add, decide_eq_true_eq]
    by_cases hlow : other < 57
    · have hinside : 7 + other < 64 := by omega
      have hne : ¬ 7 + other = 7 + position := by omega
      simp only [hinside, hne, or_false, true_and]
    · have hout : ¬ 7 + other < 64 := by omega
      simp only [hout, false_and, false_iff]
      exact hone other (not_lt.mp hlow)
  have hmatches := ((hscan _ _ 0 7).mp hreported).2 position (Or.inl hzero)
  rw [bitAt_ofBits, Nat.mul_zero, Nat.zero_add, Bool.or_eq_true,
    decide_eq_true_eq, hzero] at hmatches
  exact absurd (hmatches.mp (Or.inr rfl)) (by decide)

theorem fitsWindow_of_scansExactly (hexact : pattern.ScansExactly) :
    pattern.FitsWindow := by
  intro position hposition hfixed
  rcases hfixed with hzero | hone
  · exact digitAt_ne_zero hexact hposition hzero
  · exact digitAt_ne_one hexact hposition hone

end Pattern

def longPattern : Pattern where
  text := List.replicate 64 '0'
  valid := by
    intro char hchar
    rw [eq_of_mem_replicate hchar]
    decide
  digits_pos := by decide
  digits_le := by decide

def bitSixtyFour : Buffer := fun k => if k = 8 then 1 else 0

end MemScanBinary
end CheatEngine
