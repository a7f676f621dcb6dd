import CheatEngine.ByteMemory
import CheatEngine.ByteStream
import CheatEngine.MemScanAllTypes

/-!
# Checks for a value between two bounds

`configurescanroutine` takes the signed check of a type when one of the texts
of the bounds starts with a minus sign.  The bounds are kept as 64-bit numbers,
and every check cuts them to the width it compares with.
-/

namespace CheatEngine
namespace MemScanSignedBetween

open ByteStream
open MemScanAllTypes (EntryType Flags)

/-! ## The checks -/

/-- The text of a bound, as `StrToQWordEx` takes it: with a minus sign it is
read as an `int64`, else as a `qword`. -/
structure ScanValue where
  minus : Bool
  magnitude : ℕ
  magnitude_le : magnitude ≤ if minus then 2 ^ 63 else 2 ^ 64 - 1

namespace ScanValue

variable (text : ScanValue)

def bound : ℤ :=
  if text.minus then -text.magnitude else text.magnitude

def value : ℤ :=
  text.bound % 2 ^ 64

end ScanValue

def unsignedAt (size : ℕ) (newvalue : ℕ → UInt8) : ℕ :=
  leValue (ByteMemory.load newvalue 0 size)

def signedAt (size : ℕ) (newvalue : ℕ → UInt8) : ℤ :=
  (unsignedAt size newvalue : ℤ).bmod (2 ^ (8 * size))

def unsignedBetween (size : ℕ) (value value2 : ℤ) (newvalue : ℕ → UInt8) :
    Bool :=
  decide (value % 2 ^ (8 * size) ≤ unsignedAt size newvalue) &&
    decide ((unsignedAt size newvalue : ℤ) ≤ value2 % 2 ^ (8 * size))

def signedBetween (size : ℕ) (value value2 : ℤ) (newvalue : ℕ → UInt8) :
    Bool :=
  decide (value.bmod (2 ^ (8 * size)) ≤ signedAt size newvalue) &&
    decide (signedAt size newvalue ≤ value2.bmod (2 ^ (8 * size)))

def ByteBetween := unsignedBetween 1

def WordBetween := unsignedBetween 2

def DWordBetween := unsignedBetween 4

def QWordBetween := unsignedBetween 8

/-- Compares as `SmallInt`, which has two bytes. -/
def SignedByteBetween := signedBetween 2

/-- Compares as `ShortInt`, which has one byte. -/
def SignedWordBetween := signedBetween 1

def SignedDWordBetween := signedBetween 4

def SignedQWordBetween := signedBetween 8

inductive IntegerType
  | vtByte
  | vtWord
  | vtDword
  | vtQword
deriving DecidableEq, Repr

namespace IntegerType

def bytesize : IntegerType → ℕ
  | vtByte => 1
  | vtWord => 2
  | vtDword => 4
  | vtQword => 8

def entryType : IntegerType → EntryType
  | vtByte => .vtByte
  | vtWord => .vtWord
  | vtDword => .vtDword
  | vtQword => .vtQword

end IntegerType

structure BetweenScan where
  scanvalue1 : ScanValue
  scanvalue2 : ScanValue
  inverseScan : Bool
  otherBetween : EntryType → (ℕ → UInt8) → Bool

namespace BetweenScan

variable (scan : BetweenScan)

def signed : Bool :=
  scan.scanvalue1.minus || scan.scanvalue2.minus

def checkroutine (type : IntegerType) : (ℕ → UInt8) → Bool :=
  let value := scan.scanvalue1.value
  let value2 := scan.scanvalue2.value
  match type with
  | .vtByte =>
    if scan.signed then SignedByteBetween value value2
    else ByteBetween value value2
  | .vtWord =>
    if scan.signed then SignedWordBetween value value2
    else WordBetween value value2
  | .vtDword =>
    if scan.signed then SignedDWordBetween value value2
    else DWordBetween value value2
  | .vtQword =>
    if scan.signed then SignedQWordBetween value value2
    else QWordBetween value value2

def AllBetween (typesmatch : Flags) (newvalue : ℕ → UInt8) : Flags
  | .vtByte => typesmatch .vtByte &&
      xor (ByteBetween scan.scanvalue1.value scan.scanvalue2.value newvalue)
        scan.inverseScan
  | .vtWord => typesmatch .vtWord &&
      xor (WordBetween scan.scanvalue1.value scan.scanvalue2.value newvalue)
        scan.inverseScan
  | .vtDword => typesmatch .vtDword &&
      xor (DWordBetween scan.scanvalue1.value scan.scanvalue2.value newvalue)
        scan.inverseScan
  | .vtQword => typesmatch .vtQword &&
      xor (QWordBetween scan.scanvalue1.value scan.scanvalue2.value newvalue)
        scan.inverseScan
  | type => typesmatch type &&
      xor (scan.otherBetween type newvalue) scan.inverseScan

def SignedAllBetween (typesmatch : Flags) (newvalue : ℕ → UInt8) : Flags
  | .vtByte => typesmatch .vtByte &&
      xor (SignedByteBetween scan.scanvalue1.value scan.scanvalue2.value
        newvalue) scan.inverseScan
  | .vtWord => typesmatch .vtWord &&
      xor (SignedWordBetween scan.scanvalue1.value scan.scanvalue2.value
        newvalue) scan.inverseScan
  | .vtDword => typesmatch .vtDword &&
      xor (SignedDWordBetween scan.scanvalue1.value scan.scanvalue2.value
        newvalue) scan.inverseScan
  | .vtQword => typesmatch .vtQword &&
      xor (SignedQWordBetween scan.scanvalue1.value scan.scanvalue2.value
        newvalue) scan.inverseScan
  | type => typesmatch type &&
      xor (scan.otherBetween type newvalue) scan.inverseScan

/-- `checkroutine` of a scan for all types: `typesmatch` after it. -/
def allCheckroutine : Flags → (ℕ → UInt8) → Flags :=
  if scan.signed then scan.SignedAllBetween else scan.AllBetween

/-- The value as a signed number of its type lies between the bounds. -/
def InBetween (type : IntegerType) (newvalue : ℕ → UInt8) : Prop :=
  scan.scanvalue1.bound ≤ signedAt type.bytesize newvalue ∧
    signedAt type.bytesize newvalue ≤ scan.scanvalue2.bound

instance (type : IntegerType) (newvalue : ℕ → UInt8) :
    Decidable (scan.InBetween type newvalue) :=
  inferInstanceAs (Decidable (_ ∧ _))

/-- The check of the type accepts exactly the values between the bounds. -/
def ChecksType (type : IntegerType) : Prop :=
  ∀ newvalue, scan.checkroutine type newvalue = true ↔
    scan.InBetween type newvalue

def ChecksAmongAll (type : IntegerType) : Prop :=
  ∀ typesmatch newvalue,
    scan.allCheckroutine typesmatch newvalue type.entryType =
      (typesmatch type.entryType &&
        xor (decide (scan.InBetween type newvalue)) scan.inverseScan)

end BetweenScan

def IntegerType.comparedSize : IntegerType → ℕ
  | vtByte => 2
  | vtWord => 1
  | vtDword => 4
  | vtQword => 8

def least (size : ℕ) : ℤ := -2 ^ (8 * size - 1)

def greatest (size : ℕ) : ℤ := 2 ^ (8 * size - 1) - 1

def NoneFits (size : ℕ) (low high : ℤ) : Prop :=
  min high (greatest size) < max low (least size)

def AllFit (size : ℕ) (low high : ℤ) : Prop :=
  low ≤ least size ∧ greatest size ≤ high

/-- The bounds as the signed check compares with them let the same values
through.  `SignedByteBetween` and `SignedWordBetween` do so for no value or for
all values only. -/
def BetweenScan.BoundsFit (scan : BetweenScan) (type : IntegerType) : Prop :=
  let low := scan.scanvalue1.bound
  let high := scan.scanvalue2.bound
  let cutLow := low.bmod (2 ^ (8 * type.comparedSize))
  let cutHigh := high.bmod (2 ^ (8 * type.comparedSize))
  (NoneFits type.bytesize low high ∧
    NoneFits type.comparedSize cutLow cutHigh) ∨
  match type with
  | .vtByte | .vtWord =>
    AllFit type.bytesize low high ∧
      AllFit type.comparedSize cutLow cutHigh
  | .vtDword | .vtQword =>
    cutLow = max low (least type.bytesize) ∧
      cutHigh = min high (greatest type.bytesize)

variable {size : ℕ}

theorem two_pow_eight_mul (hsize : 0 < size) :
    (2 : ℤ) ^ (8 * size) = 2 * 2 ^ (8 * size - 1) := by
  rw [← pow_succ']
  congr 1
  omega

theorem bmod_bounds (hsize : 0 < size) (value : ℤ) :
    least size ≤ value.bmod (2 ^ (8 * size)) ∧
      value.bmod (2 ^ (8 * size)) ≤ greatest size := by
  have hpow := two_pow_eight_mul hsize
  have hpos : 0 < 2 ^ (8 * size) := Nat.two_pow_pos _
  have hlow := @Int.le_bmod value _ hpos
  have hhigh := @Int.bmod_lt value _ hpos
  push_cast at hlow hhigh
  unfold least greatest
  omega

theorem bmod_eq_self (hsize : 0 < size) {value : ℤ}
    (hlow : least size ≤ value) (hhigh : value ≤ greatest size) :
    value.bmod (2 ^ (8 * size)) = value := by
  have hpow := two_pow_eight_mul hsize
  unfold least at hlow
  unfold greatest at hhigh
  apply Int.bmod_eq_of_le <;> push_cast <;> omega

theorem exists_signedAt (hsize : 0 < size) {value : ℤ}
    (hlow : least size ≤ value) (hhigh : value ≤ greatest size) :
    ∃ newvalue, signedAt size newvalue = value := by
  have hpos : (0 : ℤ) < 2 ^ (8 * size) := by positivity
  have hnonneg := Int.emod_nonneg value hpos.ne'
  have hlt := Int.emod_lt_of_pos value hpos
  let bytes := leBytes size (value % 2 ^ (8 * size)).toNat
  refine ⟨fun index => bytes.getD index 0, ?_⟩
  have hload : ByteMemory.load (fun index => bytes.getD index 0) 0 size =
      bytes := by
    apply List.ext_getElem
    · rw [ByteMemory.length_load, leBytes_length]
    · intro index hindex hbytes
      simp only [ByteMemory.load, List.getElem_map, List.getElem_range,
        zero_add]
      rw [List.getD_eq_getElem?_getD, List.getElem?_eq_getElem hbytes,
        Option.getD_some]
  have hpow : 256 ^ size = 2 ^ (8 * size) := by
    rw [pow_mul]
    norm_num
  rw [signedAt, unsignedAt, hload, leValue_leBytes, hpow]
  push_cast
  rw [Int.toNat_of_nonneg hnonneg, Int.emod_emod_of_dvd _ dvd_rfl]
  have hemod := Int.emod_bmod value (2 ^ (8 * size))
  push_cast at hemod
  rw [hemod]
  exact bmod_eq_self hsize hlow hhigh

theorem signedAt_one (newvalue : ℕ → UInt8) :
    signedAt 1 newvalue = (signedAt 2 newvalue).bmod (2 ^ 8) := by
  have hone : unsignedAt 1 newvalue = (newvalue 0).toNat := by
    simp [unsignedAt, ByteMemory.load, leValue]
  have htwo : unsignedAt 2 newvalue =
      (newvalue 0).toNat + 256 * (newvalue 1).toNat := by
    simp [unsignedAt, ByteMemory.load, leValue, List.range_succ]
  rw [signedAt, signedAt, hone, htwo,
    Int.bmod_bmod_of_dvd (by norm_num : 2 ^ (8 * 1) ∣ 2 ^ (8 * 2))]
  push_cast
  exact (Int.add_mul_bmod_self_left _ _ _).symm

theorem forall_signedAt {size : ℕ} (hsize : 0 < size) {property : ℤ → Prop} :
    (∀ newvalue, property (signedAt size newvalue)) ↔
      ∀ value, least size ≤ value → value ≤ greatest size →
        property value := by
  constructor
  · intro hall value hlow hhigh
    obtain ⟨newvalue, hvalue⟩ := exists_signedAt hsize hlow hhigh
    rw [← hvalue]
    exact hall newvalue
  · intro hall newvalue
    obtain ⟨hlow, hhigh⟩ := bmod_bounds hsize (unsignedAt size newvalue)
    exact hall _ hlow hhigh

section

variable {low high cutLow cutHigh : ℤ}

theorem same_iff {size : ℕ} (hsize : 0 < size) (hlow : least size ≤ cutLow)
    (hhigh : cutHigh ≤ greatest size) :
    (∀ newvalue,
      cutLow ≤ signedAt size newvalue ∧ signedAt size newvalue ≤ cutHigh ↔
        low ≤ signedAt size newvalue ∧ signedAt size newvalue ≤ high) ↔
      (NoneFits size low high ∧ NoneFits size cutLow cutHigh) ∨
        (cutLow = max low (least size) ∧
          cutHigh = min high (greatest size)) := by
  rw [@forall_signedAt size hsize fun value =>
    (cutLow ≤ value ∧ value ≤ cutHigh ↔ low ≤ value ∧ value ≤ high)]
  unfold NoneFits
  constructor
  · intro hsame
    rcases lt_or_ge (min high (greatest size)) (max low (least size)) with
      hnone | hsome
    · left
      refine ⟨hnone, ?_⟩
      by_contra hcut
      have hvalue := (hsame cutLow hlow (by omega)).mp ⟨le_rfl, by omega⟩
      omega
    · right
      have hfirst := (hsame (max low (least size)) (by omega)
        (by omega)).mpr ⟨by omega, by omega⟩
      have hlast := (hsame (min high (greatest size)) (by omega)
        (by omega)).mpr ⟨by omega, by omega⟩
      have hcutFirst := (hsame cutLow hlow (by omega)).mp ⟨le_rfl, by omega⟩
      have hcutLast := (hsame cutHigh (by omega) hhigh).mp ⟨by omega, le_rfl⟩
      omega
  · intro hbounds value hge hle
    omega

theorem word_byte_iff {wordLow wordHigh byteLow byteHigh : ℤ} :
    (∀ newvalue,
      wordLow ≤ signedAt 2 newvalue ∧ signedAt 2 newvalue ≤ wordHigh ↔
        byteLow ≤ signedAt 1 newvalue ∧ signedAt 1 newvalue ≤ byteHigh) ↔
      (NoneFits 2 wordLow wordHigh ∧ NoneFits 1 byteLow byteHigh) ∨
        (AllFit 2 wordLow wordHigh ∧ AllFit 1 byteLow byteHigh) := by
  simp only [signedAt_one]
  rw [@forall_signedAt 2 (by decide) fun value =>
    (wordLow ≤ value ∧ value ≤ wordHigh ↔
      byteLow ≤ value.bmod (2 ^ 8) ∧ value.bmod (2 ^ 8) ≤ byteHigh)]
  have hbyte : ∀ value : ℤ,
      value.bmod (2 ^ 8) = (value + 128) % 256 - 128 := by
    intro value
    rw [Int.bmod_def]
    norm_num
    split <;> omega
  simp only [hbyte, NoneFits, AllFit, least, greatest]
  norm_num only
  constructor
  · intro hsame
    by_cases hnone : min byteHigh 127 < max byteLow (-128)
    · left
      refine ⟨?_, hnone⟩
      by_contra hsome
      have hvalue := (hsame (max wordLow (-32768)) (by omega)
        (by omega)).mp ⟨by omega, by omega⟩
      omega
    · right
      have hfirst := (hsame (-32768 + max byteLow (-128) % 256) (by omega)
        (by omega)).mpr (by omega)
      have hlast := (hsame (32512 + max byteLow (-128) % 256) (by omega)
        (by omega)).mpr (by omega)
      have hleast := (hsame (-128) (by omega) (by omega)).mp (by omega)
      have hgreatest := (hsame 127 (by omega) (by omega)).mp (by omega)
      have hwordLeast := (hsame (-32768) (by omega) (by omega)).mpr (by omega)
      have hwordGreatest := (hsame 32767 (by omega) (by omega)).mpr (by omega)
      omega
  · intro hbounds value hge hle
    omega

end

theorem signedBetween_iff (size : ℕ) (value value2 : ℤ)
    (newvalue : ℕ → UInt8) :
    signedBetween size value value2 newvalue = true ↔
      value.bmod (2 ^ (8 * size)) ≤ signedAt size newvalue ∧
        signedAt size newvalue ≤ value2.bmod (2 ^ (8 * size)) := by
  rw [signedBetween, Bool.and_eq_true, decide_eq_true_eq, decide_eq_true_eq]

theorem ScanValue.value_bmod (text : ScanValue) (hsize : size ≤ 8) :
    text.value.bmod (2 ^ (8 * size)) = text.bound.bmod (2 ^ (8 * size)) := by
  have hdvd : 2 ^ (8 * size) ∣ 2 ^ 64 := pow_dvd_pow 2 (by omega)
  have hcut := @Int.bmod_bmod_of_dvd (text.bound % 2 ^ 64) _ _ hdvd
  have hwhole : (text.bound % 2 ^ 64).bmod (2 ^ 64) =
      text.bound.bmod (2 ^ 64) :=
    Int.emod_bmod text.bound (2 ^ 64)
  rw [value, ← hcut, hwhole, Int.bmod_bmod_of_dvd hdvd]

namespace BetweenScan

variable {scan : BetweenScan}

theorem signed_of_negative
    (hnegative : scan.scanvalue1.bound < 0 ∨ scan.scanvalue2.bound < 0) :
    scan.signed = true := by
  have hminus : ∀ text : ScanValue, text.bound < 0 → text.minus = true := by
    intro text hbound
    unfold ScanValue.bound at hbound
    split at hbound
    · assumption
    · omega
  rw [signed, Bool.or_eq_true]
  exact hnegative.imp (hminus _) (hminus _)

section

variable (hsigned : scan.signed = true)

include hsigned

theorem checkroutine_eq (type : IntegerType) :
    scan.checkroutine type = signedBetween type.comparedSize
      scan.scanvalue1.value scan.scanvalue2.value := by
  unfold checkroutine
  cases type <;> simp only [hsigned, if_true] <;> rfl

theorem checkroutine_iff (type : IntegerType) (newvalue : ℕ → UInt8) :
    scan.checkroutine type newvalue = true ↔
      scan.scanvalue1.bound.bmod (2 ^ (8 * type.comparedSize)) ≤
          signedAt type.comparedSize newvalue ∧
        signedAt type.comparedSize newvalue ≤
          scan.scanvalue2.bound.bmod (2 ^ (8 * type.comparedSize)) := by
  have hsize : type.comparedSize ≤ 8 := by
    cases type <;> decide
  rw [checkroutine_eq hsigned, signedBetween_iff,
    ScanValue.value_bmod _ hsize, ScanValue.value_bmod _ hsize]

theorem checksType_iff (type : IntegerType) :
    scan.ChecksType type ↔ scan.BoundsFit type := by
  have hlow := fun value => (bmod_bounds (by cases type <;> decide :
    0 < type.comparedSize) value).1
  have hhigh := fun value => (bmod_bounds (by cases type <;> decide :
    0 < type.comparedSize) value).2
  unfold ChecksType InBetween
  simp only [checkroutine_iff hsigned]
  cases type with
  | vtByte => exact word_byte_iff.trans (or_congr and_comm and_comm)
  | vtWord =>
    refine (forall_congr' fun newvalue => iff_comm).trans ?_
    exact word_byte_iff
  | vtDword => exact same_iff (by decide) (hlow _) (hhigh _)
  | vtQword => exact same_iff (by decide) (hlow _) (hhigh _)

theorem allCheckroutine_eq (type : IntegerType) (typesmatch : Flags)
    (newvalue : ℕ → UInt8) :
    scan.allCheckroutine typesmatch newvalue type.entryType =
      (typesmatch type.entryType &&
        xor (scan.checkroutine type newvalue) scan.inverseScan) := by
  rw [allCheckroutine, if_pos hsigned]
  unfold checkroutine
  cases type <;> simp only [hsigned, if_true] <;> rfl

theorem checksAmongAll_iff (type : IntegerType) :
    scan.ChecksAmongAll type ↔ scan.ChecksType type := by
  unfold ChecksAmongAll ChecksType
  simp only [allCheckroutine_eq hsigned]
  constructor
  · intro hall newvalue
    have hflag := hall (fun _ => true) newvalue
    rw [Bool.true_and, Bool.true_and, Bool.xor_left_inj] at hflag
    rw [hflag, decide_eq_true_eq]
  · intro hcheck typesmatch newvalue
    have hsame : scan.checkroutine type newvalue =
        decide (scan.InBetween type newvalue) := by
      rw [Bool.eq_iff_iff, hcheck newvalue, decide_eq_true_eq]
    rw [hsame]

end

/-- With a negative bound, the check of a type and its part in the check of all
types accept the values between the bounds exactly when the bounds fit. -/
theorem checks_iff (scan : BetweenScan)
    (hnegative : scan.scanvalue1.bound < 0 ∨ scan.scanvalue2.bound < 0)
    (type : IntegerType) :
    (scan.ChecksType type ↔ scan.BoundsFit type) ∧
      (scan.ChecksAmongAll type ↔ scan.BoundsFit type) := by
  have hsigned := signed_of_negative hnegative
  have htype := checksType_iff hsigned type
  exact ⟨htype, (checksAmongAll_iff hsigned type).trans htype⟩

def minusOneToFive : BetweenScan where
  scanvalue1 := ⟨true, 1, by decide⟩
  scanvalue2 := ⟨false, 5, by decide⟩
  inverseScan := false
  otherBetween := fun _ _ => false

theorem checks_minusOneToFive :
    minusOneToFive.ChecksType .vtDword ∧
      minusOneToFive.ChecksAmongAll .vtDword := by
  have hfits : minusOneToFive.BoundsFit .vtDword :=
    .inr ⟨by decide, by decide⟩
  have hchecks := checks_iff minusOneToFive (.inl (by decide)) .vtDword
  exact ⟨hchecks.1.mpr hfits, hchecks.2.mpr hfits⟩

theorem not_checks_minusOneToFive :
    ¬ minusOneToFive.ChecksType .vtByte ∧
      ¬ minusOneToFive.ChecksType .vtWord := by
  constructor
  · intro hchecks
    have hbyte := (hchecks fun index => if index = 0 then 3 else 1).mpr
      (by decide)
    exact absurd hbyte (by decide)
  · intro hchecks
    have hword := (hchecks fun index => if index = 0 then 3 else 1).mp
      (by decide)
    exact absurd hword (by decide)

end BetweenScan

end MemScanSignedBetween
end CheatEngine
