import Mathlib.Tactic

/-!
# Bit fields in byte buffers

A buffer is addressed by bytes and holds little-endian words.  A field is
written and read through the 32-bit word at the byte its first bit is in, with
a mask that is shifted to its place.  Such a write changes no bit in front of
the field, and of the field it keeps the bits that fit in the word.
-/

namespace CheatEngine.BitField

abbrev Buffer := ℕ → UInt8

def bitAt (buffer : Buffer) (position : ℕ) : Bool :=
  (buffer (position / 8)).toBitVec.getLsbD (position % 8)

def load : (bytes : ℕ) → Buffer → ℕ → BitVec (8 * bytes)
  | 0, _, _ => 0#0
  | bytes + 1, buffer, index =>
    (load bytes buffer (index + 1) ++ (buffer index).toBitVec).cast (by omega)

def store (bytes : ℕ) (buffer : Buffer) (index : ℕ)
    (value : BitVec (8 * bytes)) : Buffer := fun i =>
  if index ≤ i ∧ i < index + bytes then
    UInt8.ofBitVec (value.extractLsb' (8 * (i - index)) 8)
  else
    buffer i

theorem getLsbD_load (bytes : ℕ) (buffer : Buffer) (index j : ℕ) :
    (load bytes buffer index).getLsbD j =
      (decide (j < 8 * bytes) && bitAt buffer (8 * index + j)) := by
  induction bytes generalizing index j with
  | zero => simp [load]
  | succ bytes ih =>
    rw [load, BitVec.getLsbD_cast, BitVec.getLsbD_append]
    by_cases hj : j < 8
    · have hbyte : bitAt buffer (8 * index + j) =
          (buffer index).toBitVec.getLsbD j := by
        rw [bitAt]
        congr 2
        · congr 1
          omega
        · omega
      have hlt : j < 8 * (bytes + 1) := by omega
      simp [hj, hlt, hbyte]
    · have hshift : 8 * (index + 1) + (j - 8) = 8 * index + j := by omega
      have hlt : j - 8 < 8 * bytes ↔ j < 8 * (bytes + 1) := by omega
      rw [if_neg hj, ih, hshift]
      simp only [hlt]

theorem bitAt_store (bytes : ℕ) (buffer : Buffer) (index : ℕ)
    (value : BitVec (8 * bytes)) (position : ℕ) :
    bitAt (store bytes buffer index value) position =
      if 8 * index ≤ position ∧ position < 8 * index + 8 * bytes then
        value.getLsbD (position - 8 * index)
      else
        bitAt buffer position := by
  have hinside : (index ≤ position / 8 ∧ position / 8 < index + bytes) ↔
      (8 * index ≤ position ∧ position < 8 * index + 8 * bytes) := by
    omega
  rw [bitAt, store]
  by_cases hposition : 8 * index ≤ position ∧ position < 8 * index + 8 * bytes
  · have hsplit : 8 * (position / 8 - index) + position % 8 =
        position - 8 * index := by
      omega
    have hmod : position % 8 < 8 := Nat.mod_lt _ (by decide)
    rw [if_pos (hinside.mpr hposition), if_pos hposition]
    simp only [BitVec.getLsbD_extractLsb', hmod, decide_true, Bool.true_and,
      hsplit]
  · rw [if_neg (mt hinside.mp hposition), if_neg hposition]
    rfl

/-! ## One field -/

def fieldMask : ℕ → BitVec 32
  | 0 => 0
  | width + 1 => (fieldMask width <<< 1) ||| 1

variable (buffer : Buffer) (width : ℕ) (value : BitVec 32)

theorem getLsbD_fieldMask (j : ℕ) :
    (fieldMask width).getLsbD j = (decide (j < 32) && decide (j < width)) := by
  induction width generalizing j with
  | zero => simp [fieldMask]
  | succ width ih =>
    rw [fieldMask, BitVec.getLsbD_or, BitVec.getLsbD_shiftLeft, ih]
    have hone : (1 : BitVec 32).getLsbD j = decide (j = 0) := by
      simp [BitVec.getLsbD_one]
    rw [hone]
    rcases j with _ | j
    · simp
    · by_cases hj : j + 1 < 32
      · have hsmall : j < 32 := by omega
        simp [hj, hsmall]
      · simp [hj]

def writeField (buffer : Buffer) (width : ℕ) (value : BitVec 32)
    (bit : ℕ) : Buffer :=
  store 4 buffer (bit / 8)
    ((load 4 buffer (bit / 8) &&& ~~~(fieldMask width <<< (bit % 8))) |||
      (value <<< (bit % 8)))

def readField (buffer : Buffer) (width bit : ℕ) : BitVec 32 :=
  (load 4 buffer (bit / 8) >>> (bit % 8)) &&& fieldMask width

def keptBits (width bit : ℕ) : ℕ :=
  min width (32 - bit % 8)

theorem bitAt_writeField_of_lt {bit position : ℕ}
    (hposition : position < bit) :
    bitAt (writeField buffer width value bit) position =
      bitAt buffer position := by
  rw [writeField, bitAt_store]
  split
  case isFalse => rfl
  case isTrue hinside =>
    have hbefore : position - 8 * (bit / 8) < bit % 8 := by omega
    have hplace : 8 * (bit / 8) + (position - 8 * (bit / 8)) = position := by
      omega
    have hword : position - 8 * (bit / 8) < 32 := by omega
    rw [BitVec.getLsbD_or, BitVec.getLsbD_and, BitVec.getLsbD_not,
      BitVec.getLsbD_shiftLeft, BitVec.getLsbD_shiftLeft, getLsbD_load, hplace]
    simp [hbefore, hword]

theorem bitAt_writeField {bit j : ℕ} (hj : j < keptBits width bit) :
    bitAt (writeField buffer width value bit) (bit + j) = value.getLsbD j := by
  have hkept : j < width ∧ j + bit % 8 < 32 := by
    unfold keptBits at hj
    omega
  have hinside : 8 * (bit / 8) ≤ bit + j ∧
      bit + j < 8 * (bit / 8) + 8 * 4 := by
    omega
  have hplace : bit + j - 8 * (bit / 8) = j + bit % 8 := by omega
  have hword : j < 32 := by omega
  rw [writeField, bitAt_store, if_pos hinside, hplace]
  simp [getLsbD_fieldMask, hkept.1, hkept.2, hword]

theorem getLsbD_readField (bit j : ℕ) :
    (readField buffer width bit).getLsbD j =
      (decide (j < keptBits width bit) && bitAt buffer (bit + j)) := by
  have hplace : 8 * (bit / 8) + (bit % 8 + j) = bit + j := by omega
  rw [readField, BitVec.getLsbD_and, BitVec.getLsbD_ushiftRight,
    getLsbD_load, getLsbD_fieldMask, hplace]
  by_cases hj : j < keptBits width bit
  · have hkept : j < width ∧ bit % 8 + j < 32 ∧ j < 32 := by
      unfold keptBits at hj
      omega
    simp [hj, hkept.1, hkept.2.1, hkept.2.2]
  · have hcut : ¬ (bit % 8 + j < 32 ∧ j < width) := by
      unfold keptBits at hj
      omega
    rw [decide_eq_false hj, Bool.false_and]
    by_cases hword : bit % 8 + j < 32
    · have hwidth : ¬ j < width := fun h => hcut ⟨hword, h⟩
      simp [hwidth]
    · simp [hword]

def SameBits (bound : ℕ) (first second : Buffer) : Prop :=
  ∀ position < bound, bitAt first position = bitAt second position

theorem SameBits.readField_eq {bound : ℕ} {first second : Buffer}
    (hsame : SameBits bound first second) {width bit : ℕ}
    (hbound : bit + width ≤ bound) :
    readField first width bit = readField second width bit := by
  apply BitVec.eq_of_getLsbD_eq
  intro j _
  rw [getLsbD_readField, getLsbD_readField]
  by_cases hj : j < keptBits width bit
  · have hinside : bit + j < bound := by
      unfold keptBits at hj
      omega
    rw [hsame _ hinside]
  · simp [hj]

theorem readField_writeField (bit : ℕ) :
    readField (writeField buffer width value bit) width bit =
      value &&& fieldMask (keptBits width bit) := by
  apply BitVec.eq_of_getLsbD_eq
  intro j hj
  rw [getLsbD_readField, BitVec.getLsbD_and, getLsbD_fieldMask]
  by_cases hkept : j < keptBits width bit
  · rw [bitAt_writeField buffer width value hkept]
    simp [hkept, hj]
  · simp [hkept]

theorem and_fieldMask_toNat {width : ℕ} (hwidth : width ≤ 32) :
    (value &&& fieldMask width).toNat = value.toNat % 2 ^ width := by
  apply Nat.eq_of_testBit_eq
  intro j
  rw [Nat.testBit_mod_two_pow]
  have hbit : (value &&& fieldMask width).toNat.testBit j =
      (value.getLsbD j && (decide (j < 32) && decide (j < width))) := by
    rw [← getLsbD_fieldMask, ← BitVec.getLsbD_and]
    rfl
  rw [hbit]
  by_cases hj : j < width
  · have hword : j < 32 := by omega
    simp [hj, hword, BitVec.getLsbD]
  · simp [hj]

theorem and_fieldMask_eq_self_iff {width : ℕ} (hwidth : width ≤ 32) :
    value &&& fieldMask width = value ↔ value.toNat < 2 ^ width := by
  rw [← BitVec.toNat_inj, and_fieldMask_toNat value hwidth]
  constructor
  · intro hself
    rw [← hself]
    exact Nat.mod_lt _ (by positivity)
  · exact Nat.mod_eq_of_lt

theorem keptBits_le (bit : ℕ) : keptBits width bit ≤ 32 := by
  unfold keptBits
  omega

def writeFields (width : ℕ) : Buffer → ℕ → List (BitVec 32) → Buffer
  | buffer, _, [] => buffer
  | buffer, bit, value :: rest =>
    writeFields width (writeField buffer width value bit) (bit + width) rest

def readFields (width : ℕ) (buffer : Buffer) : ℕ → ℕ → List (BitVec 32)
  | _, 0 => []
  | bit, count + 1 =>
    readField buffer width bit :: readFields width buffer (bit + width) count

def keptFields (width : ℕ) : ℕ → List (BitVec 32) → List (BitVec 32)
  | _, [] => []
  | bit, value :: rest =>
    (value &&& fieldMask (keptBits width bit)) ::
      keptFields width (bit + width) rest

theorem sameBits_writeFields (buffer : Buffer) (bit : ℕ)
    (values : List (BitVec 32)) :
    SameBits bit (writeFields width buffer bit values) buffer := by
  induction values generalizing buffer bit with
  | nil => exact fun _ _ => rfl
  | cons value rest ih =>
    intro position hposition
    rw [writeFields, ih _ _ position (by omega),
      bitAt_writeField_of_lt buffer width value hposition]

theorem SameBits.readFields_eq {bound : ℕ} {first second : Buffer}
    (hsame : SameBits bound first second) {width bit count : ℕ}
    (hbound : bit + width * count ≤ bound) :
    readFields width first bit count = readFields width second bit count := by
  induction count generalizing bit with
  | zero => rfl
  | succ count ih =>
    have hsplit : width * (count + 1) = width + width * count := by ring
    rw [readFields, readFields, hsame.readField_eq (by omega), ih (by omega)]

theorem readFields_writeFields (buffer : Buffer) (bit : ℕ)
    (values : List (BitVec 32)) :
    readFields width (writeFields width buffer bit values) bit values.length =
      keptFields width bit values := by
  induction values generalizing buffer bit with
  | nil => rfl
  | cons value rest ih =>
    have hkept := (sameBits_writeFields width
      (writeField buffer width value bit) (bit + width) rest).readField_eq
        le_rfl
    rw [List.length_cons, readFields, writeFields, hkept,
      readField_writeField, ih]
    rfl

theorem and_high_mask (value bits places : ℕ) :
    value &&& (2 ^ bits - 1) * 2 ^ places =
      value / 2 ^ places % 2 ^ bits * 2 ^ places := by
  apply Nat.eq_of_testBit_eq
  intro i
  rw [Nat.testBit_and, Nat.testBit_mul_two_pow, Nat.testBit_mul_two_pow,
    Nat.testBit_two_pow_sub_one, Nat.testBit_mod_two_pow,
    Nat.testBit_div_two_pow]
  by_cases hlow : places ≤ i
  · simp [hlow, Nat.sub_add_cancel hlow, Bool.and_comm]
  · simp [hlow]

end CheatEngine.BitField
