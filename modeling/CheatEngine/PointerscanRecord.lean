import CheatEngine.BitField
import CheatEngine.ByteStream
import CheatEngine.PointerscanRscan

/-!
# Records of found paths

`StorePath` writes a path as a record of bytes and `getPointer` reads it back.
A compressed record is a row of bit fields whose widths
`InitializeCompressedPtrVariables` takes from the settings of the scan; the
other format stores every field in full.
-/

namespace CheatEngine
namespace Pointerscan
namespace Record

open List BitField ByteStream Rscan

/-- The settings the record format depends on.  With aligned pointers two bits
of every offset are dropped, so the structure size has at least two bits. -/
structure Settings where
  compressedptr : Bool
  unalligned : Bool
  maxlevel : ℕ
  sz : UInt32
  mustendwithoffsetlist : List UInt32
  modulecount : ℕ
  is64bit : Bool
  staticonly : Bool
  canHaveStatic : Bool
  maxlevel_lt : maxlevel < 2 ^ 31
  sz_ge : unalligned = false → 2 ≤ sz

def countBits : ℕ → UInt32 → ℕ
  | 0, _ => 0
  | turns + 1, value =>
    if value > 0 then countBits turns (value >>> 1) + 1 else 0

def getMaxBitCount (absolutemaxvalue : UInt32) (signed : Bool) : ℕ :=
  countBits 32 absolutemaxvalue + if signed then 1 else 0

section

variable (settings : Settings)

def Settings.endCount : ℕ := settings.mustendwithoffsetlist.length

def Settings.maxBitCountModuleIndex : ℕ :=
  getMaxBitCount (UInt32.ofNat settings.modulecount - 1) true

def Settings.maxBitCountModuleOffset : ℕ :=
  if settings.is64bit && (!settings.staticonly || settings.canHaveStatic) then
    64
  else
    32

def Settings.maxBitCountLevel : ℕ :=
  getMaxBitCount (UInt32.ofNat settings.maxlevel -
    UInt32.ofNat settings.endCount) false

def Settings.maxBitCountOffset : ℕ :=
  if settings.unalligned then getMaxBitCount settings.sz false
  else getMaxBitCount settings.sz false - 2

def Settings.levelBit : ℕ :=
  settings.maxBitCountModuleOffset + settings.maxBitCountModuleIndex

def Settings.offsetsBit : ℕ :=
  settings.levelBit + settings.maxBitCountLevel

def Settings.compressedEntrySize : ℕ :=
  (settings.offsetsBit + settings.maxBitCountOffset *
    (settings.maxlevel - settings.endCount) + 7) / 8

end

/-- The arguments of `StorePath` and the array it reads; `rscan` only stores
below the maximal level. -/
structure WorkerPath (settings : Settings) where
  tempresults : ℕ → UInt32
  level : ℕ
  moduleid : UInt32
  offset : UInt64
  level_lt : level < settings.maxlevel

def shiftDown (settings : Settings) (offset : UInt32) : BitVec 32 :=
  if settings.unalligned then offset.toBitVec else offset.toBitVec >>> 2

def compressEntry (settings : Settings) (compressedEntry : Buffer)
    (path : WorkerPath settings) : Buffer :=
  let entry := store 8 compressedEntry 0 path.offset.toBitVec
  let entry := store 4 entry (settings.maxBitCountModuleOffset / 8)
    path.moduleid.toBitVec
  let entry := writeField entry settings.maxBitCountLevel
    (BitVec.ofNat 32 (1 + path.level - settings.endCount)) settings.levelBit
  writeFields settings.maxBitCountOffset entry settings.offsetsBit
    (((firstEntries path.tempresults (path.level + 1)).drop
      settings.endCount).map (shiftDown settings))

def firstBytes (buffer : Buffer) (size : ℕ) : List UInt8 :=
  (List.range size).map buffer

/-- A compressed record is only stored when the path has all the offsets it
must end with. -/
def storePath (settings : Settings) (compressedEntry : Buffer)
    (path : WorkerPath settings) : Option (List UInt8) :=
  if settings.compressedptr then
    if path.level + 1 < settings.endCount then
      none
    else
      some (firstBytes (compressEntry settings compressedEntry path)
        settings.compressedEntrySize)
  else
    some (writeDWord path.moduleid ++ (writeQWord path.offset ++
      (writeDWord (UInt32.ofNat (path.level + 1)) ++
        (firstEntries path.tempresults settings.maxlevel).flatMap writeDWord)))

/-- `TPointerscanResult`, with the offsets that are in use. -/
structure PointerscanResult where
  modulenr : UInt32
  moduleoffset : UInt64
  offsetcount : ℕ
  offsets : List UInt32
deriving DecidableEq, Repr

def readModulenr (settings : Settings) (compressedTempBuffer : Buffer) :
    BitVec 32 :=
  let mask := fieldMask settings.maxBitCountModuleIndex
  let modulenr :=
    load 4 compressedTempBuffer (settings.maxBitCountModuleOffset / 8) &&& mask
  if modulenr.signExtend 64 >>> (settings.maxBitCountModuleIndex - 1) = 1 then
    let extended := modulenr ||| ~~~mask
    if extended ≠ -1 then -1 else extended
  else
    modulenr

def readModuleoffset (settings : Settings) (compressedTempBuffer : Buffer) :
    BitVec 64 :=
  if settings.maxBitCountModuleOffset = 32 then
    BitVec.signExtend 64 (load 4 compressedTempBuffer 0 : BitVec 32)
  else
    load 8 compressedTempBuffer 0

def shiftUp (settings : Settings) (field : BitVec 32) : UInt32 :=
  UInt32.ofBitVec (if settings.unalligned then field else field <<< 2)

def readEntry (settings : Settings) (compressedTempBuffer : Buffer) :
    PointerscanResult :=
  let count := (readField compressedTempBuffer settings.maxBitCountLevel
    settings.levelBit).toNat
  { modulenr := UInt32.ofBitVec (readModulenr settings compressedTempBuffer)
    moduleoffset :=
      UInt64.ofBitVec (readModuleoffset settings compressedTempBuffer)
    offsetcount := count + settings.endCount
    offsets := settings.mustendwithoffsetlist ++
      (readFields settings.maxBitCountOffset compressedTempBuffer
        settings.offsetsBit count).map (shiftUp settings) }

/-- The pointer into the cache, cast to `PPointerscanResult`. -/
def castEntry (settings : Settings) : Reader PointerscanResult := do
  let modulenr ← readDWord
  let moduleoffset ← readQWord
  let offsetcount ← readDWord
  let offsets ← readMany readDWord settings.maxlevel
  return { modulenr, moduleoffset
           offsetcount := offsetcount.toNat
           offsets := offsets.take offsetcount.toNat }

/-- The temporary buffer still holds bytes of other records behind this one. -/
def getPointer (settings : Settings) (compressedTempBuffer : Buffer)
    (record : List UInt8) : Except String PointerscanResult :=
  if settings.compressedptr then
    .ok (readEntry settings fun i =>
      record.getD i (compressedTempBuffer i))
  else
    (castEntry settings record).map Prod.fst

def WorkerPath.result {settings : Settings} (path : WorkerPath settings) :
    PointerscanResult where
  modulenr := path.moduleid
  moduleoffset := path.offset
  offsetcount := path.level + 1
  offsets := firstEntries path.tempresults (path.level + 1)

/-! ## The fields of a record -/

theorem countBits_le (turns : ℕ) (value : UInt32) :
    countBits turns value ≤ turns := by
  induction turns generalizing value with
  | zero => exact le_rfl
  | succ turns ih =>
    rw [countBits]
    split
    · exact Nat.succ_le_succ (ih _)
    · exact Nat.zero_le _

theorem load_eq_of_bits {bytes : ℕ} {buffer : Buffer} {index : ℕ}
    {value : BitVec (8 * bytes)}
    (hbits : ∀ j < 8 * bytes, bitAt buffer (8 * index + j) = value.getLsbD j) :
    load bytes buffer index = value := by
  apply BitVec.eq_of_getLsbD_eq
  intro j hj
  rw [getLsbD_load, hbits j hj, decide_eq_true hj, Bool.true_and]

section

variable {settings : Settings}

theorem Settings.maxBitCountModuleOffset_cases (settings : Settings) :
    settings.maxBitCountModuleOffset = 32 ∨
      settings.maxBitCountModuleOffset = 64 := by
  unfold Settings.maxBitCountModuleOffset
  split
  · exact .inr rfl
  · exact .inl rfl

theorem Settings.maxBitCountModuleIndex_bounds (settings : Settings) :
    1 ≤ settings.maxBitCountModuleIndex ∧
      settings.maxBitCountModuleIndex ≤ 33 := by
  have hle := countBits_le 32 (UInt32.ofNat settings.modulecount - 1)
  unfold Settings.maxBitCountModuleIndex getMaxBitCount
  simp only [if_true]
  omega

def baseEntry (settings : Settings) (compressedEntry : Buffer)
    (path : WorkerPath settings) : Buffer :=
  store 4 (store 8 compressedEntry 0 path.offset.toBitVec)
    (settings.maxBitCountModuleOffset / 8) path.moduleid.toBitVec

variable (compressedEntry : Buffer) (path : WorkerPath settings)

theorem bitAt_baseEntry {position : ℕ}
    (hposition : position < settings.maxBitCountModuleOffset) :
    bitAt (baseEntry settings compressedEntry path) position =
      path.offset.toBitVec.getLsbD position := by
  have hplace : position < 8 * (settings.maxBitCountModuleOffset / 8) ∧
      position < 64 := by
    rcases settings.maxBitCountModuleOffset_cases with hoff | hoff <;> omega
  rw [baseEntry, bitAt_store, if_neg (by omega), bitAt_store,
    if_pos (by omega)]
  simp

theorem bitAt_baseEntry_module {j : ℕ} (hj : j < 32) :
    bitAt (baseEntry settings compressedEntry path)
        (settings.maxBitCountModuleOffset + j) =
      path.moduleid.toBitVec.getLsbD j := by
  have hplace : 8 * (settings.maxBitCountModuleOffset / 8) =
      settings.maxBitCountModuleOffset := by
    rcases settings.maxBitCountModuleOffset_cases with hoff | hoff <;> omega
  rw [baseEntry, bitAt_store, hplace, if_pos (by omega),
    Nat.add_sub_cancel_left]

def countedEntry (settings : Settings) (compressedEntry : Buffer)
    (path : WorkerPath settings) : Buffer :=
  writeField (baseEntry settings compressedEntry path)
    settings.maxBitCountLevel
    (BitVec.ofNat 32 (1 + path.level - settings.endCount)) settings.levelBit

theorem compressEntry_eq :
    compressEntry settings compressedEntry path =
      writeFields settings.maxBitCountOffset
        (countedEntry settings compressedEntry path) settings.offsetsBit
        (((firstEntries path.tempresults (path.level + 1)).drop
          settings.endCount).map (shiftDown settings)) := rfl

theorem sameBits_compressEntry :
    SameBits settings.levelBit (compressEntry settings compressedEntry path)
      (baseEntry settings compressedEntry path) := by
  intro position hposition
  have hbefore : position < settings.offsetsBit := by
    unfold Settings.offsetsBit
    omega
  rw [compressEntry_eq, sameBits_writeFields _ _ _ _ position hbefore,
    countedEntry, bitAt_writeField_of_lt _ _ _ hposition]

theorem sameBits_firstBytes (buffer stale : Buffer) (size : ℕ) :
    SameBits (8 * size)
      (fun i => (firstBytes buffer size).getD i (stale i)) buffer := by
  intro position hposition
  have hbyte : position / 8 < size := by omega
  rw [bitAt, bitAt]
  congr 2
  simp [firstBytes, getD_eq_getElem?_getD, hbyte]

theorem le_compressedEntrySize :
    settings.offsetsBit + settings.maxBitCountOffset *
      (path.level + 1 - settings.endCount) ≤
        8 * settings.compressedEntrySize := by
  have hcount : path.level + 1 - settings.endCount ≤
      settings.maxlevel - settings.endCount := by
    have hlevel := path.level_lt
    omega
  have hbits := Nat.mul_le_mul_left settings.maxBitCountOffset hcount
  unfold Settings.compressedEntrySize
  omega

theorem levelBit_le : settings.levelBit ≤ settings.offsetsBit := by
  unfold Settings.offsetsBit
  omega

section

variable {buffer compressedEntry : Buffer} {path : WorkerPath settings}
  (hbuffer : SameBits (8 * settings.compressedEntrySize) buffer
    (compressEntry settings compressedEntry path))

include hbuffer

theorem sameBits_base :
    SameBits settings.levelBit buffer
      (baseEntry settings compressedEntry path) := by
  intro position hposition
  have hsize := le_compressedEntrySize path
  have hle := @levelBit_le settings
  rw [hbuffer position (by omega)]
  exact sameBits_compressEntry compressedEntry path position hposition

theorem readModuleoffset_eq :
    readModuleoffset settings buffer =
      if settings.maxBitCountModuleOffset = 32 then
        (path.offset.toBitVec.setWidth 32).signExtend 64
      else
        path.offset.toBitVec := by
  have hbits : ∀ j < settings.maxBitCountModuleOffset,
      bitAt buffer j = path.offset.toBitVec.getLsbD j := by
    intro j hj
    have hlevel : j < settings.levelBit := by
      unfold Settings.levelBit
      omega
    rw [sameBits_base hbuffer j hlevel]
    exact bitAt_baseEntry compressedEntry path hj
  unfold readModuleoffset
  rcases settings.maxBitCountModuleOffset_cases with hoff | hoff
  · rw [if_pos hoff, if_pos hoff]
    congr 1
    apply load_eq_of_bits
    intro j hj
    rw [Nat.mul_zero, Nat.zero_add, hbits j (by omega)]
    simp [hj]
  · rw [if_neg (by omega), if_neg (by omega)]
    apply load_eq_of_bits
    intro j hj
    rw [Nat.mul_zero, Nat.zero_add, hbits j (by omega)]

theorem load_module_eq :
    load 4 buffer (settings.maxBitCountModuleOffset / 8) &&&
        fieldMask settings.maxBitCountModuleIndex =
      path.moduleid.toBitVec &&& fieldMask settings.maxBitCountModuleIndex := by
  have hplace : 8 * (settings.maxBitCountModuleOffset / 8) =
      settings.maxBitCountModuleOffset := by
    rcases settings.maxBitCountModuleOffset_cases with hoff | hoff <;> omega
  apply BitVec.eq_of_getLsbD_eq
  intro j hj
  rw [BitVec.getLsbD_and, BitVec.getLsbD_and, getLsbD_load, hplace,
    getLsbD_fieldMask]
  by_cases hwidth : j < settings.maxBitCountModuleIndex
  · have hlevel : settings.maxBitCountModuleOffset + j <
        settings.levelBit := by
      unfold Settings.levelBit
      omega
    rw [sameBits_base hbuffer _ hlevel,
      bitAt_baseEntry_module compressedEntry path hj]
    simp [hj]
  · simp [hwidth]

theorem readField_count :
    (readField buffer settings.maxBitCountLevel settings.levelBit).toNat =
      (path.level + 1 - settings.endCount) %
        2 ^ keptBits settings.maxBitCountLevel settings.levelBit := by
  have hsize := le_compressedEntrySize path
  have hcounted : SameBits settings.offsetsBit buffer
      (countedEntry settings compressedEntry path) := by
    intro position hposition
    rw [hbuffer position (by omega), compressEntry_eq]
    exact sameBits_writeFields _ _ _ _ position hposition
  have hlevel := path.level_lt
  have hmax := settings.maxlevel_lt
  rw [hcounted.readField_eq le_rfl, countedEntry, readField_writeField,
    and_fieldMask_toNat _ (keptBits_le _ _), BitVec.toNat_ofNat,
    Nat.mod_eq_of_lt (a := 1 + path.level - settings.endCount) (by omega),
    Nat.add_comm 1 path.level]

theorem readFields_offsets :
    readFields settings.maxBitCountOffset buffer settings.offsetsBit
        (path.level + 1 - settings.endCount) =
      keptFields settings.maxBitCountOffset settings.offsetsBit
        (((firstEntries path.tempresults (path.level + 1)).drop
          settings.endCount).map (shiftDown settings)) := by
  have hlength : (((firstEntries path.tempresults (path.level + 1)).drop
      settings.endCount).map (shiftDown settings)).length =
        path.level + 1 - settings.endCount := by
    simp
  rw [hbuffer.readFields_eq (le_compressedEntrySize path), compressEntry_eq,
    ← hlength]
  exact readFields_writeFields _ _ _ _

end

end

/-! ## When a field is read back -/

variable {width : ℕ}

theorem shiftUp_shiftDown_iff (settings : Settings) (offset : UInt32)
    (hwidth : width ≤ 32) :
    shiftUp settings (shiftDown settings offset &&& fieldMask width) = offset ↔
      (settings.unalligned = false → offset % 4 = 0) ∧
        (shiftDown settings offset).toNat < 2 ^ width := by
  have hlt := offset.toBitVec.isLt
  have hmod : offset % 4 = 0 ↔ offset.toBitVec.toNat % 4 = 0 := by
    rw [← UInt32.toNat_inj]
    rfl
  rw [hmod, ← and_fieldMask_eq_self_iff _ hwidth, ← UInt32.toBitVec_inj]
  cases hunalligned : settings.unalligned with
  | true => simp [shiftUp, shiftDown, hunalligned]
  | false =>
    have hcut := and_fieldMask_toNat (offset.toBitVec >>> 2) hwidth
    have hle : offset.toBitVec.toNat / 2 ^ 2 % 2 ^ width ≤
        offset.toBitVec.toNat / 2 ^ 2 := Nat.mod_le _ _
    simp only [shiftUp, shiftDown, hunalligned, Bool.false_eq_true,
      if_false, forall_const]
    rw [← BitVec.toNat_inj, ← BitVec.toNat_inj, BitVec.toNat_shiftLeft,
      hcut, BitVec.toNat_ushiftRight, Nat.shiftRight_eq_div_pow,
      Nat.shiftLeft_eq, Nat.mod_eq_of_lt (a := _ * 2 ^ 2) (by omega)]
    constructor
    · intro hself
      omega
    · rintro ⟨hfour, hself⟩
      omega

theorem keptFields_iff (settings : Settings) (bit : ℕ)
    (offsets : List UInt32) :
    (keptFields settings.maxBitCountOffset bit
        (offsets.map (shiftDown settings))).map (shiftUp settings) =
        offsets ↔
      ∀ i (hi : i < offsets.length),
        (settings.unalligned = false → offsets[i] % 4 = 0) ∧
          (shiftDown settings offsets[i]).toNat <
            2 ^ keptBits settings.maxBitCountOffset
              (bit + settings.maxBitCountOffset * i) := by
  induction offsets generalizing bit with
  | nil => simp [keptFields]
  | cons offset rest ih =>
    rw [map_cons, keptFields, map_cons, List.cons.injEq,
      shiftUp_shiftDown_iff settings offset (keptBits_le _ _), ih]
    constructor
    · rintro ⟨hfirst, hrest⟩ i hi
      cases i with
      | zero => simpa using hfirst
      | succ i =>
        have hnext := hrest i (by simpa using hi)
        have hplace : bit + settings.maxBitCountOffset * (i + 1) =
            bit + settings.maxBitCountOffset +
              settings.maxBitCountOffset * i := by
          ring
        rw [hplace]
        simpa using hnext
    · intro hall
      have hfirst := hall 0 (by simp)
      simp only [getElem_cons_zero, Nat.mul_zero, Nat.add_zero] at hfirst
      refine ⟨hfirst, ?_⟩
      intro i hi
      have hnext := hall (i + 1) (by simpa using hi)
      have hplace : bit + settings.maxBitCountOffset * (i + 1) =
          bit + settings.maxBitCountOffset +
            settings.maxBitCountOffset * i := by
        ring
      rw [hplace] at hnext
      simpa using hnext

theorem signExtend_setWidth_iff (offset : BitVec 64) :
    (offset.setWidth 32).signExtend 64 = offset ↔
      -2 ^ 31 ≤ offset.toInt ∧ offset.toInt < 2 ^ 31 := by
  have hlt := offset.isLt
  rw [← BitVec.toInt_inj, BitVec.toInt_signExtend_of_le (by decide),
    BitVec.toInt_setWidth, Int.bmod_def, BitVec.toInt_eq_toNat_cond]
  split <;> split <;> omega

theorem and_fieldMask_of_le (hwidth : 32 ≤ width) (value : BitVec 32) :
    value &&& fieldMask width = value := by
  apply BitVec.eq_of_getLsbD_eq
  intro j hj
  have hlt : j < width := by omega
  rw [BitVec.getLsbD_and, getLsbD_fieldMask]
  simp [hj, hlt]

theorem not_topBit_of_le (hwidth : 32 ≤ width ∧ width ≤ 33)
    (value : BitVec 32) :
    value.signExtend 64 >>> (width - 1) ≠ 1 := by
  intro htop
  have hnat : (value.signExtend 64).toNat / 2 ^ (width - 1) = 1 := by
    have htoNat := congrArg BitVec.toNat htop
    rw [BitVec.toNat_ushiftRight, Nat.shiftRight_eq_div_pow] at htoNat
    exact htoNat
  have hlt := value.isLt
  have hextended : (value.signExtend 64).toNat = value.toNat +
      if 2 ^ 31 ≤ value.toNat then 2 ^ 64 - 2 ^ 32 else 0 := by
    rw [BitVec.toNat_signExtend, BitVec.msb_eq_decide, BitVec.toNat_setWidth,
      Nat.mod_eq_of_lt (by omega)]
    simp only [decide_eq_true_eq]
  rw [hextended] at hnat
  have hcases : width = 32 ∨ width = 33 := by omega
  rcases hcases with rfl | rfl <;> split at hnat <;> omega

theorem topBit_iff (hwidth : 1 ≤ width ∧ width < 32) (value : BitVec 32) :
    (value &&& fieldMask width).signExtend 64 >>> (width - 1) = 1 ↔
      2 ^ (width - 1) ≤ value.toNat % 2 ^ width := by
  have hraw := and_fieldMask_toNat value (by omega : width ≤ 32)
  have hpow : 2 ^ width = 2 * 2 ^ (width - 1) := by
    rw [← pow_succ']
    congr 1
    omega
  have hpositive : 0 < 2 ^ (width - 1) := by positivity
  have hbound : value.toNat % 2 ^ width < 2 ^ width :=
    Nat.mod_lt _ (by positivity)
  have hsmall : 2 ^ width ≤ 2 ^ 31 :=
    Nat.pow_le_pow_right (by decide) (by omega)
  have hmsb : (value &&& fieldMask width).msb = false := by
    rw [BitVec.msb_eq_decide, hraw]
    simp only [decide_eq_false_iff_not]
    omega
  rw [← BitVec.toNat_inj, BitVec.toNat_ushiftRight, Nat.shiftRight_eq_div_pow,
    BitVec.toNat_signExtend, hmsb, BitVec.toNat_setWidth, hraw,
    Nat.mod_eq_of_lt (a := _ % 2 ^ width) (by omega)]
  simp only [Bool.false_eq_true, if_false, Nat.add_zero]
  change _ = 1 ↔ _
  constructor
  · intro hone
    by_contra hlt
    rw [Nat.div_eq_of_lt (by omega)] at hone
    omega
  · intro hle
    apply Nat.div_eq_of_lt_le
    · omega
    · omega

/-- A module number is read back when it has no bit above the field, apart from
-1, which is all that is left of a number with the top bit set. -/
theorem modulenr_iff (hone : 1 ≤ width) (hwidth : width ≤ 33)
    (moduleid : BitVec 32) :
    (if (moduleid &&& fieldMask width).signExtend 64 >>> (width - 1) = 1 then
        -1
      else
        moduleid &&& fieldMask width) = moduleid ↔
      32 ≤ width ∨ moduleid = -1 ∨ moduleid.toNat < 2 ^ (width - 1) := by
  by_cases hfull : 32 ≤ width
  · rw [and_fieldMask_of_le hfull, if_neg (not_topBit_of_le ⟨hfull, hwidth⟩ _)]
    simp [hfull]
  · have hnarrow : 1 ≤ width ∧ width < 32 := by omega
    have hraw := and_fieldMask_toNat moduleid (by omega : width ≤ 32)
    have hpow : 2 ^ (width - 1) ≤ 2 ^ width :=
      Nat.pow_le_pow_right (by decide) (by omega)
    simp only [topBit_iff hnarrow, hfull, false_or]
    by_cases htop : 2 ^ (width - 1) ≤ moduleid.toNat % 2 ^ width
    · rw [if_pos htop]
      constructor
      · intro hminus
        exact .inl hminus.symm
      · rintro (hminus | hsmall)
        · exact hminus.symm
        · rw [Nat.mod_eq_of_lt (by omega)] at htop
          omega
    · rw [if_neg htop, ← BitVec.toNat_inj, hraw]
      constructor
      · intro hself
        right
        omega
      · rintro (rfl | hsmall)
        · exfalso
          apply htop
          change 2 ^ (width - 1) ≤ 4294967295 % 2 ^ width
          obtain ⟨hlow, hhigh⟩ := hnarrow
          clear hraw hpow htop hfull hone hwidth
          interval_cases width <;> decide
        · exact Nat.mod_eq_of_lt (by omega)

theorem readModulenr_eq {settings : Settings}
    {buffer compressedEntry : Buffer} {path : WorkerPath settings}
    (hbuffer : SameBits (8 * settings.compressedEntrySize) buffer
      (compressEntry settings compressedEntry path)) :
    readModulenr settings buffer =
      if (path.moduleid.toBitVec &&&
          fieldMask settings.maxBitCountModuleIndex).signExtend 64 >>>
            (settings.maxBitCountModuleIndex - 1) = 1 then
        -1
      else
        path.moduleid.toBitVec &&&
          fieldMask settings.maxBitCountModuleIndex := by
  unfold readModulenr
  dsimp only
  rw [load_module_eq hbuffer]
  split
  · split
    · rfl
    · rename_i hminus
      exact not_not.mp hminus
  · rfl

def OffsetFits (settings : Settings) (path : WorkerPath settings) (i : ℕ) :
    Prop :=
  (settings.unalligned = false → path.tempresults i % 4 = 0) ∧
    (shiftDown settings (path.tempresults i)).toNat <
      2 ^ keptBits settings.maxBitCountOffset (settings.offsetsBit +
        settings.maxBitCountOffset * (i - settings.endCount))

/-- Every field of the path fits in the bits it is given. -/
structure FitsRecord (settings : Settings) (path : WorkerPath settings) :
    Prop where
  moduleoffset : settings.maxBitCountModuleOffset = 32 →
    -2 ^ 31 ≤ path.offset.toInt64.toInt ∧ path.offset.toInt64.toInt < 2 ^ 31
  modulenr : 32 ≤ settings.maxBitCountModuleIndex ∨ path.moduleid = -1 ∨
    path.moduleid.toNat < 2 ^ (settings.maxBitCountModuleIndex - 1)
  offsetcount : path.level + 1 - settings.endCount <
    2 ^ keptBits settings.maxBitCountLevel settings.levelBit
  ends : (firstEntries path.tempresults (path.level + 1)).take
    settings.endCount = settings.mustendwithoffsetlist
  offsets : ∀ i, settings.endCount ≤ i → i ≤ path.level →
    OffsetFits settings path i

section

variable {settings : Settings} {buffer compressedEntry : Buffer}
  {path : WorkerPath settings}

theorem offsets_iff :
    (keptFields settings.maxBitCountOffset settings.offsetsBit
        (((firstEntries path.tempresults (path.level + 1)).drop
          settings.endCount).map (shiftDown settings))).map
            (shiftUp settings) =
        (firstEntries path.tempresults (path.level + 1)).drop
          settings.endCount ↔
      ∀ i, settings.endCount ≤ i → i ≤ path.level →
        OffsetFits settings path i := by
  rw [keptFields_iff]
  constructor
  · intro hall i hfirst hlast
    have hi := hall (i - settings.endCount) (by simp; omega)
    simpa [OffsetFits, firstEntries, hfirst] using hi
  · intro hall k hk
    have hlength : k < path.level + 1 - settings.endCount := by
      simpa using hk
    have hi := hall (settings.endCount + k) (by omega) (by omega)
    simpa [OffsetFits, firstEntries] using hi

section

variable (hbuffer : SameBits (8 * settings.compressedEntrySize) buffer
      (compressEntry settings compressedEntry path))

include hbuffer

theorem moduleoffset_iff :
    UInt64.ofBitVec (readModuleoffset settings buffer) = path.offset ↔
      (settings.maxBitCountModuleOffset = 32 →
        -2 ^ 31 ≤ path.offset.toInt64.toInt ∧
          path.offset.toInt64.toInt < 2 ^ 31) := by
  have htoInt : path.offset.toInt64.toInt = path.offset.toBitVec.toInt := rfl
  rw [readModuleoffset_eq hbuffer, ← UInt64.toBitVec_inj, htoInt]
  split
  case isTrue hnarrow =>
    simp only [hnarrow, forall_const]
    exact signExtend_setWidth_iff path.offset.toBitVec
  case isFalse hwide => simp [hwide]

theorem readModulenr_iff :
    UInt32.ofBitVec (readModulenr settings buffer) = path.moduleid ↔
      32 ≤ settings.maxBitCountModuleIndex ∨ path.moduleid = -1 ∨
        path.moduleid.toNat < 2 ^ (settings.maxBitCountModuleIndex - 1) := by
  obtain ⟨hone, hwidth⟩ := settings.maxBitCountModuleIndex_bounds
  rw [readModulenr_eq hbuffer, ← UInt32.toBitVec_inj,
    ← UInt32.toBitVec_inj (a := path.moduleid) (b := -1)]
  exact modulenr_iff hone hwidth path.moduleid.toBitVec

theorem readEntry_iff (hends : settings.endCount ≤ path.level + 1) :
    readEntry settings buffer = path.result ↔ FitsRecord settings path := by
  have hcount := readField_count hbuffer
  have hsplit := take_append_drop settings.endCount
    (firstEntries path.tempresults (path.level + 1))
  have hlength : settings.mustendwithoffsetlist.length =
      ((firstEntries path.tempresults (path.level + 1)).take
        settings.endCount).length := by
    rw [length_take, firstEntries_length]
    exact (min_eq_left hends).symm
  have hcounted : path.level + 1 - settings.endCount <
      2 ^ keptBits settings.maxBitCountLevel settings.levelBit →
        (readField buffer settings.maxBitCountLevel settings.levelBit).toNat =
          path.level + 1 - settings.endCount := by
    intro hfits
    rw [hcount, Nat.mod_eq_of_lt hfits]
  have hoffsets : path.level + 1 - settings.endCount <
      2 ^ keptBits settings.maxBitCountLevel settings.levelBit →
        ((readEntry settings buffer).offsets = path.result.offsets ↔
          (firstEntries path.tempresults (path.level + 1)).take
              settings.endCount = settings.mustendwithoffsetlist ∧
            ∀ i, settings.endCount ≤ i → i ≤ path.level →
              OffsetFits settings path i) := by
    intro hfits
    simp only [readEntry, WorkerPath.result, hcounted hfits,
      readFields_offsets hbuffer]
    conv_lhs => rhs; rw [← hsplit]
    rw [← offsets_iff]
    constructor
    · intro happend
      obtain ⟨hfirst, hrest⟩ := append_inj happend hlength
      exact ⟨hfirst.symm, hrest⟩
    · rintro ⟨hfirst, hrest⟩
      rw [hfirst, hrest]
  constructor
  · intro hread
    have hcountEq : (readField buffer settings.maxBitCountLevel
        settings.levelBit).toNat + settings.endCount = path.level + 1 :=
      congrArg PointerscanResult.offsetcount hread
    have hfits : path.level + 1 - settings.endCount <
        2 ^ keptBits settings.maxBitCountLevel settings.levelBit := by
      have hlt := Nat.mod_lt (path.level + 1 - settings.endCount)
        (by positivity : 0 < 2 ^ keptBits settings.maxBitCountLevel
          settings.levelBit)
      omega
    obtain ⟨hfirst, hrest⟩ :=
      (hoffsets hfits).mp (congrArg PointerscanResult.offsets hread)
    exact ⟨(moduleoffset_iff hbuffer).mp
        (congrArg PointerscanResult.moduleoffset hread),
      (readModulenr_iff hbuffer).mp
        (congrArg PointerscanResult.modulenr hread), hfits, hfirst, hrest⟩
  · intro hfits
    have hcountEq : (readEntry settings buffer).offsetcount =
        path.result.offsetcount := by
      simp only [readEntry, WorkerPath.result, hcounted hfits.offsetcount]
      omega
    rw [PointerscanResult.mk.injEq]
    exact ⟨(readModulenr_iff hbuffer).mpr hfits.modulenr,
      (moduleoffset_iff hbuffer).mpr hfits.moduleoffset, hcountEq,
      (hoffsets hfits.offsetcount).mpr ⟨hfits.ends, hfits.offsets⟩⟩

end

theorem reads_castEntry (path : WorkerPath settings) :
    Reads (castEntry settings)
      (writeDWord path.moduleid ++ (writeQWord path.offset ++
        (writeDWord (UInt32.ofNat (path.level + 1)) ++
          (firstEntries path.tempresults settings.maxlevel).flatMap
            writeDWord)))
      path.result := by
  have hlevel := path.level_lt
  have hmax := settings.maxlevel_lt
  have hcount : (UInt32.ofNat (path.level + 1)).toNat = path.level + 1 := by
    rw [UInt32.toNat_ofNat', Nat.mod_eq_of_lt (by omega)]
  have harray : Reads (readMany readDWord settings.maxlevel)
      ((firstEntries path.tempresults settings.maxlevel).flatMap writeDWord)
      (firstEntries path.tempresults settings.maxlevel) := by
    have hread := reads_readMany reads_readDWord
      (firstEntries path.tempresults settings.maxlevel)
    rwa [firstEntries_length] at hread
  have hused : (firstEntries path.tempresults settings.maxlevel).take
      (path.level + 1) = firstEntries path.tempresults (path.level + 1) := by
    rw [firstEntries, ← map_take, take_range, Nat.min_eq_left (by omega)]
    rfl
  have hresult : path.result =
      { modulenr := path.moduleid
        moduleoffset := path.offset
        offsetcount := (UInt32.ofNat (path.level + 1)).toNat
        offsets := (firstEntries path.tempresults settings.maxlevel).take
          (UInt32.ofNat (path.level + 1)).toNat } := by
    rw [hcount, hused]
    rfl
  rw [hresult]
  exact (reads_readDWord _).bind ((reads_readQWord _).bind
    ((reads_readDWord _).bind harray.bind_pure))

theorem getPointer_of_compressed (hcompressed : settings.compressedptr = true)
    (hends : settings.endCount ≤ path.level + 1) (stale : Buffer) :
    (∀ record ∈ storePath settings compressedEntry path,
      getPointer settings stale record = .ok path.result) ↔
      FitsRecord settings path := by
  have hstored : storePath settings compressedEntry path =
      some (firstBytes (compressEntry settings compressedEntry path)
        settings.compressedEntrySize) := by
    rw [storePath, if_pos hcompressed, if_neg (by omega)]
  rw [hstored, ← readEntry_iff (sameBits_firstBytes
    (compressEntry settings compressedEntry path) stale
    settings.compressedEntrySize) hends]
  simp only [Option.mem_def, Option.some.injEq, forall_eq', getPointer,
    hcompressed, if_true, Except.ok.injEq]

end

theorem getPointer_storePath_iff (settings : Settings)
    (compressedEntry compressedTempBuffer : Buffer)
    (path : WorkerPath settings) :
    (∀ record ∈ storePath settings compressedEntry path,
      getPointer settings compressedTempBuffer record = .ok path.result) ↔
      (settings.compressedptr = true →
        settings.endCount ≤ path.level + 1 → FitsRecord settings path) := by
  cases hcompressed : settings.compressedptr with
  | true =>
    by_cases hends : settings.endCount ≤ path.level + 1
    · rw [getPointer_of_compressed hcompressed hends]
      simp only [hends, forall_const]
    · have hnone : storePath settings compressedEntry path = none := by
        rw [storePath, if_pos hcompressed, if_pos (by omega)]
      simp [hnone, hends]
  | false =>
    have hread := reads_castEntry path []
    rw [append_nil] at hread
    simp only [storePath, getPointer, hcompressed, Bool.false_eq_true,
      if_false, Option.mem_def, Option.some.injEq, forall_eq', hread,
      false_implies, iff_true]
    rfl

theorem one_lt_maxint : 1 < 2 ^ 31 := by
  norm_num

def alignedSettings : Settings where
  compressedptr := true
  unalligned := false
  maxlevel := 1
  sz := 2048
  mustendwithoffsetlist := []
  modulecount := 1
  is64bit := false
  staticonly := true
  canHaveStatic := false
  maxlevel_lt := one_lt_maxint
  sz_ge := by decide

/-- A scan for $1001 with a pointer to $1000 at the start of the module. -/
def oddPath : WorkerPath alignedSettings where
  tempresults := fun _ => 1
  level := 0
  moduleid := 0
  offset := 0x10
  level_lt := by decide

theorem aligned_record_loses_low_bits :
    ¬ ∀ record ∈ storePath alignedSettings (fun _ => 0) oddPath,
      getPointer alignedSettings (fun _ => 0) record = .ok oddPath.result := by
  rw [getPointer_of_compressed rfl (by decide)]
  intro hfits
  exact absurd ((hfits.offsets 0 (by decide) (by decide)).1 rfl) (by decide)

end Record
end Pointerscan
end CheatEngine
