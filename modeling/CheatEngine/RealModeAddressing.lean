import CheatEngine.RealModeGuest

/-!
# Effective addresses of the real-mode emulator

The memory operands of the processor with 16-bit and with 32-bit addresses,
and for which of them `handleMODRM` finds the address and the length.
-/

namespace CheatEngine
namespace RealMode

open X86Addressing

def pair16 : ℕ → List ℕ
  | 0 => [3, 6]
  | 1 => [3, 7]
  | 2 => [5, 6]
  | 3 => [5, 7]
  | 4 => [6]
  | 5 => [7]
  | 6 => [5]
  | _ => [3]

/-- The segment is the one without an override, the length counts from the
ModRM byte on. -/
structure Effective where
  segment : ℕ
  offset : ℤ
  length : ℕ

def registerSum (guest : Guest) (numbers : List ℕ) : ℤ :=
  (numbers.map fun number => ((guest.register number).toNat : ℤ)).sum

def effective16 (guest : Guest) (bytes : ℕ → UInt8) (place mod rm : ℕ) :
    Effective :=
  let numbers := if mod = 0 ∧ rm = 6 then [] else pair16 rm
  let displacement : ℤ × ℕ :=
    if mod = 1 then (signed 8 (bytes place).toNat, 1)
    else if mod = 2 ∨ rm = 6 then (signed 16 (wordAt bytes place).toNat, 2)
    else (0, 0)
  { segment := if 5 ∈ numbers then ss else ds
    offset := (registerSum guest numbers + displacement.1) % 2 ^ 16
    length := 1 + displacement.2 }

def effective32 (guest : Guest) (bytes : ℕ → UInt8) (place mod rm : ℕ) :
    Effective :=
  let address := decodeAddress false false false mod rm bytes place
  { segment := if address.1.base = some 4 ∨ address.1.base = some 5 then ss
      else ds
    offset := address.1.effective
      (fun number => ((guest.register number).toNat : ℤ)) 0 32
    length := 1 + address.2 }

def effective (guest : Guest) (start : InstructionData) : Effective :=
  if start.addresssize then
    effective32 guest start.instruction (start.size + 1)
      (highField start.byte) (lowField start.byte)
  else
    effective16 guest start.instruction (start.size + 1)
      (highField start.byte) (lowField start.byte)

def linear (guest : Guest) (segment : Option ℕ) (operand : Effective) : ℤ :=
  (guest.base (segment.getD operand.segment)).toNat + operand.offset

def Found (guest : Guest) (segment : Option ℕ) (operand : Effective)
    (start after : InstructionData) : Prop :=
  (after.address.toNat : ℤ) = linear guest segment operand ∧
    after.size = start.size + operand.length

/-- `handleMODRM` finds the operand, or it reports an error. -/
def Resolves (guest : Guest) (start : InstructionData)
    (segment : Option ℕ) : Prop :=
  (handleMODRM guest start).error = true ∨
    if highField start.byte = 3 then
      (handleMODRM guest start).opperand2 = some (lowField start.byte) ∧
        (handleMODRM guest start).size = start.size + 1
    else
      Found guest segment (effective guest start) start
        (handleMODRM guest start)

/-- With 16-bit addresses BX and BP forms without a register after them are
right for one segment, and with a displacement of 16 bits nothing may reach
64 KB. -/
def Fits16 (guest : Guest) (segment : Option ℕ) (bytes : ℕ → UInt8)
    (place mod rm : ℕ) : Prop :=
  match mod with
  | 0 => rm = 2 ∨ rm = 3 → guest.base ss = guest.base (segment.getD ss)
  | 1 => (rm = 2 ∨ rm = 3 → guest.base ss = guest.base (segment.getD ss)) ∧
      (rm = 6 → guest.base (segment.getD ds) = guest.base (segment.getD ss))
  | _ =>
    let operand := effective16 guest bytes place 2 rm
    let used := if rm = 6 then ss else segment.getD ds
    linear guest segment operand < 65536 ∧
      (guest.base used).toNat % 65536 =
        (guest.base (segment.getD operand.segment)).toNat % 65536

/-- The sum of a SIB byte with the index registers of `handleSIB`. -/
def sibSum (guest : Guest) (bytes : ℕ → UInt8) (place mod : ℕ) : ℤ :=
  let sib := bytes place
  (if mod = 0 ∧ lowField sib = 5 then
    (X86Addressing.dword bytes (place + 1) : ℤ)
    else (guest.register (lowField sib)).toNat) +
  (if middleField sib = 4 then 0
    else (sibIndexRegister guest (middleField sib)).toNat *
      2 ^ highField sib)

/-- What `handleSIB` leaves out: the segment base, and the index register
where it takes another one. -/
def sibMissed (guest : Guest) (segment : Option ℕ) (bytes : ℕ → UInt8)
    (place mod : ℕ) : ℤ :=
  let sib := bytes place
  (guest.base (segment.getD
    (effective32 guest bytes place mod 4).segment)).toNat +
    if middleField sib = 4 then 0
    else ((guest.register (middleField sib)).toNat -
      (sibIndexRegister guest (middleField sib)).toNat : ℤ) *
        2 ^ highField sib

/-- With a SIB byte nothing may be left out but whole turns of 4 GB, and with
a displacement of 8 bits the SIB byte, which is added instead, has to be the
displacement as well; the other forms add the ModRM byte, but for EAX, and the
base of DS. -/
def Fits32 (guest : Guest) (segment : Option ℕ) (bytes : ℕ → UInt8)
    (place mod rm : ℕ) : Prop :=
  let address := linear guest segment (effective32 guest bytes place mod rm)
  match mod with
  | 0 => rm = 4 →
      address < 2 ^ 32 ∧ 2 ^ 32 ∣ sibMissed guest segment bytes place 0
  | 1 =>
    if rm = 4 then
      let added := signed 8 (bytes place).toNat
      0 ≤ address - added ∧ address - added < 2 ^ 32 ∧
        2 ^ 32 ∣ sibMissed guest segment bytes place 1 +
          (signed 8 (bytes (place + 1)).toNat - added)
    else
      let register : ℤ := (guest.register rm).toNat % 2 ^ 32
      let displacement := signed 8 (bytes place).toNat
      if rm = 0 then
        0 ≤ register + displacement ∧ register + displacement < 2 ^ 32
      else
        let added : ℤ := (bytes (place - 1)).toNat
        let base : ℤ := (guest.base (segment.getD
          (if rm = 5 then ss else ds))).toNat
        if base = (guest.base (segment.getD ds)).toNat then
          displacement = added ∧ register + added < 2 ^ 32
        else
          base + (register + displacement) % 2 ^ 32 =
            (guest.base (segment.getD ds)).toNat + register + added
  | _ => False

def AddressFits (guest : Guest) (start : InstructionData)
    (segment : Option ℕ) : Prop :=
  highField start.byte = 3 ∨
    if start.addresssize then
      Fits32 guest segment start.instruction (start.size + 1)
        (highField start.byte) (lowField start.byte)
    else
      Fits16 guest segment start.instruction (start.size + 1)
        (highField start.byte) (lowField start.byte)

section

variable {guest : Guest} {mod : ℕ}

theorem base_lt (guest : Guest) (segmentnr : ℕ) :
    (guest.base segmentnr).toNat < 2 ^ 32 := by
  rw [Guest.base, UInt32.toNat_toUInt64]
  exact (guest.segment segmentnr).base.toNat_lt

theorem charValue_toNat (byte : UInt8) :
    ((charValue byte).toNat : ℤ) = signed 8 byte.toNat % 2 ^ 64 := by
  have hlt := byte.toNat_lt
  have hborder : (0x80 : UInt8).toNat = 128 := by decide
  have hrange : (0x100 : UInt64).toNat = 256 := by decide
  rw [charValue, signed]
  split
  case isTrue hsmall =>
    rw [UInt8.lt_iff_toNat_lt, hborder] at hsmall
    rw [if_pos (by omega), UInt8.toNat_toUInt64]
    omega
  case isFalse hlarge =>
    rw [UInt8.lt_iff_toNat_lt, hborder] at hlarge
    rw [if_neg (by omega), UInt64.toNat_sub, UInt8.toNat_toUInt64, hrange]
    omega

theorem shortValue_toNat (word : UInt16) :
    ((shortValue word).toNat : ℤ) = signed 16 word.toNat % 2 ^ 64 := by
  have hlt := word.toNat_lt
  have hborder : (0x8000 : UInt16).toNat = 32768 := by decide
  have hrange : (0x10000 : UInt64).toNat = 65536 := by decide
  rw [shortValue, signed]
  split
  case isTrue hsmall =>
    rw [UInt16.lt_iff_toNat_lt, hborder] at hsmall
    rw [if_pos (by omega), UInt16.toNat_toUInt64]
    omega
  case isFalse hlarge =>
    rw [UInt16.lt_iff_toNat_lt, hborder] at hlarge
    rw [if_neg (by omega), UInt64.toNat_sub, UInt16.toNat_toUInt64, hrange]
    omega

theorem registers16_emod (guest : Guest) (rm : ℕ) :
    ((registers16 guest rm).toNat : ℤ) % 2 ^ 16 =
      registerSum guest (pair16 rm) % 2 ^ 16 := by
  rcases rm with _ | _ | _ | _ | _ | _ | _ | rm <;>
    simp only [registers16, pair16, registerSum, Guest.register,
      UInt64.toNat_add, List.map_cons, List.map_nil, List.sum_cons,
      List.sum_nil] <;> omega

end

/-! ## 16-bit addresses -/

section

variable {guest : Guest} {start : InstructionData} {segment : Option ℕ}

theorem five_mem_pair16_iff (rm : ℕ) :
    5 ∈ pair16 rm ↔ rm = 2 ∨ rm = 3 ∨ rm = 6 := by
  rcases rm with _ | _ | _ | _ | _ | _ | _ | rm <;> simp [pair16]

/-- With the offset in a word only the segments are to be compared. -/
theorem masked_iff {used : ℕ} {sum : UInt64} {operand : Effective}
    (hoffset : operand.offset = (sum.toNat : ℤ) % 2 ^ 16) :
    ((guest.base used + (sum &&& 0xffff)).toNat : ℤ) =
        linear guest segment operand ↔
      guest.base used = guest.base (segment.getD operand.segment) := by
  have hused := base_lt guest used
  rw [linear, hoffset, UInt64.toNat_add, toNat_and_word, ← UInt64.toNat_inj]
  omega

theorem usedBase_eq (hbase : start.segmentbase = guest.base (segment.getD ds))
    (condition : Prop) [Decidable condition] :
    (if condition then guest.base ss else start.segmentbase) =
      guest.base (if condition then ss else segment.getD ds) := by
  rw [hbase]
  split
  · rfl
  · rfl

variable {bytes : ℕ → UInt8} {place : ℕ}

theorem effective16_0 {rm : ℕ} (hrm : rm ≠ 6) :
    effective16 guest bytes place 0 rm =
      ⟨if rm = 2 ∨ rm = 3 then ss else ds,
        registerSum guest (pair16 rm) % 2 ^ 16, 1⟩ := by
  simp [effective16, hrm, five_mem_pair16_iff]

theorem effective16_word :
    effective16 guest bytes place 0 6 =
      ⟨ds, signed 16 (wordAt bytes place).toNat % 2 ^ 16, 3⟩ := by
  simp [effective16, registerSum]

theorem effective16_1 {rm : ℕ} :
    effective16 guest bytes place 1 rm =
      ⟨if rm = 2 ∨ rm = 3 ∨ rm = 6 then ss else ds,
        (registerSum guest (pair16 rm) + signed 8 (bytes place).toNat) %
          2 ^ 16, 2⟩ := by
  simp [effective16, five_mem_pair16_iff]

theorem effective16_2 {rm : ℕ} :
    effective16 guest bytes place 2 rm =
      ⟨if rm = 2 ∨ rm = 3 ∨ rm = 6 then ss else ds,
        (registerSum guest (pair16 rm) +
          signed 16 (wordAt bytes place).toNat) % 2 ^ 16, 3⟩ := by
  simp [effective16, five_mem_pair16_iff]

theorem found16_0_iff (haddress : start.addresssize = false)
    (hmod : highField start.byte = 0)
    (hbase : start.segmentbase = guest.base (segment.getD ds)) :
    Found guest segment (effective16 guest start.instruction
        (start.size + 1) 0 (lowField start.byte)) start
        (handleMODRM guest start) ↔
      Fits16 guest segment start.instruction (start.size + 1) 0
        (lowField start.byte) := by
  have haddress' : ((start.skip 1).setOpperand
      (middleField start.byte)).addresssize = false := haddress
  rw [handleMODRM]
  simp only [haddress', hmod]
  split
  case isTrue hrm =>
    have hword := (wordAt start.instruction (start.size + 1)).toNat_lt
    have hlt := base_lt guest (segment.getD ds)
    have hoffset := signed_emod 16
      (wordAt start.instruction (start.size + 1)).toNat
    rw [hrm, effective16_word]
    refine iff_of_true ⟨?_, rfl⟩ fun hbp => by omega
    change ((start.segmentbase +
      (wordAt start.instruction (start.size + 1)).toUInt64).toNat : ℤ) = _
    rw [linear, hbase, UInt64.toNat_add, UInt16.toNat_toUInt64]
    simp only [hoffset]
    omega
  case isFalse hrm =>
    rw [effective16_0 hrm]
    refine (and_iff_left rfl).trans ?_
    have hsum := registers16_emod guest (lowField start.byte)
    have hused := usedBase_eq hbase
      (lowField start.byte = 2 ∨ lowField start.byte = 3)
    change (((if _ then guest.base ss else start.segmentbase) + _).toNat : ℤ) =
      _ ↔ _
    rw [hused, masked_iff hsum.symm, Fits16]
    by_cases hbp : lowField start.byte = 2 ∨ lowField start.byte = 3
    · simp only [hbp, if_true, forall_const]
    · simp only [hbp, if_false, false_imp_iff]

theorem found16_1_iff (haddress : start.addresssize = false)
    (hmod : highField start.byte = 1)
    (hbase : start.segmentbase = guest.base (segment.getD ds)) :
    Found guest segment (effective16 guest start.instruction
        (start.size + 1) 1 (lowField start.byte)) start
        (handleMODRM guest start) ↔
      Fits16 guest segment start.instruction (start.size + 1) 1
        (lowField start.byte) := by
  have haddress' : ((start.skip 1).setOpperand
      (middleField start.byte)).addresssize = false := haddress
  have hsum := registers16_emod guest (lowField start.byte)
  have hchar := charValue_toNat (start.instruction (start.size + 1))
  have hoffset : (registerSum guest (pair16 (lowField start.byte)) +
      signed 8 (start.instruction (start.size + 1)).toNat) % 2 ^ 16 =
      ((registers16 guest (lowField start.byte) +
        charValue (start.instruction (start.size + 1))).toNat : ℤ) %
          2 ^ 16 := by
    rw [UInt64.toNat_add]
    omega
  have hused := usedBase_eq hbase
    (lowField start.byte = 2 ∨ lowField start.byte = 3)
  rw [handleMODRM]
  simp only [haddress', hmod]
  rw [effective16_1]
  refine (and_iff_left rfl).trans ?_
  change (((if _ then guest.base ss else start.segmentbase) + _).toNat : ℤ) =
    _ ↔ _
  rw [hused, masked_iff hoffset, Fits16]
  by_cases hbp : lowField start.byte = 2 ∨ lowField start.byte = 3
  · have hrm : lowField start.byte ≠ 6 := by omega
    simp only [hbp, hrm, or_false, if_true, forall_const, false_imp_iff,
      and_true]
  · by_cases hrm : lowField start.byte = 6
    · simp only [hrm, or_true, if_true, forall_const]
      simp
    · have hnone : ¬ (lowField start.byte = 2 ∨ lowField start.byte = 3 ∨
          lowField start.byte = 6) := by omega
      rw [if_neg hbp, if_neg hnone]
      exact iff_of_true rfl
        ⟨fun hsame => absurd hsame hbp, fun hsame => absurd hsame hrm⟩

theorem found16_2_iff (haddress : start.addresssize = false)
    (hmod : highField start.byte = 2)
    (hbase : start.segmentbase = guest.base (segment.getD ds)) :
    Found guest segment (effective16 guest start.instruction
        (start.size + 1) 2 (lowField start.byte)) start
        (handleMODRM guest start) ↔
      Fits16 guest segment start.instruction (start.size + 1) 2
        (lowField start.byte) := by
  have haddress' : ((start.skip 1).setOpperand
      (middleField start.byte)).addresssize = false := haddress
  have hsum := registers16_emod guest (lowField start.byte)
  have hshort := shortValue_toNat (wordAt start.instruction (start.size + 1))
  have hused := usedBase_eq hbase (lowField start.byte = 6)
  rw [handleMODRM]
  simp only [haddress', hmod]
  rw [Fits16, effective16_2]
  refine (and_iff_left rfl).trans ?_
  change ((((if lowField start.byte = 6 then guest.base ss
      else start.segmentbase) + _) &&& _).toNat : ℤ) = _ ↔ _
  have hword : ((start.skip 1).setOpperand (middleField start.byte)).word =
      wordAt start.instruction (start.size + 1) := rfl
  rw [hused, linear, hword, toNat_and_word, UInt64.toNat_add, UInt64.toNat_add]
  dsimp only
  omega
  · decide
  · decide

end

/-! ## 32-bit addresses -/

section

variable {guest : Guest} {id start : InstructionData} {segment : Option ℕ}

theorem toNat_and_dword (value : UInt64) :
    (value &&& 0xffffffff).toNat = value.toNat % 2 ^ 32 := by
  have hmask : (0xffffffff : UInt64).toNat = 2 ^ 32 - 1 := by decide
  rw [UInt64.toNat_and, hmask, Nat.and_two_pow_sub_one_eq_mod]

theorem setAddress_instruction (id : InstructionData) (address : UInt64) :
    (id.setAddress address).instruction = id.instruction :=
  rfl

theorem setAddress_size (id : InstructionData) (address : UInt64) :
    (id.setAddress address).size = id.size :=
  rfl

variable (bytes : ℕ → UInt8)

theorem dwordAt_eq (place : ℕ) :
    (dwordAt bytes place).toNat = X86Addressing.dword bytes place :=
  UInt32.toNat_ofNat_of_lt' (dword_lt bytes place)

def sibBase (guest : Guest) (bytes : ℕ → UInt8) (place mod : ℕ) : ℕ :=
  if mod = 0 ∧ lowField (bytes place) = 5 then
    X86Addressing.dword bytes (place + 1)
  else (guest.register (lowField (bytes place))).toNat

theorem getSIBBase_spec (guest : Guest) (id : InstructionData) (mod : ℕ) :
    (getSIBBase guest (id.skip 1) mod (lowField id.byte)).2.toNat =
        sibBase guest id.instruction id.size mod % 2 ^ 32 ∧
      (getSIBBase guest (id.skip 1) mod (lowField id.byte)).1.size =
        id.size + 1 + (if mod = 0 ∧ lowField id.byte = 5 then 4 else 0) ∧
      (getSIBBase guest (id.skip 1) mod
        (lowField id.byte)).1.instruction = id.instruction := by
  have hbyte : id.instruction id.size = id.byte := rfl
  rw [sibBase, hbyte]
  by_cases hfive : lowField id.byte = 5
  · rw [hfive]
    by_cases hmod : mod = 0
    · subst hmod
      rw [getSIBBase_displacement, if_pos ⟨rfl, rfl⟩, if_pos ⟨rfl, rfl⟩,
        setAddress_size, setAddress_instruction]
      refine ⟨?_, rfl, rfl⟩
      have hlt := dword_lt id.instruction (id.size + 1)
      rw [Nat.mod_eq_of_lt hlt]
      exact dwordAt_eq id.instruction (id.size + 1)
    · rw [getSIBBase_rbp hmod, if_neg fun hboth => hmod hboth.1,
        if_neg fun hboth => hmod hboth.1, setAddress_size,
        setAddress_instruction]
      exact ⟨UInt64.toNat_toUInt32 _, rfl, rfl⟩
  · rw [getSIBBase_other guest (id.skip 1) mod hfive,
      if_neg fun hboth => hfive hboth.2, if_neg fun hboth => hfive hboth.2]
    exact ⟨UInt64.toNat_toUInt32 _, rfl, rfl⟩

theorem handleSIB_spec (guest : Guest) (mod : ℕ)
    (hindex : middleField id.byte ≠ 7) :
    ((handleSIB guest id mod).2.toNat : ℤ) =
        sibSum guest id.instruction id.size mod % 2 ^ 32 ∧
      (handleSIB guest id mod).1.size = id.size + 1 +
        (if mod = 0 ∧ lowField id.byte = 5 then 4 else 0) ∧
      (handleSIB guest id mod).1.instruction = id.instruction := by
  have hbyte : id.instruction id.size = id.byte := rfl
  obtain ⟨hvalue, hsize, hinstruction⟩ := getSIBBase_spec guest id mod
  have hsum : sibSum guest id.instruction id.size mod =
      (sibBase guest id.instruction id.size mod : ℤ) +
        if middleField id.byte = 4 then 0
        else (sibIndexRegister guest (middleField id.byte)).toNat *
          2 ^ highField id.byte := by
    rw [sibSum, sibBase, hbyte]
    split
    · rfl
    · rfl
  rw [hsum, handleSIB]
  split
  case h_1 hfour =>
    refine ⟨?_, hsize, hinstruction⟩
    rw [if_pos hfour, hvalue]
    omega
  case h_2 hseven => exact absurd hseven hindex
  case h_3 hfour _ =>
    refine ⟨?_, hsize, hinstruction⟩
    have hscale : (UInt64.ofNat (2 ^ highField id.byte)).toNat =
        2 ^ highField id.byte := by
      have hlt : 2 ^ highField id.byte < 2 ^ 4 :=
        Nat.pow_lt_pow_right (by decide) (highField_lt id.byte)
      exact UInt64.toNat_ofNat_of_lt' (by change _ < 2 ^ 64; omega)
    rw [if_neg hfour, UInt32.toNat_add, UInt64.toNat_toUInt32,
      UInt64.toNat_mul, hscale, hvalue]
    push_cast
    omega

theorem effective32_length (place mod rm : ℕ) :
    (effective32 guest bytes place mod rm).length =
      1 + (decodeAddress false false false mod rm bytes place).2 :=
  rfl

theorem effective32_displacement (place : ℕ) :
    effective32 guest bytes place 0 5 =
      ⟨ds, X86Addressing.dword bytes place, 5⟩ := by
  have hlt := dword_lt bytes place
  have hoffset : signed 32 (X86Addressing.dword bytes place) % 2 ^ 32 =
      X86Addressing.dword bytes place := by
    rw [signed_emod]
    omega
  simp [effective32, decodeAddress, Address.effective, Address.sum,
    -Int.reducePow, hoffset]

/-- The default segment and the offset of a base with a displacement. -/
theorem linear32_base {bytes : ℕ → UInt8} {place mod rm : ℕ}
    (hsib : rm ≠ 4) (hdisplacement : ¬ (mod = 0 ∧ rm = 5)) :
    linear guest segment (effective32 guest bytes place mod rm) =
      (guest.base (segment.getD (if rm = 5 then ss else ds))).toNat +
        ((guest.register rm).toNat + (modDisplacement mod bytes place).1) %
          2 ^ 32 := by
  have hdecoded : decodeAddress false false false mod rm bytes place =
      (⟨some rm, none, (modDisplacement mod bytes place).1, false⟩,
        (modDisplacement mod bytes place).2) := by
    rw [decodeAddress, if_neg hsib, if_neg hdisplacement]
    rfl
  have hsegment : (effective32 guest bytes place mod rm).segment =
      if rm = 5 then ss else ds := by
    rw [effective32, hdecoded]
    simp only [Option.some.injEq, hsib, false_or]
  rw [linear, hsegment, effective32, hdecoded]
  simp [Address.effective, Address.sum]

theorem linear32_bounds (bytes : ℕ → UInt8) (place mod rm : ℕ) :
    0 ≤ linear guest segment (effective32 guest bytes place mod rm) ∧
      linear guest segment (effective32 guest bytes place mod rm) <
        2 ^ 33 := by
  have hbase := base_lt guest (segment.getD
    (effective32 guest bytes place mod rm).segment)
  have hlow : 0 ≤ (effective32 guest bytes place mod rm).offset :=
    Int.emod_nonneg _ (by decide)
  have hhigh : (effective32 guest bytes place mod rm).offset < 2 ^ 32 :=
    Int.emod_lt_of_pos _ (by decide)
  rw [linear]
  omega

theorem emod_eq_iff_dvd {sum rest : ℤ} :
    sum % 2 ^ 32 = rest ↔
      0 ≤ rest ∧ rest < 2 ^ 32 ∧ 2 ^ 32 ∣ rest - sum := by
  omega

theorem dvd_linear32_sib (bytes : ℕ → UInt8) (place mod : ℕ) :
    2 ^ 32 ∣ linear guest segment (effective32 guest bytes place mod 4) -
      sibSum guest bytes place mod -
      (sibMissed guest segment bytes place mod +
        (modDisplacement mod bytes (place + 1)).1) := by
  have hdword := signed_emod 32 (X86Addressing.dword bytes (place + 1))
  rw [linear, sibMissed, sibSum]
  generalize (guest.base (segment.getD
    (effective32 guest bytes place mod 4).segment)).toNat = base
  rw [effective32, decodeAddress, if_pos rfl, sibIndex]
  have hfield : ∀ field : ℕ, extend false field = field := fun _ => rfl
  simp only [hfield, Address.effective, Address.sum]
  by_cases hplain : mod = 0 ∧ lowField (bytes place) = 5
  · obtain ⟨rfl, hfive⟩ := hplain
    simp only [hfive, and_self, if_true, modDisplacement]
    split <;> norm_num [sub_mul] at hdword ⊢ <;> omega
  · simp only [if_neg hplain]
    split <;> norm_num [sub_mul] <;> omega

theorem found32_0_iff (haddress : start.addresssize = true)
    (hmod : highField start.byte = 0)
    (hbase : start.segmentbase = guest.base (segment.getD ds))
    (hindex : ¬ IndexRejected start) :
    Found guest segment (effective32 guest start.instruction
        (start.size + 1) 0 (lowField start.byte)) start
        (handleMODRM guest start) ↔
      Fits32 guest segment start.instruction (start.size + 1) 0
        (lowField start.byte) := by
  have haddress' : ((start.skip 1).setOpperand
      (middleField start.byte)).addresssize = true := haddress
  rw [handleMODRM]
  simp only [haddress', hmod]
  split
  case isTrue hrm =>
    have hseven : middleField ((start.skip 1).setOpperand
        (middleField start.byte)).byte ≠ 7 := fun hseven =>
      hindex ⟨haddress, hmod ▸ by decide, hrm, hseven⟩
    obtain ⟨hvalue, hsize, _⟩ := @handleSIB_spec _ guest 0 hseven
    obtain ⟨hlow, _⟩ := @linear32_bounds guest segment start.instruction
      (start.size + 1) 0 4
    have hlength : start.size + (effective32 guest start.instruction
        (start.size + 1) 0 4).length =
        (handleSIB guest ((start.skip 1).setOpperand
          (middleField start.byte)) 0).1.size := by
      rw [effective32_length, decodeAddress, hsize]
      change _ = start.size + 1 + 1 + if 0 = 0 ∧
        lowField (start.instruction (start.size + 1)) = 5 then 4 else 0
      simp only [if_true, true_and, modDisplacement]
      split
      · rfl
      · rfl
    rw [hrm, Found, setAddress_size, hlength, Fits32]
    refine (and_iff_left rfl).trans ?_
    change ((handleSIB guest _ 0).2.toUInt64.toNat : ℤ) = _ ↔ _
    rw [UInt32.toNat_toUInt64, hvalue, emod_eq_iff_dvd, and_iff_right hlow,
      imp_iff_right rfl]
    have hmissed : 2 ^ 32 ∣ _ - (_ + 0 : ℤ) := @dvd_linear32_sib guest segment
      start.instruction (start.size + 1) 0
    refine and_congr_right fun _ => ?_
    change _ ∣ _ - sibSum guest start.instruction (start.size + 1) 0 ↔ _
    omega
  case isFalse hrm =>
    have hlt := base_lt guest (segment.getD ds)
    rw [Fits32]
    refine iff_of_true ?_ fun hfour => absurd hfour hrm
    split
    case isTrue hfive =>
      have hdword := dword_lt start.instruction (start.size + 1)
      rw [hfive, effective32_displacement]
      refine ⟨?_, rfl⟩
      change ((start.segmentbase + (dwordAt start.instruction
        (start.size + 1)).toUInt64).toNat : ℤ) =
        (guest.base (segment.getD ds)).toNat +
          (X86Addressing.dword start.instruction (start.size + 1) : ℤ)
      rw [hbase, UInt64.toNat_add, UInt32.toNat_toUInt64, dwordAt_eq]
      omega
    case isFalse hfive =>
      have hplain : ¬ (0 = 0 ∧ lowField start.byte = 5) := fun hboth =>
        hfive hboth.2
      rw [Found, linear32_base hrm hplain, effective32_length,
        decodeAddress, if_neg hrm, if_neg hplain, if_neg hfive]
      refine ⟨?_, rfl⟩
      change ((start.segmentbase + (guest.register (lowField start.byte) &&&
        0xffffffff)).toNat : ℤ) = _
      rw [hbase, UInt64.toNat_add, toNat_and_dword]
      simp only [modDisplacement]
      norm_num
      omega

theorem charValue_modrm {modrm : UInt8} (hmod : highField modrm = 1) :
    (charValue modrm).toNat = modrm.toNat := by
  have hsmall : modrm < 0x80 := by
    rw [UInt8.lt_iff_toNat_lt]
    change modrm.toNat < 128
    rw [highField] at hmod
    omega
  rw [charValue, if_pos hsmall, UInt8.toNat_toUInt64]

theorem signed8_bounds (byte : UInt8) :
    -128 ≤ signed 8 byte.toNat ∧ signed 8 byte.toNat ≤ 127 := by
  have hlt := byte.toNat_lt
  rw [signed]
  split
  · omega
  · omega

theorem found32_1_iff (haddress : start.addresssize = true)
    (hmod : highField start.byte = 1)
    (hbase : start.segmentbase = guest.base (segment.getD ds))
    (hindex : ¬ IndexRejected start) :
    Found guest segment (effective32 guest start.instruction
        (start.size + 1) 1 (lowField start.byte)) start
        (handleMODRM guest start) ↔
      Fits32 guest segment start.instruction (start.size + 1) 1
        (lowField start.byte) := by
  have haddress' : ((start.skip 1).setOpperand
      (middleField start.byte)).addresssize = true := haddress
  have hchar := charValue_toNat (start.instruction (start.size + 1))
  have hsigned := signed8_bounds (start.instruction (start.size + 1))
  have hlt := base_lt guest (segment.getD ds)
  obtain ⟨hlow, hhigh⟩ := @linear32_bounds guest segment start.instruction
    (start.size + 1) 1 (lowField start.byte)
  rw [handleMODRM]
  simp only [haddress', hmod]
  split
  case isTrue hrm =>
    have hseven : middleField ((start.skip 1).setOpperand
        (middleField start.byte)).byte ≠ 7 := fun hseven =>
      hindex ⟨haddress, hmod ▸ by decide, hrm, hseven⟩
    obtain ⟨hvalue, hsize, hinstruction⟩ := @handleSIB_spec _ guest 1 hseven
    have hplace : (handleSIB guest ((start.skip 1).setOpperand
        (middleField start.byte)) 1).1.size = start.size + 1 + 1 := hsize
    have hsum : ((handleSIB guest ((start.skip 1).setOpperand
        (middleField start.byte)) 1).2.toNat : ℤ) =
        sibSum guest start.instruction (start.size + 1) 1 % 2 ^ 32 := hvalue
    have hmissed := @dvd_linear32_sib guest segment start.instruction
      (start.size + 1) 1
    rw [modDisplacement, if_pos rfl, ← hrm] at hmissed
    rw [Fits32, if_pos hrm]
    refine (and_iff_left ?_).trans ?_
    · change (handleSIB guest _ 1).1.size + 1 = _
      rw [hplace, hrm]
      rfl
    · change (((handleSIB guest _ 1).2.toUInt64 +
        charValue ((handleSIB guest _ 1).1.instruction
          ((handleSIB guest _ 1).1.size - 1))).toNat : ℤ) = _ ↔ _
      rw [hplace, hinstruction, UInt64.toNat_add, UInt32.toNat_toUInt64]
      change (((_ + (charValue (start.instruction
        (start.size + 1))).toNat) % 2 ^ 64 : ℕ) : ℤ) = _ ↔ _
      omega
  case isFalse hrm =>
    have hplain : ¬ (1 = 0 ∧ lowField start.byte = 5) := fun hboth => by
      omega
    have hregister := (guest.register (lowField start.byte)).toNat_lt
    rw [Fits32, if_neg hrm]
    refine (and_iff_left ?_).trans ?_
    · rw [effective32_length, decodeAddress, if_neg hrm, if_neg hplain]
      rfl
    · have hdisplacement : (modDisplacement 1 start.instruction
          (start.size + 1)).1 =
          signed 8 (start.instruction (start.size + 1)).toNat := by
        rw [modDisplacement, if_pos rfl]
      rw [linear32_base hrm hplain, hdisplacement]
      by_cases hzero : lowField start.byte = 0
      · have hrax : guest.register (lowField start.byte) = guest.rax := by
          rw [hzero]
          rfl
        have hss : lowField start.byte ≠ 5 := by omega
        rw [if_pos hzero, if_neg hss, hrax]
        simp only [if_pos hzero]
        change ((start.segmentbase + (guest.rax &&& 0xffffffff) +
          charValue (start.instruction (start.size + 1))).toNat : ℤ) = _ ↔ _
        rw [hbase, UInt64.toNat_add, UInt64.toNat_add, toNat_and_dword]
        omega
      · have hmodrm := charValue_modrm hmod
        have hbyte := start.byte.toNat_lt
        have hplace : start.instruction (start.size + 1 - 1) = start.byte :=
          rfl
        have hused := base_lt guest (segment.getD
          (if lowField start.byte = 5 then ss else ds))
        rw [if_neg hzero, hplace]
        simp only [if_neg hzero]
        change ((start.segmentbase + (guest.register (lowField start.byte) &&&
          0xffffffff) + charValue start.byte).toNat : ℤ) = _ ↔ _
        rw [hbase, UInt64.toNat_add, UInt64.toNat_add, toNat_and_dword, hmodrm]
        generalize (guest.base (segment.getD
          (if lowField start.byte = 5 then ss else ds))).toNat = used
          at hused ⊢
        split
        · omega
        · omega

theorem found32_2_iff (haddress : start.addresssize = true)
    (hmod : highField start.byte = 2) (hindex : ¬ IndexRejected start) :
    ¬ Found guest segment (effective32 guest start.instruction
        (start.size + 1) 2 (lowField start.byte)) start
        (handleMODRM guest start) := by
  have haddress' : ((start.skip 1).setOpperand
      (middleField start.byte)).addresssize = true := haddress
  rintro ⟨_, hsize⟩
  rw [handleMODRM] at hsize
  simp only [haddress', hmod] at hsize
  split at hsize
  case isTrue hrm =>
    have hseven : middleField ((start.skip 1).setOpperand
        (middleField start.byte)).byte ≠ 7 := fun hseven =>
      hindex ⟨haddress, hmod ▸ by decide, hrm, hseven⟩
    obtain ⟨_, hplace, _⟩ := @handleSIB_spec _ guest 2 hseven
    change (handleSIB guest _ 2).1.size + 1 = _ at hsize
    rw [hplace, hrm] at hsize
    change start.size + 1 + 1 + 0 + 1 = start.size + 6 at hsize
    omega
  case isFalse hrm =>
    have hplain : ¬ (2 = 0 ∧ lowField start.byte = 5) := fun hboth => by
      omega
    rw [effective32_length, decodeAddress, if_neg hrm, if_neg hplain] at hsize
    change start.size + 1 + 1 = start.size + 5 at hsize
    omega

end

section

variable {guest : Guest} {start : InstructionData} {segment : Option ℕ}

theorem found_memory_iff
    (hbase : start.segmentbase = guest.base (segment.getD ds))
    (hmod : highField start.byte ≠ 3) (hindex : ¬ IndexRejected start) :
    Found guest segment (effective guest start) start
        (handleMODRM guest start) ↔
      AddressFits guest start segment := by
  have hlt := highField_lt start.byte
  rw [AddressFits, or_iff_right hmod, effective]
  cases haddress : start.addresssize with
  | false =>
    simp only [Bool.false_eq_true, if_false]
    have hcases : highField start.byte = 0 ∨ highField start.byte = 1 ∨
        highField start.byte = 2 := by omega
    rcases hcases with hzero | hone | htwo
    · rw [hzero]
      exact found16_0_iff haddress hzero hbase
    · rw [hone]
      exact found16_1_iff haddress hone hbase
    · rw [htwo]
      exact found16_2_iff haddress htwo hbase
  | true =>
    simp only [if_true]
    have hcases : highField start.byte = 0 ∨ highField start.byte = 1 ∨
        highField start.byte = 2 := by omega
    rcases hcases with hzero | hone | htwo
    · rw [hzero]
      exact found32_0_iff haddress hzero hbase hindex
    · rw [hone]
      exact found32_1_iff haddress hone hbase hindex
    · rw [htwo]
      exact iff_of_false (found32_2_iff haddress htwo hindex) id

theorem handleMODRM_register (hmod : highField start.byte = 3) :
    (handleMODRM guest start).opperand2 = some (lowField start.byte) ∧
      (handleMODRM guest start).size = start.size + 1 := by
  have haddress' : ((start.skip 1).setOpperand
      (middleField start.byte)).addresssize = start.addresssize := rfl
  rw [handleMODRM]
  simp only [haddress', hmod]
  cases start.addresssize with
  | false => exact ⟨rfl, rfl⟩
  | true => exact ⟨rfl, rfl⟩

theorem resolves_iff (hclear : start.error = false)
    (hbase : start.segmentbase = guest.base (segment.getD ds)) :
    Resolves guest start segment ↔
      IndexRejected start ∨ AddressFits guest start segment := by
  rw [Resolves, handleMODRM_error_iff hclear]
  refine or_congr_right' fun hindex => ?_
  split
  case isTrue hmod =>
    exact iff_of_true (handleMODRM_register hmod) (.inl hmod)
  case isFalse hmod => exact found_memory_iff hbase hmod hindex

end

/-- Behind the prefixes and the opcode of any bytes, `handleMODRM` reports
an error or finds the operand of the processor exactly where the condition
on the form holds. -/
theorem handleMODRM_resolves_iff (guest : Guest) (buf : ℕ → UInt8)
    (opcodes : ℕ) :
    Resolves guest ((decodePrefixes guest buf).skip opcodes)
        (segmentOverride buf (decodePrefixes guest buf).size) ↔
      IndexRejected ((decodePrefixes guest buf).skip opcodes) ∨
        AddressFits guest ((decodePrefixes guest buf).skip opcodes)
          (segmentOverride buf (decodePrefixes guest buf).size) :=
  resolves_iff decodePrefixes_error decodePrefixes_selected.segmentbase

theorem not_resolves_ebp :
    ¬ Resolves (startGuest 0)
      ((decodePrefixes (startGuest 0) fun offset =>
        [0x67, 0x8b, 0x45, 4].getD offset 0).skip 1)
      (segmentOverride (fun offset => [0x67, 0x8b, 0x45, 4].getD offset 0)
        1) := by
  rintro (herror | hfound)
  · exact absurd herror (by decide)
  · rw [if_neg (by decide)] at hfound
    exact absurd hfound.1 (by decide)

end RealMode
end CheatEngine
