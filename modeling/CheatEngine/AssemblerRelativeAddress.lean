import CheatEngine.AssemblerSelection

/-!
# Addresses relative to the next instruction

A memory operand without a register whose address has more than 31 bits is
first written as it is.  The end of `Assemble` replaces it by its distance from
the end of the instruction, wherever the REX prefix has moved it.
-/

namespace CheatEngine.Assembler

open List PascalText X86Addressing

/-- The address of an operand that is encoded relative to the instruction. -/
def requestedAddress (param : Text) : Option UInt64 :=
  match readParts (bracketed param) with
  | .error _ => none
  | .ok parts =>
    if parts.regs.isEmpty && decide (0x7fffffff < parts.disp) then
      some parts.disp
    else none

/-- The memory operand that the processor reads at a ModRM byte is at the
given address. -/
def AccessesAddress (address target : UInt64) (bytes : List UInt8)
    (offset : ℕ) : Prop :=
  ∀ rexR rexX rexB registers, ∃ memory,
    (decode true rexR rexX rexB (bytes.getD · 0) offset).operand =
        .memory memory ∧
      (decode true rexR rexX rexB (bytes.getD · 0) offset).length = 5 ∧
      memory.effective registers (address.toNat + bytes.length) 64 =
        target.toNat

def Extends (bytes extended : List UInt8) : Prop :=
  ∃ front rex back, bytes = front ++ back ∧
    extended = front ++ rex ++ back ∧ rex.length ≤ 1

def ReachesAddress (prefixes : List UInt8) (form : Form)
    (address target : UInt64) (bytes : List UInt8) : Prop :=
  ∃ front modrm displacement,
    bytes = front ++ modrm :: displacement ++ form.immediate ∧
      displacement.length = 4 ∧
      Extends (prefixes ++ form.opcode.opcodeBytes) front ∧
      AccessesAddress address target bytes front.length

variable {modrm : UInt8} {bytes : List UInt8} {address : UInt64}
  {skiprangecheck : Bool} (value : UInt64)

theorem toNat_toUInt8 : value.toUInt8.toNat = value.toNat % 2 ^ 8 := by
  simp

theorem shiftRight_toUInt8 (shift : UInt64) (hshift : shift < 64) :
    (value >>> shift).toUInt8.toNat =
      value.toNat / 2 ^ shift.toNat % 2 ^ 8 := by
  have hmod : shift.toNat % 64 = shift.toNat :=
    Nat.mod_eq_of_lt (UInt64.lt_iff_toNat_lt.mp hshift)
  rw [toNat_toUInt8, UInt64.toNat_shiftRight, hmod, Nat.shiftRight_eq_div_pow]

theorem getD_append_offset (front rest : List UInt8) (offset : ℕ) :
    (front ++ rest).getD (front.length + offset) 0 = rest.getD offset 0 := by
  simp [getD_eq_getElem?_getD, getElem?_append_right]

theorem dword_dwordBytes (front back : List UInt8) (value : UInt64) :
    dword ((front ++ (dwordBytes value ++ back)).getD · 0) front.length =
      value.toNat % 2 ^ 32 := by
  have hbyte (offset : ℕ) :=
    getD_append_offset front (dwordBytes value ++ back) offset
  have hzero := hbyte 0
  rw [Nat.add_zero] at hzero
  unfold dword
  simp only [hzero, hbyte]
  simp only [dwordBytes, cons_append, getD_cons_zero, getD_cons_succ]
  rw [toNat_toUInt8, shiftRight_toUInt8 value 8 (by decide),
    shiftRight_toUInt8 value 16 (by decide),
    shiftRight_toUInt8 value 24 (by decide)]
  have h8 : (8 : UInt64).toNat = 8 := rfl
  have h16 : (16 : UInt64).toNat = 16 := rfl
  have h24 : (24 : UInt64).toNat = 24 := rfl
  rw [h8, h16, h24]
  omega

theorem length_dwordBytes : (dwordBytes value).length = 4 :=
  rfl

theorem signed_distance {target next : UInt64} (hclose : ¬ 0x7fffffff <
      (if next < target then target - next else next - target)) :
    (signed 32 ((target - next).toNat % 2 ^ 32 : ℕ) + next.toNat) % 2 ^ 64 =
      target.toNat := by
  have htarget := target.toNat_lt
  have hnext := next.toNat_lt
  have hconstant : (0x7fffffff : UInt64).toNat = 0x7fffffff := rfl
  unfold signed
  by_cases hlt : next < target
  · rw [if_pos hlt, UInt64.lt_iff_toNat_lt, hconstant] at hclose
    have hdistance := UInt64.toNat_sub_of_le target next (UInt64.le_of_lt hlt)
    rw [UInt64.lt_iff_toNat_lt] at hlt
    rw [hdistance] at hclose ⊢
    split <;> omega
  · rw [if_neg hlt, UInt64.lt_iff_toNat_lt, hconstant] at hclose
    have hdistance := UInt64.toNat_sub_of_le next target (UInt64.not_lt.mp hlt)
    rw [UInt64.lt_iff_toNat_lt] at hlt
    rw [hdistance] at hclose
    rw [UInt64.toNat_sub]
    split <;> omega

/-! ## The operand -/

variable {state : State} {param : Text} {target : UInt64}

theorem relative_modrm
    (hmodrm : modrm = setmod 0 0 ∨ modrm = setmod 0 1 ∨ modrm = setmod 0 2) :
    setmod ((modrm &&& 0xf8) ||| 5) 0 = 5 := by
  rcases hmodrm with rfl | rfl | rfl <;> decide

theorem withBase_none (modrm : UInt8) (disp : UInt64)
    (found : State × List UInt8) :
    withBase state modrm disp ([], []) (some found) = .ok found := by
  have hnone : (baseArms state.is64Bit).find? (·.isFor ([], [])) = none := by
    cases state.is64Bit <;> decide
  unfold withBase
  rw [hnone]

theorem addDisplacement_relative (rest : List UInt8) (disp : UInt64) :
    addDisplacement (5 :: rest) disp = 5 :: rest := by
  have hmod : getmod 5 = 0 := by decide
  simp [addDisplacement, hmod]

theorem setmodrm_requested (h64 : state.is64Bit = true)
    (htarget : requestedAddress param = some target) (offset : ℕ) :
    setmodrm state 0 (bracketed param) offset =
      .ok ({ state with
          actualdisplacement := target
          relativeAddressLocation := some (offset + 1) },
        5 :: dwordBytes target) := by
  unfold requestedAddress at htarget
  cases hparts : readParts (bracketed param) with
  | error text =>
    rw [hparts] at htarget
    cases htarget
  | ok parts =>
    rw [hparts] at htarget
    simp only at htarget
    split at htarget
    · next hcondition =>
        cases htarget
        simp only [Bool.and_eq_true, List.isEmpty_iff,
          decide_eq_true_eq] at hcondition
        obtain ⟨hregs, hdisp⟩ := hcondition
        have hfar : ¬ parts.disp ≤ 0x7fffffff := UInt64.not_le.mpr hdisp
        have hcount (char : Char) : ¬ 1 < parts.regs.dropLast.count char := by
          simp [hregs]
        have hfound (modrm : UInt8)
            (hmodrm : modrm = setmod 0 0 ∨ modrm = setmod 0 1 ∨
              modrm = setmod 0 2) :
            withoutBase state modrm parts.disp [] [] offset =
              .ok (some ({ state with
                actualdisplacement := parts.disp
                relativeAddressLocation := some (offset + 1) },
                5 :: dwordBytes parts.disp)) := by
          unfold withoutBase
          simp only [isEmpty_nil, Bool.not_true, Bool.false_and,
            Bool.false_eq_true, if_false, Bool.and_self, if_true, setrm]
          simp [h64, hfar, relative_modrm hmodrm]
        unfold setmodrm
        rw [hparts]
        change (if 1 < parts.regs.dropLast.count '+' ∨
          1 < parts.regs.dropLast.count '*' then _ else _) = _
        rw [if_neg (not_or.mpr ⟨hcount _, hcount _⟩), hregs]
        generalize hmodrm : (if parts.disp = 0 then setmod 0 0 else
          if -128 ≤ signed 32 parts.disp.toNat ∧
            signed 32 parts.disp.toNat ≤ 127 then setmod 0 1
          else setmod 0 2) = modrm
        have hkinds : modrm = setmod 0 0 ∨ modrm = setmod 0 1 ∨
            modrm = setmod 0 2 := by
          rw [← hmodrm]
          split
          · exact Or.inl rfl
          · split
            · exact Or.inr (Or.inl rfl)
            · exact Or.inr (Or.inr rfl)
        change (withoutBase state modrm parts.disp [] [] offset >>=
          fun found => _) = _
        rw [hfound modrm hkinds]
        change (withBase state modrm parts.disp ([], []) (some _) >>=
          fun found => _) = _
        rw [withBase_none]
        exact congrArg (fun bytes => Except.ok (_, bytes))
          (addDisplacement_relative (dwordBytes parts.disp) parts.disp)
    · cases htarget

/-- The state once an operand at the address is written after `front`. -/
structure State.Relative (state : State) (front : List UInt8)
    (target : UInt64) : Prop where
  is64Bit : state.is64Bit = true
  relativeAddressLocation :
    state.relativeAddressLocation = some (front.length + 1)
  actualdisplacement : state.actualdisplacement = target
  rexPrefixLocation : state.rexPrefixLocation ≤ front.length
  needsAddressSwitchPrefix : state.needsAddressSwitchPrefix = false

theorem reg_modrm (reg : ℤ) :
    highField ((5 : UInt8) + UInt8.ofNat ((reg % 8).toNat <<< 3)) = 0 ∧
      lowField ((5 : UInt8) + UInt8.ofNat ((reg % 8).toNat <<< 3)) = 5 := by
  have hreg : (reg % 8).toNat < 8 := by omega
  generalize (reg % 8).toNat = number at hreg
  interval_cases number <;> decide

theorem setreg_cons (h64 : state.is64Bit = true) (modrm : UInt8)
    (rest : List UInt8) (reg : ℤ) :
    setreg state (modrm :: rest) reg =
      .ok (if 7 < reg then state.setRexR else state,
        (modrm + UInt8.ofNat
          (((if reg = -1 then 0 else reg) % 8).toNat <<< 3)) :: rest) := by
  by_cases hreg : 7 < reg
  · simp only [bind, Except.bind, setreg, hreg, h64, if_true, modifyHead_cons]
  · simp only [bind, Except.bind, setreg, hreg, if_false, modifyHead_cons]

theorem createModRM_requested (h64 : state.is64Bit = true)
    (hswitch : state.needsAddressSwitchPrefix = false)
    (htarget : requestedAddress param = some target) {bytes : List UInt8}
    (hrex : state.rexPrefixLocation ≤ bytes.length) (reg : ℤ) :
    ∃ next modrm,
      createModRM state bytes reg param =
          .ok (next, bytes ++ modrm :: dwordBytes target) ∧
        next.Relative bytes target ∧
        highField modrm = 0 ∧ lowField modrm = 5 := by
  have hne : (bracketed param).isEmpty = false := by
    cases haddress : bracketed param with
    | nil =>
      have hnone : requestedAddress param = none := by
        unfold requestedAddress
        rw [haddress]
        decide
      rw [hnone] at htarget
      cases htarget
    | cons char rest => rfl
  unfold createModRM
  simp only [hne, Bool.false_eq_true, if_false]
  rw [setmodrm_requested h64 htarget]
  simp only [bind, Except.bind]
  rw [setreg_cons]
  swap
  · exact h64
  refine ⟨_, _, rfl, ?_, reg_modrm (if reg = -1 then 0 else reg)⟩
  split
  · exact ⟨h64, rfl, rfl, hrex, hswitch⟩
  · exact ⟨h64, rfl, rfl, hrex, hswitch⟩

theorem addopcode_location (state : State) (bytes : List UInt8)
    (opcode : Opcode) :
    (addopcode state bytes opcode).1.rexPrefixLocation ≤
      (addopcode state bytes opcode).2.length := by
  unfold addopcode
  simp only [length_append, Opcode.opcodeBytes, length_cons]
  split
  · omega
  · omega

theorem emit_requested (h64 : state.is64Bit = true)
    (hswitch : state.needsAddressSwitchPrefix = false)
    (htarget : requestedAddress param = some target) {form : Form}
    {reg : Reg} (hoperand : form.operand = .modrm reg param)
    {emitted : State × List UInt8}
    (hemit : emit (state, bytes) form = .ok emitted) :
    ∃ modrm,
      emitted.1.Relative (bytes ++ form.opcode.opcodeBytes) target ∧
        emitted.2 = bytes ++ form.opcode.opcodeBytes ++
          modrm :: dwordBytes target ++ form.immediate ∧
        highField modrm = 0 ∧ lowField modrm = 5 := by
  unfold emit at hemit
  rw [hoperand] at hemit
  simp only [emitOperand, bind, Except.bind] at hemit
  cases hnumber : regNumber (addopcode state bytes form.opcode).1.is64Bit reg
    with
  | error text =>
    rw [hnumber] at hemit
    cases hemit
  | ok number =>
    have hcreate := @createModRM_requested
      (addopcode state bytes form.opcode).1 param target h64 hswitch
      htarget _ (addopcode_location state bytes form.opcode) number
    obtain ⟨next, modrm, hcreate, hrelative, hfields⟩ := hcreate
    rw [hnumber] at hemit
    simp only at hemit
    rw [hcreate] at hemit
    cases hemit
    exact ⟨modrm, hrelative, rfl, hfields⟩

/-! ## The end of the instruction -/

variable {front rest : List UInt8}

theorem State.Relative.setRexW (hstate : state.Relative front target)
    (on : Bool) : (state.setRexW on).Relative front target := by
  unfold State.setRexW
  split
  · exact ⟨hstate.1, hstate.2, hstate.3, hstate.4, hstate.5⟩
  · exact ⟨hstate.1, hstate.2, hstate.3, hstate.4, hstate.5⟩

theorem extends_refl (bytes : List UInt8) : Extends bytes bytes :=
  ⟨bytes, [], [], by simp, by simp, by simp⟩

theorem insertRex_relative (hstate : state.Relative front target)
    (hbytes : bytes = front ++ rest) :
    ∃ extended,
      Extends front extended ∧
        (insertRex state bytes).1.Relative extended target ∧
        (insertRex state bytes).2 = extended ++ rest := by
  rw [hbytes]
  unfold insertRex
  split
  · have htake : (front ++ rest).take state.rexPrefixLocation =
        front.take state.rexPrefixLocation :=
      take_append_of_le_length hstate.rexPrefixLocation
    have hdrop : (front ++ rest).drop state.rexPrefixLocation =
        front.drop state.rexPrefixLocation ++ rest :=
      drop_append_of_le_length hstate.rexPrefixLocation
    refine ⟨front.take state.rexPrefixLocation ++
      [state.rexPrefix ||| 0x40] ++ front.drop state.rexPrefixLocation,
      ?_, ?_, ?_⟩
    · exact ⟨front.take state.rexPrefixLocation, _,
        front.drop state.rexPrefixLocation,
        (take_append_drop _ _).symm, rfl, Nat.le_refl 1⟩
    · constructor
      · exact hstate.is64Bit
      · simp only [hstate.relativeAddressLocation, Option.map_some,
          length_append, length_take, length_drop, length_singleton]
        have hlocation := hstate.rexPrefixLocation
        congr 1
        omega
      · exact hstate.actualdisplacement
      · have hlocation := hstate.rexPrefixLocation
        simp only [length_append, length_take, length_drop, length_singleton]
        omega
      · exact hstate.needsAddressSwitchPrefix
    · simp only [htake, hdrop, append_assoc, nil_append, cons_append]
  · exact ⟨front, extends_refl front, hstate, rfl⟩

theorem overwrite_relative (modrm : UInt8) (values written : List UInt8)
    (hlength : written.length = values.length) :
    overwrite (front ++ modrm :: values ++ rest) (front.length + 1)
        written = front ++ modrm :: written ++ rest := by
  have hfront : front ++ modrm :: values ++ rest =
      (front ++ [modrm]) ++ (values ++ rest) := by simp
  have hindex : front.length + 1 = (front ++ [modrm]).length := by simp
  unfold overwrite
  rw [hfront, hindex, take_left, drop_append, hlength]
  simp

theorem setRelativeAddress_relative (hstate : state.Relative front target)
    {finished : List UInt8}
    (hbytes : bytes = front ++ modrm :: dwordBytes target ++ rest)
    (hfinished : setRelativeAddress state address bytes skiprangecheck =
      .ok finished) :
    skiprangecheck = true ∧ finished = [] ∨
      ∃ next : UInt64,
        next = address + UInt64.ofNat finished.length ∧
          ¬ 0x7fffffff <
            (if next < target then target - next else next - target) ∧
          finished =
            front ++ modrm :: dwordBytes (target - next) ++ rest := by
  have hlength (displacement : UInt64) :
      (front ++ modrm :: dwordBytes displacement ++ rest).length =
        bytes.length := by
    simp [hbytes, length_dwordBytes]
  unfold setRelativeAddress at hfinished
  rw [hstate.relativeAddressLocation, hstate.actualdisplacement] at hfinished
  generalize hnext : address + UInt64.ofNat bytes.length = next at hfinished
  simp only at hfinished
  by_cases hclose : 0x7fffffff <
      (if next < target then target - next else next - target)
  · rw [if_pos hclose] at hfinished
    left
    cases skiprangecheck with
    | false => cases hfinished
    | true =>
      cases hfinished
      exact ⟨rfl, rfl⟩
  · have hwritten := @overwrite_relative front rest modrm
      (dwordBytes target) (dwordBytes (target - next)) rfl
    rw [if_neg hclose, hbytes, hwritten] at hfinished
    cases hfinished
    right
    refine ⟨next, ?_, hclose, rfl⟩
    rw [hlength, hnext]

theorem accessesAddress_of_distance {next : UInt64}
    (hmod : highField modrm = 0) (hrm : lowField modrm = 5)
    (hbytes : bytes = front ++ modrm :: dwordBytes (target - next) ++ rest)
    (hnext : next = address + UInt64.ofNat bytes.length)
    (hclose : ¬ 0x7fffffff <
      (if next < target then target - next else next - target)) :
    AccessesAddress address target bytes front.length := by
  intro rexR rexX rexB registers
  have hmodrm : bytes.getD front.length 0 = modrm := by
    have hget := getD_append_offset front
      (modrm :: dwordBytes (target - next) ++ rest) 0
    rw [hbytes, append_assoc]
    exact hget
  have hdword : dword (bytes.getD · 0) (front.length + 1) =
      (target - next).toNat % 2 ^ 32 := by
    have hfront : bytes =
        (front ++ [modrm]) ++ (dwordBytes (target - next) ++ rest) := by
      rw [hbytes]
      simp
    have hlength : front.length + 1 = (front ++ [modrm]).length := by simp
    rw [hfront, hlength]
    exact dword_dwordBytes _ _ _
  have hsum := signed_distance hclose
  have hend : (next.toNat : ℤ) =
      (address.toNat + bytes.length : ℤ) % 2 ^ 64 := by
    rw [hnext, UInt64.toNat_add, UInt64.toNat_ofNat']
    omega
  refine ⟨⟨none, none,
    signed 32 (dword (bytes.getD · 0) (front.length + 1)), true⟩, ?_, ?_,
    ?_⟩
  · unfold decode
    simp only [hmodrm, hmod, hrm]
    rfl
  · unfold decode
    simp only [hmodrm, hmod, hrm]
    rfl
  · unfold Address.effective Address.sum
    simp only [Option.elim_none, zero_add]
    rw [hdword, ← hsum, hend]
    simp

theorem finish_relative (hstate : state.Relative front target)
    {selection : Selection} {finished : List UInt8}
    (hbytes : bytes = front ++ modrm :: dwordBytes target ++ rest)
    (hfinished : finish state selection address skiprangecheck bytes =
      .ok finished) :
    skiprangecheck = true ∧ finished = [] ∨
      ∃ extended, ∃ next : UInt64,
        Extends front extended ∧
          next = address + UInt64.ofNat finished.length ∧
          ¬ 0x7fffffff <
            (if next < target then target - next else next - target) ∧
          finished =
            extended ++ modrm :: dwordBytes (target - next) ++ rest := by
  have hwide : (if selection.norexw then state.setRexW false
      else state).Relative front target := by
    split
    · exact hstate.setRexW false
    · exact hstate
  unfold finish at hfinished
  simp only [hstate.is64Bit, hstate.needsAddressSwitchPrefix, if_true,
    Bool.false_eq_true, if_false] at hfinished
  generalize (if selection.norexw then state.setRexW false else state) = wide
    at hfinished hwide
  rw [append_assoc] at hbytes
  obtain ⟨extended, hextends, hinserted, hrex⟩ :=
    insertRex_relative hwide hbytes
  rw [← append_assoc] at hrex
  change (_ >>= pure) = _ at hfinished
  rw [bind_pure] at hfinished
  rcases setRelativeAddress_relative hinserted hrex hfinished with
    hempty | ⟨next, hnext, hclose, hdone⟩
  · exact Or.inl hempty
  · exact Or.inr ⟨extended, next, hextends, hnext, hclose, hdone⟩

/-- Wherever the operand of the form is relative, it is at the requested
address, or the range check was skipped and nothing is there. -/
def PointsToRequested (prefixes : List UInt8) (form : Form)
    (address : UInt64) (skiprangecheck : Bool) (bytes : List UInt8) : Prop :=
  ∀ reg param target, form.operand = .modrm reg param →
    requestedAddress param = some target →
      skiprangecheck = true ∧ bytes = [] ∨
        ReachesAddress prefixes form address target bytes

theorem FormAssembled.pointsToRequested {prepared : Prepared} {form : Form}
    (hfresh : prepared.Fresh true address)
    (hform : FormAssembled prepared skiprangecheck form bytes) :
    PointsToRequested prepared.bytes form address skiprangecheck bytes := by
  intro reg param target hoperand htarget
  obtain ⟨emitted, selection, hemit, hfinish⟩ := hform.finished
  obtain ⟨modrm, hstate, hbytes, hmod, hrm⟩ := emit_requested hfresh.is64Bit
    hfresh.needsAddressSwitchPrefix htarget hoperand hemit
  rw [hfresh.lineAddress] at hfinish
  rcases finish_relative hstate hbytes hfinish with
    hempty | ⟨front, next, hextends, hnext, hclose, hdone⟩
  · exact Or.inl hempty
  · right
    refine ⟨front, modrm, dwordBytes (target - next), hdone,
      length_dwordBytes _, hextends, ?_⟩
    exact accessesAddress_of_distance hmod hrm hdone hnext hclose

/-- In 64-bit mode every operand that is encoded relative to the instruction
is at the address it was written with. -/
theorem assemble_pointsToRequested {convertHexStrToRealStr : Text → Text}
    {getOpcodesIndex : Text → Option ℕ}
    {assemblerPreference : AssemblerPreference} {address : UInt64}
    {skiprangecheck : Bool} {tokens : List Text} {bytes : List UInt8}
    (hassemble : assemble convertHexStrToRealStr getOpcodesIndex true
      assemblerPreference address skiprangecheck tokens =
        .ok (some bytes)) :
    ∃ prepared,
      prepare convertHexStrToRealStr getOpcodesIndex true
        assemblerPreference address tokens = some prepared ∧
      (prepared.isFar = true ∧
          bytes = farBytes (prepared.mnemonic = "JMP".toList) prepared.line.v ∨
        ∃ form, FormAssembled prepared skiprangecheck form bytes ∧
          PointsToRequested prepared.bytes form address skiprangecheck
            bytes) := by
  obtain ⟨prepared, hprepare, hcases⟩ := assemble_cases hassemble
  refine ⟨prepared, hprepare, ?_⟩
  rcases hcases with ⟨hfar, hbytes⟩ | ⟨-, form, hform⟩
  · exact Or.inl ⟨hfar, hbytes⟩
  · right
    exact ⟨form, hform, hform.pointsToRequested (prepare_fresh hprepare)⟩

/-- The symbol handler puts a `$` in front of the hexadecimal number. -/
def addTenText : Text → Text := fun text =>
  if text = "10".toList then "$10".toList else text

def addTenTokens : List Text :=
  ["ADD".toList, "QWORD PTR [140001000]".toList, "10".toList]

theorem assemble_addTen :
    assemble addTenText (fun _ => some 20) true .apNone 0x140000000 false
      addTenTokens = .ok (some [0x48, 0x83, 5, 0xf8, 0x0f, 0, 0, 0x10]) := by
  decide

theorem assemble_pointsToRequested_addTen :
    ∃ prepared,
      prepare addTenText (fun _ => some 20) true .apNone 0x140000000
        addTenTokens = some prepared ∧
      (prepared.isFar = true ∧
          [0x48, 0x83, 5, 0xf8, 0x0f, 0, 0, 0x10] =
            farBytes (prepared.mnemonic = "JMP".toList) prepared.line.v ∨
        ∃ form,
          FormAssembled prepared false form
              [0x48, 0x83, 5, 0xf8, 0x0f, 0, 0, 0x10] ∧
            PointsToRequested prepared.bytes form 0x140000000 false
              [0x48, 0x83, 5, 0xf8, 0x0f, 0, 0, 0x10]) :=
  assemble_pointsToRequested assemble_addTen

example : requestedAddress "QWORD PTR [140001000]".toList =
    some 0x140001000 := by
  decide

end CheatEngine.Assembler
