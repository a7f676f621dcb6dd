import CheatEngine.AssemblerFormEntries
import CheatEngine.AssemblerEmittedBytes

/-!
# The place of the REX prefix

`addopcode` remembers where the REX prefix goes: before the opcode, or after
its first byte when that is one of the prefixes 66, F2 and F3.  Entries whose
first byte is the wait prefix, or a REX prefix itself, are not told apart.
-/

namespace CheatEngine
namespace Assembler

open List

def isLegacyPrefix (byte : UInt8) : Bool :=
  [0x66, 0x67, 0xf2, 0xf3, 0xf0, 0x26, 0x2e, 0x36, 0x3e, 0x64, 0x65,
    0x9b].contains byte

def isRex (byte : UInt8) : Bool := byte &&& 0xf0 = 0x40

def isOpening (byte : UInt8) : Bool := !isLegacyPrefix byte && !isRex byte

/-- The bytes in the order of the emitted ones; only a relative address has
other values. -/
def SameOrder (relativeAddressLocation : Option ℕ)
    (emitted bytes : List UInt8) : Prop :=
  bytes.length = emitted.length ∧
    ∀ i, (∀ location, relativeAddressLocation = some location →
      i < location ∨ location + 4 ≤ i) → bytes[i]? = emitted[i]?

def RexPlaced (emitted : State × List UInt8) (bytes : List UInt8) : Prop :=
  ∃ switch prefixes rex opening rest,
    bytes = switch ++ prefixes ++ rex :: opening :: rest ∧
      (switch = [] ∨ switch = [0x67]) ∧
      (∀ byte ∈ prefixes, isLegacyPrefix byte = true) ∧
      isRex rex = true ∧ isOpening opening = true ∧
      SameOrder emitted.1.relativeAddressLocation emitted.2
        (prefixes ++ opening :: rest)

def setsRex (state : State) (selection : Selection) : Bool :=
  (if selection.norexw then state.setRexW false
    else state).rexPrefix ≠ 0

theorem setsRex_zero {state : State} {selection : Selection}
    (hzero : state.rexPrefix = 0) : setsRex state selection = false := by
  unfold setsRex State.setRexW
  split
  · simp [hzero]
  · simp [hzero]

theorem Line.current_opcodes (line : Line) (opcode : Opcode) :
    (line.current opcode).opcodes = line.opcodes := by
  unfold current
  split
  · rfl
  · rfl

theorem isRex_set {rexPrefix : UInt8} (hbits : IsRexBits rexPrefix) :
    isRex (rexPrefix ||| 0x40) = true := by
  cases rexPrefix with
  | ofBitVec bits =>
    revert bits
    decide

theorem not_legacy_of_isRex {byte : UInt8} (hrex : isRex byte = true) :
    isLegacyPrefix byte = false := by
  cases byte with
  | ofBitVec bits =>
    revert bits
    decide

theorem prefixes_unique {first second rest other : List UInt8}
    {rex rex' : UInt8} (hfirst : ∀ byte ∈ first, isLegacyPrefix byte = true)
    (hsecond : ∀ byte ∈ second, isLegacyPrefix byte = true)
    (hrex : isRex rex = true) (hrex' : isRex rex' = true)
    (heq : first ++ rex :: rest = second ++ rex' :: other) :
    rest = other := by
  have htake (bytes tail : List UInt8) (byte : UInt8)
      (hbytes : ∀ byte ∈ bytes, isLegacyPrefix byte = true)
      (hbyte : isRex byte = true) :
      (bytes ++ byte :: tail).takeWhile isLegacyPrefix = bytes := by
    rw [takeWhile_append_of_pos hbytes, takeWhile_cons,
      if_neg (by rw [not_legacy_of_isRex hbyte]; decide), append_nil]
  have hsame : first = second := by
    rw [← htake first rest rex hfirst hrex, heq,
      htake second other rex' hsecond hrex']
  rw [hsame] at heq
  exact (List.cons.inj (append_cancel_left heq)).2

/-! ## The opcode of an entry -/

namespace Opcode

variable (opcode : Opcode)

def opening : UInt8 :=
  if opcode.startsWithPrefix then opcode.bt2 else opcode.bt1

/-- With every register that may be added, the opcode begins with a byte that
is no prefix. -/
def opensWell : Bool :=
  (!opcode.startsWithPrefix || 1 < opcode.bytes) &&
    (List.range (if opcode.addsRegister then 8 else 1)).all fun k =>
      isOpening (opcode.opening + UInt8.ofNat k)

def startsWithWaitOrRex : Bool :=
  opcode.bt1 = 0x9b || opcode.bt1 = 0x48

def isReached : Bool := !opcode.invalidin64bit || opcode.takesValue

def isRegular : Bool :=
  (!opcode.isReached ||
    if opcode.startsWithWaitOrRex then !opcode.addsRegister
    else opcode.opensWell) &&
    (!opcode.exchangesAx || !opcode.norexw)

end Opcode

def openingBits : ℕ :=
  0xfff2fffffffffffffffffffff7ffffffffffff0fffff0000bfbfbfbfffffffff

variable {address : UInt64} {skiprangecheck : Bool} {finished : List UInt8}
  {is64Bit : Bool} (byte : UInt8)

theorem isOpening_eq : isOpening byte = openingBits.testBit byte.toNat := by
  cases byte with
  | ofBitVec bits =>
    revert bits
    decide

theorem isRegular_opcodes : opcodes.all Opcode.isRegular = true := by
  change opcodes.all (fun opcode => opcode.isRegular) = true
  simp only [Opcode.isRegular, Opcode.opensWell, isOpening_eq]
  decide +kernel

theorem incLast_cons (rest : List UInt8) {k limit : ℕ} (hk : k < limit) :
    ∃ j tail, j < limit ∧
      incLast (byte :: rest) k = (byte + UInt8.ofNat j) :: tail := by
  cases rest with
  | nil => exact ⟨k, [], hk, rfl⟩
  | cons next rest =>
    refine ⟨0, incLast (next :: rest) k, by omega, ?_⟩
    simp [incLast]

theorem incLast_cons_cons (next : UInt8) (rest : List UInt8) (k : ℕ) :
    incLast (byte :: next :: rest) k = byte :: incLast (next :: rest) k := by
  simp [incLast]

section

variable {opcode : Opcode} {operand : Operand} {written : List UInt8}

def Opcode.mandatory (opcode : Opcode) : List UInt8 :=
  if opcode.startsWithPrefix then [opcode.bt1] else []

theorem mandatory_legacy (opcode : Opcode) :
    ∀ byte ∈ opcode.mandatory, isLegacyPrefix byte = true := by
  intro byte hbyte
  unfold Opcode.mandatory at hbyte
  split at hbyte
  · next hstarts =>
      rw [mem_singleton] at hbyte
      simp only [Opcode.startsWithPrefix, Bool.or_eq_true,
        decide_eq_true_eq] at hstarts
      rcases hstarts with (hstarts | hstarts) | hstarts <;>
        · rw [hbyte, hstarts]
          decide
  · cases hbyte

theorem opcodeBytes_eq (hbytes : opcode.startsWithPrefix = true →
    1 < opcode.bytes) :
    ∃ rest, opcode.opcodeBytes =
      opcode.mandatory ++ opcode.opening :: rest := by
  unfold Opcode.opcodeBytes Opcode.mandatory Opcode.opening
  by_cases hstarts : opcode.startsWithPrefix = true
  · rw [if_pos (hbytes hstarts), if_pos hstarts, if_pos hstarts]
    exact ⟨_, rfl⟩
  · rw [if_neg hstarts, if_neg hstarts]
    exact ⟨_, rfl⟩

theorem written_opening (hwell : opcode.opensWell = true)
    (hwrites : operand.Writes opcode written)
    (hplus : ∀ reg, operand = .plus reg → opcode.addsRegister = true)
    (hnot : ∀ reg, operand ≠ .plusWithoutRex reg) :
    ∃ opening rest, isOpening opening = true ∧
      written = opcode.mandatory ++ opening :: rest := by
  unfold Opcode.opensWell at hwell
  rw [Bool.and_eq_true, all_eq_true] at hwell
  obtain ⟨hmandatoryByte, hopening⟩ := hwell
  have hbytes (hstarts : opcode.startsWithPrefix = true) :
      1 < opcode.bytes := by
    simpa [hstarts] using hmandatoryByte
  obtain ⟨rest, hopcode⟩ := opcodeBytes_eq hbytes
  have hzero : isOpening opcode.opening = true := by
    have hfirst := hopening 0 (by
      rw [mem_range]
      split <;> decide)
    simpa using hfirst
  cases operand with
  | none =>
    refine ⟨opcode.opening, rest, hzero, ?_⟩
    rw [← hopcode]
    exact hwrites
  | modrm reg param =>
    refine ⟨opcode.opening, rest, hzero, ?_⟩
    rw [← hopcode]
    exact hwrites
  | plus reg =>
    obtain ⟨k, hk, rfl⟩ := hwrites
    rw [hplus reg rfl, if_pos rfl] at hopening
    obtain ⟨j, tail, hj, htail⟩ := incLast_cons opcode.opening rest hk
    refine ⟨_, tail, hopening j (mem_range.mpr hj), ?_⟩
    rw [hopcode, ← htail]
    unfold Opcode.mandatory
    split
    · exact incLast_cons_cons _ _ _ _
    · rfl
  | plusWithoutRex reg => exact absurd rfl (hnot reg)

theorem written_waitOrRex (hstarts : opcode.startsWithWaitOrRex = true)
    (hwrites : operand.Writes opcode written)
    (hplus : ∀ reg, operand ≠ .plus reg)
    (hnot : ∀ reg, operand ≠ .plusWithoutRex reg) :
    ∃ opening rest, isOpening opening = false ∧
      opcode.startsWithPrefix = false ∧ written = opening :: rest := by
  have hbytes : written = opcode.opcodeBytes := by
    cases operand with
    | none => exact hwrites
    | modrm reg param => exact hwrites
    | plus reg => exact absurd rfl (hplus reg)
    | plusWithoutRex reg => exact absurd rfl (hnot reg)
  simp only [Opcode.startsWithWaitOrRex, Bool.or_eq_true,
    decide_eq_true_eq] at hstarts
  refine ⟨opcode.bt1, _, ?_, ?_, hbytes⟩
  · rcases hstarts with hstarts | hstarts <;>
      · rw [hstarts]
        decide
  · unfold Opcode.startsWithPrefix
    rcases hstarts with hstarts | hstarts <;>
      · rw [hstarts]
        decide

end

/-! ## The end of the instruction -/

theorem sameOrder_refl (location : Option ℕ) (bytes : List UInt8) :
    SameOrder location bytes bytes :=
  ⟨rfl, fun _ _ => rfl⟩

theorem sameOrder_overwrite (front old values back : List UInt8)
    (hlength : old.length = 4) (hvalues : values.length = 4) :
    SameOrder (some front.length) (front ++ old ++ back)
      (front ++ values ++ back) := by
  refine ⟨by simp [hlength, hvalues], fun i hi => ?_⟩
  rcases hi front.length rfl with hbefore | hafter
  · rw [append_assoc, append_assoc,
      getElem?_append_left hbefore, getElem?_append_left hbefore]
  · have hold : (front ++ old).length ≤ i := by
      rw [length_append, hlength]
      exact hafter
    have hnew : (front ++ values).length ≤ i := by
      rw [length_append, hvalues]
      exact hafter
    rw [getElem?_append_right hold, getElem?_append_right hnew,
      length_append, length_append, hlength, hvalues]

theorem overwrite_append (front old values back : List UInt8)
    (hlength : values.length = old.length) :
    overwrite (front ++ old ++ back) front.length values =
      front ++ values ++ back := by
  unfold overwrite
  rw [hlength, ← length_append, drop_left, append_assoc front, take_left]

theorem split_location {bytes : List UInt8} {first location : ℕ}
    (hbefore : first ≤ location) (hafter : location + 4 ≤ bytes.length) :
    ∃ front middle old back,
      bytes = front ++ (middle ++ old ++ back) ∧ front.length = first ∧
        front.length + middle.length = location ∧ old.length = 4 := by
  refine ⟨bytes.take first, (bytes.drop first).take (location - first),
    (bytes.drop location).take 4, bytes.drop (location + 4), ?_, ?_, ?_, ?_⟩
  · have hdrop : (bytes.drop first).drop (location - first) =
        bytes.drop location := by
      rw [drop_drop]
      congr 1
      omega
    rw [← drop_drop, append_assoc, take_append_drop, ← hdrop,
      take_append_drop, take_append_drop]
  · rw [length_take]
    omega
  · simp only [length_drop, length_take]
    omega
  · simp only [length_drop, length_take]
    omega

/-- Where the state of a form leaves the REX prefix and the address. -/
structure State.Placed (state : State) (bytes : List UInt8) : Prop where
  is64Bit : state.is64Bit = true
  rexPrefixLocation : state.rexPrefixLocation ≤ bytes.length
  rexPrefix : IsRexBits state.rexPrefix
  relativeAddressLocation : ∀ location,
    state.relativeAddressLocation = some location →
      state.rexPrefixLocation < location ∧
        location + 4 ≤ bytes.length ∧
        state.needsAddressSwitchPrefix = false

variable {state : State} {bytes : List UInt8}

theorem State.Placed.onlyRex {next : State} (hplaced : state.Placed bytes)
    (honly : state.OnlyRex next)
    (hswitch : next.needsAddressSwitchPrefix =
      state.needsAddressSwitchPrefix) : next.Placed bytes := by
  refine ⟨honly.is64Bit.trans hplaced.is64Bit, ?_,
    honly.rexPrefix hplaced.rexPrefix, ?_⟩
  · rw [honly.rexPrefixLocation]
    exact hplaced.rexPrefixLocation
  · rw [honly.rexPrefixLocation, honly.relativeAddressLocation, hswitch]
    exact hplaced.relativeAddressLocation

theorem setRelativeAddress_some {location : ℕ}
    (hlocation : state.relativeAddressLocation = some location)
    (hne : finished ≠ [])
    (hfinished : setRelativeAddress state address bytes skiprangecheck =
      .ok finished) :
    ∃ value, finished = overwrite bytes location (dwordBytes value) := by
  unfold setRelativeAddress at hfinished
  rw [hlocation] at hfinished
  generalize address + UInt64.ofNat bytes.length = next at hfinished
  simp only at hfinished
  by_cases hfar : 0x7fffffff < (if next < state.actualdisplacement then
      state.actualdisplacement - next else next - state.actualdisplacement)
  · rw [if_pos hfar] at hfinished
    cases skiprangecheck with
    | true =>
      cases hfinished
      exact absurd rfl hne
    | false => cases hfinished
  · rw [if_neg hfar] at hfinished
    cases hfinished
    exact ⟨_, rfl⟩

theorem insertRex_set (hrex : state.rexPrefix ≠ 0) :
    (insertRex state bytes).1.relativeAddressLocation =
        state.relativeAddressLocation.map (· + 1) ∧
      (insertRex state bytes).2 = bytes.take state.rexPrefixLocation ++
        (state.rexPrefix ||| 0x40) :: bytes.drop state.rexPrefixLocation := by
  unfold insertRex
  rw [if_pos hrex]
  exact ⟨rfl, rfl⟩

theorem setRelativeAddress_insertRex (hplaced : state.Placed bytes)
    (hrex : state.rexPrefix ≠ 0) (hne : finished ≠ [])
    (hfinished : setRelativeAddress (insertRex state bytes).1 address
      (insertRex state bytes).2 skiprangecheck = .ok finished) :
    ∃ tail,
      finished = bytes.take state.rexPrefixLocation ++
        (state.rexPrefix ||| 0x40) :: tail ∧
      SameOrder state.relativeAddressLocation bytes
        (bytes.take state.rexPrefixLocation ++ tail) := by
  obtain ⟨hmoved, hinserted⟩ := @insertRex_set state bytes hrex
  rw [hinserted] at hfinished
  generalize (insertRex state bytes).1 = next at hmoved hfinished
  generalize state.rexPrefix ||| 0x40 = rex at hfinished ⊢
  cases hlocation : state.relativeAddressLocation with
  | none =>
    rw [hlocation] at hmoved
    unfold setRelativeAddress at hfinished
    rw [hmoved] at hfinished
    cases hfinished
    refine ⟨bytes.drop state.rexPrefixLocation, rfl, ?_⟩
    rw [take_append_drop]
    exact sameOrder_refl _ _
  | some location =>
    have hnext : next.relativeAddressLocation = some (location + 1) := by
      rw [hmoved, hlocation]
      rfl
    obtain ⟨value, hvalue⟩ := setRelativeAddress_some hnext hne hfinished
    obtain ⟨hbefore, hafter, -⟩ :=
      hplaced.relativeAddressLocation location hlocation
    obtain ⟨front, middle, old, back, rfl, hfront, hmiddle, hold⟩ :=
      split_location hbefore.le hafter
    rw [← hfront, take_left, drop_left] at hvalue
    rw [← hfront, take_left]
    refine ⟨middle ++ dwordBytes value ++ back, ?_, ?_⟩
    · have hbytes : front ++ rex :: (middle ++ old ++ back) =
          (front ++ rex :: middle) ++ old ++ back := by simp
      have hlength : location + 1 = (front ++ rex :: middle).length := by
        rw [length_append, length_cons, ← hmiddle, Nat.add_assoc]
      have hsize : (dwordBytes value).length = old.length := by
        rw [hold]
        rfl
      rw [hvalue, hbytes, hlength, overwrite_append _ _ _ _ hsize]
      simp
    · have hlength : location = (front ++ middle).length := by
        rw [length_append, hmiddle]
      have hsame := sameOrder_overwrite (front ++ middle) old
        (dwordBytes value) back hold rfl
      rw [hlength]
      simpa using hsame

theorem setRelativeAddress_ne_nil (hne : bytes ≠ [])
    (hnone : state.relativeAddressLocation = none) :
    setRelativeAddress state address bytes skiprangecheck ≠ .ok [] := by
  unfold setRelativeAddress
  rw [hnone]
  intro hok
  exact hne (Except.ok.inj hok)

theorem finish_placed {selection : Selection} (hplaced : state.Placed bytes)
    (hrex : setsRex state selection = true) (hne : finished ≠ [])
    (hfinished : finish state selection address skiprangecheck bytes =
      .ok finished) :
    ∃ switch rex tail,
      finished = switch ++ bytes.take state.rexPrefixLocation ++ rex :: tail ∧
      (switch = [] ∨ switch = [0x67]) ∧ isRex rex = true ∧
      SameOrder state.relativeAddressLocation bytes
        (bytes.take state.rexPrefixLocation ++ tail) := by
  unfold setsRex at hrex
  rw [decide_eq_true_eq] at hrex
  have hsame : state.OnlyRex
      (if selection.norexw then state.setRexW false else state) :=
    (setRexW_onlyRex state false).ite
  have hswitch : (if selection.norexw then state.setRexW false
      else state).needsAddressSwitchPrefix =
        state.needsAddressSwitchPrefix := by
    split
    · exact rfl
    · exact rfl
  unfold finish at hfinished
  rw [if_pos hplaced.is64Bit] at hfinished
  simp only at hfinished
  generalize (if selection.norexw then state.setRexW false else state) = wide
    at hrex hsame hswitch hfinished
  have hwide := hplaced.onlyRex hsame hswitch
  obtain ⟨inner, hinner, hfinished⟩ := ok_of_bind hfinished
  have hmain (hinnerNe : inner ≠ []) :=
    setRelativeAddress_insertRex hwide hrex hinnerNe hinner
  rw [hsame.rexPrefixLocation, hsame.relativeAddressLocation] at hmain
  by_cases hneeds : state.needsAddressSwitchPrefix = true
  · rw [if_pos hneeds] at hfinished
    have hnone : wide.relativeAddressLocation = none := by
      cases hlocation : wide.relativeAddressLocation with
      | none => rfl
      | some location =>
        have hfalse :=
          (hwide.relativeAddressLocation location hlocation).2.2
        rw [hswitch, hneeds] at hfalse
        cases hfalse
    split at hfinished
    · cases hfinished
      have hinnerNe : inner ≠ [] := by
        rintro rfl
        obtain ⟨hmoved, hinserted⟩ := @insertRex_set wide bytes hrex
        rw [hnone] at hmoved
        refine setRelativeAddress_ne_nil ?_ hmoved hinner
        rw [hinserted]
        simp
      obtain ⟨tail, hbytes, horder⟩ := hmain hinnerNe
      exact ⟨[0x67], _, tail, by rw [hbytes]; rfl, Or.inr rfl,
        isRex_set hwide.rexPrefix, horder⟩
    · cases hfinished
  · rw [if_neg hneeds] at hfinished
    cases hfinished
    obtain ⟨tail, hbytes, horder⟩ := hmain hne
    exact ⟨[], _, tail, by rw [hbytes]; rfl, Or.inl rfl,
      isRex_set hwide.rexPrefix, horder⟩

/-! ## The form after the prefixes -/

/-- What is emitted behind legacy prefixes in 64-bit mode. -/
structure FormAfterPrefixes (prefixes : List UInt8) (before : State)
    (form : Form) (emitted : State × List UInt8) : Prop where
  legacy : ∀ byte ∈ prefixes, isLegacyPrefix byte = true
  is64Bit : before.is64Bit = true
  relativeAddressLocation : before.relativeAddressLocation = none
  needsAddressSwitchPrefix : before.needsAddressSwitchPrefix = false
  rexPrefix : IsRexBits before.rexPrefix
  emitted : emit (before, prefixes) form = .ok emitted
  plus : ∀ reg, form.operand = .plus reg → form.opcode.addsRegister = true
  plusWithoutRex : ∀ reg, form.operand ≠ .plusWithoutRex reg
  isRegular : form.opcode.isRegular = true
  isReached : form.opcode.isReached = true

section

variable {prefixes : List UInt8} {before : State} {form : Form}
  {emitted : State × List UInt8}

theorem FormAfterPrefixes.placed
    (hform : FormAfterPrefixes prefixes before form emitted)
    {written : List UInt8} {operand : List UInt8}
    (hmandatory : form.opcode.mandatory.length ≤ written.length)
    (hbytes : emitted.2 = prefixes ++ written ++ operand ++ form.immediate)
    (hafter : (addopcode before prefixes form.opcode).1.AfterOperand
      emitted.1 (prefixes ++ written).length operand) :
    emitted.1.Placed emitted.2 ∧
      emitted.1.rexPrefixLocation =
        (prefixes ++ form.opcode.mandatory).length := by
  have hlocation : emitted.1.rexPrefixLocation =
      (prefixes ++ form.opcode.mandatory).length := by
    rw [hafter.rexPrefixLocation, length_append]
    unfold addopcode Opcode.mandatory
    simp only
    split
    · rfl
    · rfl
  refine ⟨⟨?_, ?_, ?_, ?_⟩, hlocation⟩
  · rw [hafter.is64Bit]
    exact hform.is64Bit
  · rw [hlocation, hbytes]
    simp only [length_append]
    omega
  · exact hafter.rexPrefix hform.rexPrefix
  · intro location hsome
    rcases hafter.relativeAddressLocation with hnone | ⟨hset, hlength, hsame⟩
    · have hbefore := hform.relativeAddressLocation
      rw [hnone] at hsome
      change before.relativeAddressLocation = _ at hsome
      rw [hbefore] at hsome
      cases hsome
    · rw [hset] at hsome
      cases hsome
      refine ⟨?_, ?_, ?_⟩
      · rw [hlocation]
        simp only [length_append]
        omega
      · rw [hbytes]
        simp only [length_append]
        omega
      · rw [hsame]
        exact hform.needsAddressSwitchPrefix

theorem opening_of_sameOrder {state : State} {bytes front rest tail :
    List UInt8} {opening : UInt8} (hplaced : state.Placed bytes)
    (hbytes : bytes = front ++ opening :: rest)
    (hlocation : state.rexPrefixLocation = front.length)
    (horder : SameOrder state.relativeAddressLocation bytes
      (bytes.take state.rexPrefixLocation ++ tail)) :
    bytes.take state.rexPrefixLocation = front ∧
      ∃ others, tail = opening :: others := by
  have htake : bytes.take state.rexPrefixLocation = front := by
    rw [hlocation, hbytes, take_left]
  refine ⟨htake, ?_⟩
  have hget := horder.2 front.length fun location hsome => by
    have hbefore := (hplaced.relativeAddressLocation location hsome).1
    rw [hlocation] at hbefore
    exact Or.inl hbefore
  rw [htake, hbytes, getElem?_append_right (Nat.le_refl _),
    getElem?_append_right (Nat.le_refl _), Nat.sub_self] at hget
  cases tail with
  | nil => cases hget
  | cons byte others =>
    simp only [getElem?_cons_zero, Option.some.injEq] at hget
    exact ⟨others, by rw [hget]⟩

theorem legacy_append {switch prefixes : List UInt8}
    (hswitch : switch = [] ∨ switch = [0x67])
    (hprefixes : ∀ byte ∈ prefixes, isLegacyPrefix byte = true) :
    ∀ byte ∈ switch ++ prefixes, isLegacyPrefix byte = true := by
  intro byte hbyte
  rcases mem_append.mp hbyte with hmem | hmem
  · rcases hswitch with rfl | rfl
    · cases hmem
    · rw [mem_singleton.mp hmem]
      decide
  · exact hprefixes byte hmem

theorem not_rexPlaced {legacy rest : List UInt8} {rex byte : UInt8}
    (hlegacy : ∀ byte ∈ legacy, isLegacyPrefix byte = true)
    (hrex : isRex rex = true) (hbyte : isOpening byte = false)
    (emitted : State × List UInt8) :
    ¬ RexPlaced emitted (legacy ++ rex :: byte :: rest) := by
  rintro ⟨switch, prefixes, rex', opening, others, heq, hswitch, hprefixes,
    hrex', hopening, -⟩
  have hsame := prefixes_unique hlegacy (legacy_append hswitch hprefixes)
    hrex hrex' heq
  rw [(List.cons.inj hsame).1, hopening] at hbyte
  cases hbyte

/-- The REX prefix is where it has to be unless the entry begins with a wait
or with a REX prefix of its own. -/
theorem FormAfterPrefixes.rexPlaced_iff
    (hform : FormAfterPrefixes prefixes before form emitted)
    {selection : Selection} {address : UInt64} {skiprangecheck : Bool}
    {finished : List UInt8} (hne : finished ≠ [])
    (hrex : setsRex emitted.1 selection = true)
    (hfinished : finish emitted.1 selection address skiprangecheck
      emitted.2 = .ok finished) :
    RexPlaced emitted finished ↔
      form.opcode.startsWithWaitOrRex = false := by
  obtain ⟨written, operand, hbytes, hwrites, hafter⟩ :=
    emit_afterOperand hform.emitted
  have hregular := hform.isRegular
  unfold Opcode.isRegular at hregular
  rw [hform.isReached, Bool.and_eq_true] at hregular
  cases hstarts : form.opcode.startsWithWaitOrRex with
  | true =>
    refine iff_of_false ?_ (by decide)
    have hadds : form.opcode.addsRegister = false := by
      simpa [hstarts] using hregular.1
    obtain ⟨opening, rest, hopening, hmandatoryByte, hwritten⟩ :=
      written_waitOrRex hstarts hwrites
        (fun reg hplus => by
          rw [hform.plus reg hplus] at hadds
          cases hadds)
        hform.plusWithoutRex
    have hmandatory : form.opcode.mandatory = [] := by
      unfold Opcode.mandatory
      rw [if_neg (by rw [hmandatoryByte]; decide)]
    obtain ⟨hplaced, hlocation⟩ := hform.placed
      (by rw [hmandatory]; exact Nat.zero_le _) hbytes hafter
    rw [hmandatory, append_nil] at hlocation
    obtain ⟨switch, rex, tail, hdone, hswitch, hisRex, horder⟩ :=
      finish_placed hplaced hrex hne hfinished
    have hfront : emitted.2 = prefixes ++
        opening :: (rest ++ operand ++ form.immediate) := by
      rw [hbytes, hwritten]
      simp
    obtain ⟨htake, others, rfl⟩ :=
      opening_of_sameOrder hplaced hfront hlocation horder
    rw [hdone, htake]
    exact not_rexPlaced (legacy_append hswitch hform.legacy) hisRex
      hopening emitted
  | false =>
    refine iff_of_true ?_ rfl
    have hwell : form.opcode.opensWell = true := by
      simpa [hstarts] using hregular.1
    obtain ⟨opening, rest, hopening, hwritten⟩ :=
      written_opening hwell hwrites hform.plus hform.plusWithoutRex
    obtain ⟨hplaced, hlocation⟩ := hform.placed
      (by rw [hwritten, length_append]; omega) hbytes hafter
    obtain ⟨switch, rex, tail, hdone, hswitch, hisRex, horder⟩ :=
      finish_placed hplaced hrex hne hfinished
    have hfront : emitted.2 = (prefixes ++ form.opcode.mandatory) ++
        opening :: (rest ++ operand ++ form.immediate) := by
      rw [hbytes, hwritten]
      simp
    obtain ⟨htake, others, rfl⟩ :=
      opening_of_sameOrder hplaced hfront hlocation horder
    rw [htake] at hdone horder
    refine ⟨switch, _, rex, opening, others, hdone, hswitch, ?_, hisRex,
      hopening, horder⟩
    intro byte hbyte
    rcases mem_append.mp hbyte with hmem | hmem
    · exact hform.legacy byte hmem
    · exact mandatory_legacy form.opcode byte hmem

end

/-! ## The state before the form -/

def TokenType.isWide (paramtype : TokenType) : Bool :=
  paramtype = .ttRegister8BitWithPrefix || paramtype = .ttRegister64Bit ||
    paramtype = .ttMemoryLocation64

theorem adjustTypes_rexBits (is64Bit : Bool)
    (paramtype1 paramtype2 : TokenType) :
    IsRexBits (adjustTypes { is64Bit } paramtype1 paramtype2).1.rexPrefix
    := by
  unfold adjustTypes
  cases is64Bit with
  | false => exact (by decide : IsRexBits 0)
  | true =>
    simp only [if_true]
    repeat' split
    all_goals decide

theorem adjustTypes_narrow {paramtype1 paramtype2 : TokenType}
    (hfirst : paramtype1.isWide = false)
    (hsecond : paramtype2.isWide = false) :
    adjustTypes { is64Bit } paramtype1 paramtype2 =
      ({ is64Bit }, paramtype1, paramtype2) := by
  cases is64Bit with
  | false => rfl
  | true =>
    cases paramtype1 <;> first
      | cases hfirst; done
      | cases paramtype2 <;> first | rfl | cases hsecond

theorem isWide_of_narrowed {paramtype1 paramtype2 : TokenType}
    (hsecond : (adjustTypes { is64Bit } paramtype1 paramtype2).2.2 =
      .ttRegister16Bit) : paramtype2.isWide = false := by
  cases is64Bit with
  | false =>
    have hsame : paramtype2 = .ttRegister16Bit := hsecond
    rw [hsame]
    rfl
  | true => cases paramtype2 <;> first | rfl | cases hsecond

def isNarrow (text : Text) : Bool :=
  (registerTokens ++ registerTokens64).all fun entry =>
    !entry.1.isWide && entry.1 ≠ .ttMemoryLocation ||
      entry.2.all fun name => withoutWords name.toList ≠ text

theorem tokenToRegisterbit_narrow {is64Bit : Bool} {token text : Text}
    (hnarrow : isNarrow text = true) (htext : withoutWords token = text) :
    (tokenToRegisterbit is64Bit token).isWide = false ∧
      tokenToRegisterbit is64Bit token ≠ .ttMemoryLocation := by
  have hsub : ∀ entry ∈ (if is64Bit then registerTokens ++ registerTokens64
      else registerTokens), entry ∈ registerTokens ++ registerTokens64 := by
    intro entry hentry
    split at hentry
    · exact hentry
    · exact mem_append_left _ hentry
  unfold tokenToRegisterbit
  simp only
  generalize (if is64Bit then registerTokens ++ registerTokens64
    else registerTokens) = table at hsub
  cases hfind : table.find? fun entry =>
      entry.2.any fun name => name.toList = token with
  | none => decide
  | some entry =>
    have hentry := all_eq_true.mp hnarrow entry
      (hsub entry (mem_of_find?_eq_some hfind))
    have hnamed := find?_some hfind
    simp only [any_eq_true, decide_eq_true_eq] at hnamed
    obtain ⟨name, hname, rfl⟩ := hnamed
    simp only [Bool.or_eq_true, Bool.and_eq_true, Bool.not_eq_true',
      decide_eq_true_eq, all_eq_true] at hentry
    rcases hentry with hentry | hentry
    · exact hentry
    · exact absurd htext (hentry name hname)

theorem gettokentype_narrow {convertHexStrToRealStr : Text → Text}
    {token token2 text : Text} (hnarrow : isNarrow text = true)
    (hbracket : '[' ∉ text)
    (htext : gettoken convertHexStrToRealStr token = text) :
    (gettokentype convertHexStrToRealStr is64Bit token token2).isWide =
      false := by
  unfold gettokentype
  split
  · rfl
  · simp only
    rw [htext, if_neg hbracket]
    by_cases hvalue : (valInt64 (convertHexStrToRealStr
        (withoutWords token))).isSome
    · rw [if_pos hvalue, if_neg (by decide)]
      rfl
    · unfold gettoken at htext
      simp only [if_neg hvalue] at htext
      obtain ⟨hwide, hmemory⟩ :=
        @tokenToRegisterbit_narrow is64Bit _ _ hnarrow htext
      rw [if_neg hvalue, if_neg hmemory]
      exact hwide

theorem prefixByte_legacy {token : Text} {byte : UInt8}
    (hbyte : prefixByte token = some byte) :
    isLegacyPrefix byte = true := by
  unfold prefixByte at hbyte
  repeat' split at hbyte
  all_goals
    cases hbyte
    try decide

theorem segmentBytes_legacy (paramtype : TokenType) (parameter : Text) :
    ∀ byte ∈ segmentBytes paramtype parameter,
      isLegacyPrefix byte = true := by
  have hall : ∀ segment ∈ ([("ES:", 0x26), ("CS:", 0x2e), ("SS:", 0x36),
      ("FS:", 0x64), ("GS:", 0x65)] : List (String × UInt8)),
      isLegacyPrefix segment.2 = true := by
    decide
  intro byte hbyte
  unfold segmentBytes at hbyte
  split at hbyte
  · obtain ⟨segment, hsegment, hsome⟩ := mem_filterMap.mp hbyte
    split at hsome
    · cases hsome
      exact hall segment hsegment
    · cases hsome
  · cases hbyte

section

variable {convertHexStrToRealStr : Text → Text}
  {getOpcodesIndex : Text → Option ℕ} {is64Bit : Bool}
  {assemblerPreference : AssemblerPreference} {address : UInt64}
  {tokens : List Text} {prepared : Prepared}

/-- What is known of the prefixes before the loop over the table. -/
structure Prepared.Prefixed (prepared : Prepared) : Prop where
  legacy : ∀ byte ∈ prepared.bytes, isLegacyPrefix byte = true
  rexPrefix : IsRexBits prepared.state.rexPrefix
  exchange : prepared.line.parameter1 = "AX".toList →
    prepared.line.paramtype2 = .ttRegister16Bit →
      prepared.state.rexPrefix = 0
  opcodes : ∀ opcode ∈ prepared.line.opcodes, opcode ∈ opcodes

theorem prepare_prefixed
    (hprepare : prepare convertHexStrToRealStr getOpcodesIndex is64Bit
      assemblerPreference address tokens = some prepared) :
    prepared.Prefixed := by
  unfold prepare at hprepare
  simp only at hprepare
  split at hprepare
  · cases hprepare
  · cases hprepare
    refine ⟨?_, adjustTypes_rexBits _ _ _, ?_, ?_⟩
    · intro byte hbyte
      simp only [mem_append] at hbyte
      rcases hbyte with (hbyte | hbyte) | hbyte
      · obtain ⟨token, -, hsome⟩ := mem_filterMap.mp hbyte
        exact prefixByte_legacy hsome
      · exact segmentBytes_legacy _ _ byte hbyte
      · exact segmentBytes_legacy _ _ byte hbyte
    · intro hax hsecond
      rw [adjustTypes_narrow ?_ (isWide_of_narrowed hsecond)]
      exact gettokentype_narrow (by decide) (by decide) hax
    · intro opcode hopcode
      simp only at hopcode
      split at hopcode
      · cases hopcode
      · have htable := (takeWhile_sublist _).subset hopcode
        exact mem_of_mem_drop htable

theorem FormAssembled.afterPrefixes {skiprangecheck : Bool} {form : Form}
    {bytes : List UInt8} (hfresh : prepared.Fresh true address)
    (hprefixed : prepared.Prefixed)
    (hform : FormAssembled prepared skiprangecheck form bytes)
    {emitted : State × List UInt8} {selection : Selection}
    (hemit : emit (prepared.state, prepared.bytes) form = .ok emitted)
    (hrex : setsRex emitted.1 selection = true) :
    FormAfterPrefixes prepared.bytes prepared.state form emitted := by
  obtain ⟨opcode, hmem, hentry⟩ :=
    exists_of_findSome?_eq_some hform.fromTable
  obtain ⟨hvalid, hselect⟩ := Line.entryForm_eq_some.mp hentry
  have hopcode := hprefixed.opcodes opcode hmem
  have hfrom := Line.select_fromEntry form hselect
  have hreached : opcode.isReached = true := by
    unfold Line.isInvalid at hvalid
    rw [hfresh.lineIs64Bit] at hvalid
    have hmode : opcode.invalidin64bit = false := by simpa using hvalid
    rw [Opcode.isReached, hmode]
    rfl
  have hregular := all_eq_true.mp isRegular_opcodes
  refine ⟨hprefixed.legacy, hfresh.is64Bit, hfresh.relativeAddressLocation,
    hfresh.needsAddressSwitchPrefix, hprefixed.rexPrefix, hemit,
    fun reg hplus => hfrom.addsRegister hplus, ?_, ?_, ?_⟩
  · intro reg hplus
    obtain ⟨hexchange, hax, hsecond⟩ := hfrom.exchangesAx hplus
    have hnorexw : opcode.norexw = false := by
      have hentry := hregular opcode hopcode
      unfold Opcode.isRegular at hentry
      rw [hexchange, Bool.and_eq_true] at hentry
      simpa using hentry.2
    have hcurrent : prepared.line.current opcode = prepared.line := by
      rw [Line.current, if_neg (by rw [hnorexw]; decide)]
    rw [hcurrent] at hax hsecond
    have hzero := emit_plusWithoutRex hplus hemit
    rw [hprefixed.exchange hax hsecond] at hzero
    rw [setsRex_zero hzero] at hrex
    cases hrex
  · rcases hfrom.opcode_eq with hsame | ⟨hmem, -⟩
    · rw [hsame]
      exact hregular opcode hopcode
    · rw [Line.current_opcodes] at hmem
      exact hregular _ (hprefixed.opcodes _ hmem)
  · rcases hfrom.opcode_eq with hsame | ⟨-, htakes⟩
    · rw [hsame]
      exact hreached
    · rw [Opcode.isReached, htakes, Bool.or_true]

/-- In 64-bit mode the REX prefix of a line that sets one of its bits is
between the other prefixes and the opcode, and all else is in the order in
which it was emitted, except for the entries that begin with a wait or a REX
prefix. -/
theorem assemble_rexPlaced_iff {skiprangecheck : Bool} {bytes : List UInt8}
    (hassemble : assemble convertHexStrToRealStr getOpcodesIndex true
      assemblerPreference address skiprangecheck tokens = .ok (some bytes))
    (hbytes : bytes ≠ []) :
    ∃ prepared,
      prepare convertHexStrToRealStr getOpcodesIndex true
        assemblerPreference address tokens = some prepared ∧
      (prepared.isFar = true ∧
          bytes = farBytes (prepared.mnemonic = "JMP".toList) prepared.line.v ∨
        ∃ form, FormAssembled prepared skiprangecheck form bytes ∧
          ∀ emitted selection,
            emit (prepared.state, prepared.bytes) form = .ok emitted →
            finish emitted.1 selection address skiprangecheck emitted.2 =
              .ok bytes →
            setsRex emitted.1 selection = true →
              (RexPlaced emitted bytes ↔
                form.opcode.startsWithWaitOrRex = false)) := by
  obtain ⟨prepared, hprepare, hcases⟩ := assemble_cases hassemble
  refine ⟨prepared, hprepare, ?_⟩
  rcases hcases with ⟨hfar, hfarBytes⟩ | ⟨-, form, hform⟩
  · exact Or.inl ⟨hfar, hfarBytes⟩
  · right
    refine ⟨form, hform, fun emitted selection hemit hfinish hrex => ?_⟩
    have hafter := hform.afterPrefixes (prepare_fresh hprepare)
      (prepare_prefixed hprepare) hemit hrex
    exact hafter.rexPlaced_iff hbytes hrex hfinish

end

theorem assemble_addss :
    assemble id (fun _ => some 37) true .apNone 0 false
      ["ADDSS".toList, "XMM8".toList, "[RAX]".toList] =
        .ok (some [0xf3, 0x44, 0x0f, 0x58, 0]) := by
  decide

theorem assemble_rexPlaced_iff_addss :
    ∃ prepared,
      prepare id (fun _ => some 37) true .apNone 0
        ["ADDSS".toList, "XMM8".toList, "[RAX]".toList] = some prepared ∧
      (prepared.isFar = true ∧
          [0xf3, 0x44, 0x0f, 0x58, 0] =
            farBytes (prepared.mnemonic = "JMP".toList) prepared.line.v ∨
        ∃ form, FormAssembled prepared false form [0xf3, 0x44, 0x0f, 0x58, 0] ∧
          ∀ emitted selection,
            emit (prepared.state, prepared.bytes) form = .ok emitted →
            finish emitted.1 selection 0 false emitted.2 =
              .ok [0xf3, 0x44, 0x0f, 0x58, 0] →
            setsRex emitted.1 selection = true →
              (RexPlaced emitted [0xf3, 0x44, 0x0f, 0x58, 0] ↔
                form.opcode.startsWithWaitOrRex = false)) :=
  assemble_rexPlaced_iff assemble_addss (by decide)

def fstcwForm : Form :=
  Line.withDigit
    { mnemonic := "FSTCW"
      opcode1 := .eoReg7
      paramtype1 := .parM16
      bytes := 2
      bt1 := 0x9b
      bt2 := 0xd9 }
    "[R8]".toList []

/-- The REX prefix of `FSTCW [R8]` comes before the wait, so that it has no
effect on the opcode. -/
theorem assemble_fstcw_rexMisplaced :
    assemble id (fun _ => some 356) true .apNone 0 false
        ["FSTCW".toList, "[R8]".toList] =
          .ok (some [0x41, 0x9b, 0xd9, 0x38]) ∧
      fstcwForm.opcode ∈ opcodes ∧
      ∃ emitted,
        emit ({ is64Bit := true }, []) fstcwForm = .ok emitted ∧
          finish emitted.1 {} 0 false emitted.2 =
            .ok [0x41, 0x9b, 0xd9, 0x38] ∧
          setsRex emitted.1 {} = true ∧
          ¬ RexPlaced emitted [0x41, 0x9b, 0xd9, 0x38] := by
  refine ⟨by decide, by decide, _, rfl, by decide,
    by decide, ?_⟩
  refine @not_rexPlaced [] [0xd9, 0x38] 0x41 0x9b ?_ (by decide) (by decide) _
  intro byte hbyte
  cases hbyte

end Assembler
end CheatEngine
