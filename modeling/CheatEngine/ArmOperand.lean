import Mathlib.Tactic

/-!
# The second operand of the ARM assembler

A constant becomes eight bits and a rotation, a register may be shifted by a
constant or by a register.
-/

namespace CheatEngine
namespace ArmOperand

abbrev Text := List Char

abbrev Word := BitVec 32

/-! ## The source -/

def ArmRegisters : List String :=
  ["R0", "R1", "R2", "R3", "R4", "R5", "R6", "R7", "R8", "R9", "R10", "FP",
    "IP", "SP", "LR", "PC"]

def ArmRegistersNoName : List String :=
  ["R0", "R1", "R2", "R3", "R4", "R5", "R6", "R7", "R8", "R9", "R10", "R11",
    "R12", "R13", "R14", "R15"]

def rsCanNotBeEncoded : String :=
  " can not be encoded using 8 bits and double rotate"

def rsThisInstructionClassDoesNotAllow : String :=
  "This instruction class does not allow a register based shift"

def separators : List Char := [' ', ',', '[', ']', '{', '}', '!', '^']

def getParam (instruction : Text) : Text × Text :=
  let start := instruction.dropWhile (· ∈ separators)
  if start = [] then ([], instruction)
  else (start.takeWhile (· ∉ separators), start.dropWhile (· ∉ separators))

def getRegNumber (regstring : Text) : Option ℕ :=
  (List.range 16).find? fun i =>
    regstring = (ArmRegisters.getD i "").toList ∨
      regstring = (ArmRegistersNoName.getD i "").toList

def inttohex (value : ℕ) : String :=
  String.ofList ((Nat.toDigits 16 value).map Char.toUpper)

def smaller (value : Word) (smallest : ℕ × Word) (i : ℕ) : ℕ × Word :=
  if value.rotateLeft (i * 2) < smallest.2 then
    (i, value.rotateLeft (i * 2))
  else smallest

/-- The rotation and the bits; a value with the top bit is negative. -/
def generateRotateAndImm (value : Word) : Except String (ℕ × Word) :=
  if value.toInt ≤ 255 then .ok (0, value)
  else
    let smallest := (List.range 16).foldl (smaller value) (0, value)
    if smallest.2 > 255 then
      .error ("The value " ++ inttohex value.toNat ++ rsCanNotBeEncoded)
    else .ok smallest

def ShiftTypeToNumber (shifttype : Text) : Option ℕ :=
  if shifttype = "LSL".toList then some 0
  else if shifttype = "LSR".toList then some 1
  else if shifttype = "ASR".toList then some 2
  else if shifttype = "ROR".toList then some 3
  else none

def hexDigit (c : Char) : Option ℕ :=
  if '0' ≤ c ∧ c ≤ '9' then some (c.toNat - '0'.toNat)
  else if 'A' ≤ c ∧ c ≤ 'F' then some (10 + c.toNat - 'A'.toNat)
  else if 'a' ≤ c ∧ c ≤ 'f' then some (10 + c.toNat - 'a'.toNat)
  else none

/-- Of the text behind a `$`. -/
def strtoint (digits : Text) : Except String ℕ :=
  let invalid := "\"$" ++ String.ofList digits ++ "\" is an invalid integer"
  match digits.mapM hexDigit with
  | none => .error invalid
  | some [] => .error invalid
  | some values =>
    if Nat.ofDigits 16 values.reverse < 2 ^ 32 then
      .ok (Nat.ofDigits 16 values.reverse)
    else .error invalid

/-- `none` when there is a parameter that is no shift. -/
def ParseShift (instruction : Text) (noregisterbasedshift : Bool)
    (result : Word) : Except String (Option Word) :=
  let (param, rest) := getParam instruction
  if param = [] then .ok (some result)
  else
    match ShiftTypeToNumber param with
    | none => .ok none
    | some shiftnumber =>
      let result := result ||| BitVec.ofNat 32 (shiftnumber <<< 5)
      let (param, _) := getParam rest
      if param = [] then .error "invalid shift parameters"
      else if param.head? = some 'R' then
        if noregisterbasedshift then
          .error rsThisInstructionClassDoesNotAllow
        else
          match getRegNumber param with
          | none => .error "Invalid shift register"
          | some rs => .ok (some (result ||| BitVec.ofNat 32 (1 <<< 4) |||
              BitVec.ofNat 32 (rs <<< 8)))
      else do
        let shiftamount ← strtoint param
        return some (result |||
          BitVec.ofNat 32 ((shiftamount % 256) <<< 7))

/-- `getAddressFromName` is the handler of the symbols. -/
def DataProcessingParser_OP2 (getAddressFromName : Text → Except String UInt64)
    (instruction : Text) (result : Word) : Except String Word :=
  let (param, rest) := getParam instruction
  if param = [] then .error "invalid parameters"
  else
    match getRegNumber param with
    | some rm => do
        match ← ParseShift rest false (result ||| BitVec.ofNat 32 rm) with
        | none => throw "Invalid shift"
        | some result => return result
    | none => do
        let v ← getAddressFromName param
        let (rotate, imm) ← generateRotateAndImm (v.toBitVec.setWidth 32)
        return result ||| BitVec.ofNat 32 (1 <<< 25) ||| (imm &&& 0xff#32) |||
          BitVec.ofNat 32 (rotate <<< 8)

def ArmConditions : List String :=
  ["EQ", "NE", "CS", "CC", "MI", "PL", "VS", "VC", "HI", "LS", "GE", "LT",
    "GT", "LE", "", "NV"]

def DataProcessingOpcodes : List String :=
  ["AND", "EOR", "SUB", "RSB", "ADD", "ADC", "SBC", "RSC", "TST", "TEQ",
    "CMP", "CMN", "ORR", "MOV", "BIC", "MVN"]

/-- The number of the condition and what is left behind it. -/
def getCondition (instruction : Text) : ℕ × Text :=
  match (List.range 16).find? fun i =>
      instruction.take 2 = (ArmConditions.getD i "").toList with
  | none => (14, instruction)
  | some i => (i, instruction.drop 2)

def getFlag : Text → ℕ × Text
  | 'S' :: rest => (1, rest)
  | instruction => (0, instruction)

def getRegister (instruction : Text) (message : String) :
    Except String (ℕ × Text) :=
  let (param, rest) := getParam instruction
  match getRegNumber param with
  | none => .error message
  | some register => .ok (register, rest)

def getOpcode (opcode : Text) : Option ℕ :=
  (List.range 16).find? fun i =>
    opcode = (DataProcessingOpcodes.getD i "").toList

def firstOperands (instruction : Text) : Except String (Text × Word) :=
  match getOpcode (instruction.take 3) with
  | none => .error "Invalid opcode"
  | some opcode =>
    let (condition, rest) := getCondition (instruction.drop 3)
    let result := BitVec.ofNat 32 (opcode <<< 21) |||
      BitVec.ofNat 32 (condition <<< 28)
    if opcode = 13 ∨ opcode = 15 then do
      let (S, rest) := getFlag rest
      let (rd, rest) ← getRegister rest "Invalid destination register"
      return (rest, result ||| BitVec.ofNat 32 (S <<< 20) |||
        BitVec.ofNat 32 (rd <<< 12))
    else if opcode = 8 ∨ opcode = 9 ∨ opcode = 10 ∨ opcode = 11 then do
      let (rn, rest) ← getRegister rest "Invalid first operand register"
      return (rest, result ||| BitVec.ofNat 32 (1 <<< 20) |||
        BitVec.ofNat 32 (rn <<< 16))
    else do
      let (S, rest) := getFlag rest
      let (rd, rest) ← getRegister rest "Invalid destination register"
      let (rn, rest) ← getRegister rest "Invalid first operand register"
      return (rest, result ||| BitVec.ofNat 32 (S <<< 20) |||
        BitVec.ofNat 32 (rd <<< 12) ||| BitVec.ofNat 32 (rn <<< 16))

def DataProcessingParser (getAddressFromName : Text → Except String UInt64)
    (instruction : Text) : Except String Word := do
  let (operand, result) ← firstOperands instruction
  DataProcessingParser_OP2 getAddressFromName operand result

def rotated (imm : BitVec 8) (rotate : ℕ) : Word :=
  (imm.setWidth 32).rotateRight (rotate * 2)

def Encodable (value : Word) : Prop :=
  ∃ imm : BitVec 8, ∃ rotate < 16, rotated imm rotate = value

/-- The constant of a word with an immediate operand. -/
def immediateOf (word : Word) : Word :=
  rotated (word.extractLsb' 0 8) (word.extractLsb' 8 4).toNat

/-- Nothing is in the fields of the second operand. -/
def OperandClear (word : Word) : Prop := word.extractLsb' 0 12 = 0

/-! ## Constants -/

variable (value : Word)

theorem rotateLeft_rotateRight {r : ℕ} (hr : r < 32) :
    (value.rotateRight r).rotateLeft r = value := by
  apply BitVec.eq_of_getLsbD_eq
  intro i hi
  simp only [BitVec.getLsbD_rotateLeft, BitVec.getLsbD_rotateRight,
    Nat.mod_eq_of_lt hr]
  by_cases hlow : i < r
  · have hwrap : ¬ 32 - r + i < 32 - r := by omega
    have hback : 32 - r + i - (32 - r) = i := by omega
    have hin : 32 - r + i < 32 := by omega
    simp [hlow, hwrap, hback, hin]
  · have hwrap : i - r < 32 - r := by omega
    have hback : r + (i - r) = i := by omega
    simp [hlow, hwrap, hback, hi]

theorem rotateRight_rotateLeft {r : ℕ} (hr : r < 32) :
    (value.rotateLeft r).rotateRight r = value := by
  apply BitVec.eq_of_getLsbD_eq
  intro i hi
  simp only [BitVec.getLsbD_rotateLeft, BitVec.getLsbD_rotateRight,
    Nat.mod_eq_of_lt hr]
  by_cases hlow : i < 32 - r
  · have hwrap : ¬ r + i < r := by omega
    have hback : r + i - r = i := by omega
    have hin : r + i < 32 := by omega
    simp [hlow, hwrap, hback, hin]
  · have hwrap : i - (32 - r) < r := by omega
    have hback : 32 - r + (i - (32 - r)) = i := by omega
    simp [hlow, hwrap, hback, hi]

theorem rotateLeft_zero : value.rotateLeft (0 * 2) = value := by
  apply BitVec.eq_of_getLsbD_eq
  intro i hi
  rw [BitVec.getLsbD_rotateLeft]
  simp [hi]

/-- Some rotation to the left leaves eight bits. -/
theorem encodable_iff :
    Encodable value ↔ ∃ i < 16, (value.rotateLeft (i * 2)).toNat < 256 := by
  constructor
  · rintro ⟨imm, rotate, hrotate, rfl⟩
    refine ⟨rotate, hrotate, ?_⟩
    rw [rotated, rotateLeft_rotateRight _ (by omega), BitVec.toNat_setWidth]
    exact (Nat.mod_le _ _).trans_lt imm.isLt
  · rintro ⟨i, hi, hsmall⟩
    refine ⟨(value.rotateLeft (i * 2)).setWidth 8, i, hi, ?_⟩
    have himm : ((value.rotateLeft (i * 2)).setWidth 8).setWidth 32 =
        value.rotateLeft (i * 2) := by
      apply BitVec.eq_of_toNat_eq
      simp only [BitVec.toNat_setWidth]
      omega
    rw [rotated, himm, rotateRight_rotateLeft _ (by omega)]

theorem smaller_spec (n : ℕ) (hn : n ≤ 16) :
    ((List.range n).foldl (smaller value) (0, value)).1 < 16 ∧
    ((List.range n).foldl (smaller value) (0, value)).2 =
      value.rotateLeft
        (((List.range n).foldl (smaller value) (0, value)).1 * 2) ∧
    ∀ i < n, ((List.range n).foldl (smaller value) (0, value)).2.toNat ≤
      (value.rotateLeft (i * 2)).toNat := by
  induction n with
  | zero =>
    refine ⟨Nat.zero_lt_succ 15, ?_, by simp⟩
    exact (rotateLeft_zero value).symm
  | succ n ih =>
    obtain ⟨hcount, hvalue, hleast⟩ := ih (by omega)
    rw [List.range_succ, List.foldl_append, List.foldl_cons, List.foldl_nil]
    generalize (List.range n).foldl (smaller value) (0, value) = smallest
      at hcount hvalue hleast
    rw [smaller]
    split_ifs with hless
    · refine ⟨by omega, rfl, fun i hi => ?_⟩
      rcases Nat.lt_succ_iff_lt_or_eq.mp hi with hlt | rfl
      · exact (BitVec.lt_def.mp hless).le.trans (hleast i hlt)
      · exact le_rfl
    · refine ⟨hcount, hvalue, fun i hi => ?_⟩
      rcases Nat.lt_succ_iff_lt_or_eq.mp hi with hlt | rfl
      · exact hleast i hlt
      · exact not_lt.mp (mt BitVec.lt_def.mpr hless)

theorem generateRotateAndImm_spec {value : Word}
    (hvalue : value.toNat < 2 ^ 31) :
    (∃ rotate imm, rotate < 16 ∧ imm.toNat < 256 ∧
      imm.rotateRight (rotate * 2) = value ∧
      generateRotateAndImm value = .ok (rotate, imm)) ∨
    (¬ Encodable value ∧ generateRotateAndImm value = .error
      ("The value " ++ inttohex value.toNat ++ rsCanNotBeEncoded)) := by
  have hint : value.toInt = value.toNat := by
    rw [BitVec.toInt_eq_toNat_cond]
    omega
  simp only [generateRotateAndImm, hint]
  split_ifs with hsmall hlarge
  · refine Or.inl ⟨0, value, by decide, by omega, ?_, rfl⟩
    have hright := rotateRight_rotateLeft value (r := 0 * 2) (by decide)
    rwa [rotateLeft_zero] at hright
  · obtain ⟨-, -, hleast⟩ := smaller_spec value 16 le_rfl
    refine Or.inr ⟨fun hencodable => ?_, rfl⟩
    obtain ⟨i, hi, hbits⟩ := (encodable_iff value).mp hencodable
    have hle := hleast i hi
    rw [gt_iff_lt, BitVec.lt_def] at hlarge
    have hbound : (255 : Word).toNat = 255 := rfl
    omega
  · obtain ⟨hcount, hsmallest, -⟩ := smaller_spec value 16 le_rfl
    generalize (List.range 16).foldl (smaller value) (0, value) = smallest
      at hcount hsmallest hlarge
    refine Or.inl ⟨smallest.1, smallest.2, hcount, ?_, ?_, rfl⟩
    · rw [gt_iff_lt, BitVec.lt_def] at hlarge
      have hbound : (255 : Word).toNat = 255 := rfl
      omega
    · rw [hsmallest, rotateRight_rotateLeft _ (by omega)]

theorem generateRotateAndImm_negative {value : Word}
    (hvalue : 2 ^ 31 ≤ value.toNat) :
    generateRotateAndImm value = .ok (0, value) := by
  have hlt := value.isLt
  have hint : value.toInt ≤ 255 := by
    rw [BitVec.toInt_eq_toNat_cond]
    split_ifs <;> omega
  rw [generateRotateAndImm, if_pos hint]

theorem immediateOf_or {before imm : Word} (hbefore : OperandClear before)
    {rotate : ℕ} (hrotate : rotate < 16) :
    immediateOf (before ||| BitVec.ofNat 32 (1 <<< 25) |||
      (imm &&& 0xff#32) ||| BitVec.ofNat 32 (rotate <<< 8)) =
        rotated (imm.setWidth 8) rotate := by
  have hlow : ∀ i < 12, before.getLsbD i = false := by
    intro i hi
    have hbit := congrArg (BitVec.getLsbD · i) hbefore
    simpa [hi] using hbit
  have hone : ∀ i < 12, (BitVec.ofNat 32 (1 <<< 25)).getLsbD i = false := by
    decide
  have hmask : ∀ i, (0xff#32).getLsbD i = decide (i < 8) := fun i => by
    refine (BitVec.getLsbD_ofNat 32 (2 ^ 8 - 1) i).trans ?_
    rw [Nat.testBit_two_pow_sub_one, ← Bool.decide_and]
    exact decide_eq_decide.mpr (by omega)
  have hrot : ∀ i < 32, (BitVec.ofNat 32 (rotate <<< 8)).getLsbD i =
      (decide (8 ≤ i) && rotate.testBit (i - 8)) := by
    intro i hi
    rw [BitVec.getLsbD_ofNat, Nat.testBit_shiftLeft, decide_eq_true hi,
      Bool.true_and]
  rw [immediateOf]
  congr 1
  · apply BitVec.eq_of_getLsbD_eq
    intro i hi
    rw [BitVec.getLsbD_extractLsb', Nat.zero_add, BitVec.getLsbD_or,
      BitVec.getLsbD_or, BitVec.getLsbD_or, BitVec.getLsbD_and,
      hlow i (by omega), hone i (by omega), hmask, hrot i (by omega),
      BitVec.getLsbD_setWidth]
    simp [hi]
  · have hfield : BitVec.extractLsb' 8 4 (before |||
        BitVec.ofNat 32 (1 <<< 25) ||| (imm &&& 0xff#32) |||
          BitVec.ofNat 32 (rotate <<< 8)) = BitVec.ofNat 4 rotate := by
      apply BitVec.eq_of_getLsbD_eq
      intro i hi
      rw [BitVec.getLsbD_extractLsb', BitVec.getLsbD_or, BitVec.getLsbD_or,
        BitVec.getLsbD_or, BitVec.getLsbD_and, hlow (8 + i) (by omega),
        hone (8 + i) (by omega), hmask, hrot (8 + i) (by omega),
        BitVec.getLsbD_ofNat]
      simp [hi]
    rw [hfield, BitVec.toNat_ofNat, Nat.mod_eq_of_lt hrotate]

theorem operandClear_or {first second : Word} (hfirst : OperandClear first)
    (hsecond : OperandClear second) : OperandClear (first ||| second) := by
  rw [OperandClear, BitVec.extractLsb'_or, hfirst, hsecond]
  rfl

theorem operandClear_shift (field : ℕ) {place : ℕ} (hplace : 12 ≤ place) :
    OperandClear (BitVec.ofNat 32 (field <<< place)) := by
  apply BitVec.eq_of_getLsbD_eq
  intro i hi
  rw [BitVec.getLsbD_extractLsb', BitVec.getLsbD_ofNat, Nat.testBit_shiftLeft,
    decide_eq_false (show ¬ 0 + i ≥ place by omega)]
  simp

theorem operandClear_firstOperands {instruction operand : Text}
    {before : Word}
    (hfirst : firstOperands instruction = .ok (operand, before)) :
    OperandClear before := by
  have hshift := @operandClear_shift
  unfold firstOperands at hfirst
  generalize getCondition (instruction.drop 3) = condition at hfirst
  cases hopcode : getOpcode (instruction.take 3) with
  | none =>
    rw [hopcode] at hfirst
    cases hfirst
  | some opcode =>
    rw [hopcode] at hfirst
    have hword : OperandClear (BitVec.ofNat 32 (opcode <<< 21) |||
        BitVec.ofNat 32 (condition.1 <<< 28)) :=
      operandClear_or (hshift _ (by decide)) (hshift _ (by decide))
    simp only [bind, Except.bind, pure, Except.pure] at hfirst
    split_ifs at hfirst
    · split at hfirst
      · cases hfirst
      · cases hfirst
        exact operandClear_or (operandClear_or hword (hshift _ (by decide)))
          (hshift _ (by decide))
    · split at hfirst
      · cases hfirst
      · cases hfirst
        exact operandClear_or (operandClear_or hword (hshift _ (by decide)))
          (hshift _ (by decide))
    · split at hfirst
      · cases hfirst
      · split at hfirst
        · cases hfirst
        · cases hfirst
          exact operandClear_or (operandClear_or (operandClear_or hword
            (hshift _ (by decide))) (hshift _ (by decide)))
              (hshift _ (by decide))

/-- The emitted constant is the value, and an error says there is none. -/
def ConstantRight (out : Except String Word) (value : Word) : Prop :=
  (∀ word, out = .ok word → immediateOf word = value) ∧
    (out = .error ("The value " ++ inttohex value.toNat ++
      rsCanNotBeEncoded) ↔ ¬ Encodable value)

section

variable {getAddressFromName : Text → Except String UInt64}
  {instruction rest : Text} {before : Word}

theorem op2_constant_iff {param : Text} {value : UInt32}
    (hbefore : OperandClear before)
    (hparam : getParam instruction = (param, rest)) (hne : param ≠ [])
    (hnumber : getRegNumber param = none)
    (hvalue : getAddressFromName param = .ok value.toUInt64) :
    ConstantRight (DataProcessingParser_OP2 getAddressFromName instruction
      before) value.toBitVec ↔ value.toNat < 2 ^ 31 := by
  have hcut : value.toUInt64.toBitVec.setWidth 32 = value.toBitVec := by
    apply BitVec.eq_of_toNat_eq
    simp only [UInt32.toBitVec_toUInt64, BitVec.toNat_setWidth]
    omega
  have hout : DataProcessingParser_OP2 getAddressFromName instruction before =
      (generateRotateAndImm value.toBitVec).map fun found =>
        before ||| BitVec.ofNat 32 (1 <<< 25) ||| (found.2 &&& 0xff#32) |||
          BitVec.ofNat 32 (found.1 <<< 8) := by
    simp only [DataProcessingParser_OP2, hparam, if_neg hne, hnumber, hvalue,
      hcut, bind, Except.bind]
    cases generateRotateAndImm value.toBitVec with
    | error message => rfl
    | ok found => rfl
  rw [hout]
  constructor
  · intro hright
    by_contra hlarge
    rw [generateRotateAndImm_negative (not_lt.mp hlarge)] at hright
    have hsame := hright.1 _ rfl
    rw [immediateOf_or hbefore (Nat.zero_lt_succ 15)] at hsame
    have hbits := congrArg (fun word => (word.rotateLeft (0 * 2)).toNat) hsame
    simp only [rotated, rotateLeft_rotateRight _ (show 0 * 2 < 32 by decide),
      rotateLeft_zero, BitVec.toNat_setWidth] at hbits
    have hnat : value.toBitVec.toNat = value.toNat := rfl
    omega
  · intro hsmall
    rcases generateRotateAndImm_spec hsmall with
      ⟨rotate, imm, hrotate, himm, hvalue, hfound⟩ | ⟨hnone, hfound⟩
    · rw [hfound]
      have hwide : (imm.setWidth 8).setWidth 32 = imm := by
        apply BitVec.eq_of_toNat_eq
        simp only [BitVec.toNat_setWidth]
        omega
      refine ⟨fun word hword => ?_, iff_of_false (fun herror => ?_) ?_⟩
      · cases hword
        rw [immediateOf_or hbefore hrotate, rotated, hwide, hvalue]
      · cases herror
      · exact not_not.mpr ⟨imm.setWidth 8, rotate, hrotate, by
          rw [rotated, hwide, hvalue]⟩
    · rw [hfound]
      exact ⟨fun word hword => (nomatch hword), iff_of_true rfl hnone⟩

def shiftedByConstant (rm shiftnumber amount : ℕ) : Word :=
  BitVec.ofNat 32 (amount * 2 ^ 7 + shiftnumber * 2 ^ 5 + rm)

def shiftedByRegister (rm shiftnumber rs : ℕ) : Word :=
  BitVec.ofNat 32 (rs * 2 ^ 8 + shiftnumber * 2 ^ 5 + 2 ^ 4 + rm)

variable {name : Text} {shiftnumber : ℕ}

theorem getRegNumber_lt {i : ℕ} (hnumber : getRegNumber name = some i) :
    i < 16 :=
  List.mem_range.mp (List.mem_of_find?_eq_some hnumber)

theorem shiftTypeToNumber_lt {i : ℕ}
    (hshift : ShiftTypeToNumber name = some i) : i < 4 := by
  unfold ShiftTypeToNumber at hshift
  split_ifs at hshift <;> cases hshift <;> decide

theorem or_shiftLeft {low place : ℕ} (hlow : low < 2 ^ place) (field : ℕ) :
    low ||| field <<< place = field * 2 ^ place + low := by
  rw [Nat.or_comm, ← Nat.shiftLeft_add_eq_or_of_lt hlow, Nat.shiftLeft_eq]

theorem strtoint_eq_ok {digits : Text} {value : ℕ}
    (hvalue : strtoint digits = .ok value) :
    digits ≠ [] ∧ digits.head? ≠ some 'R' := by
  cases digits with
  | nil => cases hvalue
  | cons c rest =>
    refine ⟨List.cons_ne_nil c rest, fun hhead => ?_⟩
    cases hhead
    have hdigit : hexDigit 'R' = none := by decide
    simp [strtoint, List.mapM_cons, hdigit] at hvalue

variable {rm : ℕ}

theorem shiftedByConstant_eq (before : Word) (hrm : rm < 16)
    (hshift : shiftnumber < 4) (amount : ℕ) :
    before ||| BitVec.ofNat 32 rm ||| BitVec.ofNat 32 (shiftnumber <<< 5) |||
        BitVec.ofNat 32 (amount <<< 7) =
      before ||| shiftedByConstant rm shiftnumber amount := by
  rw [BitVec.or_assoc, BitVec.or_assoc, ← BitVec.ofNat_or, ← BitVec.ofNat_or,
    ← Nat.or_assoc, or_shiftLeft (show rm < 2 ^ 5 by omega),
    or_shiftLeft (by omega), ← Nat.add_assoc, shiftedByConstant]

theorem shiftedByRegister_eq (before : Word) (hrm : rm < 16)
    (hshift : shiftnumber < 4) (rs : ℕ) :
    before ||| BitVec.ofNat 32 rm ||| BitVec.ofNat 32 (shiftnumber <<< 5) |||
        BitVec.ofNat 32 (1 <<< 4) ||| BitVec.ofNat 32 (rs <<< 8) =
      before ||| shiftedByRegister rm shiftnumber rs := by
  have hfields : rm ||| shiftnumber <<< 5 ||| 1 <<< 4 ||| rs <<< 8 =
      rs * 2 ^ 8 + shiftnumber * 2 ^ 5 + 2 ^ 4 + rm := by
    rw [Nat.or_assoc rm, Nat.or_comm (shiftnumber <<< 5), ← Nat.or_assoc,
      or_shiftLeft (show rm < 2 ^ 4 by omega),
      or_shiftLeft (show 1 * 2 ^ 4 + rm < 2 ^ 5 by omega),
      or_shiftLeft (by omega)]
    omega
  rw [BitVec.or_assoc, BitVec.or_assoc, BitVec.or_assoc, ← BitVec.ofNat_or,
    ← BitVec.ofNat_or, ← BitVec.ofNat_or, ← Nat.or_assoc, ← Nat.or_assoc,
    hfields, shiftedByRegister]

/-- The text has a register, a shift and something that says how far. -/
structure ShiftedRegister (instruction amount : Text) (rm shiftnumber : ℕ) :
    Prop where
  register : getRegNumber (getParam instruction).1 = some rm
  shift : ShiftTypeToNumber (getParam (getParam instruction).2).1 =
    some shiftnumber
  amount : (getParam (getParam (getParam instruction).2).2).1 = amount

theorem op2_shiftedRegister {amount : Text}
    (hshifted : ShiftedRegister instruction amount rm shiftnumber)
    (hne : amount ≠ []) :
    DataProcessingParser_OP2 getAddressFromName instruction before =
      if amount.head? = some 'R' then
        match getRegNumber amount with
        | none => .error "Invalid shift register"
        | some rs => .ok (before ||| shiftedByRegister rm shiftnumber rs)
      else (strtoint amount).map fun shiftamount =>
        before ||| shiftedByConstant rm shiftnumber (shiftamount % 256) := by
  obtain ⟨hregister, hshift, hamount⟩ := hshifted
  have hrm := getRegNumber_lt hregister
  have hnumber := shiftTypeToNumber_lt hshift
  have hregisterText : (getParam instruction).1 ≠ [] := fun hempty => by
    rw [hempty, show getRegNumber [] = none by decide] at hregister
    cases hregister
  have hshiftText : (getParam (getParam instruction).2).1 ≠ [] :=
      fun hempty => by
    rw [hempty, show ShiftTypeToNumber [] = none by decide] at hshift
    cases hshift
  simp only [DataProcessingParser_OP2, ParseShift, if_neg hregisterText,
    hregister, if_neg hshiftText, hshift, hamount, if_neg hne, bind,
    Except.bind, pure, Except.pure]
  by_cases hhead : amount.head? = some 'R'
  · simp only [if_pos hhead, if_neg Bool.false_ne_true]
    cases getRegNumber amount with
    | none => rfl
    | some rs =>
      exact congrArg Except.ok (shiftedByRegister_eq before hrm hnumber rs)
  · simp only [if_neg hhead]
    cases strtoint amount with
    | error message => rfl
    | ok value =>
      exact congrArg Except.ok (shiftedByConstant_eq before hrm hnumber _)

theorem op2_shiftedByConstant {amount : Text} {value : ℕ}
    (hshifted : ShiftedRegister instruction amount rm shiftnumber)
    (hvalue : strtoint amount = .ok value) (hle : value ≤ 31) :
    DataProcessingParser_OP2 getAddressFromName instruction before =
      .ok (before ||| shiftedByConstant rm shiftnumber value) := by
  obtain ⟨hne, hhead⟩ := strtoint_eq_ok hvalue
  rw [op2_shiftedRegister hshifted hne, if_neg hhead, hvalue]
  rw [Except.map, Nat.mod_eq_of_lt (by omega)]

def IsNameOf (name : Text) (rs : ℕ) : Prop :=
  rs < 16 ∧ (name = (ArmRegisters.getD rs "").toList ∨
    name = (ArmRegistersNoName.getD rs "").toList)

theorem isNameOf_cases {rs : ℕ} (hname : IsNameOf name rs) :
    getRegNumber name = some rs ∧ name ≠ [] ∧
      (name.head? = some 'R' ∨
        name.head? ≠ some 'R' ∧ (strtoint name).toOption = none) := by
  obtain ⟨hrs, rfl | rfl⟩ := hname <;> revert rs <;> decide

theorem op2_shiftedByRegister_iff {rs : ℕ}
    (hshifted : ShiftedRegister instruction name rm shiftnumber)
    (hname : IsNameOf name rs) :
    DataProcessingParser_OP2 getAddressFromName instruction before =
        .ok (before ||| shiftedByRegister rm shiftnumber rs) ↔
      name.head? = some 'R' := by
  obtain ⟨hnumber, hne, hcases⟩ := isNameOf_cases hname
  rw [op2_shiftedRegister hshifted hne]
  rcases hcases with hhead | ⟨hhead, hinvalid⟩
  · rw [if_pos hhead, hnumber]
    exact iff_of_true rfl hhead
  · rw [if_neg hhead]
    refine iff_of_false (fun hok => ?_) hhead
    cases hvalue : strtoint name with
    | error message =>
      rw [hvalue] at hok
      cases hok
    | ok value =>
      rw [hvalue] at hinvalid
      cases hinvalid

/-- A constant keeps its value and an error is right exactly below the top
bit, a shift by a constant always stands in the word, one by a register
exactly when its name starts with an R. -/
theorem dataProcessingParser_operand2 {operand : Text}
    (hfirst : firstOperands instruction = .ok (operand, before)) :
    OperandClear before ∧
    (∀ value : UInt32, (getParam operand).1 ≠ [] →
      getRegNumber (getParam operand).1 = none →
      getAddressFromName (getParam operand).1 = .ok value.toUInt64 →
      (ConstantRight (DataProcessingParser getAddressFromName instruction)
        value.toBitVec ↔ value.toNat < 2 ^ 31)) ∧
    (∀ amount rm shiftnumber value,
      ShiftedRegister operand amount rm shiftnumber →
      strtoint amount = .ok value → value ≤ 31 →
      DataProcessingParser getAddressFromName instruction =
        .ok (before ||| shiftedByConstant rm shiftnumber value)) ∧
    ∀ name rm shiftnumber rs, ShiftedRegister operand name rm shiftnumber →
      IsNameOf name rs →
      (DataProcessingParser getAddressFromName instruction =
          .ok (before ||| shiftedByRegister rm shiftnumber rs) ↔
        name.head? = some 'R') := by
  have hparser : DataProcessingParser getAddressFromName instruction =
      DataProcessingParser_OP2 getAddressFromName operand before := by
    rw [DataProcessingParser, hfirst]
    rfl
  have hclear := operandClear_firstOperands hfirst
  rw [hparser]
  refine ⟨hclear, fun value hne hnumber hvalue => ?_,
    fun amount rm shiftnumber value => op2_shiftedByConstant,
    fun name rm shiftnumber rs => op2_shiftedByRegister_iff⟩
  exact op2_constant_iff hclear rfl hne hnumber hvalue

theorem dataProcessingParser_operand2_mov :
    ConstantRight (DataProcessingParser (fun _ => .ok 0xff)
      "MOV R1,FF".toList) 0xff :=
  ((dataProcessingParser_operand2
    (show firstOperands "MOV R1,FF".toList =
      .ok (",FF".toList, 0xe1a01000) from rfl)).2.1 0xff (by decide)
      (by decide) rfl).mpr (by decide)

/-- `MOV R1,FF000000` sets R1 to zero. -/
theorem not_constantRight_top :
    ¬ ∀ (getAddressFromName : Text → Except String UInt64)
      (instruction operand : Text) (before : Word) (value : UInt32),
      firstOperands instruction = .ok (operand, before) →
      (getParam operand).1 ≠ [] →
      getRegNumber (getParam operand).1 = none →
      getAddressFromName (getParam operand).1 = .ok value.toUInt64 →
      ConstantRight (DataProcessingParser getAddressFromName instruction)
        value.toBitVec := by
  intro hright
  have hparse : firstOperands "MOV R1,FF000000".toList =
      .ok (",FF000000".toList, 0xe1a01000) := rfl
  have htop := hright (fun _ => .ok 0xff000000) _ _ _ 0xff000000 hparse
    (by decide) (by decide) rfl
  have hword : immediateOf 0xe3a01000 = 0xff000000 := htop.1 _ rfl
  exact absurd hword (by decide)

end

end ArmOperand
end CheatEngine
