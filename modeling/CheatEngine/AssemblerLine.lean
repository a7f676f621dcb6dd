import CheatEngine.AssemblerForms
import CheatEngine.AssemblerOpcodesAtoE
import CheatEngine.AssemblerOpcodesFtoO
import CheatEngine.AssemblerOpcodesPtoX

/-!
# One line of assembler code

`Assemble` from the tokens of a line on: the prefixes, the kinds of the
parameters, the loop over the opcode table, and the REX prefix, the relative
address and the address-size prefix that come at the end.  The data
directives, which are no mnemonics of the table, are left out.
-/

namespace CheatEngine
namespace Assembler

open PascalText

def rsInvalidRegister : Text := "Invalid register".toList

def rsOffsetTooBig : Text := "offset too big".toList

def opcodes : List Opcode :=
  opcodesA ++ opcodesB ++ opcodesC ++ opcodesD ++ opcodesE ++ opcodesF ++
    opcodesH ++ opcodesI ++ opcodesJ ++ opcodesL ++ opcodesM ++ opcodesN ++
    opcodesO ++ opcodesP ++ opcodesR ++ opcodesS ++ opcodesT ++ opcodesU ++
    opcodesV ++ opcodesW ++ opcodesX

def registerTokens : List (TokenType × List String) :=
  [(.ttRegister8Bit, ["AL", "CL", "DL", "BL", "AH", "CH", "DH", "BH"]),
    (.ttRegister16Bit, ["AX", "CX", "DX", "BX", "SP", "BP", "SI", "DI"]),
    (.ttRegister32Bit,
      ["EAX", "ECX", "EDX", "EBX", "ESP", "EBP", "ESI", "EDI"]),
    (.ttRegisterMM,
      ["MM0", "MM1", "MM2", "MM3", "MM4", "MM5", "MM6", "MM7"]),
    (.ttRegisterXMM,
      ["XMM0", "XMM1", "XMM2", "XMM3", "XMM4", "XMM5", "XMM6", "XMM7"]),
    (.ttRegisterST,
      ["ST", "ST(0)", "ST(1)", "ST(2)", "ST(3)", "ST(4)", "ST(5)", "ST(6)",
        "ST(7)"]),
    (.ttRegisterSreg, ["ES", "CS", "SS", "DS", "FS", "GS", "HS", "IS"]),
    (.ttRegisterCR,
      ["CR0", "CR1", "CR2", "CR3", "CR4", "CR5", "CR6", "CR7"]),
    (.ttRegisterDR,
      ["DR0", "DR1", "DR2", "DR3", "DR4", "DR5", "DR6", "DR7"])]

def registerTokens64 : List (TokenType × List String) :=
  [(.ttRegister64Bit,
      ["RAX", "RCX", "RDX", "RBX", "RSP", "RBP", "RSI", "RDI", "R8", "R9",
        "R10", "R11", "R12", "R13", "R14", "R15"]),
    (.ttRegister8BitWithPrefix, ["SPL", "BPL", "SIL", "DIL"]),
    (.ttRegister8Bit,
      ["R8L", "R9L", "R10L", "R11L", "R12L", "R13L", "R14L", "R15L"]),
    (.ttRegister16Bit,
      ["R8W", "R9W", "R10W", "R11W", "R12W", "R13W", "R14W", "R15W"]),
    (.ttRegister32Bit,
      ["R8D", "R9D", "R10D", "R11D", "R12D", "R13D", "R14D", "R15D"]),
    (.ttRegisterXMM,
      ["XMM8", "XMM9", "XMM10", "XMM11", "XMM12", "XMM13", "XMM14",
        "XMM15"]),
    (.ttRegisterCR,
      ["CR8", "CR9", "CR10", "CR11", "CR12", "CR13", "CR14", "CR15"])]

def tokenToRegisterbit (is64Bit : Bool) (token : Text) : TokenType :=
  let table :=
    if is64Bit then registerTokens ++ registerTokens64 else registerTokens
  let entry := table.find? fun entry =>
    entry.2.any fun name => name.toList = token
  (entry.map Prod.fst).getD .ttRegister32Bit

/-- `StringReplace` of the first occurrence by nothing, in any case. -/
def removeFirst (word : Text) : Text → Text
  | [] => []
  | char :: rest =>
    if upperCase ((char :: rest).take word.length) = word then
      (char :: rest).drop word.length
    else char :: removeFirst word rest

def withoutWords (token : Text) : Text :=
  removeFirst "FAR ".toList
    (removeFirst "SHORT ".toList (removeFirst "LONG ".toList token))

/-- The bits that `val` reads into an `int64`. -/
def valInt64 (text : Text) : Option UInt64 :=
  let (negative, rest) := takeSign (skipBlanks text)
  let (base, digits) := takeBase rest
  if digits.isEmpty || decide (255 < text.length) then none
  else
    (parseDigits base 0 digits).bind fun value =>
      if base = 10 ∧ (if negative then 2 ^ 63 else 2 ^ 63 - 1) < value then
        none
      else if 2 ^ 64 ≤ value then none
      else
        some (if negative then -UInt64.ofNat value else UInt64.ofNat value)

def stringValueToType (value : Text) : ℕ :=
  match val value with
  | none => 0
  | some x =>
    if value.length = 17 then 64
    else if value.length = 9 then 32
    else if value.length = 5 then
      if 65535 < x.toUInt32 then 32 else 16
    else if value.length = 3 then
      if 255 < x.toUInt32 then 16 else 8
    else valueToType x.toUInt32

def memoryType (token : Text) : TokenType :=
  if "DQWORD ".toList <:+: token then .ttMemoryLocation128
  else if "TBYTE ".toList <:+: token then .ttMemoryLocation80
  else if "TWORD ".toList <:+: token then .ttMemoryLocation80
  else if "QWORD ".toList <:+: token then .ttMemoryLocation64
  else if "DWORD ".toList <:+: token then .ttMemoryLocation32
  else if "WORD ".toList <:+: token then .ttMemoryLocation16
  else if "BYTE ".toList <:+: token then .ttMemoryLocation8
  else .ttMemoryLocation

def memoryTypeFrom (is64Bit : Bool) (token2 : Text) : TokenType :=
  if token2.isEmpty then .ttMemoryLocation32
  else
    match tokenToRegisterbit is64Bit token2 with
    | .ttRegister8Bit => .ttMemoryLocation8
    | .ttRegister8BitWithPrefix => .ttMemoryLocation8
    | .ttRegisterSreg => .ttMemoryLocation16
    | .ttRegister16Bit => .ttMemoryLocation16
    | .ttRegister64Bit => .ttMemoryLocation64
    | _ => .ttMemoryLocation32

section

variable (convertHexStrToRealStr : Text → Text)

def gettoken (token : Text) : Text :=
  let temp := convertHexStrToRealStr (withoutWords token)
  if (valInt64 temp).isSome then temp else withoutWords token

/-- The kind of a token, which is then replaced by `gettoken`. -/
def gettokentype (is64Bit : Bool) (token token2 : Text) : TokenType :=
  if token.isEmpty then .ttInvalidtoken
  else
    let temp := convertHexStrToRealStr (withoutWords token)
    let result :=
      if (valInt64 temp).isSome then .ttValue
      else tokenToRegisterbit is64Bit token
    let token := gettoken convertHexStrToRealStr token
    let result := if '[' ∈ token then memoryType token else result
    if result = .ttMemoryLocation then memoryTypeFrom is64Bit token2
    else result

end

def getregNames : List (List String) :=
  [["RAX", "EAX", "AX", "AL", "MM0", "XMM0", "ST(0)", "ST", "ES", "CR0",
      "DR0"],
    ["RCX", "ECX", "CX", "CL", "MM1", "XMM1", "ST(1)", "CS", "CR1", "DR1"],
    ["RDX", "EDX", "DX", "DL", "MM2", "XMM2", "ST(2)", "SS", "CR2", "DR2"],
    ["RBX", "EBX", "BX", "BL", "MM3", "XMM3", "ST(3)", "DS", "CR3", "DR3"],
    ["RSP", "ESP", "SP", "AH", "MM4", "XMM4", "ST(4)", "FS", "CR4", "DR4"],
    ["RBP", "EBP", "BP", "CH", "MM5", "XMM5", "ST(5)", "GS", "CR5", "DR5"],
    ["RSI", "ESI", "SI", "DH", "MM6", "XMM6", "ST(6)", "HS", "CR6", "DR6"],
    ["RDI", "EDI", "DI", "BH", "MM7", "XMM7", "ST(7)", "IS", "CR7", "DR7"]]

def getregNames64 : List (ℕ × List String) :=
  [(4, ["SPL"]), (5, ["BPL"]), (6, ["SIL"]), (7, ["DIL"]),
    (8, ["R8", "R8D", "R8W", "R8L", "MM8", "XMM8", "ST(8)", "JS", "CR8",
      "DR8"]),
    (9, ["R9", "R9D", "R9W", "R9L", "MM9", "XMM9", "ST(9)", "CR9", "DR9"]),
    (10, ["R10", "R10D", "R10W", "R10L", "MM10", "XMM10", "ST(10)", "KS",
      "CR10", "DR10"]),
    (11, ["R11", "R11D", "R11W", "R11L", "MM11", "XMM11", "ST(11)", "LS",
      "CR11", "DR11"]),
    (12, ["R12", "R12D", "R12W", "R12L", "MM12", "XMM12", "ST(12)", "MS",
      "CR12", "DR12"]),
    (13, ["R13", "R13D", "R13W", "R13L", "MM13", "XMM13", "ST(13)", "NS",
      "CR13", "DR13"]),
    (14, ["R14", "R14D", "R14W", "R14L", "MM14", "XMM14", "ST(14)", "OS",
      "CR14", "DR14"]),
    (15, ["R15", "R15D", "R15W", "R15L", "MM15", "XMM15", "ST(15)", "PS",
      "CR15", "DR15"])]

def getreg (is64Bit : Bool) (reg : Text) : Except Text ℕ :=
  let isNamed := fun names : List String =>
    names.any fun name => name.toList = reg
  let new := if is64Bit then getregNames64 else []
  match new.find? fun entry => isNamed entry.2 with
  | some entry => .ok entry.1
  | none =>
    match getregNames.findIdx? isNamed with
    | some number => .ok number
    | none => .error rsInvalidRegister

def eotoreg : ExtraOpcode → ℤ
  | .eoReg0 => 0
  | .eoReg1 => 1
  | .eoReg2 => 2
  | .eoReg3 => 3
  | .eoReg4 => 4
  | .eoReg5 => 5
  | .eoReg6 => 6
  | .eoReg7 => 7
  | _ => -1

namespace Opcode

variable (opcode : Opcode)

def opcodeBytes : List UInt8 :=
  opcode.bt1 ::
    ((if 1 < opcode.bytes then [opcode.bt2] else []) ++
      (if 2 < opcode.bytes then [opcode.bt3] else []) ++
      if 3 < opcode.bytes then [opcode.bt4] else [])

def startsWithPrefix : Bool :=
  opcode.bt1 = 0x66 || opcode.bt1 = 0xf2 || opcode.bt1 = 0xf3

end Opcode

def addopcode (state : State) (bytes : List UInt8) (opcode : Opcode) :
    State × List UInt8 :=
  ({ state with
      rexPrefixLocation :=
        if opcode.startsWithPrefix then bytes.length + 1 else bytes.length },
    bytes ++ opcode.opcodeBytes)

def regNumber (is64Bit : Bool) : Reg → Except Text ℤ
  | .eotoreg opcode1 => .ok (eotoreg opcode1)
  | .getreg reg => (getreg is64Bit reg).map fun number => (number : ℤ)

def incLast (bytes : List UInt8) (k : ℕ) : List UInt8 :=
  bytes.dropLast ++ [bytes.getLastD 0 + UInt8.ofNat k]

def emitOperand (state : State) (bytes : List UInt8) :
    Operand → Except Text (State × List UInt8)
  | .none => .ok (state, bytes)
  | .modrm reg param => do
      let reg ← regNumber state.is64Bit reg
      createModRM state bytes reg param
  | .plus reg => do
      let k ← getreg state.is64Bit reg
      .ok (if 7 < k then state.setRexB else state,
        incLast bytes (if 7 < k then k &&& 7 else k))
  | .plusWithoutRex reg => do
      let k ← getreg state.is64Bit reg
      .ok (state, incLast bytes k)

def emit (emitted : State × List UInt8) (form : Form) :
    Except Text (State × List UInt8) := do
  let opcode := addopcode emitted.1 emitted.2 form.opcode
  let operand ← emitOperand opcode.1 opcode.2 form.operand
  .ok (operand.1, operand.2 ++ form.immediate)

def insertRex (state : State) (bytes : List UInt8) : State × List UInt8 :=
  if state.rexPrefix ≠ 0 then
    let rexPrefix := state.rexPrefix ||| 0x40
    ({ state with
        rexPrefix
        relativeAddressLocation := state.relativeAddressLocation.map (· + 1) },
      bytes.take state.rexPrefixLocation ++ rexPrefix ::
        bytes.drop state.rexPrefixLocation)
  else (state, bytes)

def overwrite (bytes : List UInt8) (index : ℕ) (values : List UInt8) :
    List UInt8 :=
  bytes.take index ++ values ++ bytes.drop (index + values.length)

/-- The specified address becomes relative to the next instruction. -/
def setRelativeAddress (state : State) (address : UInt64)
    (bytes : List UInt8) (skiprangecheck : Bool) :
    Except Text (List UInt8) :=
  match state.relativeAddressLocation with
  | none => .ok bytes
  | some location =>
    let next := address + UInt64.ofNat bytes.length
    let v :=
      if next < state.actualdisplacement then
        state.actualdisplacement - next
      else next - state.actualdisplacement
    if 0x7fffffff < v then
      if skiprangecheck then .ok [] else .error rsOffsetTooBig
    else
      .ok (overwrite bytes location
        (dwordBytes (state.actualdisplacement - next)))

/-- What the loop leaves behind; `norexw` is the one of the entry at which it
ends. -/
structure Selection where
  forms : List Form := []
  canDoAddressSwitch : Bool := false
  norexw : Bool := false
deriving DecidableEq, Repr

namespace Line

variable (line : Line)

def current (opcode : Opcode) : Line :=
  if opcode.norexw then line.withoutRexW else line

/-- The forms that are emitted, in their order.  A form that does not end the
loop lets the following entries be looked at. -/
def selectFrom (mnemonic : Text) (selection : Selection) :
    List Opcode → Selection
  | [] => selection
  | opcode :: rest =>
    if opcode.mnemonic.toList ≠ mnemonic then
      { selection with norexw := opcode.norexw }
    else if line.isInvalid opcode then
      selectFrom mnemonic selection rest
    else
      let selection :=
        { selection with canDoAddressSwitch := opcode.canDoAddressSwitch }
      match (line.current opcode).select opcode with
      | none => selectFrom mnemonic selection rest
      | some form =>
        let selection :=
          { selection with forms := selection.forms ++ [form] }
        if form.exits then { selection with norexw := opcode.norexw }
        else selectFrom mnemonic selection rest

end Line

def finish (state : State) (selection : Selection) (address : UInt64)
    (skiprangecheck : Bool) (bytes : List UInt8) :
    Except Text (List UInt8) := do
  let bytes ←
    if state.is64Bit then
      let state := if selection.norexw then state.setRexW false else state
      let inserted := insertRex state bytes
      setRelativeAddress inserted.1 address inserted.2 skiprangecheck
    else .ok bytes
  if state.needsAddressSwitchPrefix then
    if selection.canDoAddressSwitch then .ok (0x67 :: bytes)
    else .error rsInvalidAddress
  else .ok bytes

/-! ## The whole line -/

inductive AssemblerPreference
  | apNone
  | apShort
  | apLong
deriving DecidableEq, Repr

def prefixByte (token : Text) : Option UInt8 :=
  if token = "REP".toList then some 0xf3
  else if token = "REPNE".toList then some 0xf2
  else if token = "REPE".toList then some 0xf3
  else if token = "LOCK".toList then some 0xf0
  else none

def segmentBytes (paramtype : TokenType) (parameter : Text) : List UInt8 :=
  if paramtype.isMemory then
    ([("ES:", 0x26), ("CS:", 0x2e), ("SS:", 0x36), ("FS:", 0x64),
        ("GS:", 0x65)] : List (String × UInt8)).filterMap fun segment =>
      if segment.1.toList <:+: parameter then some segment.2 else none
  else []

def adjustTypes (state : State) (paramtype1 paramtype2 : TokenType) :
    State × TokenType × TokenType :=
  if state.is64Bit then
    let needsPrefix := paramtype1 = .ttRegister8BitWithPrefix ∨
      paramtype2 = .ttRegister8BitWithPrefix
    let isWide := paramtype1 = .ttRegister64Bit ∨
      paramtype2 = .ttRegister64Bit ∨ paramtype1 = .ttMemoryLocation64 ∨
      paramtype2 = .ttMemoryLocation64
    let narrow := fun paramtype : TokenType =>
      match paramtype with
      | .ttRegister8BitWithPrefix => .ttRegister8Bit
      | .ttRegister64Bit => .ttRegister32Bit
      | .ttMemoryLocation64 => .ttMemoryLocation32
      | paramtype => paramtype
    let state :=
      if needsPrefix then
        { state with rexPrefix := state.rexPrefix ||| 0x40 }
      else state
    (if isWide then state.setRexW true else state, narrow paramtype1,
      narrow paramtype2)
  else (state, paramtype1, paramtype2)

/-- The far jump or call that is written in place of one whose target is out
of reach. -/
def farBytes (isJmp : Bool) (v : UInt64) : List UInt8 :=
  (if isJmp then [0xff, 0x25] ++ dwordBytes 0
    else [0xff, 0x15] ++ dwordBytes 2 ++ [0xeb, 0x08]) ++ qwordBytes v

def valueParameters (first second third : TokenType × Text) :
    Option Text × Option Text :=
  let value := fun parameter : TokenType × Text =>
    if parameter.1 = .ttValue then some parameter.2 else none
  match value first with
  | some text => (some text, value third <|> value second)
  | none => (value third <|> value second, none)

def readValue (parameter : Option Text) : UInt64 :=
  (parameter.bind valInt64).getD 0

section

variable (convertHexStrToRealStr : Text → Text)
  (getOpcodesIndex : Text → Option ℕ) (is64Bit : Bool)
  (assemblerPreference : AssemblerPreference)

/-- What `Assemble` makes of the tokens before it looks at the table. -/
structure Prepared where
  bytes : List UInt8
  state : State
  mnemonic : Text
  line : Line
  overrideFar : Bool
deriving DecidableEq, Repr

def prepare (address : UInt64) (tokens : List Text) : Option Prepared :=
  let before := tokens.takeWhile fun token => (prefixByte token).isSome
  match tokens.drop before.length with
  | [] => none
  | mnemonic :: parameters =>
    let parameter := fun number => parameters.getD number []
    let mentions := fun word : String => word.toList <:+: parameter 0
    let noneSaid := ¬ mentions "SHORT " ∧ ¬ mentions "LONG " ∧
      ¬ (is64Bit = false ∧ mentions "FAR ")
    let overrideShort := mentions "SHORT " ∨
      noneSaid ∧ assemblerPreference = .apShort
    let overrideLong := mentions "LONG " ∨ is64Bit = false ∧ mentions "FAR " ∨
      noneSaid ∧ assemblerPreference = .apLong
    let token := fun number =>
      gettoken convertHexStrToRealStr (parameter number)
    let kind := gettokentype convertHexStrToRealStr is64Bit
    let paramtype1 := kind (parameter 0) (parameter 1)
    let paramtype2 := kind (parameter 1) (token 0)
    let paramtype3 := kind (parameter 2) []
    let (state, narrowed1, narrowed2) :=
      adjustTypes { is64Bit } paramtype1 paramtype2
    let values := valueParameters (narrowed1, token 0)
      (narrowed2, token 1) (paramtype3, token 2)
    some
      { bytes := before.filterMap prefixByte ++
          segmentBytes narrowed1 (token 0) ++
          segmentBytes narrowed2 (token 1)
        state
        mnemonic
        overrideFar := is64Bit ∧ mentions "FAR "
        line :=
          { is64Bit
            address
            opcodes :=
              match getOpcodesIndex mnemonic with
              | none => []
              | some j => (opcodes.drop j).takeWhile fun opcode =>
                opcode.mnemonic.toList = mnemonic
            parameter1 := token 0
            parameter2 := token 1
            parameter3 := token 2
            paramtype1 := narrowed1
            paramtype2 := narrowed2
            paramtype3
            oldParamtype1 := narrowed1
            tokentype1 := kind (token 0) (token 1)
            tokentype2 := kind (token 1) (token 2)
            v := readValue values.1
            v2 := readValue values.2
            vtype := (values.1.map stringValueToType).getD 0
            overrideShort
            overrideLong
            rexW := state.rexPrefix &&& 8 = 8 } }

def Prepared.isFar (prepared : Prepared) : Bool :=
  let line := prepared.line
  let v2 :=
    if line.v < line.address then line.address - line.v
    else line.v - line.address
  !line.overrideShort && !line.overrideLong && line.is64Bit &&
    (prepared.mnemonic = "JMP".toList ||
      prepared.mnemonic = "CALL".toList) &&
    line.paramtype1 = .ttValue && (0x7fffffff < v2 || prepared.overrideFar)

/-- The bytes, or `none` for a line that is not known. -/
def assemble (address : UInt64) (skiprangecheck : Bool)
    (tokens : List Text) : Except Text (Option (List UInt8)) :=
  match prepare convertHexStrToRealStr getOpcodesIndex is64Bit
    assemblerPreference address tokens with
  | none => .ok none
  | some prepared =>
    if prepared.isFar then
      .ok (some (farBytes (prepared.mnemonic = "JMP".toList)
        prepared.line.v))
    else
      match getOpcodesIndex prepared.mnemonic with
      | none => .ok none
      | some j => do
          let selection := prepared.line.selectFrom prepared.mnemonic {}
            (opcodes.drop j)
          if selection.forms.isEmpty then .ok none
          else
            let emitted ← selection.forms.foldlM emit
              (prepared.state, prepared.bytes)
            let bytes ← finish emitted.1 selection address skiprangecheck
              emitted.2
            .ok (some bytes)

end

end Assembler
end CheatEngine
