import CheatEngine.PascalText
import CheatEngine.X86Addressing

/-!
# Memory operands in the assembler

`createModRM`, `setmodrm` and `createsibscaleindex` turn the text of an
operand into a ModRM byte and what follows it.
-/

namespace CheatEngine
namespace Assembler

open HexText PascalText X86Addressing

abbrev Text := List Char

def rsInvalidMultiplier : Text := "Invalid multiplier".toList

def rsWTFIsA : Text := "WTF is a ".toList

def rsIDontUnderstandWhatYouMeanWith : Text :=
  "I don't understand what you mean with ".toList

def rsNegativeRegistersCanNotBeEncoded : Text :=
  "Negative registers can not be encoded".toList

def rsInvalidAddress : Text := "Invalid address".toList

def rsTheAssemblerTriedToSetARegisteValueThatIsTooHigh : Text :=
  "The assembler tried to set a register value that is too high".toList

/-- The fields of `TSingleLineAssembler`. -/
structure State where
  is64Bit : Bool
  rexPrefix : UInt8 := 0
  rexPrefixLocation : ℕ := 0
  needsAddressSwitchPrefix : Bool := false
  /-- `none` is `-1`. -/
  relativeAddressLocation : Option ℕ := none
  actualdisplacement : UInt64 := 0
deriving DecidableEq, Repr

namespace State

variable (state : State)

def setRexW (on : Bool) : State :=
  if on then { state with rexPrefix := (state.rexPrefix &&& 0xf7) ||| 8 }
  else { state with rexPrefix := state.rexPrefix &&& 0xf7 }

def setRexR : State :=
  { state with rexPrefix := (state.rexPrefix &&& 0xfb) ||| 4 }

def setRexX : State :=
  { state with rexPrefix := (state.rexPrefix &&& 0xfd) ||| 2 }

def setRexB : State :=
  { state with rexPrefix := (state.rexPrefix &&& 0xfe) ||| 1 }

end State

def setsibscale (sib : UInt8) (i : ℕ) : UInt8 :=
  (sib &&& (0x3f : UInt8)) ||| UInt8.ofNat (i <<< 6)

def setsibindex (state : State) (sib : UInt8) (i : ℕ) : State × UInt8 :=
  (if 7 < i then state.setRexX else state,
    (sib &&& (0xc7 : UInt8)) ||| UInt8.ofNat ((i &&& 7) <<< 3))

def setsibbase (state : State) (sib : UInt8) (i : ℕ) : State × UInt8 :=
  (if 7 < i then state.setRexB else state,
    (sib &&& 0xf8) ||| UInt8.ofNat (i &&& 7))

def setrm (state : State) (modrm : UInt8) (i : ℕ) : State × UInt8 :=
  (if 7 < i then state.setRexB else state,
    (modrm &&& 0xf8) ||| UInt8.ofNat (i &&& 7))

def setmod (modrm : UInt8) (i : ℕ) : UInt8 :=
  (modrm &&& (0x3f : UInt8)) ||| UInt8.ofNat (i <<< 6)

def getmod (modrm : UInt8) : ℕ := (modrm >>> 6).toNat

def dwordBytes (value : UInt64) : List UInt8 :=
  [value.toUInt8, (value >>> 8).toUInt8, (value >>> 16).toUInt8,
    (value >>> 24).toUInt8]

/-- The scale after the first `*` that a character follows. -/
def readScale : Text → Except Text ℕ
  | [] => .ok 0
  | ['*', '1'] => .ok 0
  | ['*', '2'] => .ok 1
  | ['*', '4'] => .ok 2
  | ['*', '8'] => .ok 3
  | '*' :: _ :: _ => .error rsInvalidMultiplier
  | _ :: rest => readScale rest

def indexNames32 : List (Text × ℕ) :=
  [("EAX".toList, 0), ("ECX".toList, 1), ("EDX".toList, 2),
    ("EBX".toList, 3), ("ESP".toList, 4), ("EBP".toList, 5),
    ("ESI".toList, 6), ("EDI".toList, 7)]

def indexNames64 : List (Text × ℕ) :=
  [("RAX".toList, 0), ("RCX".toList, 1), ("RDX".toList, 2),
    ("RBX".toList, 3), ("RSP".toList, 4), ("RBP".toList, 5),
    ("RSI".toList, 6), ("RDI".toList, 7), ("R8".toList, 8),
    ("R9".toList, 9), ("R10".toList, 10), ("R11".toList, 11),
    ("R12".toList, 12), ("R13".toList, 13), ("R14".toList, 14),
    ("R15".toList, 15)]

/-- The first name that occurs in the text; no text at all is taken for the
stack pointer, which stands for no index. -/
def indexNumber (names : List (Text × ℕ)) (reg : Text) : Option ℕ :=
  (names.find? fun entry =>
    decide (entry.1 <:+: reg) || (decide (entry.2 = 4) && reg.isEmpty)).map
      Prod.snd

def createsibscaleindex (state : State) (sib : UInt8) (reg : Text) :
    Except Text (State × UInt8) := do
  let scale ← readScale reg
  let sib := setsibscale sib scale
  if state.is64Bit then
    match indexNumber indexNames64 reg with
    | some i => .ok (setsibindex state sib i)
    | none =>
      match indexNumber indexNames32 reg with
      | some i =>
        .ok ({ (setsibindex state sib i).1 with
            needsAddressSwitchPrefix := true },
          (setsibindex state sib i).2)
      | none => .error (rsWTFIsA ++ reg)
  else
    match indexNumber indexNames32 reg with
    | some i => .ok (setsibindex state sib i)
    | none => .error (rsWTFIsA ++ reg)

def isSign (char : Char) : Bool := char == '+' || char == '-'

/-- A sign after something else starts a new part; a text that ends in a sign
loses its last part. -/
def splitFrom (part : Text) (go : Bool) : Text → List Text
  | [] => []
  | [char] => if isSign char then [] else [part ++ [char]]
  | char :: rest =>
    if isSign char && go then part :: splitFrom [char] false rest
    else splitFrom (part ++ [char]) (go || !isSign char) rest

def takeSigns (increase : Bool) : Text → Bool × Text
  | '-' :: rest => takeSigns (!increase) rest
  | '+' :: rest => takeSigns increase rest
  | text => (increase, text)

def val (text : Text) : Option UInt64 :=
  let (negative, rest) := takeSign (skipBlanks text)
  let (base, digits) := takeBase rest
  if negative || digits.isEmpty || decide (255 < text.length) then
    none
  else
    (parseDigits base 0 digits).bind fun value =>
      if value < 2 ^ 64 then some (UInt64.ofNat value) else none

structure Parts where
  disp : UInt64
  regs : Text
  temp : Text

/-- A part is a value if it can be read as a hexadecimal number, otherwise it
is taken for a register. -/
def readPart (address : Text) (parts : Parts) (part : Text) :
    Except Text Parts :=
  let (increase, rest) := takeSigns true part
  let temp := if rest.isEmpty then parts.temp else rest
  if temp.isEmpty then
    .error (rsIDontUnderstandWhatYouMeanWith ++ address)
  else
    match val (if temp.head? = some '$' then temp else '$' :: temp) with
    | none =>
      if increase then
        .ok { parts with regs := parts.regs ++ temp ++ ['+'], temp }
      else .error rsNegativeRegistersCanNotBeEncoded
    | some test =>
      .ok { parts with
        disp := if increase then parts.disp + test else parts.disp - test
        temp }

def readParts (address : Text) : Except Text Parts :=
  (splitFrom [] false address).foldlM (readPart address)
    { disp := 0, regs := [], temp := [] }

/-! ## The ModRM byte -/

/-- What setmodrm does for one register that can be the base. -/
structure BaseArm where
  names : List Text
  number : ℕ
  alwaysSib : Bool
  needsDisplacement : Bool
deriving DecidableEq, Repr

def baseArm (names : List String) (number : ℕ) : BaseArm where
  names := names.map String.toList
  number
  alwaysSib := false
  needsDisplacement := false

def baseArms (is64Bit : Bool) : List BaseArm :=
  [{ baseArm ["ESP", "RSP"] 4 with alwaysSib := true },
    baseArm ["EAX", "RAX"] 0,
    baseArm ["ECX", "RCX"] 1,
    baseArm ["EDX", "RDX"] 2,
    baseArm ["EBX", "RBX"] 3,
    { baseArm ["ESP", "RSP"] 4 with alwaysSib := true },
    { baseArm ["EBP", "RBP"] 5 with needsDisplacement := true },
    baseArm ["ESI", "RSI"] 6,
    baseArm ["EDI", "RDI"] 7] ++
  if is64Bit then
    [baseArm ["R8"] 8,
      baseArm ["R9"] 9,
      baseArm ["R10"] 10,
      baseArm ["R11"] 11,
      { baseArm ["R12"] 12 with alwaysSib := true },
      { baseArm ["R13"] 13 with needsDisplacement := true },
      baseArm ["R14"] 14,
      baseArm ["R15"] 15]
  else []

/-- `reg[k]` and `reg[-k]` after `if reg[-k]=name then k:=-k` for each name. -/
def flip (names : List Text) (regs : Text × Text) : Text × Text :=
  names.foldl (fun regs name => if regs.2 = name then regs.swap else regs)
    regs

namespace BaseArm

variable (arm : BaseArm)

def isFor (regs : Text × Text) : Bool :=
  arm.names.any fun name => regs.1 = name || regs.2 = name

def run (state : State) (modrm : UInt8) (disp : UInt64)
    (regs : Text × Text) : Except Text (State × List UInt8) := do
  let index := (flip arm.names regs).2
  let modrm :=
    if arm.needsDisplacement && disp = 0 then setmod modrm 1 else modrm
  if arm.alwaysSib || !index.isEmpty then
    let (state, modrm) := setrm state modrm 4
    let (state, sib) := setsibbase state 0 arm.number
    let (state, sib) ← createsibscaleindex state sib index
    .ok (state, [modrm, sib])
  else
    let (state, modrm) := setrm state modrm arm.number
    .ok (state, [modrm])

end BaseArm

def withoutBase (state : State) (modrm : UInt8) (disp : UInt64)
    (reg1 reg2 : Text) (offset : ℕ) :
    Except Text (Option (State × List UInt8)) := do
  if !reg1.isEmpty && reg2.isEmpty && '*' ∈ reg1 then
    let (state, modrm) := setrm state (setmod modrm 0) 4
    let (state, sib) := setsibbase state 0 5
    let (state, sib) ← createsibscaleindex state sib reg1
    .ok (some (state, [modrm, sib] ++ dwordBytes disp))
  else if reg1.isEmpty && reg2.isEmpty then
    let (state, modrm) := setrm state modrm 5
    let modrm := setmod modrm 0
    if state.is64Bit then
      if disp ≤ 0x7fffffff then
        let (state, modrm) := setrm state modrm 4
        let (state, sib) := setsibbase state 0 5
        let (state, sib) := setsibindex state sib 4
        .ok (some (state, [modrm, setsibscale sib 0] ++ dwordBytes disp))
      else
        .ok (some ({ state with
          actualdisplacement := disp
          relativeAddressLocation := some (offset + 1) },
          [modrm] ++ dwordBytes disp))
    else
      .ok (some (state, [modrm] ++ dwordBytes disp))
  else
    .ok none

/-- An exception while a base is set is replaced by the one of the `finally`
part, unless something was found before. -/
def withBase (state : State) (modrm : UInt8) (disp : UInt64)
    (regs : Text × Text) (found : Option (State × List UInt8)) :
    Except Text (State × List UInt8) :=
  match (baseArms state.is64Bit).find? (·.isFor regs) with
  | some arm =>
    match arm.run state modrm disp regs with
    | .ok result => .ok result
    | .error text =>
      if found.isSome then .error text else .error rsInvalidAddress
  | none =>
    match found with
    | some result => .ok result
    | none => .error rsInvalidAddress

def addDisplacement (modrm : List UInt8) (disp : UInt64) : List UInt8 :=
  match getmod (modrm.headD 0) with
  | 1 => modrm ++ [disp.toUInt8]
  | 2 => modrm ++ dwordBytes disp
  | _ => modrm

/-- The text before the first `+`, and the text after it. -/
def splitRegs (regs : Text) : Text × Text :=
  (regs.takeWhile (· ≠ '+'), (regs.dropWhile (· ≠ '+')).tail)

def setmodrm (state : State) (modrm : UInt8) (address : Text)
    (offset : ℕ) : Except Text (State × List UInt8) := do
  let parts ← readParts address
  let regs := parts.regs.dropLast
  if 1 < regs.count '+' ∨ 1 < regs.count '*' then
    .error (rsIDontUnderstandWhatYouMeanWith ++ address)
  else
    let disp := parts.disp
    let modrm :=
      if disp = 0 then setmod modrm 0
      else if -128 ≤ signed 32 disp.toNat ∧ signed 32 disp.toNat ≤ 127 then
        setmod modrm 1
      else setmod modrm 2
    let (reg1, reg2) := splitRegs regs
    let found ← withoutBase state modrm disp reg1 reg2 offset
    let (state, modrm) ← withBase state modrm disp (reg2, reg1) found
    .ok (state, addDisplacement modrm disp)

def registerOperands : List (List String) :=
  [["RAX", "EAX", "AX", "AL", "MM0", "XMM0"],
    ["RCX", "ECX", "CX", "CL", "MM1", "XMM1"],
    ["RDX", "EDX", "DX", "DL", "MM2", "XMM2"],
    ["RBX", "EBX", "BX", "BL", "MM3", "XMM3"],
    ["SPL", "RSP", "ESP", "SP", "AH", "MM4", "XMM4"],
    ["BPL", "RBP", "EBP", "BP", "CH", "MM5", "XMM5"],
    ["SIL", "RSI", "ESI", "SI", "DH", "MM6", "XMM6"],
    ["DIL", "RDI", "EDI", "DI", "BH", "MM7", "XMM7"],
    ["R8", "R8D", "R8W", "R8L", "MM8", "XMM8"],
    ["R9", "R9D", "R9W", "R9L", "MM9", "XMM9"],
    ["R10", "R10D", "R10W", "R10L", "MM10", "XMM10"],
    ["R11", "R11D", "R11W", "R11L", "MM11", "XMM11"],
    ["R12", "R12D", "R12W", "R12L", "MM12", "XMM12"],
    ["R13", "R13D", "R13W", "R13L", "MM13", "XMM13"],
    ["R14", "R14D", "R14W", "R14L", "MM14", "XMM14"],
    ["R15", "R15D", "R15W", "R15L", "MM15", "XMM15"]]

def registerModRM (state : State) (param : Text) :
    Except Text (State × List UInt8) :=
  let number := registerOperands.findIdx? fun names =>
    names.any fun name => name.toList = param
  match number with
  | some number =>
    .ok ((setrm state (setmod 0 3) number).1,
      [(setrm state (setmod 0 3) number).2])
  | none => .error (rsIDontUnderstandWhatYouMeanWith ++ param)

def setreg (state : State) (modrm : List UInt8) (reg : ℤ) :
    Except Text (State × List UInt8) := do
  let state ←
    if 7 < reg then
      if state.is64Bit then .ok state.setRexR
      else .error rsTheAssemblerTriedToSetARegisteValueThatIsTooHigh
    else .ok state
  let reg := if reg = -1 then 0 else reg
  .ok (state, modrm.modifyHead (· + UInt8.ofNat ((reg % 8).toNat <<< 3)))

def bracketed (param : Text) : Text :=
  copy param (pos '[' param + 1) ((pos ']' param : ℤ) - pos '[' param - 1)

def createModRM (state : State) (bytes : List UInt8) (reg : ℤ)
    (param : Text) : Except Text (State × List UInt8) := do
  let address := bracketed param
  let (state, modrm) ←
    if address.isEmpty then registerModRM state param
    else setmodrm state 0 address bytes.length
  let (state, modrm) ← setreg state modrm reg
  .ok (state, bytes ++ modrm)

end Assembler
end CheatEngine
