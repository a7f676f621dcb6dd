import CheatEngine.AssemblerOpcodes
import CheatEngine.AssemblerModRM

/-!
# The form of an instruction

For one entry of the opcode table `Assemble` compares the kinds of the
parameters with the ones of the entry.  What it then emits is a form: the
opcode of this entry or of another one with the same mnemonic, the operand
that is encoded with it, and the immediate.
-/

namespace CheatEngine
namespace Assembler

open PascalText

inductive TokenType
  | ttInvalidtoken
  | ttRegister8Bit
  | ttRegister16Bit
  | ttRegister32Bit
  | ttRegister64Bit
  | ttRegister8BitWithPrefix
  | ttRegisterMM
  | ttRegisterXMM
  | ttRegisterST
  | ttRegisterSreg
  | ttRegisterCR
  | ttRegisterDR
  | ttMemoryLocation
  | ttMemoryLocation8
  | ttMemoryLocation16
  | ttMemoryLocation32
  | ttMemoryLocation64
  | ttMemoryLocation80
  | ttMemoryLocation128
  | ttValue
deriving DecidableEq, Repr

namespace TokenType

variable (parametertype : TokenType)

def isrm8 : Bool :=
  parametertype = ttMemoryLocation8 || parametertype = ttRegister8Bit

def isrm16 : Bool :=
  parametertype = ttMemoryLocation16 || parametertype = ttRegister16Bit

def isrm32 : Bool :=
  parametertype = ttMemoryLocation32 || parametertype = ttRegister32Bit

def ismmM64 : Bool :=
  parametertype = ttRegisterMM || parametertype = ttMemoryLocation64

def isxmmM32 : Bool :=
  parametertype = ttRegisterXMM || parametertype = ttMemoryLocation32

def isxmmM64 : Bool :=
  parametertype = ttRegisterXMM || parametertype = ttMemoryLocation64

def isxmmM128 : Bool :=
  parametertype = ttRegisterXMM || parametertype = ttMemoryLocation128

/-- From `ttMemorylocation` to `ttMemorylocation128`. -/
def isMemory : Bool :=
  parametertype = ttMemoryLocation || parametertype = ttMemoryLocation8 ||
    parametertype = ttMemoryLocation16 ||
    parametertype = ttMemoryLocation32 ||
    parametertype = ttMemoryLocation64 ||
    parametertype = ttMemoryLocation80 ||
    parametertype = ttMemoryLocation128

end TokenType

def isMemoryLocationDefault (parameter : Text) : Bool :=
  parameter.head? = some '[' && parameter.getLast? = some ']'

def isBracketed (parameter : Text) : Bool :=
  parameter.head? = some '['

def signedValueToType (value : Int32) : ℕ :=
  if value < -32768 ∨ 32767 < value then 32
  else if value < -128 ∨ 127 < value then 16
  else 8

def valueToType (value : UInt32) : ℕ :=
  let result :=
    if value ≤ 0xff then
      if 0x80 ≤ value then 16 else 8
    else if value ≤ 0xffff then
      if 0x8000 ≤ value then 32 else 16
    else 32
  if result = 32 ∧ value.toInt32 < 0 then
    if -128 ≤ value.toInt32 then 8
    else if -32768 ≤ value.toInt32 then 16
    else result
  else result

def wordBytes (value : UInt64) : List UInt8 :=
  [value.toUInt8, (value >>> 8).toUInt8]

def qwordBytes (value : UInt64) : List UInt8 :=
  dwordBytes value ++
    [(value >>> 32).toUInt8, (value >>> 40).toUInt8, (value >>> 48).toUInt8,
      (value >>> 56).toUInt8]

/-- The register field: a digit of the opcode, or a register. -/
inductive Reg
  | eotoreg (opcode1 : ExtraOpcode)
  | getreg (reg : Text)
deriving DecidableEq, Repr

inductive Operand
  | none
  | modrm (reg : Reg) (param : Text)
  /-- The register is added to the last byte of the opcode. -/
  | plus (reg : Text)
  /-- The same without a REX prefix for the new registers. -/
  | plusWithoutRex (reg : Text)
deriving DecidableEq, Repr

structure Form where
  opcode : Opcode
  operand : Operand
  immediate : List UInt8
  /-- Whether `exit` follows. -/
  exits : Bool := true
deriving DecidableEq, Repr

structure Line where
  is64Bit : Bool
  address : UInt64
  /-- The entries with the mnemonic, from `startoflist` on. -/
  opcodes : List Opcode
  parameter1 : Text
  parameter2 : Text
  parameter3 : Text
  paramtype1 : TokenType
  paramtype2 : TokenType
  paramtype3 : TokenType
  oldParamtype1 : TokenType
  /-- `gettokentype(parameter1,parameter2)` -/
  tokentype1 : TokenType
  /-- `gettokentype(parameter2,parameter3)` -/
  tokentype2 : TokenType
  v : UInt64
  v2 : UInt64
  vtype : ℕ
  overrideShort : Bool
  overrideLong : Bool
  rexW : Bool
deriving DecidableEq, Repr

namespace Line

variable (line : Line)

def signedvtype : ℕ :=
  signedValueToType line.v.toUInt32.toInt32

def imm8 : List UInt8 :=
  [line.v.toUInt8]

def imm16 : List UInt8 :=
  wordBytes line.v

def imm32 : List UInt8 :=
  dwordBytes line.v

def imm64 : List UInt8 :=
  qwordBytes line.v

def isEax (parameter : Text) : Bool :=
  parameter = "EAX".toList || parameter = "RAX".toList

/-- The change of the sizes for `REX_W` is undone. -/
def withoutRexW : Line :=
  { line with
    paramtype1 :=
      if line.paramtype1 = .ttMemoryLocation32 then line.tokentype1
      else line.paramtype1
    paramtype2 :=
      if line.paramtype2 = .ttMemoryLocation32 then line.tokentype2
      else line.paramtype2 }

def given (condition : Bool) (form : Option Form) : Option Form :=
  if condition then form else none

def alternative (condition : Opcode → Bool) (form : Opcode → Form) :
    Option Form :=
  (line.opcodes.find? condition).map form

section

variable (opcode : Opcode)

def plain (immediate : List UInt8) : Form :=
  { opcode, operand := .none, immediate }

def withModRM (reg : Reg) (param : Text) (immediate : List UInt8) : Form :=
  { opcode, operand := .modrm reg param, immediate }

def withDigit (param : Text) (immediate : List UInt8) : Form :=
  withModRM opcode (.eotoreg opcode.opcode1) param immediate

def withPlus (reg : Text) (immediate : List UInt8) : Form :=
  { opcode, operand := .plus reg, immediate }

def noSecond : Bool :=
  opcode.paramtype2 = .parNoparam && line.parameter2.isEmpty

def noThird : Bool :=
  opcode.paramtype3 = .parNoparam && line.parameter3.isEmpty

def secondIs (param : Param) (name : String) : Bool :=
  opcode.paramtype2 = param && line.parameter2 = name.toList

def secondIsValue (param : Param) : Bool :=
  opcode.paramtype2 = param && line.paramtype2 = .ttValue

def thirdIsImm8 : Bool :=
  opcode.paramtype3 = .parImm8 && line.paramtype3 = .ttValue

def secondIsOne : Bool :=
  line.secondIsValue opcode .par1 && line.v = 1

def secondIsEax : Bool :=
  opcode.paramtype2 = .parEax && isEax line.parameter2

def secondIsUnsized : Bool :=
  line.paramtype2 = .ttMemoryLocation32 && isBracketed line.parameter2

def firstIsUnsized : Bool :=
  line.paramtype1 = .ttMemoryLocation32 && isBracketed line.parameter1

def moffs (parameter : Text) : Option Form :=
  (val ('$' :: bracketed parameter)).map fun v =>
    plain opcode (if line.is64Bit then qwordBytes v else dwordBytes v)

def selectNoparam : Option Form :=
  given line.parameter1.isEmpty <|
    given (line.noSecond opcode) <|
      given (line.noThird opcode) <|
        given (opcode.opcode1 = .eoNone) (some (plain opcode []))

def selectImm8 : Option Form :=
  given (line.paramtype1 = .ttValue) <|
    given (line.secondIs opcode .parAl "AL")
        (some (plain opcode line.imm8)) <|>
    given (line.secondIs opcode .parAx "AX")
        (some (plain opcode line.imm8)) <|>
    given (line.secondIsEax opcode) (some (plain opcode line.imm8)) <|>
    given (line.noSecond opcode)
      (given (line.vtype = 16)
          (line.alternative (fun k => k.paramtype1 = .parImm16)
            fun k => plain k line.imm16) <|>
        given (line.vtype = 32 || 8 < line.signedvtype)
          (line.alternative (fun k => k.paramtype1 = .parImm32)
            fun k => plain k line.imm32) <|>
        some (plain opcode line.imm8))

def selectImm16 : Option Form :=
  given (line.paramtype1 = .ttValue) <|
    given (line.noSecond opcode)
      (given (line.vtype = 32 || 8 < line.signedvtype)
          (line.alternative (fun k => k.paramtype1 = .parImm32)
            fun k => plain k line.imm32) <|>
        some (plain opcode line.imm16)) <|>
    given (line.secondIsValue opcode .parImm8)
      (given (line.noThird opcode)
        (some (plain opcode (line.imm16 ++ [line.v2.toUInt8]))))

def selectImm32 : Option Form :=
  given (line.paramtype1 = .ttValue) <|
    given (line.noSecond opcode) (some (plain opcode line.imm32))

def selectMoffs8 : Option Form :=
  given (line.paramtype1 = .ttMemoryLocation8 ||
      isMemoryLocationDefault line.parameter1) <|
    given (line.secondIs opcode .parAl "AL") <|
      given (line.noThird opcode) (line.moffs opcode line.parameter1)

def selectMoffs16 : Option Form :=
  given (line.paramtype1 = .ttMemoryLocation16 ||
      isMemoryLocationDefault line.parameter1) <|
    given (line.secondIs opcode .parAx "AX") <|
      given (line.noThird opcode) (line.moffs opcode line.parameter1)

def selectMoffs32 : Option Form :=
  given (line.paramtype1 = .ttMemoryLocation32) <|
    given (line.secondIsEax opcode) <|
      given (line.noThird opcode) (line.moffs opcode line.parameter1)

def select3 : Option Form :=
  given (line.paramtype1 = .ttValue && line.v = 3) (some (plain opcode []))

def selectAl : Option Form :=
  given (line.parameter1 = "AL".toList) <|
    given (line.secondIs opcode .parDx "DX") (some (plain opcode [])) <|>
    given (line.secondIsValue opcode .parImm8)
      (given (line.noThird opcode)
        (given (opcode.opcode1 = .eoIb && opcode.opcode2 = .eoNone)
          (some (plain opcode line.imm8)))) <|>
    given (opcode.paramtype2 = .parMoffs8 &&
        (line.paramtype2 = .ttMemoryLocation8 ||
          isMemoryLocationDefault line.parameter2))
      (given (line.noThird opcode) (line.moffs opcode line.parameter2))

def selectAx : Option Form :=
  given (line.parameter1 = "AX".toList) <|
    given (line.noSecond opcode) (some (plain opcode [])) <|>
    given (line.secondIs opcode .parDx "DX") (some (plain opcode [])) <|>
    given (opcode.paramtype2 = .parR16 &&
        line.paramtype2 = .ttRegister16Bit)
      (given (line.noThird opcode)
        (given (opcode.opcode1 = .eoPrw)
          (some
            { opcode
              operand := .plusWithoutRex line.parameter2
              immediate := [] }))) <|>
    given (line.secondIsValue opcode .parImm16)
      (given (line.noThird opcode)
        (given (opcode.opcode1 = .eoIw && opcode.opcode2 = .eoNone)
          (some (plain opcode line.imm16)))) <|>
    given (opcode.paramtype2 = .parMoffs16 &&
        (line.paramtype2 = .ttMemoryLocation16 ||
          isMemoryLocationDefault line.parameter2))
      (given (line.noThird opcode) (line.moffs opcode line.parameter2))

def selectEax : Option Form :=
  given (isEax line.parameter1) <|
    given (line.secondIs opcode .parDx "DX") (some (plain opcode [])) <|>
    given (opcode.paramtype2 = .parR32 &&
        line.paramtype2 = .ttRegister32Bit)
      (given (line.noThird opcode)
        (given (opcode.opcode1 = .eoPrd)
          (some (withPlus opcode line.parameter2 [])))) <|>
    given (line.secondIsValue opcode .parImm8)
      (given (line.noThird opcode) (some (plain opcode line.imm8))) <|>
    given (line.secondIsValue opcode .parImm32)
      (given (line.noThird opcode)
        (given (line.signedvtype = 8)
            (line.alternative
              (fun k =>
                k.paramtype1 = .parRm32 && k.paramtype2 = .parImm8)
              fun k => withDigit k line.parameter1 line.imm8) <|>
          given (opcode.opcode1 = .eoId && opcode.opcode2 = .eoNone)
            (some (plain opcode line.imm32)))) <|>
    given (opcode.paramtype2 = .parMoffs32 &&
        (line.paramtype2 = .ttMemoryLocation32 ||
          isMemoryLocationDefault line.parameter2))
      (given (line.noThird opcode) (line.moffs opcode line.parameter2))

def selectDx : Option Form :=
  given (line.parameter1 = "DX".toList) <|
    given (line.secondIs opcode .parAl "AL") (some (plain opcode [])) <|>
    given (line.secondIs opcode .parAx "AX") (some (plain opcode [])) <|>
    given (line.secondIsEax opcode) (some (plain opcode []))

def selectSegment (name : String) : Option Form :=
  given (line.parameter1 = name.toList) <|
    given (line.noSecond opcode) (some (plain opcode []))

def selectR8 : Option Form :=
  given (line.paramtype1 = .ttRegister8Bit) <|
    given (line.noSecond opcode)
      (given (opcode.opcode1 = .eoPrb)
        (some (withPlus opcode line.parameter1 []))) <|>
    given (line.secondIsValue opcode .parImm8)
      (given (line.noThird opcode)
        (given (opcode.opcode1 = .eoPrb)
          (some (withPlus opcode line.parameter1 line.imm8)))) <|>
    given (opcode.paramtype2 = .parRm8 && line.paramtype2.isrm8)
      (given (line.noThird opcode)
        (some (withModRM opcode (.getreg line.parameter1) line.parameter2
          [])))

def selectR16 : Option Form :=
  given (line.paramtype1 = .ttRegister16Bit) <|
    given (line.noSecond opcode)
      (given (opcode.opcode1 = .eoPrw)
        (some (withPlus opcode line.parameter1 []))) <|>
    given (line.secondIs opcode .parAx "AX")
      (given (line.noThird opcode)
        (given (opcode.opcode1 = .eoPrw)
          (some (withPlus opcode line.parameter1 [])))) <|>
    given (line.secondIsValue opcode .parImm8)
      (given (opcode.opcode1 = .eoReg && opcode.opcode2 = .eoIb)
        (given (8 < line.vtype)
            (line.alternative
              (fun k =>
                k.paramtype1 = .parR16 && k.paramtype2 = .parImm16 &&
                  k.opcode1 = .eoReg && opcode.opcode2 = .eoIb)
              fun k =>
                withModRM k (.getreg line.parameter1) line.parameter1
                  line.imm16) <|>
          some
            { withModRM opcode (.getreg line.parameter1) line.parameter2
                line.imm8 with
              exits := false })) <|>
    given (line.secondIsValue opcode .parImm16)
      (given (line.noThird opcode)
        (given (opcode.opcode1 = .eoPrw)
          (some (withPlus opcode line.parameter1 line.imm16)))) <|>
    given (opcode.paramtype2 = .parRm8 && line.paramtype2.isrm8)
      (given (line.noThird opcode)
        (some (withModRM opcode (.getreg line.parameter1) line.parameter2
          []))) <|>
    given (opcode.paramtype2 = .parRm16 && line.paramtype2.isrm16)
      (given (line.noThird opcode)
          (some (withModRM opcode (.getreg line.parameter1)
            line.parameter2 [])) <|>
        given (line.thirdIsImm8 opcode)
          (given (opcode.opcode2 = .eoIb)
            (given (8 < line.vtype)
                (line.alternative
                  (fun k =>
                    k.paramtype1 = .parR16 && k.paramtype2 = .parRm16 &&
                      k.paramtype3 = .parImm16)
                  fun k =>
                    withModRM k (.getreg line.parameter1) line.parameter2
                      line.imm16) <|>
              some (withModRM opcode (.getreg line.parameter1)
                line.parameter2 line.imm8))))

def selectR32 : Option Form :=
  let parameter1 := line.parameter1
  let parameter2 := line.parameter2
  given (line.paramtype1 = .ttRegister32Bit) <|
    given (line.noSecond opcode)
      (if opcode.opcode1 = .eoPrd then some (withPlus opcode parameter1 [])
      else some (withDigit opcode parameter1 [])) <|>
    given (line.secondIsEax opcode)
      (given (line.noThird opcode)
        (given (opcode.opcode1 = .eoPrd)
          (some (withPlus opcode parameter1 [])))) <|>
    given (opcode.paramtype2 = .parMm && line.paramtype2 = .ttRegisterMM)
      (given (line.noThird opcode)
          (some (withModRM opcode (.getreg parameter1) parameter2 [])) <|>
        given (line.thirdIsImm8 opcode)
          (some (withModRM opcode (.getreg parameter1) parameter2
            line.imm8))) <|>
    given (opcode.paramtype2 = .parXmm && line.paramtype2 = .ttRegisterXMM)
      (given (line.noThird opcode)
          (some (withModRM opcode (.getreg parameter2) parameter1 [])) <|>
        given (line.thirdIsImm8 opcode)
          (some (withModRM opcode (.getreg parameter2) parameter1
            line.imm8))) <|>
    given (opcode.paramtype2 = .parCr && line.paramtype2 = .ttRegisterCR)
      (given (line.noThird opcode)
        (some (withModRM opcode (.getreg parameter2) parameter1 []))) <|>
    given (opcode.paramtype2 = .parDr && line.paramtype2 = .ttRegisterDR)
      (given (line.noThird opcode)
        (some (withModRM opcode (.getreg parameter2) parameter1 []))) <|>
    given (opcode.paramtype2 = .parXmmM32 && line.paramtype2.isxmmM32)
      (given (line.noThird opcode)
        (some (withModRM opcode (.getreg parameter1) parameter2 []))) <|>
    given (opcode.paramtype2 = .parMmM64 &&
        (line.paramtype2.ismmM64 || line.secondIsUnsized))
      (some (withModRM opcode (.getreg parameter1) parameter2 [])) <|>
    given (opcode.paramtype2 = .parXmmM64 &&
        (line.paramtype2.isxmmM64 || line.secondIsUnsized))
      (given (line.noThird opcode)
        (some (withModRM opcode (.getreg parameter1) parameter2 []))) <|>
    given (opcode.paramtype2 = .parXmmM128 &&
        (line.paramtype2.isxmmM64 || line.secondIsUnsized))
      (given (line.noThird opcode)
        (some (withModRM opcode (.getreg parameter1) parameter2 []))) <|>
    given (opcode.paramtype2 = .parM32 &&
        line.paramtype2 = .ttMemoryLocation32)
      (given (line.noThird opcode)
        (some (withModRM opcode (.getreg parameter1) parameter2 []))) <|>
    given (opcode.paramtype2 = .parRm8 &&
        (line.paramtype2.isrm8 || isMemoryLocationDefault parameter2))
      (given (line.noThird opcode)
        (some (withModRM opcode (.getreg parameter1) parameter2 []))) <|>
    given (opcode.paramtype2 = .parRm16 &&
        (line.paramtype2.isrm16 || isMemoryLocationDefault parameter2))
      (given (line.noThird opcode)
        (some (withModRM opcode (.getreg parameter1) parameter2 []))) <|>
    given (opcode.paramtype2 = .parRm32 && line.paramtype2.isrm32)
      (given (line.noThird opcode)
          (some (withModRM opcode (.getreg parameter1) parameter2 [])) <|>
        given (line.thirdIsImm8 opcode)
          (given (opcode.opcode2 = .eoIb)
            (given (8 < line.vtype)
                (line.alternative
                  (fun k =>
                    k.paramtype1 = .parR32 && k.paramtype2 = .parRm32 &&
                      k.paramtype3 = .parImm32)
                  fun k =>
                    withModRM k (.getreg parameter1) parameter2
                      line.imm32) <|>
              some (withModRM opcode (.getreg parameter1) parameter2
                line.imm8)))) <|>
    given (line.secondIsValue opcode .parImm32)
      (given (line.noThird opcode)
        (given (opcode.opcode1 = .eoPrd)
            (some (withPlus opcode parameter1
              (if line.rexW then line.imm64 else line.imm32))) <|>
          given (opcode.opcode1 = .eoReg)
            (given (line.signedvtype = 8)
                (line.alternative
                  (fun k =>
                    k.paramtype1 = .parR32 && k.paramtype2 = .parImm8)
                  fun k =>
                    withModRM k (.getreg parameter1) parameter1
                      line.imm8) <|>
              some (withModRM opcode (.getreg parameter1) parameter1
                line.imm32)))) <|>
    given (line.secondIsValue opcode .parImm8)
      (given (opcode.opcode1 = .eoPrd)
          (some (withDigit opcode parameter1 line.imm8)) <|>
        given (opcode.opcode1 = .eoReg)
          (some (withModRM opcode (.getreg parameter1) parameter1
            line.imm8)))

def selectSreg : Option Form :=
  given (line.paramtype1 = .ttRegisterSreg) <|
    given (opcode.paramtype2 = .parRm16 && line.paramtype2.isrm16)
      (some (withModRM opcode (.getreg line.parameter1) line.parameter2 []))

def selectSystem (paramtype : TokenType) : Option Form :=
  given (line.paramtype1 = paramtype) <|
    given (opcode.paramtype2 = .parR32 &&
        line.paramtype2 = .ttRegister32Bit)
      (given (line.noThird opcode)
        (some (withModRM opcode (.getreg line.parameter1) line.parameter2
          [])))

def selectRm8 : Option Form :=
  given (line.paramtype1.isrm8 ||
      isMemoryLocationDefault line.parameter1 && opcode.defaulttype) <|
    given (line.noSecond opcode)
      (some (withDigit opcode line.parameter1 [])) <|>
    given (line.secondIsOne opcode)
      (some (withDigit opcode line.parameter1 [])) <|>
    given (line.secondIs opcode .parCl "CL")
      (some (withDigit opcode line.parameter1 [])) <|>
    given (line.secondIsValue opcode .parImm8)
      (given (line.noThird opcode)
        (some (withDigit opcode line.parameter1 line.imm8))) <|>
    given (opcode.paramtype2 = .parR8 && line.paramtype2 = .ttRegister8Bit)
      (given (line.noThird opcode)
        (some (withModRM opcode (.getreg line.parameter2) line.parameter1
          [])))

def selectRm16 : Option Form :=
  let parameter1 := line.parameter1
  let parameter2 := line.parameter2
  given line.paramtype1.isrm16 <|
    given (line.noSecond opcode) (some (withDigit opcode parameter1 [])) <|>
    given (line.secondIsOne opcode)
      (some (withDigit opcode parameter1 [])) <|>
    given (line.secondIsValue opcode .parImm8)
      (given (line.noThird opcode)
        (given (line.vtype = 16)
            (line.alternative
              (fun k =>
                k.paramtype1 = .parRm16 && k.paramtype2 = .parImm16 &&
                  line.noThird k)
              fun k => withDigit k parameter1 line.imm16) <|>
          some (withDigit opcode parameter1 line.imm8))) <|>
    given (line.secondIsValue opcode .parImm16)
      (given (line.noThird opcode)
        (given (line.vtype = 8)
            (line.alternative
              (fun k =>
                k.paramtype1 = .parRm16 && k.paramtype2 = .parImm8 &&
                  line.noThird k)
              fun k => withDigit k parameter1 line.imm8) <|>
          some (withDigit opcode parameter1 line.imm16))) <|>
    given (opcode.paramtype2 = .parR16 &&
        line.paramtype2 = .ttRegister16Bit)
      (given (opcode.paramtype3 = .parCl && line.parameter3 = "CL".toList)
          (some (withModRM opcode (.getreg parameter2) parameter1 [])) <|>
        given (line.noThird opcode)
          (some (withModRM opcode (.getreg parameter2) parameter1 [])) <|>
        given (line.thirdIsImm8 opcode)
          (some (withModRM opcode (.getreg parameter2) parameter1
            line.imm8))) <|>
    given (opcode.paramtype2 = .parSreg &&
        line.paramtype2 = .ttRegisterSreg)
      (given (line.noThird opcode)
        (some (withModRM opcode (.getreg parameter2) parameter1 []))) <|>
    given (line.secondIs opcode .parCl "CL")
      (some (withDigit opcode parameter1 []))

def selectRm32 : Option Form :=
  let parameter1 := line.parameter1
  let parameter2 := line.parameter2
  given (line.paramtype1.isrm32 || line.oldParamtype1.isrm32) <|
    given (line.noSecond opcode) (some (withDigit opcode parameter1 [])) <|>
    given (line.secondIsOne opcode)
      (some (withDigit opcode parameter1 [])) <|>
    given (line.secondIsValue opcode .parImm8)
      (given (line.noThird opcode)
        (given (8 < line.vtype || opcode.signed && 8 < line.signedvtype)
            (line.alternative
              (fun k =>
                k.paramtype1 = .parRm32 && k.paramtype2 = .parImm32 &&
                  line.noThird k)
              fun k => withDigit k parameter1 line.imm32) <|>
          some (withDigit opcode parameter1 line.imm8))) <|>
    given (line.secondIsValue opcode .parImm32)
      (given (line.noThird opcode)
        (given (line.signedvtype = 8)
            (line.alternative
              (fun k =>
                k.paramtype1 = .parRm32 && k.paramtype2 = .parImm8 &&
                  line.noThird k && (!k.signed || line.signedvtype = 8))
              fun k => withDigit k parameter1 line.imm8) <|>
          some (withDigit opcode parameter1 line.imm32))) <|>
    given (line.secondIs opcode .parCl "CL")
      (some (withDigit opcode parameter1 [])) <|>
    given (opcode.paramtype2 = .parR32 &&
        line.paramtype2 = .ttRegister32Bit)
      (given (line.noThird opcode)
          (some (withModRM opcode (.getreg parameter2) parameter1 [])) <|>
        given (opcode.paramtype3 = .parCl && line.parameter3 = "CL".toList)
          (some (withModRM opcode (.getreg parameter2) parameter1 [])) <|>
        given (line.thirdIsImm8 opcode)
          (some (withModRM opcode (.getreg parameter2) parameter1
            line.imm8))) <|>
    given (opcode.paramtype2 = .parMm && line.paramtype2 = .ttRegisterMM ||
        opcode.paramtype2 = .parXmm && line.paramtype2 = .ttRegisterXMM)
      (given (line.noThird opcode)
        (some
          { withModRM opcode (.getreg parameter2) parameter1 [] with
            exits := false }))

def selectMm : Option Form :=
  let withSecond := fun immediate : List UInt8 =>
    some (withModRM opcode (.getreg line.parameter1) line.parameter2
      immediate)
  given (line.paramtype1 = .ttRegisterMM) <|
    given (line.secondIsValue opcode .parImm8)
      (given (line.noThird opcode)
        (some (withDigit opcode line.parameter1 line.imm8))) <|>
    given (opcode.paramtype2 = .parMm && line.paramtype2 = .ttRegisterMM)
      (withSecond []) <|>
    given (opcode.paramtype2 = .parXmm && line.paramtype2 = .ttRegisterXMM)
      (withSecond []) <|>
    given (opcode.paramtype2 = .parR32M16 &&
        (line.paramtype1 = .ttRegister32Bit ||
          line.paramtype2 = .ttMemoryLocation16 ||
          isMemoryLocationDefault line.parameter2))
      (given (line.thirdIsImm8 opcode) (withSecond [])) <|>
    given (opcode.paramtype2 = .parRm32 && line.paramtype2.isrm32)
      (given (line.noThird opcode) (withSecond [])) <|>
    given (opcode.paramtype2 = .parXmmM32 && line.paramtype2.isxmmM32)
      (withSecond []) <|>
    given (opcode.paramtype2 = .parMmM64 &&
        (line.paramtype2.ismmM64 || line.secondIsUnsized))
      (withSecond []) <|>
    given (opcode.paramtype2 = .parXmmM64 &&
        (line.paramtype2.isxmmM64 || line.secondIsUnsized))
      (withSecond []) <|>
    given (opcode.paramtype2 = .parXmmM128 &&
        (line.paramtype2.isxmmM128 || line.secondIsUnsized))
      (withSecond [])

/-- A register or memory that an `MM` or `XMM` register is stored to. -/
def selectStore (first : Bool) (param : Param) (paramtype : TokenType) :
    Option Form :=
  given (first || line.firstIsUnsized) <|
    given (opcode.paramtype2 = param && line.paramtype2 = paramtype)
      (some (withModRM opcode (.getreg line.parameter2) line.parameter1 []))

def selectXmm : Option Form :=
  let withSecond := fun immediate : List UInt8 =>
    some (withModRM opcode (.getreg line.parameter1) line.parameter2
      immediate)
  let withThird :=
    given (line.noThird opcode) (withSecond []) <|>
      given (line.thirdIsImm8 opcode) (withSecond line.imm8)
  given (line.paramtype1 = .ttRegisterXMM) <|
    given (line.secondIsValue opcode .parImm8)
      (given (line.noThird opcode)
        (some (withDigit opcode line.parameter1 line.imm8))) <|>
    given (opcode.paramtype2 = .parMm && line.paramtype2 = .ttRegisterMM)
      (withSecond []) <|>
    given (opcode.paramtype2 = .parXmm && line.paramtype2 = .ttRegisterXMM)
      (withSecond []) <|>
    given (opcode.paramtype2 = .parM64 &&
        (line.paramtype2 = .ttMemoryLocation64 ||
          isMemoryLocationDefault line.parameter2))
      (withSecond []) <|>
    given (opcode.paramtype2 = .parM128 &&
        (line.paramtype2 = .ttMemoryLocation128 ||
          isMemoryLocationDefault line.parameter2))
      (withSecond []) <|>
    given (opcode.paramtype2 = .parRm32 && line.paramtype2.isrm32)
      (given (line.noThird opcode) (withSecond [])) <|>
    given (opcode.paramtype2 = .parMmM64 &&
        (line.paramtype2.ismmM64 || line.secondIsUnsized))
      (given (line.noThird opcode) (withSecond [])) <|>
    given (opcode.paramtype2 = .parXmmM32 && line.paramtype2.isxmmM32)
      withThird <|>
    given (opcode.paramtype2 = .parXmmM64 &&
        (line.paramtype2.isxmmM64 || line.secondIsUnsized))
      withThird <|>
    given (opcode.paramtype2 = .parXmmM128 &&
        (line.paramtype2.isxmmM128 || line.secondIsUnsized))
      withThird

def selectMemory (first : Bool) : Option Form :=
  given first <|
    given (line.noSecond opcode) (some (withDigit opcode line.parameter1 []))

/-- An `XMM` register is stored to memory of its own size or of none. -/
def storeXmm : Option Form :=
  given (opcode.paramtype2 = .parXmm &&
      (line.paramtype2 = .ttRegisterXMM ||
        isMemoryLocationDefault line.parameter2)) <|
    given (opcode.paramtype3 = .parNoparam || line.parameter3.isEmpty)
      (some (withModRM opcode (.getreg line.parameter2) line.parameter1 []))

def selectM32 : Option Form :=
  given (line.paramtype1 = .ttMemoryLocation32) <|
    given (line.noSecond opcode)
      (some (withDigit opcode line.parameter1 [])) <|>
    given (opcode.paramtype2 = .parR32)
      (given (line.noThird opcode)
        (some (withDigit opcode line.parameter1 []))) <|>
    line.storeXmm opcode

def selectM64 : Option Form :=
  given (line.paramtype1 = .ttMemoryLocation64 ||
      line.paramtype1 = .ttMemoryLocation32) <|
    given (line.noSecond opcode)
      (given (line.tokentype1 = .ttMemoryLocation64 ||
          isMemoryLocationDefault line.parameter1)
        (some (withDigit opcode line.parameter1 []))) <|>
    line.storeXmm opcode

def selectM128 : Option Form :=
  given (line.paramtype1 = .ttMemoryLocation128 ||
      isMemoryLocationDefault line.parameter1) <|
    given (opcode.paramtype2 = .parXmm && line.paramtype2 = .ttRegisterXMM)
      (given (line.noThird opcode)
        (some (withModRM opcode (.getreg line.parameter2) line.parameter1
          [])))

def isDistance : Bool :=
  line.parameter1.head?.any isSign

def distance (size : ℕ) : UInt64 :=
  line.v - line.address - UInt64.ofNat (opcode.bytes + size)

def isRel32 : Bool :=
  opcode.paramtype1 = .parRel32 && opcode.paramtype2 = .parNoparam

def selectRel8 : Option Form :=
  given (line.paramtype1 = .ttValue) <|
    given (line.noSecond opcode)
      (if line.isDistance then
        given (!line.overrideShort && 8 < line.vtype || line.overrideLong)
            (line.alternative isRel32 fun k => plain k line.imm32) <|>
          some (plain opcode line.imm8)
      else if !line.overrideShort &&
          (line.overrideLong ||
            8 < valueToType (line.distance opcode 1).toUInt32) then
        line.alternative isRel32 fun k =>
          plain k (dwordBytes (line.distance k 4))
      else some (plain opcode [(line.distance opcode 1).toUInt8]))

def selectRel32 : Option Form :=
  given (line.paramtype1 = .ttValue) <|
    given (line.noSecond opcode)
      (if line.isDistance then some (plain opcode line.imm32)
      else some (plain opcode (dwordBytes (line.distance opcode 4))))

def isSt0 (parameter : Text) : Bool :=
  parameter = "ST(0)".toList || parameter = "ST".toList

def selectSt0 : Option Form :=
  given (isSt0 line.parameter1) <|
    given (opcode.paramtype2 = .parSt && line.paramtype2 = .ttRegisterST)
      (given (line.noThird opcode)
        (given (opcode.opcode1 = .eoPi)
          (some (withPlus opcode line.parameter2 []))))

def selectSt : Option Form :=
  given (line.paramtype1 = .ttRegisterST) <|
    given (line.noSecond opcode)
      (some (withPlus opcode line.parameter1 [])) <|>
    given (opcode.paramtype2 = .parSt0 && isSt0 line.parameter2)
      (given (line.noThird opcode)
        (given (opcode.opcode1 = .eoPi)
          (some (withPlus opcode line.parameter1 []))))

/-- What is emitted for one entry, if its parameters are the given ones. -/
def select : Option Form :=
  match opcode.paramtype1 with
  | .parNoparam => line.selectNoparam opcode
  | .parImm8 => line.selectImm8 opcode
  | .parImm16 => line.selectImm16 opcode
  | .parImm32 => line.selectImm32 opcode
  | .parMoffs8 => line.selectMoffs8 opcode
  | .parMoffs16 => line.selectMoffs16 opcode
  | .parMoffs32 => line.selectMoffs32 opcode
  | .par3 => line.select3 opcode
  | .parAl => line.selectAl opcode
  | .parAx => line.selectAx opcode
  | .parEax => line.selectEax opcode
  | .parDx => line.selectDx opcode
  | .parCs => line.selectSegment opcode "CS"
  | .parDs => line.selectSegment opcode "DS"
  | .parEs => line.selectSegment opcode "ES"
  | .parSs => line.selectSegment opcode "SS"
  | .parFs => line.selectSegment opcode "FS"
  | .parGs => line.selectSegment opcode "GS"
  | .parR8 => line.selectR8 opcode
  | .parR16 => line.selectR16 opcode
  | .parR32 => line.selectR32 opcode
  | .parSreg => line.selectSreg opcode
  | .parCr => line.selectSystem opcode .ttRegisterCR
  | .parDr => line.selectSystem opcode .ttRegisterDR
  | .parRm8 => line.selectRm8 opcode
  | .parRm16 => line.selectRm16 opcode
  | .parRm32 => line.selectRm32 opcode
  | .parMm => line.selectMm opcode
  | .parMmM64 =>
    line.selectStore opcode line.paramtype1.ismmM64 .parMm .ttRegisterMM
  | .parXmmM64 =>
    line.selectStore opcode line.paramtype1.isxmmM64 .parXmm
      .ttRegisterXMM
  | .parXmmM128 =>
    line.selectStore opcode line.paramtype1.isxmmM128 .parXmm
      .ttRegisterXMM
  | .parXmm => line.selectXmm opcode
  | .parM8 =>
    line.selectMemory opcode (line.paramtype1 = .ttMemoryLocation8 ||
      isMemoryLocationDefault line.parameter1)
  | .parM16 =>
    line.selectMemory opcode (line.paramtype1 = .ttMemoryLocation16 ||
      isMemoryLocationDefault line.parameter1)
  | .parM32 => line.selectM32 opcode
  | .parM64 => line.selectM64 opcode
  | .parM80 =>
    line.selectMemory opcode (line.paramtype1 = .ttMemoryLocation80 ||
      line.firstIsUnsized)
  | .parM128 => line.selectM128 opcode
  | .parRel8 => line.selectRel8 opcode
  | .parRel32 => line.selectRel32 opcode
  | .parSt0 => line.selectSt0 opcode
  | .parSt => line.selectSt opcode
  | _ => none

def isInvalid : Bool :=
  opcode.invalidin32bit && !line.is64Bit ||
    opcode.invalidin64bit && line.is64Bit

end

end Line

end Assembler
end CheatEngine
