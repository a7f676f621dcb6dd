import Mathlib.Tactic

/-!
# The entries of the opcode table
-/

namespace CheatEngine.Assembler

inductive ExtraOpcode
  | eoNone
  | eoReg0
  | eoReg1
  | eoReg2
  | eoReg3
  | eoReg4
  | eoReg5
  | eoReg6
  | eoReg7
  | eoReg
  | eoCb
  | eoCw
  | eoCd
  | eoCp
  | eoIb
  | eoIw
  | eoId
  | eoPrb
  | eoPrw
  | eoPrd
  | eoPi
deriving DecidableEq, Repr

inductive Param
  | parNoparam
  | par1
  | par3
  | parAl
  | parAx
  | parEax
  | parCl
  | parDx
  | parCs
  | parDs
  | parEs
  | parSs
  | parFs
  | parGs
  | parR8
  | parR16
  | parR32
  | parR64
  | parMm
  | parXmm
  | parSt
  | parSt0
  | parSreg
  | parCr
  | parDr
  | parM8
  | parM16
  | parM32
  | parM64
  | parM80
  | parM128
  | parMoffs8
  | parMoffs16
  | parMoffs32
  | parRm8
  | parRm16
  | parRm32
  | parR32M16
  | parMmM32
  | parMmM64
  | parXmmM32
  | parXmmM64
  | parXmmM128
  | parImm8
  | parImm16
  | parImm32
  | parRel8
  | parRel16
  | parRel32
deriving DecidableEq, Repr

structure Opcode where
  mnemonic : String
  opcode1 : ExtraOpcode := .eoNone
  opcode2 : ExtraOpcode := .eoNone
  paramtype1 : Param := .parNoparam
  paramtype2 : Param := .parNoparam
  paramtype3 : Param := .parNoparam
  bytes : ℕ
  bt1 : UInt8
  bt2 : UInt8 := 0
  bt3 : UInt8 := 0
  bt4 : UInt8 := 0
  signed : Bool := false
  norexw : Bool := false
  invalidin64bit : Bool := false
  invalidin32bit : Bool := false
  canDoAddressSwitch : Bool := false
  defaulttype : Bool := false
deriving DecidableEq, Repr

/-- An entry by its opcode fields, its parameters and its bytes; the fields
that are missing have their default. -/
def Opcode.entry (mnemonic : String) (opcodes : List ExtraOpcode)
    (paramtypes : List Param) (bytes : ℕ) (bt : List UInt8) : Opcode where
  mnemonic
  opcode1 := opcodes.getD 0 .eoNone
  opcode2 := opcodes.getD 1 .eoNone
  paramtype1 := paramtypes.getD 0 .parNoparam
  paramtype2 := paramtypes.getD 1 .parNoparam
  paramtype3 := paramtypes.getD 2 .parNoparam
  bytes
  bt1 := bt.getD 0 0
  bt2 := bt.getD 1 0
  bt3 := bt.getD 2 0
  bt4 := bt.getD 3 0

/-- An entry with two parameters, one of them a register. -/
def Opcode.reg (mnemonic : String) (paramtype1 paramtype2 : Param) (bytes : ℕ)
    (bt : List UInt8) : Opcode :=
  entry mnemonic [.eoReg] [paramtype1, paramtype2] bytes bt

def Opcode.alone (mnemonic : String) (bytes : ℕ) (bt : List UInt8) : Opcode :=
  entry mnemonic [] [] bytes bt

def Opcode.noRexw (mnemonic : String) (opcodes : List ExtraOpcode)
    (paramtypes : List Param) (bytes : ℕ) (bt : List UInt8) : Opcode :=
  { entry mnemonic opcodes paramtypes bytes bt with norexw := true }

/-! Runs of mnemonics that have the same entries, in the order of the table. -/

/-- For `r16, rm16` and `r32, rm32`. -/
def wordDword (rows : List (String × UInt8)) : List Opcode :=
  rows.flatMap fun (mnemonic, byte) =>
    [.reg mnemonic .parR16 .parRm16 3 [0x66, 0x0f, byte],
      .reg mnemonic .parR32 .parRm32 2 [0x0f, byte]]

/-- For `mm, mm/m64` and `xmm, xmm/m128`. -/
def mmxXmm (rows : List (String × UInt8)) : List Opcode :=
  rows.flatMap fun (mnemonic, byte) =>
    [.reg mnemonic .parMm .parMmM64 2 [0x0f, byte],
      .reg mnemonic .parXmm .parXmmM128 3 [0x66, 0x0f, byte]]

/-- As `mmxXmm`, and by an immediate with a digit. -/
def mmxXmmShift (rows : List (String × UInt8 × ExtraOpcode × UInt8)) :
    List Opcode :=
  rows.flatMap fun (mnemonic, byte, digit, immediate) =>
    mmxXmm [(mnemonic, byte)] ++
      [.entry mnemonic [digit, .eoIb] [.parMm, .parImm8] 2 [0x0f, immediate],
        .entry mnemonic [digit, .eoIb] [.parXmm, .parImm8] 3
          [0x66, 0x0f, immediate]]

/-- The conditional jumps. -/
def shortNear (rows : List (String × UInt8)) : List Opcode :=
  rows.flatMap fun (mnemonic, byte) =>
    [.entry mnemonic [.eoCb] [.parRel8] 1 [byte],
      .entry mnemonic [.eoCd] [.parRel32] 2 [0x0f, byte + 0x10]]

def setOn (rows : List (String × UInt8)) : List Opcode :=
  rows.map fun (mnemonic, byte) =>
    { Opcode.entry mnemonic [.eoReg] [.parRm8] 2 [0x0f, byte] with
      defaulttype := true }

def arithmetic (rows : List (String × ExtraOpcode × UInt8)) : List Opcode :=
  rows.flatMap fun (mnemonic, digit, byte) =>
    [.entry mnemonic [.eoIb] [.parAl, .parImm8] 1 [byte + 4],
      .entry mnemonic [.eoIw] [.parAx, .parImm16] 2 [0x66, byte + 5],
      .entry mnemonic [.eoId] [.parEax, .parImm32] 1 [byte + 5],
      .entry mnemonic [digit, .eoIb] [.parRm8, .parImm8] 1 [0x80],
      .entry mnemonic [digit, .eoIw] [.parRm16, .parImm16] 2 [0x66, 0x81],
      .entry mnemonic [digit, .eoId] [.parRm32, .parImm32] 1 [0x81],
      { Opcode.entry mnemonic [digit, .eoIb] [.parRm16, .parImm8] 2
          [0x66, 0x83] with signed := true },
      { Opcode.entry mnemonic [digit, .eoIb] [.parRm32, .parImm8] 1
          [0x83] with signed := true },
      .reg mnemonic .parRm8 .parR8 1 [byte],
      .reg mnemonic .parRm16 .parR16 2 [0x66, byte + 1],
      .reg mnemonic .parRm32 .parR32 1 [byte + 1],
      .reg mnemonic .parR8 .parRm8 1 [byte + 2],
      .reg mnemonic .parR16 .parRm16 2 [0x66, byte + 3],
      .reg mnemonic .parR32 .parRm32 1 [byte + 3]]

def unary (rows : List (String × ExtraOpcode)) : List Opcode :=
  rows.flatMap fun (mnemonic, digit) =>
    [.entry mnemonic [digit] [.parRm8] 1 [0xf6],
      .entry mnemonic [digit] [.parRm16] 2 [0x66, 0xf7],
      .entry mnemonic [digit] [.parRm32] 1 [0xf7]]

/-- By one, by `cl` and by an immediate, the widest first. -/
def rotate (rows : List (String × ExtraOpcode)) : List Opcode :=
  rows.flatMap fun (mnemonic, digit) =>
    [.entry mnemonic [digit] [.parRm32, .par1] 1 [0xd1],
      .entry mnemonic [digit] [.parRm32, .parCl] 1 [0xd3],
      .entry mnemonic [digit, .eoIb] [.parRm32, .parImm8] 1 [0xc1],
      .entry mnemonic [digit] [.parRm16, .par1] 2 [0x66, 0xd1],
      .entry mnemonic [digit] [.parRm16, .parCl] 2 [0x66, 0xd3],
      .entry mnemonic [digit, .eoIb] [.parRm16, .parImm8] 2 [0x66, 0xc1],
      .entry mnemonic [digit] [.parRm8, .par1] 1 [0xd0],
      .entry mnemonic [digit] [.parRm8, .parCl] 1 [0xd2],
      .entry mnemonic [digit, .eoIb] [.parRm8, .parImm8] 1 [0xc0]]

/-- From a register, and from an immediate with a digit. -/
def bitTest (rows : List (String × UInt8 × ExtraOpcode)) : List Opcode :=
  rows.flatMap fun (mnemonic, byte, digit) =>
    [.reg mnemonic .parRm16 .parR16 3 [0x66, 0x0f, byte],
      .reg mnemonic .parRm32 .parR32 2 [0x0f, byte],
      .entry mnemonic [digit, .eoIb] [.parRm16, .parImm8] 3
        [0x66, 0x0f, 0xba],
      .entry mnemonic [digit, .eoIb] [.parRm32, .parImm8] 2 [0x0f, 0xba]]

/-- `st(0), st(i)`, and the same with `st(0)` left out. -/
def fromStack (rows : List (String × UInt8 × UInt8)) : List Opcode :=
  rows.flatMap fun (mnemonic, first, second) =>
    [.entry mnemonic [.eoPi] [.parSt0, .parSt] 2 [first, second],
      .entry mnemonic [.eoPi] [.parSt] 2 [first, second]]

def floating (rows : List (String × ExtraOpcode × UInt8 × UInt8)) :
    List Opcode :=
  rows.flatMap fun (mnemonic, digit, byte, reversed) =>
    [.noRexw mnemonic [digit] [.parM32] 1 [0xd8],
      .noRexw mnemonic [digit] [.parM64] 1 [0xdc]] ++
      fromStack [(mnemonic, 0xd8, byte)] ++
      [.entry mnemonic [.eoPi] [.parSt, .parSt0] 2 [0xdc, reversed]]

end CheatEngine.Assembler
