import CheatEngine.AssemblerOpcodes

/-!
# The opcodes from `AAA` to `ENTER`
-/

namespace CheatEngine.Assembler

def opcodesA : List Opcode := List.flatten
  [[.alone "AAA" 1 [0x37],
    .alone "AAD" 2 [0xd5, 0x0a],
    .entry "AAD" [.eoIb] [.parImm8] 1 [0xd5],
    .alone "AAM" 2 [0xd4, 0x0a],
    .entry "AAM" [.eoIb] [.parImm8] 1 [0xd4],
    .alone "AAS" 1 [0x3f]],
   arithmetic [("ADC", .eoReg2, 0x10)],
   [.entry "ADD" [.eoIb] [.parAl, .parImm8] 1 [0x04],
    .entry "ADD" [.eoIw] [.parAx, .parImm16] 2 [0x66, 0x05],
    .entry "ADD" [.eoId] [.parEax, .parImm32] 1 [0x05],
    .entry "ADD" [.eoReg0, .eoIb] [.parRm8, .parImm8] 1 [0x80],
    .entry "ADD" [.eoReg0, .eoIw] [.parRm16, .parImm16] 2 [0x66, 0x81],
    .entry "ADD" [.eoReg0, .eoId] [.parRm32, .parImm32] 1 [0x81],
    { Opcode.entry "ADD" [.eoReg0, .eoIb] [.parRm16, .parImm8] 2 [0x66, 0x83]
      with signed := true },
    { Opcode.entry "ADD" [.eoReg0, .eoIb] [.parRm32, .parImm8] 1 [0x83] with
      signed := true },
    .reg "ADD" .parRm32 .parR32 1 [0x01],
    .reg "ADD" .parRm16 .parR16 2 [0x66, 0x01],
    .reg "ADD" .parRm8 .parR8 1 [0x00],
    .reg "ADD" .parR32 .parRm32 1 [0x03],
    .reg "ADD" .parR16 .parRm16 2 [0x66, 0x03],
    .reg "ADD" .parR8 .parRm8 1 [0x02],
    .reg "ADDPD" .parXmm .parXmmM128 3 [0x66, 0x0f, 0x58],
    .reg "ADDPS" .parXmm .parXmmM128 2 [0x0f, 0x58],
    .reg "ADDSD" .parXmm .parXmmM64 3 [0xf2, 0x0f, 0x58],
    .reg "ADDSS" .parXmm .parXmmM32 3 [0xf3, 0x0f, 0x58]],
   arithmetic [("AND", .eoReg4, 0x20)],
   [.reg "ANDNPD" .parXmm .parXmmM128 3 [0x66, 0x0f, 0xff],
    .reg "ANDNPS" .parXmm .parXmmM128 2 [0x0f, 0x55],
    .reg "ANDPD" .parXmm .parXmmM128 3 [0x66, 0x0f, 0x54],
    .reg "ANDPS" .parXmm .parXmmM128 2 [0x0f, 0x54],
    .reg "ARPL" .parRm16 .parR16 1 [0x63]]]

def opcodesB : List Opcode := List.flatten
  [[.reg "BOUND" .parR16 .parRm16 2 [0x66, 0x62],
    .reg "BOUND" .parR32 .parRm32 1 [0x62]],
   wordDword [("BSF", 0xbc), ("BSR", 0xbd)],
   [.entry "BSWAP" [.eoPrd] [.parR32] 2 [0x0f, 0xc8],
    .entry "BSWAP" [.eoPrw] [.parR16] 3 [0x66, 0x0f, 0xc8]],
   bitTest [("BT", 0xa3, .eoReg4), ("BTC", 0xbb, .eoReg7),
     ("BTR", 0xb3, .eoReg6), ("BTS", 0xab, .eoReg5)]]

def opcodesC : List Opcode := List.flatten
  [[.entry "CALL" [.eoCd] [.parRel32] 1 [0xe8],
    .noRexw "CALL" [.eoReg2] [.parRm32] 1 [0xff],
    .alone "CBW" 2 [0x66, 0x98],
    .alone "CDQ" 1 [0x99],
    .alone "CDQE" 2 [0x48, 0x98],
    .alone "CLC" 1 [0xf8],
    .alone "CLD" 1 [0xfc],
    .entry "CLFLUSH" [.eoReg7] [.parM8] 2 [0x0f, 0xae],
    .alone "CLI" 1 [0xfa],
    .alone "CLTS" 2 [0x0f, 0x06],
    .alone "CMC" 1 [0xf5]],
   wordDword [("CMOVA", 0x47), ("CMOVAE", 0x43), ("CMOVB", 0x42),
     ("CMOVBE", 0x46), ("CMOVC", 0x42), ("CMOVE", 0x44), ("CMOVG", 0x4f),
     ("CMOVGE", 0x4d), ("CMOVL", 0x4c), ("CMOVLE", 0x4e), ("CMOVNA", 0x46),
     ("CMOVNAE", 0x42), ("CMOVNB", 0x43), ("CMOVNBE", 0x47), ("CMOVNC", 0x43),
     ("CMOVNE", 0x45), ("CMOVNG", 0x4e), ("CMOVNGE", 0x4c), ("CMOVNL", 0x4d),
     ("CMOVNLE", 0x4f), ("CMOVNO", 0x41), ("CMOVNP", 0x4b), ("CMOVNS", 0x49),
     ("CMOVNZ", 0x45), ("CMOVO", 0x40), ("CMOVP", 0x4a), ("CMOVPE", 0x4a),
     ("CMOVPO", 0x4b), ("CMOVS", 0x48), ("CMOVZ", 0x44)],
   [.entry "CMP" [.eoIb] [.parAl, .parImm8] 1 [0x3c],
    .entry "CMP" [.eoIw] [.parAx, .parImm16] 2 [0x66, 0x3d],
    .entry "CMP" [.eoId] [.parEax, .parImm32] 1 [0x3d],
    .entry "CMP" [.eoReg7, .eoIb] [.parRm8, .parImm8] 1 [0x80],
    { Opcode.entry "CMP" [.eoReg7, .eoIb] [.parRm16, .parImm8] 2 [0x66, 0x83]
      with signed := true },
    { Opcode.entry "CMP" [.eoReg7, .eoIb] [.parRm32, .parImm8] 1 [0x83] with
      signed := true },
    .entry "CMP" [.eoReg7, .eoIw] [.parRm16, .parImm16] 2 [0x66, 0x81],
    .entry "CMP" [.eoReg7, .eoId] [.parRm32, .parImm32] 1 [0x81],
    .reg "CMP" .parRm8 .parR8 1 [0x38],
    .reg "CMP" .parRm16 .parR16 2 [0x66, 0x39],
    .reg "CMP" .parRm32 .parR32 1 [0x39],
    .reg "CMP" .parR8 .parRm8 1 [0x3a],
    .reg "CMP" .parR16 .parRm16 2 [0x66, 0x3b],
    .reg "CMP" .parR32 .parRm32 1 [0x3b],
    .entry "CMPPD" [.eoReg, .eoIb] [.parXmm, .parXmmM128, .parImm8] 3 [0x66,
      0x0f, 0xc2],
    .entry "CMPPS" [.eoReg, .eoIb] [.parXmm, .parXmmM128, .parImm8] 2 [0x0f,
      0xc2],
    .alone "CMPSB" 1 [0xa6],
    .alone "CMPSD" 1 [0xa7],
    .entry "CMPSD" [.eoReg, .eoIb] [.parXmm, .parXmmM64, .parImm8] 3 [0xf2,
      0x0f, 0xc2],
    .entry "CMPSS" [.eoReg, .eoIb] [.parXmm, .parXmmM32, .parImm8] 3 [0xf3,
      0x0f, 0xc2],
    .alone "CMPSW" 2 [0x66, 0xa7],
    .reg "CMPXCHG" .parRm8 .parR8 2 [0x0f, 0xb0],
    .reg "CMPXCHG" .parRm16 .parR16 3 [0x66, 0x0f, 0xb1],
    .reg "CMPXCHG" .parRm32 .parR32 2 [0x0f, 0xb1],
    .entry "CMPXCHG8B" [.eoReg1] [.parM64] 2 [0x0f, 0xc7],
    .reg "COMISD" .parXmm .parXmmM64 3 [0x66, 0x0f, 0x2f],
    .reg "COMISS" .parXmm .parXmmM32 2 [0x0f, 0x2f],
    .alone "CPUID" 2 [0x0f, 0xa2],
    .alone "CQO" 2 [0x48, 0x99],
    .reg "CVTDQ2PD" .parXmm .parXmmM64 3 [0xf3, 0x0f, 0xe6],
    .reg "CVTDQ2PS" .parXmm .parXmmM128 2 [0x0f, 0x5b],
    .reg "CVTPD2DQ" .parXmm .parXmmM128 3 [0xf2, 0x0f, 0xe6],
    .reg "CVTPD2PI" .parMm .parXmmM128 3 [0x66, 0x0f, 0x2d],
    .reg "CVTPD2PS" .parXmm .parXmmM128 3 [0x66, 0x0f, 0x5a],
    .reg "CVTPI2PD" .parXmm .parMmM64 3 [0x66, 0x0f, 0x2a],
    .reg "CVTPI2PS" .parXmm .parMmM64 2 [0x0f, 0x2a],
    .reg "CVTPS2DQ" .parXmm .parXmmM128 3 [0x66, 0x0f, 0x5b],
    .reg "CVTPS2PD" .parXmm .parXmmM64 2 [0x0f, 0x5a],
    .reg "CVTPS2PI" .parMm .parXmmM64 2 [0x0f, 0x2d],
    .reg "CVTSD2SI" .parR32 .parXmmM64 3 [0xf2, 0x0f, 0x2d],
    .reg "CVTSD2SS" .parXmm .parXmmM64 3 [0xf2, 0x0f, 0x5a],
    .reg "CVTSI2SD" .parXmm .parRm32 3 [0xf2, 0x0f, 0x2a],
    .reg "CVTSI2SS" .parXmm .parRm32 3 [0xf3, 0x0f, 0x2a],
    .reg "CVTSS2SD" .parXmm .parXmmM32 3 [0xf3, 0x0f, 0x5a],
    .reg "CVTSS2SI" .parR32 .parXmmM32 3 [0xf3, 0x0f, 0x2d],
    .reg "CVTTPD2DQ" .parXmm .parXmmM128 3 [0x66, 0x0f, 0xe6],
    .reg "CVTTPD2PI" .parMm .parXmmM128 3 [0x66, 0x0f, 0x2c],
    .reg "CVTTPS2PI" .parMm .parXmmM64 3 [0x0f, 0x2c],
    .reg "CVTTSD2SI" .parR32 .parXmmM64 3 [0xf2, 0x0f, 0x2c],
    .reg "CVTTSS2SI" .parR32 .parXmmM64 3 [0xf3, 0x0f, 0x2c],
    .alone "CWD" 1 [0x99],
    .alone "CWDE" 1 [0x98]]]

def opcodesD : List Opcode := List.flatten
  [[.alone "DAA" 1 [0x27],
    .alone "DAS" 1 [0x2f],
    { Opcode.entry "DEC" [.eoPrw] [.parR16] 2 [0x66, 0x48] with invalidin64bit
      := true },
    { Opcode.entry "DEC" [.eoPrd] [.parR32] 1 [0x48] with invalidin64bit :=
      true },
    .entry "DEC" [.eoReg1] [.parRm8] 1 [0xfe],
    .entry "DEC" [.eoReg1] [.parRm16] 2 [0x66, 0xff],
    .entry "DEC" [.eoReg1] [.parRm32] 1 [0xff]],
   unary [("DIV", .eoReg6)],
   [.reg "DIVPD" .parXmm .parXmmM128 3 [0x66, 0x0f, 0x5e],
    .reg "DIVPS" .parXmm .parXmmM128 2 [0x0f, 0x5e],
    .reg "DIVSD" .parXmm .parXmmM64 3 [0xf2, 0x0f, 0x5e],
    .reg "DIVSS" .parXmm .parXmmM32 3 [0xf3, 0x0f, 0x5e]]]

def opcodesE : List Opcode :=
  [.alone "EMMS" 2 [0x0f, 0x77],
   .entry "ENTER" [.eoIw, .eoIb] [.parImm16, .parImm8] 1 [0xc8]]

end CheatEngine.Assembler
