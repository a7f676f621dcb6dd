import CheatEngine.AssemblerOpcodes

/-!
# The opcodes from `F2XM1` to `OUTSW`
-/

namespace CheatEngine.Assembler

def opcodesF : List Opcode := List.flatten
  [[.alone "F2XM1" 2 [0xd9, 0xf0],
    .alone "FABS" 2 [0xd9, 0xe1]],
   floating [("FADD", .eoReg0, 0xc0, 0xc0)],
   [.entry "FADDP" [.eoPi] [.parSt, .parSt0] 2 [0xde, 0xc0],
    .entry "FADDP" [.eoPi] [.parSt] 2 [0xde, 0xc0],
    .alone "FADDP" 2 [0xde, 0xc1],
    .entry "FBLD" [.eoReg4] [.parM80] 1 [0xdf],
    .entry "FBSTP" [.eoReg6] [.parM80] 1 [0xdf],
    .alone "FCHS" 2 [0xd9, 0xe0],
    .alone "FCLEX" 3 [0x9b, 0xdb, 0xe2]],
   fromStack [("FCMOVB", 0xda, 0xc0), ("FCMOVBE", 0xda, 0xd0),
     ("FCMOVE", 0xda, 0xc8), ("FCMOVNB", 0xdb, 0xc0), ("FCMOVNBE", 0xdb, 0xd0),
     ("FCMOVNE", 0xdb, 0xc8), ("FCMOVNU", 0xdb, 0xd8), ("FCMOVU", 0xda, 0xd8)],
   [.noRexw "FCOM" [.eoReg2] [.parM32] 1 [0xd8],
    .noRexw "FCOM" [.eoReg2] [.parM64] 1 [0xdc],
    .entry "FCOM" [.eoPi] [.parSt0, .parSt] 2 [0xd8, 0xd0],
    .entry "FCOM" [.eoPi] [.parSt] 2 [0xd8, 0xd0],
    .alone "FCOM" 2 [0xd8, 0xd1],
    .noRexw "FCOMP" [.eoReg3] [.parM32] 1 [0xd8],
    .noRexw "FCOMP" [.eoReg3] [.parM64] 1 [0xdc],
    .entry "FCOMP" [.eoPi] [.parSt0, .parSt] 2 [0xd8, 0xd8],
    .entry "FCOMP" [.eoPi] [.parSt] 2 [0xd8, 0xd8],
    .alone "FCOMP" 2 [0xd8, 0xd9]],
   fromStack [("FCOMI", 0xdb, 0xf0), ("FCOMIP", 0xdf, 0xf0)],
   [.alone "FCOMPP" 2 [0xde, 0xd9],
    .alone "FCOMPP" 2 [0xde, 0xd9],
    .alone "FCOS" 2 [0xd9, 0xff],
    .alone "FDECSTP" 2 [0xd9, 0xf6]],
   floating [("FDIV", .eoReg6, 0xf0, 0xf8)],
   [.entry "FDIVP" [.eoPi] [.parSt, .parSt0] 2 [0xde, 0xf8],
    .entry "FDIVP" [.eoPi] [.parSt] 2 [0xde, 0xf8],
    .alone "FDIVP" 2 [0xde, 0xf9]],
   floating [("FDIVR", .eoReg7, 0xf8, 0xf0)],
   [.entry "FDIVRP" [.eoPi] [.parSt, .parSt0] 2 [0xde, 0xf0],
    .alone "FDIVRP" 2 [0xde, 0xf1],
    .entry "FFREE" [.eoPi] [.parSt] 2 [0xdd, 0xc0],
    .entry "FIADD" [.eoReg0] [.parM32] 1 [0xda],
    .entry "FIADD" [.eoReg0] [.parM16] 1 [0xde],
    .entry "FICOM" [.eoReg2] [.parM32] 1 [0xda],
    .entry "FICOM" [.eoReg2] [.parM16] 1 [0xde],
    .entry "FICOMP" [.eoReg3] [.parM32] 1 [0xda],
    .entry "FICOMP" [.eoReg3] [.parM16] 1 [0xde],
    .entry "FIDIV" [.eoReg6] [.parM32] 1 [0xda],
    .entry "FIDIV" [.eoReg6] [.parM16] 1 [0xde],
    .entry "FIDIVR" [.eoReg7] [.parM32] 1 [0xda],
    .entry "FIDIVR" [.eoReg7] [.parM16] 1 [0xde],
    .noRexw "FILD" [.eoReg0] [.parM32] 1 [0xdb],
    .noRexw "FILD" [.eoReg0] [.parM16] 1 [0xdf],
    .noRexw "FILD" [.eoReg5] [.parM64] 1 [0xdf],
    .noRexw "FIMUL" [.eoReg1] [.parM32] 1 [0xda],
    .noRexw "FIMUL" [.eoReg1] [.parM16] 1 [0xde],
    .alone "FINCSTP" 2 [0xd9, 0xf7],
    .alone "FINIT" 3 [0x9b, 0xdb, 0xe3],
    .noRexw "FIST" [.eoReg2] [.parM32] 1 [0xdb],
    .noRexw "FIST" [.eoReg2] [.parM16] 1 [0xdf],
    .noRexw "FISTP" [.eoReg3] [.parM32] 1 [0xdb],
    .noRexw "FISTP" [.eoReg3] [.parM16] 1 [0xdf],
    .noRexw "FISTP" [.eoReg7] [.parM64] 1 [0xdf],
    .noRexw "FISTTP" [.eoReg1] [.parM32] 1 [0xdb],
    .noRexw "FISTTP" [.eoReg1] [.parM16] 1 [0xdf],
    .noRexw "FISTTP" [.eoReg1] [.parM64] 1 [0xdd],
    .noRexw "FISUB" [.eoReg4] [.parM32] 1 [0xda],
    .noRexw "FISUB" [.eoReg4] [.parM16] 1 [0xde],
    .noRexw "FISUBR" [.eoReg5] [.parM32] 1 [0xda],
    .noRexw "FISUBR" [.eoReg5] [.parM16] 1 [0xde],
    .noRexw "FLD" [.eoReg0] [.parM32] 1 [0xd9],
    .noRexw "FLD" [.eoReg0] [.parM64] 1 [0xdd],
    .noRexw "FLD" [.eoReg5] [.parM80] 1 [0xdb],
    .noRexw "FLD" [.eoPi] [.parSt] 2 [0xd9, 0xc0],
    .alone "FLD1" 2 [0xd9, 0xe8],
    .entry "FLDCW" [.eoReg5] [.parM16] 1 [0xd9],
    .entry "FLDENV" [.eoReg4] [.parM32] 1 [0xd9],
    .alone "FLDL2E" 2 [0xd9, 0xea],
    .alone "FLDL2T" 2 [0xd9, 0xe9],
    .alone "FLDLG2" 2 [0xd9, 0xec],
    .alone "FLDLN2" 2 [0xd9, 0xed],
    .alone "FLDPI" 2 [0xd9, 0xeb],
    .alone "FLDZ" 2 [0xd9, 0xee]],
   floating [("FMUL", .eoReg1, 0xc8, 0xc8)],
   [.entry "FMULP" [.eoPi] [.parSt, .parSt0] 2 [0xde, 0xc8],
    .entry "FMULP" [.eoPi] [.parSt] 2 [0xde, 0xc8],
    .alone "FMULP" 2 [0xde, 0xc9],
    .alone "FNINIT" 2 [0xdb, 0xe3],
    .alone "FNCLEX" 2 [0xdb, 0xe2],
    .alone "FNOP" 2 [0xd9, 0xd0],
    .entry "FNSAVE" [.eoReg6] [.parM32] 1 [0xdd],
    .entry "FNSTCW" [.eoReg7] [.parM16] 1 [0xd9],
    .entry "FNSTENV" [.eoReg6] [.parM32] 1 [0xd9],
    .entry "FNSTSW" [] [.parAx] 2 [0xdf, 0xe0],
    .entry "FNSTSW" [.eoReg7] [.parM16] 1 [0xdd],
    .alone "FPATAN" 2 [0xd9, 0xf3],
    .alone "FPREM" 2 [0xd9, 0xf8],
    .alone "FPREM1" 2 [0xd9, 0xf5],
    .alone "FPTAN" 2 [0xd9, 0xf2],
    .alone "FRNDINT" 2 [0xd9, 0xfc],
    .entry "FRSTOR" [.eoReg4] [.parM32] 1 [0xdd],
    .entry "FSAVE" [.eoReg6] [.parM32] 2 [0x9b, 0xdd],
    .alone "FSCALE" 2 [0xd9, 0xfd],
    .alone "FSIN" 2 [0xd9, 0xfe],
    .alone "FSINCOS" 2 [0xd9, 0xfb],
    .alone "FSQRT" 2 [0xd9, 0xfa],
    .noRexw "FST" [.eoReg2] [.parM32] 1 [0xd9],
    .noRexw "FST" [.eoReg2] [.parM64] 1 [0xdd],
    .noRexw "FST" [.eoPi] [.parSt] 2 [0xdd, 0xd0],
    .entry "FSTCW" [.eoReg7] [.parM16] 2 [0x9b, 0xd9],
    .entry "FSTENV" [.eoReg6] [.parM32] 2 [0x9b, 0xd9],
    .noRexw "FSTP" [.eoReg3] [.parM32] 1 [0xd9],
    .noRexw "FSTP" [.eoReg3] [.parM64] 1 [0xdd],
    .noRexw "FSTP" [.eoReg7] [.parM80] 1 [0xdb],
    .noRexw "FSTP" [.eoPi] [.parSt] 2 [0xdd, 0xd8],
    .entry "FSTSW" [.eoReg7] [.parM16] 2 [0x9b, 0xdd],
    .entry "FSTSW" [] [.parAx] 3 [0x9b, 0xdf, 0xe0],
    .noRexw "FSUB" [.eoReg4] [.parM32] 1 [0xd8],
    .noRexw "FSUB" [.eoReg4] [.parM64] 1 [0xdc],
    .noRexw "FSUB" [.eoPi] [.parSt0, .parSt] 2 [0xd8, 0xe0],
    .noRexw "FSUB" [.eoPi] [.parSt] 2 [0xdc, 0xe8],
    .noRexw "FSUB" [.eoPi] [.parSt, .parSt0] 2 [0xdc, 0xe8],
    .noRexw "FSUBP" [.eoPi] [.parSt, .parSt0] 2 [0xde, 0xe8],
    .noRexw "FSUBP" [.eoPi] [.parSt] 2 [0xde, 0xe8],
    .noRexw "FSUBP" [] [] 2 [0xde, 0xe9],
    .noRexw "FSUBR" [.eoReg5] [.parM32] 1 [0xd8],
    .noRexw "FSUBR" [.eoReg5] [.parM64] 1 [0xdc],
    .noRexw "FSUBR" [.eoPi] [.parSt0, .parSt] 2 [0xd8, 0xe8],
    .noRexw "FSUBR" [.eoPi] [.parSt] 2 [0xd8, 0xe8],
    .noRexw "FSUBR" [.eoPi] [.parSt, .parSt0] 2 [0xdc, 0xe0],
    .noRexw "FSUBRP" [.eoPi] [.parSt, .parSt0] 2 [0xde, 0xe0],
    .noRexw "FSUBRP" [.eoPi] [.parSt] 2 [0xde, 0xe0],
    .noRexw "FSUBRP" [] [] 2 [0xde, 0xe1],
    .alone "FTST" 2 [0xd9, 0xe4],
    .entry "FUCOM" [.eoPi] [.parSt] 2 [0xdd, 0xe0],
    .alone "FUCOM" 2 [0xdd, 0xe1]],
   fromStack [("FUCOMI", 0xdb, 0xe8), ("FUCOMIP", 0xdf, 0xe8)],
   [.entry "FUCOMP" [.eoPi] [.parSt] 2 [0xdd, 0xe8],
    .alone "FUCOMP" 2 [0xdd, 0xe9],
    .alone "FUCOMPP" 2 [0xda, 0xe9],
    .alone "FWAIT" 1 [0x9b],
    .alone "FXAM" 2 [0xd9, 0xe5],
    .entry "FXCH" [.eoPi] [.parSt] 2 [0xd9, 0xc8],
    .alone "FXCH" 2 [0xd9, 0xc9],
    .entry "FXRSTOR" [.eoReg1] [.parM32] 2 [0x0f, 0xae],
    .entry "FXSAVE" [.eoReg0] [.parM32] 2 [0x0f, 0xae],
    .alone "FXTRACT" 2 [0xd9, 0xf4],
    .alone "FYL2X" 2 [0xd9, 0xf1],
    .alone "FYL2XP1" 2 [0xd9, 0xf9]]]

def opcodesH : List Opcode :=
  [.alone "HLT" 1 [0xf4]]

def opcodesI : List Opcode := List.flatten
  [unary [("IDIV", .eoReg7)],
   [.entry "IMUL" [.eoReg5] [.parRm8] 1 [0xf6],
    .entry "IMUL" [.eoReg5] [.parRm16] 2 [0x66, 0xf7],
    .entry "IMUL" [.eoReg5] [.parRm32] 1 [0xf7],
    .reg "IMUL" .parR16 .parRm16 3 [0x66, 0x0f, 0xaf],
    .reg "IMUL" .parR32 .parRm32 2 [0x0f, 0xaf],
    .entry "IMUL" [.eoReg, .eoIb] [.parR16, .parRm16, .parImm8] 2 [0x66, 0x6b],
    .entry "IMUL" [.eoReg, .eoIb] [.parR32, .parRm32, .parImm8] 1 [0x6b],
    .entry "IMUL" [.eoReg, .eoIw] [.parR16, .parImm16] 2 [0x66, 0x69],
    .entry "IMUL" [.eoReg, .eoId] [.parR32, .parImm32] 1 [0x69],
    .entry "IMUL" [.eoReg, .eoIb] [.parR16, .parImm8] 2 [0x66, 0x6b],
    .entry "IMUL" [.eoReg, .eoIb] [.parR32, .parImm8] 1 [0x6b],
    .entry "IMUL" [.eoReg, .eoIw] [.parR16, .parRm16, .parImm16] 2 [0x66,
      0x69],
    .entry "IMUL" [.eoReg, .eoId] [.parR32, .parRm32, .parImm32] 1 [0x69],
    .entry "IN" [.eoIb] [.parAl, .parImm8] 1 [0xe4],
    .entry "IN" [.eoIb] [.parAx, .parImm8] 2 [0x66, 0xe5],
    .entry "IN" [.eoIb] [.parEax, .parImm8] 1 [0xe5],
    .entry "IN" [] [.parAl, .parDx] 1 [0xec],
    .entry "IN" [] [.parAx, .parDx] 2 [0x66, 0xed],
    .entry "IN" [] [.parEax, .parDx] 1 [0xed],
    { Opcode.entry "INC" [.eoPrw] [.parR16] 2 [0x66, 0x40] with invalidin64bit
      := true },
    { Opcode.entry "INC" [.eoPrd] [.parR32] 1 [0x40] with invalidin64bit :=
      true },
    .entry "INC" [.eoReg0] [.parRm8] 1 [0xfe],
    .entry "INC" [.eoReg0] [.parRm16] 2 [0x66, 0xff],
    .entry "INC" [.eoReg0] [.parRm32] 1 [0xff],
    .alone "INSB" 1 [0x6c],
    .alone "INSD" 1 [0x6d],
    .alone "INSW" 2 [0x66, 0x6d],
    .entry "INT" [] [.par3] 1 [0xcc],
    .entry "INT" [.eoIb] [.parImm8] 1 [0xcd],
    .alone "INTO" 1 [0xce],
    .alone "INVD" 2 [0x0f, 0x08],
    .entry "INVLPG" [.eoReg7] [.parM32] 2 [0x0f, 0x01],
    .alone "IRET" 2 [0x66, 0xcf],
    .alone "IRETD" 1 [0xcf],
    .alone "IRETQ" 2 [0x48, 0xcf]]]

def opcodesJ : List Opcode := List.flatten
  [shortNear [("JA", 0x77), ("JAE", 0x73), ("JB", 0x72), ("JBE", 0x76),
     ("JC", 0x72)],
   [.entry "JCXZ" [.eoCb] [.parRel8] 2 [0x66, 0xe3]],
   shortNear [("JE", 0x74)],
   [.entry "JECXZ" [.eoCb] [.parRel8] 1 [0xe3]],
   shortNear [("JG", 0x7f), ("JGE", 0x7d), ("JL", 0x7c), ("JLE", 0x7e)],
   [.entry "JMP" [.eoCb] [.parRel8] 1 [0xeb],
    .entry "JMP" [.eoCd] [.parRel32] 1 [0xe9],
    .noRexw "JMP" [.eoReg4] [.parRm32] 1 [0xff]],
   shortNear [("JNA", 0x76), ("JNAE", 0x72), ("JNB", 0x73), ("JNBE", 0x77),
     ("JNC", 0x73), ("JNE", 0x75), ("JNG", 0x7e), ("JNGE", 0x7c),
     ("JNL", 0x7d), ("JNLE", 0x7f), ("JNO", 0x71), ("JNP", 0x7b),
     ("JNS", 0x79), ("JNZ", 0x75), ("JO", 0x70), ("JP", 0x7a), ("JPE", 0x7a),
     ("JPO", 0x7b), ("JS", 0x78), ("JZ", 0x74)]]

def opcodesL : List Opcode := List.flatten
  [[.alone "LAHF" 1 [0x9f]],
   wordDword [("LAR", 0x02)],
   [.reg "LDDQU" .parXmm .parM128 3 [0xf2, 0x0f, 0xf0],
    .entry "LDMXCSR" [.eoReg2] [.parM32] 2 [0x0f, 0xae],
    .reg "LDS" .parR16 .parM16 2 [0x66, 0xc5],
    .reg "LDS" .parR32 .parM32 1 [0xc5],
    { Opcode.entry "LEA" [.eoReg] [.parR16, .parM16] 2 [0x66, 0x8d] with
      canDoAddressSwitch := true },
    { Opcode.entry "LEA" [.eoReg] [.parR32, .parM32] 1 [0x8d] with
      canDoAddressSwitch := true },
    .alone "LEAVE" 1 [0xc9],
    .reg "LES" .parR16 .parRm16 2 [0x66, 0xc4],
    .reg "LES" .parR32 .parRm32 1 [0xc4],
    .alone "LFENCE" 3 [0x0f, 0xae, 0xe8],
    .reg "LFS" .parR16 .parM16 3 [0x66, 0x0f, 0xb4],
    .reg "LFS" .parR32 .parM32 2 [0x0f, 0xb4],
    .entry "LGDT" [.eoReg2] [.parM16] 2 [0x0f, 0x01],
    .entry "LGDT" [.eoReg2] [.parM32] 2 [0x0f, 0x01],
    .reg "LGS" .parR16 .parM16 3 [0x66, 0x0f, 0xb5],
    .reg "LGS" .parR32 .parM32 2 [0x0f, 0xb5],
    .entry "LIDT" [.eoReg3] [.parM16] 2 [0x0f, 0x01],
    .entry "LIDT" [.eoReg3] [.parM32] 2 [0x0f, 0x01],
    .entry "LLDT" [.eoReg2] [.parRm16] 2 [0x0f],
    .entry "LMSW" [.eoReg6] [.parRm16] 2 [0x0f, 0x01],
    .alone "LODSB" 1 [0xac],
    .alone "LODSD" 1 [0xad],
    .alone "LODSW" 2 [0x66, 0xad],
    .entry "LOOP" [.eoCb] [.parRel8] 1 [0xe2],
    .entry "LOOPE" [.eoCb] [.parRel8] 1 [0xe1],
    .entry "LOOPNE" [.eoCb] [.parRel8] 1 [0xe0],
    .entry "LOOPNZ" [.eoCb] [.parRel8] 1 [0xe0],
    .entry "LOOPZ" [.eoCb] [.parRel8] 1 [0xe1]],
   wordDword [("LSL", 0x03)],
   [.reg "LSS" .parR16 .parM16 3 [0x66, 0x0f, 0xb2],
    .reg "LSS" .parR32 .parM32 2 [0x0f, 0xb2],
    .entry "LTR" [.eoReg3] [.parRm16] 2 [0x0f]]]

def opcodesM : List Opcode := List.flatten
  [[.reg "MASKMOVDQU" .parXmm .parMm 3 [0x66, 0x0f, 0xf7],
    .reg "MASKMOVQ" .parMm .parMm 2 [0x0f, 0xf7],
    .reg "MAXPD" .parXmm .parXmmM128 3 [0x66, 0x0f, 0x5f],
    .reg "MAXPS" .parXmm .parXmmM128 2 [0x0f, 0x5f],
    .reg "MAXSD" .parXmm .parXmmM64 3 [0xf2, 0x0f, 0x5f],
    .reg "MAXSS" .parXmm .parXmmM32 3 [0xf3, 0x0f, 0x5f],
    .alone "MFENCE" 3 [0x0f, 0xae, 0xf0],
    .reg "MINPD" .parXmm .parXmmM128 3 [0x66, 0x0f, 0x5d],
    .reg "MINPS" .parXmm .parXmmM128 2 [0x0f, 0x5d],
    .reg "MINSD" .parXmm .parXmmM64 3 [0xf2, 0x0f, 0x5d],
    .reg "MINSS" .parXmm .parXmmM32 3 [0xf3, 0x0f, 0x5d],
    .entry "MOV" [.eoId] [.parAl, .parMoffs8] 1 [0xa0],
    .entry "MOV" [.eoId] [.parAx, .parMoffs16] 2 [0x66, 0xa1],
    .entry "MOV" [.eoId] [.parEax, .parMoffs32] 1 [0xa1],
    .entry "MOV" [.eoId] [.parMoffs8, .parAl] 1 [0xa2],
    .entry "MOV" [.eoId] [.parMoffs16, .parAx] 2 [0x66, 0xa3],
    .entry "MOV" [.eoId] [.parMoffs32, .parEax] 1 [0xa3],
    .reg "MOV" .parRm8 .parR8 1 [0x88],
    .reg "MOV" .parRm16 .parR16 2 [0x66, 0x89],
    .reg "MOV" .parR32 .parRm32 1 [0x8b],
    .reg "MOV" .parRm32 .parR32 1 [0x89],
    .reg "MOV" .parR8 .parRm8 1 [0x8a],
    .reg "MOV" .parR16 .parRm16 2 [0x66, 0x8b],
    .reg "MOV" .parRm16 .parSreg 2 [0x66, 0x8c],
    .reg "MOV" .parSreg .parRm16 2 [0x66, 0x8e],
    .entry "MOV" [.eoPrb] [.parR8, .parImm8] 1 [0xb0],
    .entry "MOV" [.eoPrw] [.parR16, .parImm16] 2 [0x66, 0xb8],
    .entry "MOV" [.eoPrd] [.parR32, .parImm32] 1 [0xb8],
    .entry "MOV" [.eoReg0] [.parRm8, .parImm8] 1 [0xc6],
    .entry "MOV" [.eoReg0] [.parRm16, .parImm16] 2 [0x66, 0xc7],
    .entry "MOV" [.eoReg0] [.parRm32, .parImm32] 1 [0xc7],
    .reg "MOV" .parCr .parR32 2 [0x0f, 0x22],
    .reg "MOV" .parR32 .parCr 2 [0x0f, 0x20],
    .reg "MOV" .parR32 .parDr 2 [0x0f, 0x21],
    .reg "MOV" .parDr .parR32 2 [0x0f, 0x23],
    .reg "MOVAPD" .parXmm .parXmmM128 3 [0x66, 0x0f, 0x28],
    .reg "MOVAPS" .parXmm .parXmmM128 2 [0x0f, 0x28],
    .reg "MOVAPS" .parXmmM128 .parXmm 2 [0x0f, 0x29],
    .reg "MOVD" .parMm .parRm32 2 [0x0f, 0x6e],
    .reg "MOVD" .parRm32 .parMm 2 [0x0f, 0x7e],
    .reg "MOVD" .parXmm .parRm32 3 [0x66, 0x0f, 0x6e],
    .reg "MOVD" .parRm32 .parXmm 3 [0x66, 0x0f, 0x7e],
    .reg "MOVDQ2Q" .parMm .parXmm 3 [0xf2, 0x0f, 0xd6],
    .reg "MOVDQA" .parXmm .parXmmM128 3 [0x66, 0x0f, 0x6f],
    .reg "MOVDQA" .parXmmM128 .parXmm 3 [0x66, 0x0f, 0x7f],
    .reg "MOVDQU" .parXmm .parXmmM128 3 [0xf3, 0x0f, 0x6f],
    .reg "MOVDQU" .parXmmM128 .parXmm 3 [0xf3, 0x0f, 0x7f],
    .reg "MOVHLPS" .parXmm .parXmm 2 [0x0f, 0x12],
    .reg "MOVHPD" .parXmm .parM64 3 [0x66, 0x0f, 0x16],
    .reg "MOVHPD" .parM64 .parXmm 3 [0x66, 0x0f, 0x17],
    .reg "MOVHPS" .parXmm .parM64 2 [0x0f, 0x16],
    .reg "MOVHPS" .parM64 .parXmm 2 [0x0f, 0x17],
    .reg "MOVLHPS" .parXmm .parXmm 2 [0x0f, 0x16],
    .reg "MOVLPD" .parXmm .parM64 3 [0x66, 0x0f, 0x12],
    .reg "MOVLPD" .parM64 .parXmm 3 [0x66, 0x0f, 0x13],
    .reg "MOVLPS" .parXmm .parM64 2 [0x0f, 0x12],
    .reg "MOVLPS" .parM64 .parXmm 2 [0x0f, 0x13],
    .reg "MOVMSKPD" .parR32 .parXmm 3 [0x66, 0x0f, 0x50],
    .reg "MOVMSKPS" .parR32 .parXmm 2 [0x0f, 0x50],
    .reg "MOVNTDQ" .parM128 .parXmm 3 [0x66, 0x0f, 0xe7],
    .reg "MOVNTI" .parM32 .parR32 2 [0x0f, 0xc3],
    .reg "MOVNTPD" .parM128 .parXmm 3 [0x66, 0x0f, 0x2b],
    .reg "MOVNTPS" .parM128 .parXmm 2 [0x0f, 0x2b],
    .reg "MOVNTQ" .parM64 .parMm 2 [0x0f, 0xe7],
    .reg "MOVQ" .parMm .parMmM64 2 [0x0f, 0x6f],
    .reg "MOVQ" .parMmM64 .parMm 2 [0x0f, 0x7f],
    .reg "MOVQ" .parXmm .parXmmM64 3 [0xf3, 0x0f, 0x7e],
    .reg "MOVQ" .parXmmM64 .parXmm 3 [0x66, 0x0f, 0xd6],
    .reg "MOVQ" .parMm .parRm32 2 [0x0f, 0x6e],
    .reg "MOVQ" .parXmm .parRm32 3 [0x66, 0x0f, 0x6e],
    .reg "MOVQ" .parRm32 .parXmm 3 [0x66, 0x0f, 0x7e],
    .reg "MOVQ2DQ" .parXmm .parMm 3 [0x66, 0x0f, 0xd6],
    .alone "MOVSB" 1 [0xa4],
    .alone "MOVSD" 1 [0xa5],
    .reg "MOVSD" .parXmm .parXmmM64 3 [0xf2, 0x0f, 0x10],
    .reg "MOVSD" .parXmmM64 .parXmm 3 [0xf2, 0x0f, 0x11],
    .alone "MOVSQ" 2 [0x48, 0xa5],
    .reg "MOVSS" .parXmm .parXmmM32 3 [0xf3, 0x0f, 0x10],
    .reg "MOVSS" .parM32 .parXmm 3 [0xf3, 0x0f, 0x11],
    .alone "MOVSW" 2 [0x66, 0xa5],
    .reg "MOVSX" .parR16 .parRm8 3 [0x66, 0x0f, 0xbe],
    .reg "MOVSX" .parR32 .parRm8 2 [0x0f, 0xbe],
    .reg "MOVSX" .parR32 .parRm16 2 [0x0f, 0xbf],
    .reg "MOVSXD" .parR32 .parRm32 1 [0x63],
    .reg "MOVUPD" .parXmm .parXmmM128 3 [0x66, 0x0f, 0x10],
    .reg "MOVUPD" .parXmmM128 .parXmm 3 [0x66, 0x0f, 0x11],
    .reg "MOVUPS" .parXmm .parXmmM128 2 [0x0f, 0x10],
    .reg "MOVUPS" .parXmmM128 .parXmm 2 [0x0f, 0x11],
    .reg "MOVZX" .parR16 .parRm8 3 [0x66, 0x0f, 0xb6],
    .reg "MOVZX" .parR32 .parRm8 2 [0x0f, 0xb6],
    .reg "MOVZX" .parR32 .parRm16 2 [0x0f, 0xb7]],
   unary [("MUL", .eoReg4)],
   [.reg "MULPD" .parXmm .parXmmM128 3 [0x66, 0x0f, 0x59],
    .reg "MULPS" .parXmm .parXmmM128 2 [0x0f, 0x59],
    .reg "MULSD" .parXmm .parXmmM64 3 [0xf2, 0x0f, 0x59],
    .reg "MULSS" .parXmm .parXmmM32 3 [0xf3, 0x0f, 0x59]]]

def opcodesN : List Opcode := List.flatten
  [unary [("NEG", .eoReg3)],
   [.alone "NOP" 1 [0x90]],
   unary [("NOT", .eoReg2)]]

def opcodesO : List Opcode := List.flatten
  [arithmetic [("OR", .eoReg1, 0x08)],
   [.reg "ORPD" .parXmm .parXmmM128 3 [0x66, 0x0f, 0x56],
    .reg "ORPS" .parXmm .parXmmM128 2 [0x0f, 0x56],
    .entry "OUT" [.eoIb] [.parImm8, .parAl] 1 [0xe6],
    .entry "OUT" [.eoIb] [.parImm8, .parAx] 2 [0x66, 0xe7],
    .entry "OUT" [.eoIb] [.parImm8, .parEax] 1 [0xe7],
    .entry "OUT" [] [.parDx, .parAl] 1 [0xee],
    .entry "OUT" [] [.parDx, .parAx] 2 [0x66, 0xef],
    .entry "OUT" [] [.parDx, .parEax] 1 [0xef],
    .alone "OUTSB" 1 [0x6e],
    .alone "OUTSD" 1 [0x6f],
    .alone "OUTSW" 2 [0x66, 0x6f]]]

end CheatEngine.Assembler
