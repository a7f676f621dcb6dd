import CheatEngine.AssemblerOpcodes

/-!
# The opcodes from `PACKSSDW` to `XSAVE64`
-/

namespace CheatEngine.Assembler

def opcodesP : List Opcode := List.flatten
  [mmxXmm [("PACKSSDW", 0x6b), ("PACKSSWB", 0x63), ("PACKUSWB", 0x67),
     ("PADDB", 0xfc), ("PADDD", 0xfe), ("PADDQ", 0xd4), ("PADDSB", 0xec),
     ("PADDSW", 0xed), ("PADDUSB", 0xdc), ("PADDUSW", 0xdd), ("PADDW", 0xfd),
     ("PAND", 0xdb), ("PANDN", 0xdf)],
   [.alone "PAUSE" 2 [0xf3, 0x90]],
   mmxXmm [("PAVGB", 0xe0), ("PAVGW", 0xe3), ("PCMPEQB", 0x74),
     ("PCMPEQD", 0x76), ("PCMPEQW", 0x75), ("PCMPGTB", 0x64),
     ("PCMPGTD", 0x66), ("PCMPGTW", 0x65)],
   [.reg "PCPPS" .parXmm .parXmmM128 2 [0x0f, 0x53],
    .reg "PCPSS" .parXmm .parXmmM128 3 [0xf3, 0x0f, 0x53],
    .entry "PEXTRW" [.eoReg, .eoIb] [.parR32, .parMm, .parImm8] 2 [0x0f, 0xc5],
    .entry "PEXTRW" [.eoReg, .eoIb] [.parR32, .parXmm, .parImm8] 3 [0x66, 0x0f,
      0xc5],
    .entry "PINSRW" [.eoReg, .eoIb] [.parMm, .parR32M16, .parImm8] 2 [0x0f,
      0xc4],
    .entry "PINSRW" [.eoReg, .eoIb] [.parXmm, .parR32M16, .parImm8] 3 [0x66,
      0x0f, 0xc4]],
   mmxXmm [("PMADDWD", 0xf5), ("PMAXSW", 0xee), ("PMAXUB", 0xde),
     ("PMINSW", 0xea), ("PMINUB", 0xda)],
   [.entry "PMOVMSKB" [.eoReg, .eoIb] [.parR32, .parMm, .parImm8] 2 [0x0f,
      0xd7],
    .entry "PMOVMSKB" [.eoReg, .eoIb] [.parR32, .parXmm, .parImm8] 3 [0x66,
      0x0f, 0xd7]],
   mmxXmm [("PMULHUW", 0xe4), ("PMULHW", 0xe5)],
   [.reg "PMULLD" .parXmm .parXmmM128 4 [0x66, 0x0f, 0x38, 0x40]],
   mmxXmm [("PMULLW", 0xd5), ("PMULUDQ", 0xf4)],
   [.noRexw "POP" [.eoPrd] [.parR32] 1 [0x58],
    .entry "POP" [.eoPrw] [.parR16] 2 [0x66, 0x58],
    .entry "POP" [.eoReg0] [.parRm32] 1 [0x8f],
    .entry "POP" [.eoReg0] [.parRm16] 2 [0x66, 0x8f],
    .entry "POP" [] [.parDs] 1 [0x1f],
    .entry "POP" [] [.parEs] 1 [0x07],
    .entry "POP" [] [.parSs] 1 [0x17],
    .entry "POP" [] [.parFs] 2 [0x0f, 0xa1],
    .entry "POP" [] [.parGs] 2 [0x0f, 0xa9],
    .alone "POPA" 2 [0x66, 0x61],
    .alone "POPAD" 1 [0x61],
    .alone "POPALL" 1 [0x61],
    .alone "POPF" 2 [0x66, 0x9d],
    { Opcode.entry "POPFD" [] [] 1 [0x9d] with invalidin64bit := true },
    { Opcode.entry "POPFQ" [] [] 1 [0x9d] with invalidin32bit := true }],
   mmxXmm [("POR", 0xeb)],
   [.entry "PREFETCH0" [.eoReg1] [.parM8] 2 [0x0f, 0x18],
    .entry "PREFETCH1" [.eoReg2] [.parM8] 2 [0x0f, 0x18],
    .entry "PREFETCH2" [.eoReg3] [.parM8] 2 [0x0f, 0x18],
    .entry "PREFETCHA" [.eoReg0] [.parM8] 2 [0x0f, 0x18],
    .entry "PREFETCHW" [.eoReg1] [.parM8] 2 [0x0f, 0x0d],
    .entry "PREFETCHWT1" [.eoReg2] [.parM8] 2 [0x0f, 0x0d]],
   mmxXmm [("PSADBW", 0xf6)],
   [.entry "PSHUFD" [.eoReg, .eoIb] [.parXmm, .parXmmM128, .parImm8] 3 [0x66,
      0x0f, 0x70],
    .entry "PSHUFHW" [.eoReg, .eoIb] [.parXmm, .parXmmM128, .parImm8] 3 [0xf3,
      0x0f, 0x70],
    .entry "PSHUFLW" [.eoReg, .eoIb] [.parXmm, .parXmmM128, .parImm8] 3 [0xf2,
      0x0f, 0x70],
    .entry "PSHUFW" [.eoReg, .eoIb] [.parMm, .parMmM64, .parImm8] 2 [0x0f,
      0x70]],
   mmxXmmShift [("PSLLD", 0xf2, .eoReg6, 0x72)],
   [.entry "PSLLDQ" [.eoReg7, .eoIb] [.parXmm, .parImm8] 3 [0x66, 0x0f, 0x73]],
   mmxXmmShift [("PSLLQ", 0xf3, .eoReg6, 0x73),
     ("PSLLW", 0xf1, .eoReg6, 0x71)],
   [.reg "PSQRTPS" .parXmm .parXmmM128 2 [0x0f, 0x52],
    .reg "PSQRTSS" .parXmm .parXmmM32 3 [0xf3, 0x0f, 0x52]],
   mmxXmmShift [("PSRAD", 0xe2, .eoReg4, 0x72), ("PSRAW", 0xe1, .eoReg4, 0x71),
     ("PSRLD", 0xd2, .eoReg2, 0x72)],
   [.entry "PSRLDQ" [.eoReg3, .eoIb] [.parXmm, .parImm8] 3 [0x66, 0x0f, 0x73]],
   mmxXmmShift [("PSRLQ", 0xd3, .eoReg2, 0x73),
     ("PSRLW", 0xd1, .eoReg2, 0x71)],
   mmxXmm [("PSUBB", 0xf8), ("PSUBD", 0xfa), ("PSUBQ", 0xfb), ("PSUBSB", 0xe8),
     ("PSUBSW", 0xe9), ("PSUBUSB", 0xd8), ("PSUBUSW", 0xd9), ("PSUBW", 0xf9),
     ("PSUSB", 0xe8), ("PSUSW", 0xe9), ("PUNPCKHBW", 0x68),
     ("PUNPCKHDQ", 0x6a)],
   [.reg "PUNPCKHQDQ" .parXmm .parXmmM128 3 [0x66, 0x0f, 0x6d]],
   mmxXmm [("PUNPCKHWD", 0x69), ("PUNPCKLBW", 0x60), ("PUNPCKLDQ", 0x62)],
   [.reg "PUNPCKLQDQ" .parXmm .parXmmM128 3 [0x66, 0x0f, 0x6c]],
   mmxXmm [("PUNPCKLWD", 0x61)],
   [.entry "PUSH" [.eoIb] [.parImm8] 1 [0x6a],
    .entry "PUSH" [.eoId] [.parImm32] 1 [0x68],
    .noRexw "PUSH" [.eoPrd] [.parR32] 1 [0x50],
    .entry "PUSH" [.eoPrw] [.parR16] 2 [0x66, 0x50],
    .entry "PUSH" [.eoReg6] [.parRm32] 1 [0xff],
    .entry "PUSH" [.eoReg6] [.parRm16] 2 [0x66, 0xff],
    .entry "PUSH" [] [.parCs] 1 [0x0e],
    .entry "PUSH" [] [.parSs] 1 [0x16],
    .entry "PUSH" [] [.parDs] 1 [0x1e],
    .entry "PUSH" [] [.parEs] 1 [0x06],
    .entry "PUSH" [] [.parFs] 2 [0x0f, 0xa0],
    .entry "PUSH" [] [.parGs] 2 [0x0f, 0xa8],
    { Opcode.entry "PUSHA" [] [] 2 [0x66, 0x60] with invalidin64bit := true },
    { Opcode.entry "PUSHAD" [] [] 1 [0x60] with invalidin64bit := true },
    { Opcode.entry "PUSHALL" [] [] 1 [0x60] with invalidin64bit := true },
    .alone "PUSHF" 2 [0x66, 0x9c],
    { Opcode.entry "PUSHFD" [] [] 1 [0x9c] with invalidin64bit := true },
    { Opcode.entry "PUSHFQ" [] [] 1 [0x9c] with invalidin32bit := true }],
   mmxXmm [("PXOR", 0xef)]]

def opcodesR : List Opcode := List.flatten
  [[.entry "RCL" [.eoReg2] [.parRm8, .par1] 1 [0xd0],
    .entry "RCL" [.eoReg2] [.parRm8, .parCl] 1 [0xd2],
    .entry "RCL" [.eoReg2, .eoIb] [.parRm8, .parImm8] 1 [0xc0],
    .entry "RCL" [.eoReg2] [.parRm16, .par1] 2 [0x66, 0xd1],
    .entry "RCL" [.eoReg2] [.parRm16, .parCl] 2 [0x66, 0xd3],
    .entry "RCL" [.eoReg2, .eoIb] [.parRm16, .parImm8] 2 [0x66, 0xc1],
    .entry "RCL" [.eoReg2] [.parRm32, .par1] 1 [0xd1],
    .entry "RCL" [.eoReg2] [.parRm32, .parCl] 1 [0xd3],
    .entry "RCL" [.eoReg2, .eoIb] [.parRm32, .parImm8] 1 [0xc1],
    .reg "RCPSS" .parXmm .parXmmM32 3 [0xf3, 0x0f, 0x53],
    .reg "RCPPS" .parXmm .parXmmM128 2 [0x0f, 0x53]],
   rotate [("RCR", .eoReg3)],
   [.alone "RDMSR" 2 [0x0f, 0x32],
    .alone "RDPMC" 2 [0x0f, 0x33],
    .alone "RDTSC" 2 [0x0f, 0x31],
    .alone "RET" 1 [0xc3],
    .alone "RET" 1 [0xcb],
    .entry "RET" [.eoIw] [.parImm16] 1 [0xc2],
    .alone "RETN" 1 [0xc3],
    .entry "RETN" [.eoIw] [.parImm16] 1 [0xc2]],
   rotate [("ROL", .eoReg0), ("ROR", .eoReg1)],
   [.alone "RSM" 2 [0x0f, 0xaa],
    .reg "RSQRTPS" .parXmm .parXmmM128 2 [0x0f, 0x52],
    .reg "RSQRTSS" .parXmm .parXmmM32 3 [0xf3, 0x0f, 0x52]]]

def opcodesS : List Opcode := List.flatten
  [[.alone "SAHF" 1 [0x9e]],
   rotate [("SAL", .eoReg4), ("SAR", .eoReg7)],
   [.entry "SBB" [.eoIb] [.parAl, .parImm8] 1 [0x1c],
    .entry "SBB" [.eoIw] [.parAx, .parImm16] 2 [0x66, 0x1d],
    .entry "SBB" [.eoId] [.parEax, .parImm32] 1 [0x1d],
    .entry "SBB" [.eoReg3, .eoIb] [.parRm8, .parImm8] 1 [0x80],
    .entry "SBB" [.eoReg3, .eoIw] [.parRm16, .parImm16] 2 [0x66, 0x80],
    .entry "SBB" [.eoReg3, .eoId] [.parRm32, .parImm32] 1 [0x81],
    { Opcode.entry "SBB" [.eoReg3, .eoIb] [.parRm16, .parImm8] 2 [0x66, 0x83]
      with signed := true },
    { Opcode.entry "SBB" [.eoReg3, .eoIb] [.parRm32, .parImm8] 1 [0x83] with
      signed := true },
    .reg "SBB" .parRm8 .parR8 1 [0x18],
    .reg "SBB" .parRm16 .parR16 2 [0x66, 0x19],
    .reg "SBB" .parRm32 .parR32 1 [0x19],
    .reg "SBB" .parR8 .parRm8 1 [0x1a],
    .reg "SBB" .parR16 .parRm16 2 [0x66, 0x1b],
    .reg "SBB" .parR32 .parRm32 1 [0x1b],
    .alone "SCASB" 1 [0xae],
    .alone "SCASD" 1 [0xaf],
    .alone "SCASW" 2 [0x66, 0xaf]],
   setOn [("SETA", 0x97), ("SETAE", 0x93), ("SETB", 0x92), ("SETBE", 0x96),
     ("SETC", 0x92), ("SETE", 0x94), ("SETG", 0x9f), ("SETGE", 0x9d),
     ("SETL", 0x9c), ("SETLE", 0x9e), ("SETNA", 0x96), ("SETNAE", 0x92),
     ("SETNB", 0x93), ("SETNBE", 0x97), ("SETNC", 0x93), ("SETNE", 0x95),
     ("SETNG", 0x9e), ("SETNGE", 0x9c), ("SETNL", 0x9d), ("SETNLE", 0x9f),
     ("SETNO", 0x91), ("SETNP", 0x9b), ("SETNS", 0x99), ("SETNZ", 0x95),
     ("SETO", 0x90), ("SETP", 0x9a), ("SETPE", 0x9a), ("SETPO", 0x9b),
     ("SETS", 0x98), ("SETZ", 0x94)],
   [.alone "SFENCE" 3 [0x0f, 0xae, 0xf8],
    .entry "SGDT" [.eoReg0] [.parM32] 2 [0x0f, 0x01],
    .entry "SHL" [.eoReg4] [.parRm32] 1 [0xd1],
    .entry "SHL" [.eoReg4] [.parRm32, .par1] 1 [0xd1],
    .entry "SHL" [.eoReg4] [.parRm16, .par1] 2 [0x66, 0xd1],
    .entry "SHL" [.eoReg4] [.parRm8, .par1] 1 [0xd0],
    .entry "SHL" [.eoReg4] [.parRm8, .parCl] 1 [0xd2],
    .entry "SHL" [.eoReg4, .eoIb] [.parRm8, .parImm8] 1 [0xc0],
    .entry "SHL" [.eoReg4] [.parRm16, .parCl] 2 [0x66, 0xd3],
    .entry "SHL" [.eoReg4, .eoIb] [.parRm16, .parImm8] 2 [0x66, 0xc1],
    .entry "SHL" [.eoReg4] [.parRm32, .parCl] 1 [0xd3],
    .entry "SHL" [.eoReg4, .eoIb] [.parRm32, .parImm8] 1 [0xc1],
    .entry "SHLD" [.eoReg, .eoIb] [.parRm16, .parR16, .parImm8] 3 [0x66, 0x0f,
      0xa4],
    .entry "SHLD" [.eoReg] [.parRm16, .parR16, .parCl] 3 [0x66, 0x0f, 0xa5],
    .entry "SHLD" [.eoReg, .eoIb] [.parRm32, .parR32, .parImm8] 2 [0x0f, 0xa4],
    .entry "SHLD" [.eoReg] [.parRm32, .parR32, .parCl] 2 [0x0f, 0xa5],
    .entry "SHR" [.eoReg5] [.parRm8, .par1] 1 [0xd0],
    .entry "SHR" [.eoReg5] [.parRm8, .parCl] 1 [0xd2],
    .entry "SHR" [.eoReg5, .eoIb] [.parRm8, .parImm8] 1 [0xc0],
    .entry "SHR" [.eoReg5] [.parRm16, .par1] 2 [0x66, 0xd1],
    .entry "SHR" [.eoReg5] [.parRm16, .parCl] 2 [0x66, 0xd3],
    .entry "SHR" [.eoReg5, .eoIb] [.parRm16, .parImm8] 2 [0x66, 0xc1],
    .entry "SHR" [.eoReg5] [.parRm32] 1 [0xd1],
    .entry "SHR" [.eoReg5] [.parRm32, .par1] 1 [0xd1],
    .entry "SHR" [.eoReg5] [.parRm32, .parCl] 1 [0xd3],
    .entry "SHR" [.eoReg5, .eoIb] [.parRm32, .parImm8] 1 [0xc1],
    .entry "SHRD" [.eoReg, .eoIb] [.parRm32, .parR32, .parImm8] 2 [0x0f, 0xac],
    .entry "SHRD" [.eoReg] [.parRm32, .parR32, .parCl] 2 [0x0f, 0xad],
    .entry "SHUFPD" [.eoReg, .eoIb] [.parXmm, .parXmmM128, .parImm8] 3 [0x66,
      0x0f, 0xc6],
    .entry "SHUFPS" [.eoReg, .eoIb] [.parXmm, .parXmmM128, .parImm8] 2 [0x0f,
      0xc6],
    .entry "SIDT" [.eoReg1] [.parM32] 2 [0x0f, 0x01],
    .entry "SLDT" [.eoReg0] [.parRm16] 2 [0x0f],
    .entry "SMSW" [.eoReg4] [.parRm16] 2 [0x0f, 0x01],
    .reg "SQRTPD" .parXmm .parXmmM128 3 [0x66, 0x0f, 0x51],
    .reg "SQRTPS" .parXmm .parXmmM128 2 [0x0f, 0x51],
    .reg "SQRTSD" .parXmm .parXmmM64 3 [0xf2, 0x0f, 0x51],
    .reg "SQRTSS" .parXmm .parXmmM32 3 [0xf3, 0x0f, 0x51],
    .alone "STC" 1 [0xf9],
    .alone "STD" 1 [0xfd],
    .alone "STI" 1 [0xfb],
    .entry "STMXCSR" [.eoReg3] [.parM32] 2 [0x0f, 0xae],
    .alone "STOSB" 1 [0xaa],
    .alone "STOSD" 1 [0xab],
    .alone "STOSW" 2 [0x66, 0xab],
    .entry "STR" [.eoReg1] [.parRm16] 2 [0x0f]],
   arithmetic [("SUB", .eoReg5, 0x28)],
   [.reg "SUBPD" .parXmm .parXmmM128 3 [0x66, 0x0f, 0x5c],
    .reg "SUBPS" .parXmm .parXmmM128 2 [0x0f, 0x5c],
    .reg "SUBSD" .parXmm .parXmmM64 3 [0xf2, 0x0f, 0x5c],
    .reg "SUBSS" .parXmm .parXmmM32 3 [0xf3, 0x0f, 0x5c],
    .alone "SWAPGS" 3 [0x0f, 0x01, 0xf8],
    .alone "SYSCALL" 2 [0x0f, 0x05],
    .alone "SYSENTER" 2 [0x0f, 0x34],
    .alone "SYSEXIT" 2 [0x0f, 0x35]]]

def opcodesT : List Opcode :=
  [.entry "TEST" [.eoIb] [.parAl, .parImm8] 1 [0xa8],
   .entry "TEST" [.eoIw] [.parAx, .parImm16] 2 [0x66, 0xa9],
   .entry "TEST" [.eoId] [.parEax, .parImm32] 1 [0xa9],
   .entry "TEST" [.eoReg0, .eoIb] [.parRm8, .parImm8] 1 [0xf6],
   .entry "TEST" [.eoReg0, .eoIw] [.parRm16, .parImm16] 2 [0x66, 0xf7],
   .entry "TEST" [.eoReg0, .eoId] [.parRm32, .parImm32] 1 [0xf7],
   .reg "TEST" .parRm8 .parR8 1 [0x84],
   .reg "TEST" .parRm16 .parR16 2 [0x66, 0x85],
   .reg "TEST" .parRm32 .parR32 1 [0x85]]

def opcodesU : List Opcode :=
  [.reg "UCOMISD" .parXmm .parXmmM64 3 [0x66, 0x0f, 0x2e],
   .reg "UCOMISS" .parXmm .parXmmM32 2 [0x0f, 0x2e],
   .alone "UD2" 2 [0x0f, 0x0b],
   .reg "UNPCKHPD" .parXmm .parXmmM128 3 [0x66, 0x0f, 0x15],
   .reg "UNPCKHPS" .parXmm .parXmmM128 2 [0x0f, 0x15],
   .reg "UNPCKLPD" .parXmm .parXmmM128 3 [0x66, 0x0f, 0x14],
   .reg "UNPCKLPS" .parXmm .parXmmM128 2 [0x0f, 0x14]]

def opcodesV : List Opcode :=
  [.entry "VERR" [.eoReg4] [.parRm16] 2 [0x0f],
   .entry "VERW" [.eoReg5] [.parRm16] 2 [0x0f],
   .alone "VMCALL" 3 [0x0f, 0x01, 0xc1],
   .entry "VMCLEAR" [.eoReg6] [.parM64] 3 [0x66, 0x0f, 0xc7],
   .alone "VMLAUNCH" 3 [0x0f, 0x01, 0xc2],
   .entry "VMPTRLD" [.eoReg6] [.parM64] 2 [0x0f, 0xc7],
   .entry "VMPTRST" [.eoReg7] [.parM64] 2 [0x0f, 0xc7],
   .reg "VMREAD" .parRm32 .parR32 2 [0x0f, 0x78],
   .alone "VMRESUME" 3 [0x0f, 0x01, 0xc3],
   .reg "VMWRITE" .parR32 .parRm32 2 [0x0f, 0x79],
   .alone "VMXOFF" 3 [0x0f, 0x01, 0xc4],
   .entry "VMXON" [.eoReg6] [.parM64] 3 [0xf3, 0x0f, 0xc7]]

def opcodesW : List Opcode :=
  [.alone "WAIT" 1 [0x9b],
   .alone "WBINVD" 2 [0x0f, 0x09],
   .alone "WRMSR" 2 [0x0f, 0x30]]

def opcodesX : List Opcode :=
  [.reg "XADD" .parRm8 .parR8 2 [0x0f, 0xc0],
   .reg "XADD" .parRm16 .parR16 3 [0x66, 0x0f, 0xc1],
   .reg "XADD" .parRm32 .parR32 2 [0x0f, 0xc1],
   .entry "XCHG" [.eoPrd] [.parEax, .parR32] 1 [0x90],
   .entry "XCHG" [.eoPrw] [.parAx, .parR16] 2 [0x66, 0x90],
   .entry "XCHG" [.eoPrw] [.parR16, .parAx] 2 [0x66, 0x90],
   .entry "XCHG" [.eoPrd] [.parR32, .parEax] 1 [0x90],
   .reg "XCHG" .parRm8 .parR8 1 [0x86],
   .reg "XCHG" .parR8 .parRm8 1 [0x86],
   .reg "XCHG" .parRm16 .parR16 2 [0x66, 0x87],
   .reg "XCHG" .parR16 .parRm16 2 [0x66, 0x87],
   .reg "XCHG" .parRm32 .parR32 1 [0x87],
   .reg "XCHG" .parR32 .parRm32 1 [0x87],
   .alone "XLATB" 1 [0xd7],
   .entry "XOR" [.eoIb] [.parAl, .parImm8] 1 [0x34],
   .entry "XOR" [.eoIw] [.parAx, .parImm16] 2 [0x66, 0x35],
   .entry "XOR" [.eoId] [.parEax, .parImm32] 1 [0x35],
   .entry "XOR" [.eoReg6, .eoIb] [.parRm8, .parImm8] 1 [0x80],
   .entry "XOR" [.eoReg6, .eoId] [.parRm32, .parImm32] 1 [0x81],
   .entry "XOR" [.eoReg6, .eoIw] [.parRm16, .parImm16] 2 [0x66, 0x81],
   { Opcode.entry "XOR" [.eoReg6, .eoIb] [.parRm16, .parImm8] 2 [0x66, 0x83]
     with signed := true },
   { Opcode.entry "XOR" [.eoReg6, .eoIb] [.parRm32, .parImm8] 1 [0x83] with
     signed := true },
   .reg "XOR" .parRm8 .parR8 1 [0x30],
   .reg "XOR" .parRm16 .parR16 2 [0x66, 0x31],
   .reg "XOR" .parRm32 .parR32 1 [0x31],
   .reg "XOR" .parR8 .parRm8 1 [0x32],
   .reg "XOR" .parR16 .parRm16 2 [0x66, 0x33],
   .reg "XOR" .parR32 .parRm32 1 [0x33],
   .reg "XORPD" .parXmm .parXmmM128 3 [0x66, 0x0f, 0x57],
   .reg "XORPS" .parXmm .parXmmM128 2 [0x0f, 0x57],
   .noRexw "XRSTOR" [.eoReg5] [.parM32] 2 [0x0f, 0xae],
   .noRexw "XRSTOR64" [.eoReg5] [.parM64] 3 [0x48, 0x0f, 0xae],
   .noRexw "XSAVE" [.eoReg4] [.parM32] 2 [0x0f, 0xae],
   .noRexw "XSAVE64" [.eoReg4] [.parM64] 3 [0x48, 0x0f, 0xae]]

end CheatEngine.Assembler
