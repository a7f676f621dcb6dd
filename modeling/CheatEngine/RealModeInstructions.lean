import CheatEngine.RealModeGuest

/-!
# The instructions of the real-mode emulator

Every handler, and the call that emulates one instruction.  When an
instruction is not handled, the guest is what it was.
-/

namespace CheatEngine
namespace RealMode

open X86Addressing

/-! ## The source -/

/-- What a handler returns, and `id->size` as the caller finds it: 0 is
handled, 2 is handled with the instruction pointer changed. -/
structure Outcome where
  result : ℤ
  guest : Guest
  size : ℕ

def handled (guest : Guest) (id : InstructionData) : Option Outcome :=
  some ⟨0, guest, id.size⟩

def jumped (guest : Guest) (id : InstructionData) : Option Outcome :=
  some ⟨2, guest, id.size⟩

def unhandled (guest : Guest) (id : InstructionData) : Option Outcome :=
  some ⟨1, guest, id.size⟩

def ofSetVM (changed : ℤ × Guest) (id : InstructionData) : Option Outcome :=
  some ⟨changed.1, changed.2, id.size⟩

def flagIF : UInt64 := 0x200
def flagDF : UInt64 := 0x400

def clearFlags (flags mask : UInt64) : UInt64 :=
  flags &&& ~~~mask

/-- The stack is written where its base lies in the physical memory. -/
def writeLow (memory : ℕ → UInt8) (address : UInt64) (value : UInt16) :
    ℕ → UInt8 :=
  Function.update (Function.update memory address.toNat value.toUInt8)
    (address + 1).toNat (value >>> 8).toUInt8

/-- IF, TF, AC and RF are cleared, and a ULONG holds the flags. -/
def emulateRMinterrupt (guest : Guest) (intnr : ℕ) : Guest :=
  let vector := guest.idtBase.toNat + 4 * intnr
  let stack := guest.base ss + (guest.rsp - 6).toUInt16.toUInt64
  let memory := writeLow guest.memory stack guest.rip.toUInt16
  let memory := writeLow memory (stack + 2) (guest.selector cs)
  let memory := writeLow memory (stack + 4) guest.rflags.toUInt16
  let newcs := wordAt guest.memory (vector + 2)
  { guest with
    memory
    rsp := (guest.rsp - 6).toUInt16.toUInt64
    rip := (wordAt guest.memory vector).toUInt64
    segment := Function.update guest.segment cs
      { guest.segment cs with
        selector := newcs
        base := newcs.toUInt32 <<< 4 }
    rflags := (clearFlags guest.rflags 0x50300).toUInt32.toUInt64 }

def setSegment (guest : Guest) (segmentnr : ℕ) (value : UInt16) : Guest :=
  { guest with
    segment := Function.update guest.segment segmentnr
      ⟨value, value.toUInt32 <<< 4, 0xffff, 0xf3⟩
    interruptabilityState :=
      if segmentnr = 2 then guest.interruptabilityState ||| 2
      else guest.interruptabilityState }

/-- SP is a word, the rest of RSP stays. -/
def moveStack (guest : Guest) (change : UInt64) : Guest :=
  { guest with
    rsp := (guest.rsp &&& 0xffffffffffff0000) +
      (guest.rsp + change).toUInt16.toUInt64 }

/-- `count` is odd when the value is, and then it is the number of turns. -/
def getparityflag (value : UInt8) : Bool :=
  let count := if value % 2 = 1 then value.toNat.log2 + 1 else 0
  count % 2 = 0

section

variable (monitor : Monitor) (guest : Guest) (id : InstructionData)

def opcodeCALLE8 : Option Outcome :=
  if id.opperandsize then unhandled guest id
  else do
    let stack := mapVMmemory monitor guest
      (guest.base ss + (guest.rsp &&& 0xffff) - 2) 2
    let offset := id.word
    let id := id.skip 2
    let guest ← guest.writeWord stack.place 0
      (guest.rip + UInt64.ofNat id.size).toUInt16
    let newip := guest.rip.toUInt16 + UInt16.ofNat id.size + offset
    jumped { guest with
      rsp := (guest.rsp &&& 0xffff0000) +
        (guest.rsp - 2).toUInt16.toUInt64
      rip := newip.toUInt64 } { id with size := 0 }

/-- Without an interrupt `hlt` does nothing. -/
def emulateHLT : Guest :=
  if guest.rflags &&& flagIF = 0 then guest
  else
    match monitor.lastInterrupt with
    | none => guest
    | some intnr => emulateRMinterrupt guest intnr

def opcodeHLTF4 : Option Outcome :=
  jumped (emulateHLT monitor { guest with
    rip := guest.rip + 1
    interruptabilityState := 0 }) { id with size := 0 }

def opcodeINTCD : Option Outcome :=
  if id.size = 1 then
    jumped (emulateRMinterrupt
      { guest with rip := guest.rip + UInt64.ofNat id.size + 1 }
      id.byte.toNat) id
  else unhandled guest id

def opcodeJMPE9 : Option Outcome :=
  if id.opperandsize then unhandled guest id
  else
    let offset := id.word
    let id := id.skip 2
    let newip := guest.rip.toUInt16 + UInt16.ofNat id.size + offset
    jumped { guest with rip := newip.toUInt64 } { id with size := 0 }

/-- The new code segment is read behind two bytes for both sizes of the
offset. -/
def opcodeJMPEA : Option Outcome :=
  let neweip := if id.opperandsize then id.dword else id.word.toUInt32
  let newcodesegment := wordAt id.instruction (id.size + 2)
  jumped { guest with
    rip := neweip.toUInt64
    segment := Function.update guest.segment cs
      { guest.segment cs with
        selector := newcodesegment
        base := newcodesegment.toUInt32 <<< 4
        limit := 0xffff } } { id with size := 0 }

def opcodeJMPEB : Option Outcome :=
  let offset := id.byte
  let id := id.skip 1
  let newip := guest.rip.toUInt16 + UInt16.ofNat id.size +
    (charValue offset).toUInt16
  jumped { guest with rip := newip.toUInt64 } { id with size := 0 }

/-- The limit and the base behind the operand of `LGDT` and `LIDT`. -/
def readTable (id : InstructionData) : Option (UInt16 × UInt64) := do
  let window := mapVMmemory monitor guest id.address 16
  let limit ← guest.readWord window.place 0
  let base ← guest.readDword window.place 2
  return (limit,
    (if id.opperandsize then base else base &&& 0x00ffffff).toUInt64)

def opcodeLGDT : Option Outcome :=
  let id := handleMODRM guest id
  if id.error then unhandled guest id
  else do
    let (limit, base) ← readTable monitor guest id
    handled { guest with gdtBase := base, gdtLimit := limit } id

def opcodeLIDT : Option Outcome :=
  let id := handleMODRM guest id
  if id.error then unhandled guest id
  else do
    let (limit, base) ← readTable monitor guest id
    handled { guest with idtBase := base, idtLimit := limit } id

def opcodeLMSW : Option Outcome :=
  let id := handleMODRM guest id
  if id.error then unhandled guest id
  else
    match id.opperand2 with
    | none =>
      let window := mapVMmemory monitor guest id.address 16
      if window.error ≠ 0 then unhandled guest id
      else do
        let value ← guest.readWord window.place 0
        ofSetVM (monitor.setVMCR0 guest
          ((guest.cr0Fakeread &&& 0xffff0000) ||| value.toUInt64)) id
    | some number =>
      ofSetVM (monitor.setVMCR0 guest
        ((guest.cr0Fakeread &&& 0xffff0000) |||
          (guest.register number &&& 0xffff))) id

/-- Register 5 is EBX here. -/
def opcodeMOV0F20 : Option Outcome :=
  let id := handleMODRM guest id
  if id.error then unhandled guest id
  else
    match id.opperand2 with
    | none => unhandled guest id
    | some number =>
      let number := if number = 5 then 3 else number
      match id.opperand with
      | 0 => handled (guest.setRegister guest.cr0Fakeread number) id
      | 3 => handled (guest.setRegister guest.guestCR3 number) id
      | 4 => handled (guest.setRegister guest.cr4Fakeread number) id
      | _ => unhandled guest id

def opcodeMOV0F22 : Option Outcome :=
  let id := handleMODRM guest id
  if id.error then unhandled guest id
  else
    match id.opperand2 with
    | none => unhandled guest id
    | some number =>
      let value := guest.register number
      match id.opperand with
      | 0 => ofSetVM (monitor.setVMCR0 guest value) id
      | 3 => ofSetVM (monitor.setVMCR3 guest value) id
      | 4 => ofSetVM (monitor.setVMCR4 guest value) id
      | _ => unhandled guest id

/-- The word in a register or at the address; the error of the mapping is not
looked at. -/
def sourceWord (id : InstructionData) : Option UInt16 :=
  match id.opperand2 with
  | none =>
    guest.readWord (mapVMmemory monitor guest id.address 2).place 0
  | some number => some (guest.register number).toUInt16

def opcodeMOV8B : Option Outcome :=
  let id := handleMODRM guest id
  if id.error then unhandled guest id
  else if id.opperandsize then unhandled guest id
  else do
    let value ← sourceWord monitor guest id
    handled (guest.setWord id.opperand value) id

def opcodeMOV8E : Option Outcome :=
  let id := handleMODRM guest id
  if id.error then unhandled guest id
  else if id.opperand = 1 then jumped (emulateRMinterrupt guest 6) id
  else do
    let value ← sourceWord monitor guest id
    handled (setSegment guest id.opperand value) id

/-- An `int` as it is added to a `UINT64`. -/
def intValue (value : Int32) : UInt64 :=
  UInt64.ofInt value.toInt

def opcodeMOVSA5 : Option Outcome :=
  let moves : Int32 := if id.rep then guest.rcx.toUInt32.toInt32 else 1
  let bytespermove : Int32 := if id.opperandsize then 4 else 2
  let size := bytespermove * moves
  let move := intValue bytespermove
  if id.addresssize then
    let destination := (mapVMmemory monitor guest guest.rdi size.toInt).place
    let source := (mapVMmemory monitor guest guest.rsi size.toInt).place
    if guest.rdi < monitor.vmmstart then
      if guest.rflags &&& flagDF = 0 then do
        let guest ← Guest.copymem destination source 0 size.toInt.toNat guest
        handled { guest with
          rdi := guest.rdi + intValue size
          rsi := guest.rsi + intValue size
          rcx := 0 } id
      else do
        let guest ←
          Guest.copymem destination source 0 bytespermove.toInt.toNat guest
        let guest := { guest with
          rsi := guest.rsi - move
          rdi := guest.rdi - move }
        if id.rep then
          let guest := { guest with rcx := guest.rcx - 1 }
          if guest.rcx ≠ 0 then handled guest { id with size := 0 }
          else handled guest id
        else handled guest id
    else
      handled { guest with
        rsi := guest.rsi + guest.rcx * move
        rdi := guest.rdi + guest.rcx * move
        rcx := 0 } id
  else unhandled guest id

def lowByte (value : UInt64) (byte : UInt8) : UInt64 :=
  (value &&& 0xffffffffffffff00) + byte.toUInt64

def highByte (value : UInt64) (byte : UInt8) : UInt64 :=
  (value &&& (0xffffffffffff00ff : UInt64)) + byte.toUInt64 * 0x100

/-- `mov bh` writes to RDX here. -/
def opcodeMOVB0toB7 (offset : ℕ) : Option Outcome :=
  if id.lock then jumped (emulateRMinterrupt guest 6) id
  else
    let byte := id.byte
    let guest := match offset with
      | 0 => { guest with rax := lowByte guest.rax byte }
      | 1 => { guest with rcx := lowByte guest.rcx byte }
      | 2 => { guest with rdx := lowByte guest.rdx byte }
      | 3 => { guest with rbx := lowByte guest.rbx byte }
      | 4 => { guest with rax := highByte guest.rax byte }
      | 5 => { guest with rcx := highByte guest.rcx byte }
      | 6 => { guest with rdx := highByte guest.rdx byte }
      | _ => { guest with rdx := highByte guest.rbx byte }
    handled guest (id.skip 1)

def opcodeMOVB8toBF (offset : ℕ) : Option Outcome :=
  if id.lock then jumped (emulateRMinterrupt guest 6) id
  else if id.opperandsize then
    handled (guest.setDword offset id.dword) (id.skip 4)
  else handled (guest.setWord offset id.word) (id.skip 2)

/-- `mov ah` does not move the byte up here. -/
def opcodeMOVC6 : Option Outcome :=
  let id := handleMODRM guest id
  let byte := id.byte
  if id.error then unhandled guest id
  else
    match id.opperand2 with
    | none =>
      let window := mapVMmemory monitor guest id.address 16
      if window.error ≠ 0 then unhandled guest id
      else do
        let guest ← guest.writeByte window.place 0 byte
        handled guest (id.skip 1)
    | some number =>
      let guest := match number with
        | 0 => { guest with rax := lowByte guest.rax byte }
        | 1 => { guest with rcx := lowByte guest.rcx byte }
        | 2 => { guest with rdx := lowByte guest.rdx byte }
        | 3 => { guest with rbx := lowByte guest.rbx byte }
        | 4 => { guest with
            rax := (guest.rax &&& 0xffffffffffff00ff) + byte.toUInt64 }
        | 5 => { guest with rcx := highByte guest.rcx byte }
        | 6 => { guest with rdx := highByte guest.rdx byte }
        | _ => { guest with rbx := highByte guest.rbx byte }
      handled guest (id.skip 1)

def opcodeMOVC7 : Option Outcome :=
  let id := handleMODRM guest id
  if id.error then unhandled guest id
  else
    match id.opperand2 with
    | none =>
      let window := mapVMmemory monitor guest id.address 16
      if window.error ≠ 0 then unhandled guest id
      else if id.opperandsize then do
        let guest ← guest.writeDword window.place 0 id.dword
        handled guest (id.skip 4)
      else do
        let guest ← guest.writeWord window.place 0 id.word
        handled guest (id.skip 2)
    | some number =>
      if id.opperandsize then
        handled (guest.setDword number id.dword) (id.skip 4)
      else handled (guest.setWord number id.word) (id.skip 2)

def opcodePOP58to5F (offset : ℕ) : Option Outcome :=
  let address := guest.base ss + (guest.rsp &&& 0xffff)
  if id.opperandsize then do
    let value ← guest.readDword (mapVMmemory monitor guest address 4).place 0
    handled (moveStack (guest.setDword offset value) 4) id
  else do
    let value ← guest.readWord (mapVMmemory monitor guest address 2).place 0
    handled (moveStack (guest.setWord offset value) 2) id

def opcodePOPSegment (segment : ℕ) : Option Outcome := do
  let value ← guest.readWord
    (mapVMmemory monitor guest (guest.base ss + guest.rsp) 2).place 0
  let change : UInt64 := if id.opperandsize then 4 else 2
  handled (setSegment
    { guest with rsp := (guest.rsp + change).toUInt16.toUInt64 } segment
    value) id

def opcodePUSH50to57 (offset : ℕ) : Option Outcome :=
  if id.opperandsize then do
    let guest := moveStack guest (-4)
    let stack := mapVMmemory monitor guest
      (guest.base ss + (guest.rsp &&& 0xffff)) 4
    let value := (guest.register offset).toUInt32 +
      if offset = 4 then 4 else 0
    let guest ← guest.writeDword stack.place 0 value
    handled guest id
  else do
    let guest := moveStack guest (-2)
    let stack := mapVMmemory monitor guest
      (guest.base ss + (guest.rsp &&& 0xffff)) 2
    let value := (guest.register offset).toUInt16 +
      if offset = 4 then 2 else 0
    let guest ← guest.writeWord stack.place 0 value
    handled guest id

def pushedStack (size : UInt64) : UInt16 :=
  (guest.rsp - size).toUInt16

def stackWindow (sp : UInt16) : ℕ → Option ℕ :=
  (mapVMmemory monitor guest (guest.base ss + sp.toUInt64) 2).place

def pushWord (value : UInt16) (id : InstructionData) : Option Outcome := do
  let sp := pushedStack guest 2
  let guest ← guest.writeWord (stackWindow monitor guest sp) 0 value
  handled { guest with rsp := sp.toUInt64 } id

def pushDword (value : UInt32) (id : InstructionData) : Option Outcome := do
  let sp := pushedStack guest 4
  let guest ← guest.writeDword (stackWindow monitor guest sp) 0 value
  handled { guest with rsp := sp.toUInt64 } id

def opcodePUSHSegment (segment : ℕ) : Option Outcome :=
  if id.opperandsize then
    pushDword monitor guest (guest.selector segment).toUInt32 id
  else pushWord monitor guest (guest.selector segment) id

def opcodePUSH68 : Option Outcome :=
  if id.opperandsize then pushDword monitor guest id.dword (id.skip 4)
  else pushWord monitor guest id.word (id.skip 2)

def opcodeRETC3 : Option Outcome :=
  if id.opperandsize then unhandled guest id
  else do
    let sp := guest.rsp.toUInt16
    let retaddress ← guest.readWord (stackWindow monitor guest sp) 0
    let sp := sp + 2
    let guest := { guest with rsp := sp.toUInt64 }
    if sp ≤ 1 then jumped (emulateRMinterrupt guest 12) id
    else
      let retaddress := (guest.base cs).toUInt16 + retaddress
      jumped { guest with rip := retaddress.toUInt64 } id

def opcodeCLI : Option Outcome :=
  handled { guest with rflags := clearFlags guest.rflags flagIF } id

def opcodeSTI : Option Outcome :=
  handled { guest with
    rflags := guest.rflags ||| flagIF
    interruptabilityState :=
      if guest.rflags &&& flagIF = 0 then guest.interruptabilityState ||| 1
      else guest.interruptabilityState } id

def opcodeCLD : Option Outcome :=
  handled { guest with rflags := clearFlags guest.rflags flagDF } id

/-- OF, CF and SF are cleared, ZF and PF are those of the result. -/
def applyFlags (guest : Guest) (result : UInt32) : Guest :=
  let flags := clearFlags guest.rflags 0x8c5
  let zf : UInt64 := if result = 0 then 0x40 else 0
  let pf : UInt64 := if getparityflag result.toUInt8 then 4 else 0
  { guest with rflags := flags ||| zf ||| pf }

def opcodeXOR31 : Option Outcome :=
  let id := handleMODRM guest id
  if id.error then unhandled guest id
  else
    let opperandvalue := (guest.register id.opperand).toUInt32
    match id.opperand2 with
    | none =>
      let window := mapVMmemory monitor guest id.address 16
      if window.error ≠ 0 then unhandled guest id
      else if id.opperandsize then do
        let value ← guest.readDword window.place 0
        let result := value ^^^ opperandvalue
        let guest ← guest.writeDword window.place 0 result
        handled (applyFlags guest result) id
      else do
        let value ← guest.readWord window.place 0
        let result := value ^^^ opperandvalue.toUInt16
        let guest ← guest.writeWord window.place 0 result
        handled (applyFlags guest result.toUInt32) id
    | some number =>
      if id.opperandsize then
        let result := (guest.register number).toUInt32 ^^^ opperandvalue
        handled (applyFlags (guest.setDword number result) result) id
      else
        let result := (guest.register number).toUInt16 ^^^
          opperandvalue.toUInt16
        handled (applyFlags (guest.setWord number result)
          result.toUInt32) id

def extendedOpcode (byte : UInt8) : Option Outcome :=
  if byte = 0x01 then
    match middleField id.byte with
    | 2 => opcodeLGDT monitor guest id
    | 3 => opcodeLIDT monitor guest id
    | 6 => opcodeLMSW monitor guest id
    | _ => unhandled guest id
  else if byte = 0x09 then handled guest id
  else if byte = 0x20 then opcodeMOV0F20 guest id
  else if byte = 0x22 then opcodeMOV0F22 monitor guest id
  else if byte = 0xa0 then opcodePUSHSegment monitor guest id 4
  else if byte = 0xa1 then opcodePOPSegment monitor guest id 4
  else if byte = 0xa8 then opcodePUSHSegment monitor guest id 5
  else if byte = 0xa9 then opcodePOPSegment monitor guest id 5
  else unhandled guest id

def opcodeRegister (byte : UInt8) : ℕ :=
  lowField byte

/-- `switch (buf[i])` -/
def dispatch (byte : UInt8) : Option Outcome :=
  if byte = 0x0f then extendedOpcode monitor guest (id.skip 1) id.byte
  else if byte = 0x06 then opcodePUSHSegment monitor guest id 0
  else if byte = 0x07 then opcodePOPSegment monitor guest id 0
  else if byte = 0x0e then opcodePUSHSegment monitor guest id 1
  else if byte = 0x16 then opcodePUSHSegment monitor guest id 2
  else if byte = 0x17 then opcodePOPSegment monitor guest id 2
  else if byte = 0x1e then opcodePUSHSegment monitor guest id 3
  else if byte = 0x1f then opcodePOPSegment monitor guest id 3
  else if byte = 0x31 then opcodeXOR31 monitor guest id
  else if 0x50 ≤ byte ∧ byte ≤ 0x57 then
    opcodePUSH50to57 monitor guest id (opcodeRegister byte)
  else if 0x58 ≤ byte ∧ byte ≤ 0x5f then
    opcodePOP58to5F monitor guest id (opcodeRegister byte)
  else if byte = 0x68 then opcodePUSH68 monitor guest id
  else if byte = 0x8b then opcodeMOV8B monitor guest id
  else if byte = 0x8e then opcodeMOV8E monitor guest id
  else if byte = 0x90 then handled guest id
  else if byte = 0xa5 then opcodeMOVSA5 monitor guest id
  else if 0xb0 ≤ byte ∧ byte ≤ 0xb7 then
    opcodeMOVB0toB7 guest id (opcodeRegister byte)
  else if 0xb8 ≤ byte ∧ byte ≤ 0xbf then
    opcodeMOVB8toBF guest id (opcodeRegister byte)
  else if byte = 0xc3 then opcodeRETC3 monitor guest id
  else if byte = 0xc6 then
    if middleField id.byte = 0 then opcodeMOVC6 monitor guest id
    else unhandled guest id
  else if byte = 0xc7 then
    if middleField id.byte = 0 then opcodeMOVC7 monitor guest id
    else unhandled guest id
  else if byte = 0xcd then opcodeINTCD guest id
  else if byte = 0xe8 then opcodeCALLE8 monitor guest id
  else if byte = 0xe9 then opcodeJMPE9 guest id
  else if byte = 0xea then opcodeJMPEA guest id
  else if byte = 0xeb then opcodeJMPEB guest id
  else if byte = 0xf4 then opcodeHLTF4 monitor guest id
  else if byte = 0xfa then opcodeCLI guest id
  else if byte = 0xfb then opcodeSTI guest id
  else if byte = 0xfc then opcodeCLD guest id
  else unhandled guest id

end

def emulateRMinstruction2 (monitor : Monitor) (guest : Guest) :
    Option Outcome :=
  match monitor.readVMMemory guest (guest.base cs + guest.rip) with
  | none => some ⟨1, guest, 0⟩
  | some buf =>
    let id := decodePrefixes guest buf
    dispatch monitor guest (id.skip 1) id.byte

/-- If the instruction was handled, and the guest afterwards. -/
def emulateRMinstruction (monitor : Monitor) (guest : Guest) :
    Option (Bool × Guest) := do
  let outcome ← emulateRMinstruction2 monitor guest
  let after := outcome.guest
  let after := if outcome.result = 0 then
    { after with rip := after.rip + UInt64.ofNat outcome.size } else after
  if outcome.result = 0 ∨ outcome.result = 2 then
    return (true, { after with
      interruptabilityState :=
        ~~~(guest.interruptabilityState &&& 3) &&&
          after.interruptabilityState })
  else return (false, after)

/-! ## Instructions that are not handled -/

/-- A call that fails leaves the guest as it is. -/
structure FailsCleanly (monitor : Monitor) : Prop where
  setVMCR0 : ∀ guest value, (monitor.setVMCR0 guest value).1 ≠ 0 →
    (monitor.setVMCR0 guest value).2 = guest
  setVMCR3 : ∀ guest value, (monitor.setVMCR3 guest value).1 ≠ 0 →
    (monitor.setVMCR3 guest value).2 = guest
  setVMCR4 : ∀ guest value, (monitor.setVMCR4 guest value).1 ≠ 0 →
    (monitor.setVMCR4 guest value).2 = guest

def Keeps (guest : Guest) (outcome : Option Outcome) : Prop :=
  ∀ after ∈ outcome, after.result ≠ 0 → after.result ≠ 2 →
    after.guest = guest

section

variable {guest changed : Guest} {id : InstructionData}

theorem keeps_handled : Keeps guest (handled changed id) := by
  rintro after ⟨⟩ hresult
  exact absurd rfl hresult

theorem keeps_jumped : Keeps guest (jumped changed id) := by
  rintro after ⟨⟩ _ hresult
  exact absurd rfl hresult

theorem keeps_unhandled : Keeps guest (unhandled guest id) := by
  rintro after ⟨⟩ _ _
  rfl

theorem keeps_ofSetVM {answer : ℤ × Guest}
    (hclean : answer.1 ≠ 0 → answer.2 = guest) :
    Keeps guest (ofSetVM answer id) := by
  rintro after ⟨⟩ hresult _
  exact hclean hresult

/-- What is read or written first does not fail. -/
theorem keeps_bind {α : Type} {first : Option α}
    {next : α → Option Outcome} (hnext : ∀ a, Keeps guest (next a)) :
    Keeps guest (first >>= next) := by
  intro after hafter
  obtain ⟨a, _, hrest⟩ := Option.bind_eq_some_iff.mp hafter
  exact hnext a after hrest

theorem keeps_ite {condition : Prop} [Decidable condition]
    {first second : Option Outcome} (hfirst : Keeps guest first)
    (hsecond : Keeps guest second) :
    Keeps guest (if condition then first else second) := by
  split
  · exact hfirst
  · exact hsecond

end

section

variable {monitor : Monitor} {guest : Guest} {id : InstructionData}

theorem opcodeCALLE8_keeps : Keeps guest (opcodeCALLE8 monitor guest id) :=
  keeps_ite keeps_unhandled (keeps_bind fun _ => keeps_jumped)

theorem opcodeINTCD_keeps : Keeps guest (opcodeINTCD guest id) :=
  keeps_ite keeps_jumped keeps_unhandled

theorem opcodeJMPE9_keeps : Keeps guest (opcodeJMPE9 guest id) :=
  keeps_ite keeps_unhandled keeps_jumped

theorem opcodeLGDT_keeps : Keeps guest (opcodeLGDT monitor guest id) :=
  keeps_ite keeps_unhandled (keeps_bind fun _ => keeps_handled)

theorem opcodeLIDT_keeps : Keeps guest (opcodeLIDT monitor guest id) :=
  keeps_ite keeps_unhandled (keeps_bind fun _ => keeps_handled)

theorem opcodeLMSW_keeps (hclean : FailsCleanly monitor) :
    Keeps guest (opcodeLMSW monitor guest id) := by
  refine keeps_ite keeps_unhandled ?_
  split
  · exact keeps_ite keeps_unhandled
      (keeps_bind fun _ => keeps_ofSetVM (hclean.setVMCR0 guest _))
  · exact keeps_ofSetVM (hclean.setVMCR0 guest _)

theorem opcodeMOV0F20_keeps : Keeps guest (opcodeMOV0F20 guest id) := by
  refine keeps_ite keeps_unhandled ?_
  split
  · exact keeps_unhandled
  · dsimp only
    split
    · exact keeps_handled
    · exact keeps_handled
    · exact keeps_handled
    · exact keeps_unhandled

theorem opcodeMOV0F22_keeps (hclean : FailsCleanly monitor) :
    Keeps guest (opcodeMOV0F22 monitor guest id) := by
  refine keeps_ite keeps_unhandled ?_
  split
  · exact keeps_unhandled
  · dsimp only
    split
    · exact keeps_ofSetVM (hclean.setVMCR0 guest _)
    · exact keeps_ofSetVM (hclean.setVMCR3 guest _)
    · exact keeps_ofSetVM (hclean.setVMCR4 guest _)
    · exact keeps_unhandled

theorem opcodeMOV8B_keeps : Keeps guest (opcodeMOV8B monitor guest id) :=
  keeps_ite keeps_unhandled (keeps_ite keeps_unhandled
    (keeps_bind fun _ => keeps_handled))

theorem opcodeMOV8E_keeps : Keeps guest (opcodeMOV8E monitor guest id) :=
  keeps_ite keeps_unhandled (keeps_ite keeps_jumped
    (keeps_bind fun _ => keeps_handled))

theorem opcodeMOVSA5_keeps : Keeps guest (opcodeMOVSA5 monitor guest id) :=
  keeps_ite
    (keeps_ite
      (keeps_ite (keeps_bind fun _ => keeps_handled)
        (keeps_bind fun _ => keeps_ite
          (keeps_ite keeps_handled keeps_handled) keeps_handled))
      keeps_handled)
    keeps_unhandled

variable {offset : ℕ}

theorem opcodeMOVB0toB7_keeps :
    Keeps guest (opcodeMOVB0toB7 guest id offset) :=
  keeps_ite keeps_jumped keeps_handled

theorem opcodeMOVB8toBF_keeps :
    Keeps guest (opcodeMOVB8toBF guest id offset) :=
  keeps_ite keeps_jumped (keeps_ite keeps_handled keeps_handled)

theorem opcodeMOVC6_keeps : Keeps guest (opcodeMOVC6 monitor guest id) := by
  refine keeps_ite keeps_unhandled ?_
  split
  · exact keeps_ite keeps_unhandled (keeps_bind fun _ => keeps_handled)
  · exact keeps_handled

theorem opcodeMOVC7_keeps : Keeps guest (opcodeMOVC7 monitor guest id) := by
  refine keeps_ite keeps_unhandled ?_
  split
  · exact keeps_ite keeps_unhandled
      (keeps_ite (keeps_bind fun _ => keeps_handled)
        (keeps_bind fun _ => keeps_handled))
  · exact keeps_ite keeps_handled keeps_handled

theorem opcodePOP58to5F_keeps :
    Keeps guest (opcodePOP58to5F monitor guest id offset) :=
  keeps_ite (keeps_bind fun _ => keeps_handled)
    (keeps_bind fun _ => keeps_handled)

theorem opcodePOPSegment_keeps {segment : ℕ} :
    Keeps guest (opcodePOPSegment monitor guest id segment) :=
  keeps_bind fun _ => keeps_handled

theorem opcodePUSH50to57_keeps :
    Keeps guest (opcodePUSH50to57 monitor guest id offset) :=
  keeps_ite (keeps_bind fun _ => keeps_handled)
    (keeps_bind fun _ => keeps_handled)

theorem opcodePUSHSegment_keeps {segment : ℕ} :
    Keeps guest (opcodePUSHSegment monitor guest id segment) :=
  keeps_ite (keeps_bind fun _ => keeps_handled)
    (keeps_bind fun _ => keeps_handled)

theorem opcodePUSH68_keeps : Keeps guest (opcodePUSH68 monitor guest id) :=
  keeps_ite (keeps_bind fun _ => keeps_handled)
    (keeps_bind fun _ => keeps_handled)

theorem opcodeRETC3_keeps : Keeps guest (opcodeRETC3 monitor guest id) :=
  keeps_ite keeps_unhandled
    (keeps_bind fun _ => keeps_ite keeps_jumped keeps_jumped)

theorem opcodeXOR31_keeps : Keeps guest (opcodeXOR31 monitor guest id) := by
  refine keeps_ite keeps_unhandled ?_
  dsimp only
  split
  · exact keeps_ite keeps_unhandled
      (keeps_ite
        (keeps_bind fun _ => keeps_bind fun _ => keeps_handled)
        (keeps_bind fun _ => keeps_bind fun _ => keeps_handled))
  · exact keeps_ite keeps_handled keeps_handled

theorem extendedOpcode_keeps (hclean : FailsCleanly monitor) (byte : UInt8) :
    Keeps guest (extendedOpcode monitor guest id byte) := by
  rw [extendedOpcode]
  refine keeps_ite ?_ ?_
  · split
    · exact opcodeLGDT_keeps
    · exact opcodeLIDT_keeps
    · exact opcodeLMSW_keeps hclean
    · exact keeps_unhandled
  · exact keeps_ite keeps_handled <|
      keeps_ite opcodeMOV0F20_keeps <|
      keeps_ite (opcodeMOV0F22_keeps hclean) <|
      keeps_ite opcodePUSHSegment_keeps <|
      keeps_ite opcodePOPSegment_keeps <|
      keeps_ite opcodePUSHSegment_keeps <|
      keeps_ite opcodePOPSegment_keeps keeps_unhandled

theorem dispatch_keeps (hclean : FailsCleanly monitor) (byte : UInt8) :
    Keeps guest (dispatch monitor guest id byte) :=
  keeps_ite (extendedOpcode_keeps hclean id.byte) <|
  keeps_ite opcodePUSHSegment_keeps <|
  keeps_ite opcodePOPSegment_keeps <|
  keeps_ite opcodePUSHSegment_keeps <|
  keeps_ite opcodePUSHSegment_keeps <|
  keeps_ite opcodePOPSegment_keeps <|
  keeps_ite opcodePUSHSegment_keeps <|
  keeps_ite opcodePOPSegment_keeps <|
  keeps_ite opcodeXOR31_keeps <|
  keeps_ite opcodePUSH50to57_keeps <|
  keeps_ite opcodePOP58to5F_keeps <|
  keeps_ite opcodePUSH68_keeps <|
  keeps_ite opcodeMOV8B_keeps <|
  keeps_ite opcodeMOV8E_keeps <|
  keeps_ite keeps_handled <|
  keeps_ite opcodeMOVSA5_keeps <|
  keeps_ite opcodeMOVB0toB7_keeps <|
  keeps_ite opcodeMOVB8toBF_keeps <|
  keeps_ite opcodeRETC3_keeps <|
  keeps_ite (keeps_ite opcodeMOVC6_keeps keeps_unhandled) <|
  keeps_ite (keeps_ite opcodeMOVC7_keeps keeps_unhandled) <|
  keeps_ite opcodeINTCD_keeps <|
  keeps_ite opcodeCALLE8_keeps <|
  keeps_ite opcodeJMPE9_keeps <|
  keeps_ite keeps_jumped <|
  keeps_ite keeps_jumped <|
  keeps_ite keeps_jumped <|
  keeps_ite keeps_handled <|
  keeps_ite keeps_handled <|
  keeps_ite keeps_handled keeps_unhandled

end

theorem emulateRMinstruction2_keeps {monitor : Monitor}
    (hclean : FailsCleanly monitor) (guest : Guest) :
    Keeps guest (emulateRMinstruction2 monitor guest) := by
  rw [emulateRMinstruction2]
  split
  · rintro after ⟨⟩ _ _
    rfl
  · exact dispatch_keeps hclean _

/-- An instruction that is not handled leaves the guest as it was. -/
theorem unhandled_unchanged {monitor : Monitor}
    (hclean : FailsCleanly monitor) {guest after : Guest}
    (hrun : emulateRMinstruction monitor guest = some (false, after)) :
    after = guest := by
  rw [emulateRMinstruction] at hrun
  obtain ⟨outcome, houtcome, hrest⟩ := Option.bind_eq_some_iff.mp hrun
  dsimp only at hrest
  split at hrest
  case isTrue => cases hrest
  case isFalse hresult =>
    obtain ⟨hzero, htwo⟩ := not_or.mp hresult
    rw [if_neg hzero] at hrest
    obtain ⟨_, hguest⟩ := Prod.mk.inj (Option.some.inj hrest)
    rw [← hguest]
    exact emulateRMinstruction2_keeps hclean guest outcome houtcome hzero htwo

/-- Without paging, with the bytes at CS:IP, and with no answer to a change
of a control register. -/
def flatMonitor (bytes : ℕ → UInt8) : Monitor where
  getPhysicalAddressVM := fun _ address => some address
  readVMMemory := fun _ _ => some bytes
  setVMCR0 := fun guest _ => (1, guest)
  setVMCR3 := fun guest _ => (1, guest)
  setVMCR4 := fun guest _ => (1, guest)
  lastInterrupt := none
  vmmstart := 0x400000

theorem unhandled_unchanged_index :
    ∃ after, emulateRMinstruction
        (flatMonitor fun offset => [0x67, 0x31, 4, 0x38].getD offset 0)
        (startGuest 0) = some (false, after) ∧ after = startGuest 0 :=
  ⟨startGuest 0, rfl, @unhandled_unchanged
    (flatMonitor fun offset => [0x67, 0x31, 4, 0x38].getD offset 0)
    ⟨fun _ _ _ => rfl, fun _ _ _ => rfl, fun _ _ _ => rfl⟩ _ _ rfl⟩

end RealMode
end CheatEngine
