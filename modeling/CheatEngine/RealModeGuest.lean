import CheatEngine.BitField
import CheatEngine.X86Addressing

/-!
# The guest of the real-mode emulator

The state of a guest as far as the emulated instructions read and write it,
and the windows through which they reach its memory.
-/

namespace CheatEngine
namespace RealMode

open X86Addressing

/-- Outside of 64-bit mode a base has 32 bits. -/
structure SegmentRegister where
  selector : UInt16
  base : UInt32
  limit : UInt32
  accessRights : UInt32

/-- `VMRegisters`, the fields of the VMCS, `RealMode` of the `cpuinfo`, and
the physical memory.  The segments are ES, CS, SS, DS, FS, GS, LDTR, TR. -/
structure Guest where
  rax : UInt64
  rcx : UInt64
  rdx : UInt64
  rbx : UInt64
  rbp : UInt64
  rsi : UInt64
  rdi : UInt64
  rsp : UInt64
  rip : UInt64
  rflags : UInt64
  interruptabilityState : UInt32
  segment : ℕ → SegmentRegister
  cr0Fakeread : UInt64
  cr4Fakeread : UInt64
  guestCR3 : UInt64
  gdtBase : UInt64
  gdtLimit : UInt16
  idtBase : UInt64
  idtLimit : UInt16
  memory : ℕ → UInt8

def es : ℕ := 0
def cs : ℕ := 1
def ss : ℕ := 2
def ds : ℕ := 3
def fs : ℕ := 4
def gs : ℕ := 5

namespace Guest

def base (guest : Guest) (segmentnr : ℕ) : UInt64 :=
  (guest.segment segmentnr).base.toUInt64

def selector (guest : Guest) (segmentnr : ℕ) : UInt16 :=
  (guest.segment segmentnr).selector

def register (guest : Guest) : ℕ → UInt64
  | 0 => guest.rax
  | 1 => guest.rcx
  | 2 => guest.rdx
  | 3 => guest.rbx
  | 4 => guest.rsp
  | 5 => guest.rbp
  | 6 => guest.rsi
  | _ => guest.rdi

def setRegister (guest : Guest) (value : UInt64) : ℕ → Guest
  | 0 => { guest with rax := value }
  | 1 => { guest with rcx := value }
  | 2 => { guest with rdx := value }
  | 3 => { guest with rbx := value }
  | 4 => { guest with rsp := value }
  | 5 => { guest with rbp := value }
  | 6 => { guest with rsi := value }
  | _ => { guest with rdi := value }

/-- `(r & 0xffffffffffff0000ULL) + value` -/
def setWord (guest : Guest) (number : ℕ) (value : UInt16) : Guest :=
  guest.setRegister
    ((guest.register number &&& 0xffffffffffff0000) + value.toUInt64) number

def setDword (guest : Guest) (number : ℕ) (value : UInt32) : Guest :=
  guest.setRegister
    ((guest.register number &&& 0xffffffff00000000) + value.toUInt64) number

end Guest

/-- A guest in real mode with the selector in CS. -/
def startGuest (selector : UInt16) : Guest where
  rax := 0
  rcx := 0
  rdx := 0
  rbx := 0
  rbp := 0
  rsi := 0
  rdi := 0
  rsp := 0x1000
  rip := 0x100
  rflags := 2
  interruptabilityState := 0
  segment := fun segmentnr =>
    if segmentnr = cs then ⟨selector, selector.toUInt32 <<< 4, 0xffff, 0x9b⟩
    else ⟨0, 0, 0xffff, 0x93⟩
  cr0Fakeread := 0x10
  cr4Fakeread := 0
  guestCR3 := 0
  gdtBase := 0
  gdtLimit := 0
  idtBase := 0
  idtLimit := 0x3ff
  memory := fun _ => 0

def wordAt (bytes : ℕ → UInt8) (offset : ℕ) : UInt16 :=
  UInt16.ofNat
    ((bytes offset).toNat + (bytes (offset + 1)).toNat * 2 ^ 8)

def dwordAt (bytes : ℕ → UInt8) (offset : ℕ) : UInt32 :=
  UInt32.ofNat (X86Addressing.dword bytes offset)

/-- What the handlers use of the virtual machine monitor.  `readVMMemory`
gives the buffer of 30 bytes, with what lies behind it on the stack, unless
nothing can be read. -/
structure Monitor where
  getPhysicalAddressVM : Guest → UInt64 → Option UInt64
  readVMMemory : Guest → UInt64 → Option (ℕ → UInt8)
  setVMCR0 : Guest → UInt64 → ℤ × Guest
  setVMCR3 : Guest → UInt64 → ℤ × Guest
  setVMCR4 : Guest → UInt64 → ℤ × Guest
  lastInterrupt : Option ℕ
  vmmstart : UInt64

/-- A pointer that `mapVMmemory` returns: where the byte at an offset is in
the physical memory, if a page is mapped there. -/
structure Window where
  error : ℕ
  place : ℕ → Option ℕ

def mapPages (physical : UInt64 → Option UInt64) (lastaddress : UInt64) :
    ℕ → UInt64 → ℕ × List UInt64
  | 0, _ => (0, [])
  | pages + 1, currentaddress =>
    if currentaddress < lastaddress then
      match physical currentaddress with
      | none => (2, [])
      | some page =>
        let rest := mapPages physical lastaddress pages
          (currentaddress + 4096)
        (rest.1, (page &&& 0xfffffffffffff000) :: rest.2)
    else (0, [])

/-- With the space for the page table.  The pages at NULL are those of the
physical memory. -/
def mapVMmemory (monitor : Monitor) (guest : Guest) (address : UInt64)
    (size : ℤ) : Window :=
  if 0x200000 ≤ size then ⟨3, some⟩
  else
    let mapped := mapPages (monitor.getPhysicalAddressVM guest)
      (address + UInt64.ofInt size) 513 (address &&& 0xfffffffffffff000)
    ⟨mapped.1, fun offset =>
      mapped.2[(address.toNat % 4096 + offset) / 4096]?.map fun page =>
        page.toNat + (address.toNat % 4096 + offset) % 4096⟩

namespace Guest

/-- The access to a page that is not mapped does not return. -/
def readByte (guest : Guest) (place : ℕ → Option ℕ) (offset : ℕ) :
    Option UInt8 :=
  (place offset).map guest.memory

def writeByte (guest : Guest) (place : ℕ → Option ℕ) (offset : ℕ)
    (value : UInt8) : Option Guest :=
  (place offset).map fun address =>
    { guest with memory := Function.update guest.memory address value }

def readWord (guest : Guest) (place : ℕ → Option ℕ) (offset : ℕ) :
    Option UInt16 := do
  let low ← guest.readByte place offset
  let high ← guest.readByte place (offset + 1)
  return UInt16.ofNat (low.toNat + high.toNat * 2 ^ 8)

def readDword (guest : Guest) (place : ℕ → Option ℕ) (offset : ℕ) :
    Option UInt32 := do
  let low ← guest.readWord place offset
  let high ← guest.readWord place (offset + 2)
  return UInt32.ofNat (low.toNat + high.toNat * 2 ^ 16)

def writeWord (guest : Guest) (place : ℕ → Option ℕ) (offset : ℕ)
    (value : UInt16) : Option Guest := do
  let guest ← guest.writeByte place offset value.toUInt8
  guest.writeByte place (offset + 1) (value >>> 8).toUInt8

def writeDword (guest : Guest) (place : ℕ → Option ℕ) (offset : ℕ)
    (value : UInt32) : Option Guest := do
  let guest ← guest.writeWord place offset value.toUInt16
  guest.writeWord place (offset + 2) (value >>> 16).toUInt16

/-- `copymem`, a byte after the other. -/
def copymem (destination source : ℕ → Option ℕ) (offset : ℕ) :
    ℕ → Guest → Option Guest
  | 0, guest => some guest
  | size + 1, guest => do
      let value ← guest.readByte source offset
      let guest ← guest.writeByte destination offset value
      copymem destination source (offset + 1) size guest

end Guest

/-- `INSTRUCTIONDATA`; `opperand2` is none for -1. -/
structure InstructionData where
  error : Bool
  opperandsize : Bool
  addresssize : Bool
  rep : Bool
  repne : Bool
  segmentbase : UInt64
  address : UInt64
  lock : Bool
  instruction : ℕ → UInt8
  opperand : ℕ
  opperand2 : Option ℕ
  size : ℕ

namespace InstructionData

def byte (id : InstructionData) : UInt8 :=
  id.instruction id.size

def word (id : InstructionData) : UInt16 :=
  wordAt id.instruction id.size

def dword (id : InstructionData) : UInt32 :=
  dwordAt id.instruction id.size

def skip (id : InstructionData) (count : ℕ) : InstructionData :=
  { id with size := id.size + count }

def setAddress (id : InstructionData) (address : UInt64) : InstructionData :=
  { id with address }

def setSegmentbase (id : InstructionData) (segmentbase : UInt64) :
    InstructionData :=
  { id with segmentbase }

def setOpperand (id : InstructionData) (opperand : ℕ) : InstructionData :=
  { id with opperand }

end InstructionData

/-! ## Prefixes -/

/-- One prefix; none where the byte is no prefix. -/
def applyPrefix (guest : Guest) (byte : UInt8) (id : InstructionData) :
    Option InstructionData :=
  if byte = 0x26 then some { id with segmentbase := guest.base es }
  else if byte = 0x2e then some { id with segmentbase := guest.base cs }
  else if byte = 0x36 then some { id with segmentbase := guest.base ss }
  else if byte = 0x3e then some { id with segmentbase := guest.base ds }
  else if byte = 0x64 then some { id with segmentbase := guest.base fs }
  else if byte = 0x65 then some { id with segmentbase := guest.base gs }
  else if byte = 0x66 then some { id with opperandsize := true }
  else if byte = 0x67 then some { id with addresssize := true }
  else if byte = 0xf0 then some { id with lock := true }
  else if byte = 0xf2 then some { id with repne := true }
  else if byte = 0xf3 then some { id with rep := true }
  else none

/-- `while (i<30)`; the size is `i`. -/
def skipPrefixes (guest : Guest) : ℕ → InstructionData → InstructionData
  | 0, id => id
  | left + 1, id =>
    match applyPrefix guest id.byte id with
    | some next => skipPrefixes guest left (next.skip 1)
    | none => id

def blank (guest : Guest) (buf : ℕ → UInt8) : InstructionData :=
  { error := false, opperandsize := false, addresssize := false
    rep := false, repne := false, segmentbase := guest.base ds
    address := 0, lock := false, instruction := buf, opperand := 0
    opperand2 := none, size := 0 }

def decodePrefixes (guest : Guest) (buf : ℕ → UInt8) : InstructionData :=
  skipPrefixes guest 30 (blank guest buf)

def segmentOf (byte : UInt8) : Option ℕ :=
  if byte = 0x26 then some es
  else if byte = 0x2e then some cs
  else if byte = 0x36 then some ss
  else if byte = 0x3e then some ds
  else if byte = 0x64 then some fs
  else if byte = 0x65 then some gs
  else none

/-- The last selection among the first bytes. -/
def segmentOverride (buf : ℕ → UInt8) : ℕ → Option ℕ
  | 0 => none
  | count + 1 => (segmentOf (buf count)).or (segmentOverride buf count)

section

variable {guest : Guest} {buf : ℕ → UInt8} {byte : UInt8}

structure Prefixed (guest : Guest) (byte : UInt8)
    (id next : InstructionData) : Prop where
  size : next.size = id.size
  error : next.error = id.error
  instruction : next.instruction = id.instruction
  segmentbase : next.segmentbase =
    (segmentOf byte).elim id.segmentbase guest.base

/-- What holds of the one choice and of every other one. -/
theorem forall_mem_ite {P : InstructionData → Prop} {condition : Prop}
    [Decidable condition] {first : InstructionData}
    {rest : Option InstructionData} (hfirst : condition → P first)
    (hrest : ∀ next ∈ rest, P next) :
    ∀ next ∈ (if condition then some first else rest), P next := by
  split
  case isTrue hcondition =>
    rintro next ⟨⟩
    exact hfirst hcondition
  case isFalse => exact hrest

theorem applyPrefix_prefixed (guest : Guest) (byte : UInt8)
    (id : InstructionData) :
    ∀ next ∈ applyPrefix guest byte id, Prefixed guest byte id next := by
  unfold applyPrefix
  repeat refine forall_mem_ite (by rintro rfl; exact ⟨rfl, rfl, rfl, rfl⟩) ?_
  intro next hnext
  cases hnext

theorem skipPrefixes_spec (guest : Guest) (left : ℕ) (id : InstructionData) :
    id.size ≤ (skipPrefixes guest left id).size ∧
      (skipPrefixes guest left id).size ≤ id.size + left ∧
      (skipPrefixes guest left id).error = id.error ∧
      ((skipPrefixes guest left id).size = id.size →
        skipPrefixes guest left id = id) := by
  induction left generalizing id with
  | zero => exact ⟨le_rfl, le_rfl, rfl, fun _ => rfl⟩
  | succ left ih =>
    rw [skipPrefixes]
    split
    case h_1 next happly =>
      have happlied := applyPrefix_prefixed guest id.byte id next happly
      obtain ⟨hlow, hhigh, hkeeps, _⟩ := ih (next.skip 1)
      have hskip : (next.skip 1).size = id.size + 1 :=
        congrArg (· + 1) happlied.size
      refine ⟨by omega, by omega, hkeeps.trans happlied.error, fun hsame => ?_⟩
      omega
    case h_2 => exact ⟨le_rfl, by omega, rfl, fun _ => rfl⟩

structure Selected (guest : Guest) (buf : ℕ → UInt8)
    (id : InstructionData) : Prop where
  instruction : id.instruction = buf
  segmentbase : id.segmentbase =
    guest.base ((segmentOverride buf id.size).getD ds)

theorem Selected.skipPrefixes {id : InstructionData}
    (hselected : Selected guest buf id) (left : ℕ) :
    Selected guest buf (skipPrefixes guest left id) := by
  induction left generalizing id with
  | zero => exact hselected
  | succ left ih =>
    rw [RealMode.skipPrefixes]
    split
    case h_1 next happly =>
      have happlied := applyPrefix_prefixed guest id.byte id next happly
      have hbyte : id.byte = buf id.size := by
        rw [InstructionData.byte, hselected.instruction]
      refine ih ⟨happlied.instruction.trans hselected.instruction, ?_⟩
      have hskip : (next.skip 1).size = id.size + 1 :=
        congrArg (· + 1) happlied.size
      rw [hskip, segmentOverride, ← hbyte]
      refine happlied.segmentbase.trans ?_
      rw [hselected.segmentbase]
      cases segmentOf id.byte with
      | none => rfl
      | some segmentnr => rfl
    case h_2 => exact hselected

theorem decodePrefixes_error : (decodePrefixes guest buf).error = false :=
  (skipPrefixes_spec guest 30 (blank guest buf)).2.2.1

theorem decodePrefixes_selected :
    Selected guest buf (decodePrefixes guest buf) := by
  have hblank : Selected guest buf (blank guest buf) := ⟨rfl, rfl⟩
  exact hblank.skipPrefixes 30

end

/-! ## Memory operands -/

def registers16 (guest : Guest) : ℕ → UInt64
  | 0 => guest.rbx + guest.rsi
  | 1 => guest.rbx + guest.rdi
  | 2 => guest.rbp + guest.rsi
  | 3 => guest.rbp + guest.rdi
  | 4 => guest.rsi
  | 5 => guest.rdi
  | 6 => guest.rbp
  | _ => guest.rbx

/-- A `char` as it is added to a `UINT64`. -/
def charValue (byte : UInt8) : UInt64 :=
  if byte < 0x80 then byte.toUInt64 else byte.toUInt64 - 0x100

def shortValue (word : UInt16) : UInt64 :=
  if word < 0x8000 then word.toUInt64 else word.toUInt64 - 0x10000

@[grind =]
def getSIBBase (guest : Guest) (id : InstructionData) (mod sibBase : ℕ) :
    InstructionData × UInt32 :=
  match sibBase with
  | 5 =>
    match mod with
    | 0 => ((id.skip 4).setAddress id.dword.toUInt64, id.dword)
    | _ => (id.setAddress (guest.rbp &&& 0xffffffff), guest.rbp.toUInt32)
  | number => (id, (guest.register number).toUInt32)

/-- The index registers of `handleSIB`; 5 and 6 are ESI and EDI there. -/
def sibIndexRegister (guest : Guest) : ℕ → UInt64
  | 0 => guest.rax
  | 1 => guest.rcx
  | 2 => guest.rdx
  | 3 => guest.rbx
  | 5 => guest.rsi
  | _ => guest.rdi

def handleSIB (guest : Guest) (id : InstructionData) (mod : ℕ) :
    InstructionData × UInt32 :=
  let sib := id.byte
  let base := getSIBBase guest (id.skip 1) mod (lowField sib)
  match middleField sib with
  | 4 => base
  | 7 => ({ base.1 with error := true }, 0)
  | index =>
    (base.1, (sibIndexRegister guest index *
      UInt64.ofNat (2 ^ highField sib)).toUInt32 + base.2)

/-- `handleMODRM` but for its result, which no handler looks at. -/
def handleMODRM (guest : Guest) (start : InstructionData) :
    InstructionData :=
  let modrm := start.byte
  let rm := lowField modrm
  let id := (start.skip 1).setOpperand (middleField modrm)
  match id.addresssize, highField modrm with
  | false, 0 =>
    if rm = 6 then
      (id.skip 2).setAddress (id.segmentbase + id.word.toUInt64)
    else
      let segmentbase :=
        if rm = 2 ∨ rm = 3 then guest.base ss else id.segmentbase
      (id.setSegmentbase segmentbase).setAddress
        (segmentbase + (registers16 guest rm &&& 0xffff))
  | false, 1 =>
    let segmentbase :=
      if rm = 2 ∨ rm = 3 then guest.base ss else id.segmentbase
    ((id.skip 1).setSegmentbase segmentbase).setAddress
      (segmentbase + ((registers16 guest rm + charValue id.byte) &&& 0xffff))
  | false, 2 =>
    let segmentbase := if rm = 6 then guest.base ss else id.segmentbase
    ((id.skip 2).setSegmentbase segmentbase).setAddress
      ((segmentbase + (registers16 guest rm + shortValue id.word)) &&&
        0xffff)
  | true, 0 =>
    if rm = 4 then
      let sib := handleSIB guest id 0
      sib.1.setAddress sib.2.toUInt64
    else if rm = 5 then
      (id.skip 4).setAddress (id.segmentbase + id.dword.toUInt64)
    else
      id.setAddress
        (id.segmentbase + (guest.register rm &&& 0xffffffff))
  | true, 1 =>
    if rm = 4 then
      let sib := handleSIB guest id 1
      (sib.1.skip 1).setAddress (sib.2.toUInt64 +
        charValue (sib.1.instruction (sib.1.size - 1)))
    else
      let place := if rm = 0 then id.size else id.size - 1
      (id.skip 1).setAddress
        (id.segmentbase + (guest.register rm &&& 0xffffffff) +
          charValue (id.instruction place))
  | true, 2 =>
    if rm = 4 then
      let sib := handleSIB guest id 2
      (sib.1.skip 1).setAddress (sib.2.toUInt64 +
        (dwordAt sib.1.instruction (sib.1.size - 1)).toUInt64)
    else
      let place := if rm = 0 then id.size else id.size - 1
      (id.skip 1).setAddress
        (id.segmentbase + (guest.register rm &&& 0xffffffff) +
          (dwordAt id.instruction place).toUInt64)
  | _, _ => { id with opperand2 := some rm }

/-- The index that is not supported. -/
def IndexRejected (start : InstructionData) : Prop :=
  start.addresssize = true ∧ highField start.byte < 3 ∧
    lowField start.byte = 4 ∧
    middleField (start.instruction (start.size + 1)) = 7

section

variable {guest : Guest} {id start : InstructionData}

theorem skip_error (id : InstructionData) (count : ℕ) :
    (id.skip count).error = id.error :=
  rfl

theorem skip_opperand (id : InstructionData) (count : ℕ) :
    (id.skip count).opperand = id.opperand :=
  rfl

theorem setAddress_error (id : InstructionData) (address : UInt64) :
    (id.setAddress address).error = id.error :=
  rfl

theorem setAddress_opperand (id : InstructionData) (address : UInt64) :
    (id.setAddress address).opperand = id.opperand :=
  rfl

theorem setSegmentbase_error (id : InstructionData) (segmentbase : UInt64) :
    (id.setSegmentbase segmentbase).error = id.error :=
  rfl

theorem setOpperand_error (id : InstructionData) (opperand : ℕ) :
    (id.setOpperand opperand).error = id.error :=
  rfl

theorem getSIBBase_other (guest : Guest) (id : InstructionData) (mod : ℕ)
    {number : ℕ} (hnumber : number ≠ 5) :
    getSIBBase guest id mod number =
      (id, (guest.register number).toUInt32) := by
  rw [getSIBBase]
  exact hnumber

theorem getSIBBase_rbp {mod : ℕ} (hmod : mod ≠ 0) :
    getSIBBase guest id mod 5 =
      (id.setAddress (guest.rbp &&& 0xffffffff), guest.rbp.toUInt32) := by
  rw [getSIBBase]
  exact hmod

theorem getSIBBase_displacement (guest : Guest) (id : InstructionData) :
    getSIBBase guest id 0 5 =
      ((id.skip 4).setAddress id.dword.toUInt64, id.dword) := by
  rw [getSIBBase]

/-- The base changes the place and the address only. -/
theorem getSIBBase_frame (guest : Guest) (id : InstructionData)
    (mod sibBase : ℕ) :
    (getSIBBase guest id mod sibBase).1.error = id.error ∧
      (getSIBBase guest id mod sibBase).1.opperand = id.opperand := by
  by_cases hfive : sibBase = 5
  · subst hfive
    by_cases hmod : mod = 0
    · subst hmod
      rw [getSIBBase_displacement, setAddress_error, setAddress_opperand,
        skip_error, skip_opperand]
      exact ⟨rfl, rfl⟩
    · rw [getSIBBase_rbp hmod, setAddress_error, setAddress_opperand]
      exact ⟨rfl, rfl⟩
  · rw [getSIBBase_other guest id mod hfive]
    exact ⟨rfl, rfl⟩

theorem handleSIB_error_iff (hclear : id.error = false) (mod : ℕ) :
    (handleSIB guest id mod).1.error = true ↔ middleField id.byte = 7 := by
  have hbase := (getSIBBase_frame guest (id.skip 1) mod
    (lowField id.byte)).1.trans hclear
  rw [handleSIB]
  split
  case h_1 hfour =>
    rw [hbase, hfour]
    decide
  case h_2 hseven => exact iff_of_true rfl hseven
  case h_3 _ hseven =>
    rw [hbase]
    exact iff_of_false Bool.false_ne_true hseven

theorem indexRejected_iff (haddress : start.addresssize = true)
    (hmod : highField start.byte < 3) (hrm : lowField start.byte = 4) :
    middleField (start.instruction (start.size + 1)) = 7 ↔
      IndexRejected start :=
  ⟨fun hindex => ⟨haddress, hmod, hrm, hindex⟩, fun hindex => hindex.2.2.2⟩

theorem handleMODRM_error_iff (hclear : start.error = false) :
    (handleMODRM guest start).error = true ↔ IndexRejected start := by
  have hnone : ¬ IndexRejected start →
      (start.error = true ↔ IndexRejected start) := fun hrejected =>
    iff_of_false (by rw [hclear]; exact Bool.false_ne_true) hrejected
  have hother : lowField start.byte ≠ 4 →
      (start.error = true ↔ IndexRejected start) := fun hrm =>
    hnone fun hindex => hrm hindex.2.2.1
  have hsib := @handleSIB_error_iff guest
    ((start.skip 1).setOpperand (middleField start.byte)) hclear
  rw [handleMODRM]
  dsimp only
  split
  case h_1 haddress _ =>
    have hrejected : ¬ IndexRejected start := fun hindex =>
      Bool.false_ne_true (haddress.symm.trans hindex.1)
    split
    · rw [setAddress_error, skip_error, setOpperand_error, skip_error]
      exact hnone hrejected
    · rw [setAddress_error, setSegmentbase_error, setOpperand_error,
        skip_error]
      exact hnone hrejected
  case h_2 haddress _ =>
    rw [setAddress_error, setSegmentbase_error, skip_error,
      setOpperand_error, skip_error]
    exact hnone fun hindex =>
      Bool.false_ne_true (haddress.symm.trans hindex.1)
  case h_3 haddress _ =>
    rw [setAddress_error, setSegmentbase_error, skip_error,
      setOpperand_error, skip_error]
    exact hnone fun hindex =>
      Bool.false_ne_true (haddress.symm.trans hindex.1)
  case h_4 haddress hmod =>
    split
    case isTrue hrm =>
      rw [setAddress_error, hsib 0]
      exact indexRejected_iff haddress (hmod ▸ by decide) hrm
    case isFalse hrm =>
      split
      · rw [setAddress_error, skip_error, setOpperand_error, skip_error]
        exact hother hrm
      · rw [setAddress_error, setOpperand_error, skip_error]
        exact hother hrm
  case h_5 haddress hmod =>
    split
    case isTrue hrm =>
      rw [setAddress_error, skip_error, hsib 1]
      exact indexRejected_iff haddress (hmod ▸ by decide) hrm
    case isFalse hrm =>
      rw [setAddress_error, skip_error, setOpperand_error, skip_error]
      exact hother hrm
  case h_6 haddress hmod =>
    split
    case isTrue hrm =>
      rw [setAddress_error, skip_error, hsib 2]
      exact indexRejected_iff haddress (hmod ▸ by decide) hrm
    case isFalse hrm =>
      rw [setAddress_error, skip_error, setOpperand_error, skip_error]
      exact hother hrm
  case h_7 hzero hone htwo =>
    change ((start.skip 1).setOpperand (middleField start.byte)).error =
      true ↔ _
    rw [setOpperand_error, skip_error]
    refine hnone fun hindex => ?_
    have hlt := hindex.2.1
    have h0 : highField start.byte ≠ 0 := hzero hindex.1
    have h1 : highField start.byte ≠ 1 := hone hindex.1
    have h2 : highField start.byte ≠ 2 := htwo hindex.1
    omega

end

variable (value : UInt64)

theorem toNat_and_word : (value &&& 0xffff).toNat = value.toNat % 65536 := by
  have hmask : (0xffff : UInt64).toNat = 2 ^ 16 - 1 := by decide
  rw [UInt64.toNat_and, hmask, Nat.and_two_pow_sub_one_eq_mod]

end RealMode
end CheatEngine
