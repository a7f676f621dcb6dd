import CheatEngine.ByteStream
import CheatEngine.Deflate

/-!
# The symbol list of a remote file

`GetSymbolListFromFile` packs the symbols of an ELF file into a compressed
list, which `DispatchCommand` sends and `enumSymbolsFromFile` unpacks.  A read
or a write that leaves its buffer, and a list that is sent without its sizes,
raise here.
-/

namespace CheatEngine.CeserverSymbols

open ByteStream Deflate

def shtSymtab : UInt32 := 2
def shtStrtab : UInt32 := 3
def shtDynsym : UInt32 := 11
def etExec : UInt16 := 2
def shnLoreserve : ℕ := 0xff00
def shnXindex : UInt16 := 0xffff

structure ElfSymbol where
  st_name : UInt32
  st_value : UInt64
  st_size : UInt64
  st_info : UInt8
deriving DecidableEq

/-- A section header, with what `pread` of the section gives as a table of
symbols and as bytes; it is missing when `pread` returns -1. -/
structure ElfSection where
  sh_type : UInt32
  sh_link : UInt32
  symbols : Option (List ElfSymbol)
  strings : Option (List UInt8)

/-- `shstrndx` is the index of the section with the section names, zero when
there is none. -/
structure ElfFile where
  class32 : Bool
  e_type : UInt16
  sections : List ElfSection
  shstrndx : ℕ
  readable : Bool

def ElfFile.e_shnum (file : ElfFile) : ℕ :=
  if file.sections.length < shnLoreserve then file.sections.length else 0

def ElfFile.e_shstrndx (file : ElfFile) : ℕ :=
  if file.shstrndx < shnLoreserve then file.shstrndx else shnXindex.toNat

inductive SymbolFile
  | missing
  | notElf
  | elf (file : ElfFile)

/-! ## The server -/

def tempbufsize : ℕ := 64 * 1024

def outOfBounds : String := "access outside of the buffer"

/-- The variables of `ELF32` and `ELF64`.  `output` holds what is behind the
three dwords at the front. -/
structure Packing (zlib : Zlib) where
  stream : zlib.Stream
  tempbuffer : List UInt8
  output : List UInt8
  availOut : ℕ
  maxoutputsize : ℕ
  totalIn : ℕ

def startPacking (zlib : Zlib) : Packing zlib where
  stream := zlib.init
  tempbuffer := []
  output := []
  availOut := tempbufsize - 12
  maxoutputsize := tempbufsize
  totalIn := 0

section

variable {zlib : Zlib}

def Packing.afterCall (packing : Packing zlib) (call : Call zlib.Stream) :
    Packing zlib :=
  { packing with
    stream := call.stream
    output := packing.output ++ call.produced
    availOut := packing.availOut - call.produced.length
    totalIn := packing.totalIn + call.consumed }

/-- Doubles a buffer that is full; the size is an `int`. -/
def Packing.grow (packing : Packing zlib) : Except String (Packing zlib) :=
  if packing.availOut = 0 then
    if packing.maxoutputsize * 2 < 2 ^ 31 then
      .ok { packing with
            availOut := packing.maxoutputsize
            maxoutputsize := packing.maxoutputsize * 2 }
    else
      .error "int overflow"
  else
    .ok packing

/-- `while (strm.avail_in)`; a turn that does not end the loop doubles the
buffer. -/
def compressLoop :
    ℕ → List UInt8 → Packing zlib → Except String (Packing zlib)
  | 0, _, _ => .error "too many turns"
  | turns + 1, availIn, packing =>
    if availIn = [] then
      .ok packing
    else
      let call :=
        zlib.deflate false availIn packing.availOut packing.stream
      if call.status = .ok then do
        let grown ← (packing.afterCall call).grow
        compressLoop turns (availIn.drop call.consumed) grown
      else
        .error "sizes of the list are not set"

/-- The loop around `deflate` with `Z_FINISH`. -/
def finishLoop :
    ℕ → List UInt8 → Packing zlib → Except String (Packing zlib)
  | 0, _, _ => .error "too many turns"
  | turns + 1, availIn, packing =>
    let call := zlib.deflate true availIn packing.availOut packing.stream
    let called := packing.afterCall call
    match call.status with
    | .streamEnd => .ok called
    | .failed => .error "sizes of the list are not set"
    | .ok =>
      if called.availOut = 0 then do
        let grown ← called.grow
        finishLoop turns (availIn.drop call.consumed) grown
      else
        .ok called

def maxTurns : ℕ := 16

def compressTempbuffer (packing : Packing zlib) :
    Except String (Packing zlib) := do
  let packed ← compressLoop maxTurns packing.tempbuffer packing
  return { packed with tempbuffer := [] }

/-- `symbolinfo`: the size is an `int` and the length of the name a byte. -/
def symbolEntry (symbol : ElfSymbol) (name : List UInt8) : List UInt8 :=
  writeQWord symbol.st_value ++
    (writeDWord symbol.st_size.toUInt32 ++
      (writeDWord (UInt32.ofNat symbol.st_info.toNat) ++
        (writeByte (UInt8.ofNat name.length) ++ name)))

/-- The string table at an index after it was loaded; a section of another type
is not. -/
def stringTable (sections : List ElfSection) (index : ℕ) :
    Option (List UInt8) :=
  match sections[index]? with
  | none => none
  | some stringSection =>
    if stringSection.sh_type = shtStrtab then stringSection.strings else none

def symbolName (table : Option (List UInt8)) (st_name : UInt32) :
    Except String (List UInt8) :=
  match table with
  | none => .error outOfBounds
  | some strings =>
    if 0 ∈ strings.drop st_name.toNat then
      .ok ((strings.drop st_name.toNat).takeWhile (· ≠ 0))
    else
      .error outOfBounds

def makeRoom (entry : List UInt8) (packing : Packing zlib) :
    Except String (Packing zlib) :=
  if packing.tempbuffer.length + entry.length ≥ tempbufsize then
    compressTempbuffer packing
  else
    .ok packing

def appendEntry (entry : List UInt8) (packing : Packing zlib) :
    Except String (Packing zlib) :=
  if packing.tempbuffer.length + entry.length ≤ tempbufsize then
    .ok { packing with tempbuffer := packing.tempbuffer ++ entry }
  else
    .error outOfBounds

def packSymbol (table : Option (List UInt8)) (symbol : ElfSymbol)
    (packing : Packing zlib) : Except String (Packing zlib) :=
  if symbol.st_value = 0 then
    .ok packing
  else do
    let symbolname ← symbolName table symbol.st_name
    let room ← makeRoom (symbolEntry symbol symbolname) packing
    appendEntry (symbolEntry symbol symbolname) room

def packSymbols (table : Option (List UInt8)) :
    List ElfSymbol → Packing zlib → Except String (Packing zlib)
  | [], packing => .ok packing
  | symbol :: rest, packing => do
      let packed ← packSymbol table symbol packing
      packSymbols table rest packed

def ElfSection.isSymbolTable (elfSection : ElfSection) : Bool :=
  elfSection.sh_type == shtSymtab || elfSection.sh_type == shtDynsym

def scannedSymbols (symbolTable : List ElfSymbol) : List ElfSymbol :=
  symbolTable.take
    (UInt32.ofNat symbolTable.length).toInt32.toNatClampNeg

def packSection (sections : List ElfSection) (elfSection : ElfSection)
    (packing : Packing zlib) : Except String (Packing zlib) :=
  if elfSection.isSymbolTable then
    match elfSection.symbols with
    | none => .error "sizes of the list are not set"
    | some symbolTable =>
      if elfSection.sh_link.toNat < sections.length then
        packSymbols (stringTable sections elfSection.sh_link.toNat)
          (scannedSymbols symbolTable) packing
      else
        .error outOfBounds
  else
    .ok packing

def packSections (sections : List ElfSection) :
    List ElfSection → Packing zlib → Except String (Packing zlib)
  | [], packing => .ok packing
  | elfSection :: rest, packing => do
      let packed ← packSection sections elfSection packing
      packSections sections rest packed

end

def outputBuffer {zlib : Zlib} (file : ElfFile) (packing : Packing zlib) :
    List UInt8 :=
  writeDWord (if file.e_type = etExec then 1 else 0) ++
    (writeDWord (UInt32.ofNat (packing.output.length + 12)) ++
      (writeDWord (UInt32.ofNat packing.totalIn) ++ packing.output))

/-- Both functions have the same body.  Where the section headers cannot be
read, `free` gets the address of the variable instead of the buffer. -/
def elfSymbols (zlib : Zlib) (file : ElfFile) : Except String (List UInt8) :=
  if file.readable then
    let sectionHeaders := file.sections.take file.e_shnum
    if file.e_shstrndx < sectionHeaders.length then do
      let packing ←
        packSections sectionHeaders sectionHeaders (startPacking zlib)
      let finished ← finishLoop maxTurns packing.tempbuffer packing
      return outputBuffer file finished
    else
      throw outOfBounds
  else
    throw "free of a pointer that was not allocated"

def ELF32 (zlib : Zlib) (file : ElfFile) : Except String (List UInt8) :=
  elfSymbols zlib file

def ELF64 (zlib : Zlib) (file : ElfFile) : Except String (List UInt8) :=
  elfSymbols zlib file

def getSymbolListFromFile (zlib : Zlib) :
    SymbolFile → Except String (Option (List UInt8))
  | .missing => .ok none
  | .notElf => .ok none
  | .elf file => do
      let output ←
        if file.class32 then ELF32 zlib file else ELF64 zlib file
      return some output

def devPrefix : List UInt8 := [0x2f, 0x64, 0x65, 0x76, 0x2f]

/-- `DispatchCommand` behind the byte of the command.  Nothing is received for
an empty path, and the socket is closed. -/
def dispatchSymbolList (zlib : Zlib) (files : List UInt8 → SymbolFile) :
    Reader (List UInt8) := do
  let symbolpathsize ← readDWord
  if symbolpathsize = 0 then
    throw "connection closed"
  else
    let symbolpath ← readBuffer symbolpathsize.toNat
    let cpath := symbolpath.takeWhile (· ≠ 0)
    let output ←
      if devPrefix.isPrefixOf cpath then
        pure none
      else
        StateT.lift (getSymbolListFromFile zlib (files cpath))
    match output with
    | none => return writeQWord 0
    | some output =>
      return output.take
        (UInt32.ofNat (leValue ((output.drop 4).take 4))).toNat

structure SymbolEntry where
  name : List UInt8
  address : UInt64
  size : ℤ
deriving DecidableEq

def symbolListRequest (modulepath : List UInt8) : List UInt8 :=
  writeDWord (UInt32.ofNat modulepath.length) ++ modulepath

/-- One `TNetworkSymbolInfo` and the name behind it; `symname` has room for 256
bytes, so for every length that fits a byte. -/
def readSymbolInfo : Reader SymbolEntry := do
  let address ← readQWord
  let size ← readDWord
  let _type ← readDWord
  let namelength ← readByte
  let symname ← readBuffer namelength.toNat
  return { name := symname, address, size := size.toInt32.toInt }

/-- `while pos<decompressedsize`; `callback` gets the symbols with a name and
may end the loop. -/
def parseSymbols (callback : SymbolEntry → Bool) :
    ℕ → List UInt8 → Except String (List SymbolEntry)
  | 0, _ => .ok []
  | turns + 1, unread =>
    if unread = [] then
      .ok []
    else do
      let (symbol, unread) ← readSymbolInfo unread
      if 0 < symbol.name.length ∧ callback symbol = false then
        return [symbol]
      else
        let rest ← parseSymbols callback turns unread
        return symbol :: rest

/-- The symbols that `enumSymbolsFromFile` reads from a reply. -/
def enumSymbolsFromFile (zlib : Zlib) (callback : Bool → SymbolEntry → Bool) :
    Reader (List SymbolEntry) := do
  let isexe ← readDWord
  let compressedsize ← readDWord
  if compressedsize = 0 then
    return []
  else
    let decompressedsize ← readDWord
    let compressedbuffer ← readBuffer (compressedsize.toNat - 12)
    match zlib.inflate compressedbuffer with
    | none => throw "decompression error"
    | some data =>
      if decompressedsize.toNat ≤ data.length then
        StateT.lift (parseSymbols (callback (isexe ≠ 0))
          decompressedsize.toNat (data.take decompressedsize.toNat))
      else
        throw "decompression error"

end CheatEngine.CeserverSymbols
