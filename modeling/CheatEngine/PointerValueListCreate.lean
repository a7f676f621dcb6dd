import CheatEngine.PointerValueList

/-!
# Building the reverse pointer map

The constructor of `TReversePointerListHandler` collects the memory regions of
the target, cuts them to the range, joins and splits them, and goes over them
twice: first to count the pointers to each value, then to store their
addresses.  Addresses are 64-bit and region sizes 32-bit, as in the source.
-/

namespace CheatEngine.PointerValueList

open ByteStream RadixTree

structure MemoryBasicInformation where
  baseAddress : UInt64
  allocationProtect : UInt32
  regionSize : UInt64
  state : UInt32
  protect : UInt32
  type : UInt32
deriving DecidableEq, Repr

/-- The snapshot of the target.  `queried` holds the answers of
`VirtualQueryEx`, the first for the start of the range and each next one for
the end of the region before it, up to the query that returns 0.  A failed read
has copied some of its bytes. -/
structure Target where
  is64bit : Bool
  memory : UInt64 → UInt8
  readable : UInt64 → ℕ → Bool
  copied : UInt64 → ℕ → ℕ
  queried : List MemoryBasicInformation
  inModule : UInt64 → Bool
  inSystemModule : UInt64 → Bool
  moduleByAddress : UInt64 → Option UInt64
  moduleList : List Module
  stackStart : ℕ → UInt64
  uninitialized : ℕ → UInt8
  uninitializedIndex : UInt32

/-- The arguments of the constructor and the scan settings it reads. -/
structure Settings where
  start : UInt64
  stop : UInt64
  alligned : Bool
  noreadonly : Bool
  mustbeclasspointers : Bool
  allowNonModulePointers : Bool
  useStacks : Bool
  stacksAsStaticOnly : Bool
  threadstacks : ℕ
  stacksize : UInt64
  specificBaseAsStaticOnly : Bool
  baseStart : UInt64
  baseStop : UInt64
  includeSystemModules : Bool
  prangelist : Option (List (UInt64 × UInt64))
  scanMemPrivate : Bool
  scanMemImage : Bool
  scanMemMapped : Bool
  skipPageNocache : Bool

def Target.pointersize (target : Target) : ℕ :=
  if target.is64bit then 8 else 4

def Target.maxlevel (target : Target) : ℕ :=
  if target.is64bit then 15 else 7

abbrev Buffer := ℕ → UInt8

def readprocessmemory (target : Target) (address : UInt64) (size : ℕ)
    (buffer : Buffer) : Bool × Buffer :=
  let success := target.readable address size
  let count := if success then size else target.copied address size
  (success, fun i =>
    if i < count then target.memory (address + UInt64.ofNat i) else buffer i)

/-- `qwordpointer^` of a 64-bit target, `dwordpointer^` of a 32-bit one. -/
def wordAt (target : Target) (buffer : Buffer) (offset : ℕ) : UInt64 :=
  UInt64.ofNat (leValue ((List.range target.pointersize).map fun i =>
    buffer (offset + i)))

structure MemoryRegion where
  baseAddress : UInt64
  memorySize : UInt32
  inModule : Bool
  validPointerRange : Bool
deriving DecidableEq, Repr, Inhabited

def MemoryRegion.endAddress (region : MemoryRegion) : UInt64 :=
  region.baseAddress + region.memorySize.toUInt64

def memPrivate : UInt32 := 0x20000
def memMapped : UInt32 := 0x40000
def memImage : UInt32 := 0x1000000
def memCommit : UInt32 := 0x1000
def pageNoaccess : UInt32 := 0x01
def pageReadonly : UInt32 := 0x02
def pageExecute : UInt32 := 0x10
def pageExecuteRead : UInt32 := 0x20
def pageGuard : UInt32 := 0x100
def pageNocache : UInt32 := 0x200

def isScanned (target : Target) (settings : Settings)
    (mbi : MemoryBasicInformation) : Bool :=
  (settings.includeSystemModules || !target.inSystemModule mbi.baseAddress) &&
  !(!settings.scanMemPrivate && mbi.type == memPrivate) &&
  !(!settings.scanMemImage && mbi.type == memImage) &&
  !(!settings.scanMemMapped && mbi.type &&& memMapped > 0) &&
  mbi.state == memCommit &&
  mbi.protect &&& pageGuard == 0 &&
  mbi.protect &&& pageNoaccess == 0

def isValidPointerRange (settings : Settings)
    (mbi : MemoryBasicInformation) : Bool :=
  !((settings.skipPageNocache &&
      mbi.allocationProtect &&& pageNocache == pageNocache) ||
    (settings.noreadonly && (mbi.protect == pageReadonly ||
      mbi.protect == pageExecute || mbi.protect == pageExecuteRead)))

def queryRegions (target : Target) (settings : Settings) :
    UInt64 → List MemoryBasicInformation → List MemoryRegion
  | _, [] => []
  | address, mbi :: rest =>
    if address < settings.stop ∧ address + mbi.regionSize > address then
      let next := queryRegions target settings
        (mbi.baseAddress + mbi.regionSize) rest
      if isScanned target settings mbi then
        { baseAddress := mbi.baseAddress
          memorySize := mbi.regionSize.toUInt32
          inModule := target.inModule mbi.baseAddress
          validPointerRange := isValidPointerRange settings mbi } :: next
      else
        next
    else
      []

def clipStart (start : UInt64) : List MemoryRegion → List MemoryRegion
  | [] => []
  | region :: rest =>
    let size := region.memorySize.toUInt64 - (start - region.baseAddress)
    if region.baseAddress < start ∧ size > 0 then
      { region with
        memorySize := size.toUInt32
        baseAddress := start } :: rest
    else
      region :: rest

def clipStop (stop : UInt64) : List MemoryRegion → List MemoryRegion
  | [] => []
  | [region] =>
    if region.endAddress > stop then
      [{ region with
         memorySize :=
          region.memorySize - (region.endAddress - stop - 1).toUInt32 }]
    else
      [region]
  | region :: rest => region :: clipStop stop rest

/-- Joins the regions that follow each other, starting from the region that is
being collected. -/
def combineRegions (mustbeclasspointers : Bool) :
    MemoryRegion → List MemoryRegion → List MemoryRegion
  | current, [] => [current]
  | current, region :: rest =>
    if region.baseAddress = current.endAddress ∧
        region.validPointerRange = current.validPointerRange ∧
        (mustbeclasspointers = false ∨
          region.inModule = current.inModule) then
      combineRegions mustbeclasspointers
        { current with
          memorySize := current.memorySize + region.memorySize } rest
    else
      current :: combineRegions mustbeclasspointers region rest

def chunkSize : UInt32 := 512 * 1024

/-- The regions from index `i` on; what is cut off goes to the end of the
array. -/
def splitRegions : ℕ → List MemoryRegion → List MemoryRegion
  | _, [] => []
  | 0, regions => regions
  | turns + 1, region :: rest =>
    if region.memorySize > chunkSize then
      { region with memorySize := chunkSize } ::
        splitRegions turns (rest ++
          [{ region with
             baseAddress := region.baseAddress + chunkSize.toUInt64
             memorySize := region.memorySize - chunkSize }])
    else
      region :: splitRegions turns rest

def numberOfChunks (regions : List MemoryRegion) : ℕ :=
  (regions.map fun region =>
    region.memorySize.toNat / chunkSize.toNat + 1).sum

def baseAt (regions : Array MemoryRegion) (i : ℤ) : UInt64 :=
  (regions.getD i.toNat default).baseAddress

def skipSmaller (regions : Array MemoryRegion) (x : UInt64) : ℕ → ℤ → ℤ
  | 0, i => i
  | turns + 1, i =>
    if baseAt regions i < x then skipSmaller regions x turns (i + 1) else i

def skipBigger (regions : Array MemoryRegion) (x : UInt64) : ℕ → ℤ → ℤ
  | 0, j => j
  | turns + 1, j =>
    if baseAt regions j > x then skipBigger regions x turns (j - 1) else j

def partitionRegions (x : UInt64) :
    ℕ → Array MemoryRegion → ℤ → ℤ → Array MemoryRegion × ℤ × ℤ
  | 0, regions, i, j => (regions, i, j)
  | turns + 1, regions, i, j =>
    let i := skipSmaller regions x regions.size i
    let j := skipBigger regions x regions.size j
    if i ≤ j then
      let swapped := regions.swapIfInBounds i.toNat j.toNat
      if i + 1 > j - 1 then
        (swapped, i + 1, j - 1)
      else
        partitionRegions x turns swapped (i + 1) (j - 1)
    else
      (regions, i, j)

def quicksortmemoryregions :
    ℕ → Array MemoryRegion → ℤ → ℤ → Array MemoryRegion
  | 0, regions, _, _ => regions
  | depth + 1, regions, lo, hi =>
    let x := baseAt regions ((lo + hi) / 2)
    let (parted, i, j) := partitionRegions x regions.size regions lo hi
    let left :=
      if lo < j then quicksortmemoryregions depth parted lo j else parted
    if i < hi then quicksortmemoryregions depth left i hi else left

/-- The array `memoryregion` when the passes begin. -/
def memoryRegions (target : Target) (settings : Settings) :
    List MemoryRegion :=
  match clipStop settings.stop (clipStart settings.start
      (queryRegions target settings settings.start target.queried)) with
  | [] => []
  | first :: rest =>
    let combined := combineRegions settings.mustbeclasspointers first rest
    let chunks := splitRegions (numberOfChunks combined) combined
    (quicksortmemoryregions chunks.length chunks.toArray 0
      (chunks.length - 1)).toList

def binSearchLoop (memoryregion : List MemoryRegion) (address : UInt64) :
    ℕ → ℤ → ℤ → Option MemoryRegion
  | 0, _, _ => none
  | turns + 1, first, last =>
    if first ≤ last then
      let pivot := (first + last) / 2
      let region := memoryregion.getD pivot.toNat default
      if address ≥ region.baseAddress ∧ address < region.endAddress then
        some region
      else if region.baseAddress > address then
        binSearchLoop memoryregion address turns first (pivot - 1)
      else
        binSearchLoop memoryregion address turns (pivot + 1) last
    else
      none

def binSearchMemRegions (memoryregion : List MemoryRegion)
    (address : UInt64) : Option MemoryRegion :=
  binSearchLoop memoryregion address memoryregion.length 0
    (memoryregion.length - 1)

def isModulePointer (memoryregion : List MemoryRegion) (address : UInt64) :
    Bool :=
  match binSearchMemRegions memoryregion address with
  | none => false
  | some region => region.inModule

/-- The values of a `while value < bound` loop that goes up in steps. -/
def stepsBelow (step bound : ℕ) : ℕ → ℕ → List ℕ
  | 0, _ => []
  | turns + 1, value =>
    if value < bound then
      value :: stepsBelow step bound turns (value + step)
    else
      []

/-- `scannablepages.HasId`; without a region file every page is scannable. -/
def isScannablePage (settings : Settings) (address : UInt64) : Bool :=
  match settings.prangelist with
  | none => true
  | some prangelist => prangelist.any fun prange =>
    (stepsBelow 4096 prange.2.toNat prange.2.toNat prange.1.toNat).any
      fun page => page / 4096 == address.toNat / 4096

def ispointer (settings : Settings) (memoryregion : List MemoryRegion)
    (address : UInt64) : Bool :=
  match binSearchMemRegions memoryregion address with
  | none => false
  | some region => region.validPointerRange && isScannablePage settings address

def stacklist (target : Target) (settings : Settings) : List UInt64 :=
  if settings.useStacks then
    ((List.range settings.threadstacks).map target.stackStart).takeWhile (· ≠ 0)
  else
    []

def threadStackName (i : ℕ) : List UInt8 :=
  ("THREADSTACK" ++ toString i).toUTF8.toList

def modulelist (target : Target) (settings : Settings) : List Module :=
  target.moduleList ++ (stacklist target settings).mapIdx fun i stackStart =>
    { name := threadStackName i, base := stackStart }

def stackBase (target : Target) (settings : Settings) (address : UInt64) :
    Option UInt64 :=
  (stacklist target settings).foldl (fun found stackStart =>
    if stackStart - settings.stacksize ≤ address ∧ address ≤ stackStart then
      some stackStart
    else
      found) none

/-- `isStatic2`, with the base it finds for the address. -/
def isStatic2 (target : Target) (settings : Settings) (address : UInt64) :
    Option UInt64 :=
  match stackBase target settings address with
  | some base => some base
  | none =>
    if settings.stacksAsStaticOnly then none
    else target.moduleByAddress address

def indexOfModule (modules : List Module) (base : UInt64)
    (moduleindex : UInt32) : UInt32 :=
  match modules.findIdx? fun entry => entry.base == base with
  | some i => UInt32.ofNat i
  | none => moduleindex

def isStatic (target : Target) (settings : Settings) (address : UInt64) :
    Option StaticData :=
  let modules := modulelist target settings
  if settings.specificBaseAsStaticOnly then
    if settings.baseStart ≤ address ∧ address ≤ settings.baseStop then
      match isStatic2 target settings address with
      | none => some { moduleindex := -1, offset := address.toInt64 }
      | some base =>
        some { moduleindex := indexOfModule modules base (-1)
               offset := (address - base).toInt64 }
    else
      none
  else
    (isStatic2 target settings address).map fun base =>
      { moduleindex := indexOfModule modules base target.uninitializedIndex
        offset := (address - base).toInt64 }

/-! ## The two passes -/

def PointerList.ensureRoom (entry : PointerList) : PointerList :=
  let created :=
    if entry.list = [] then
      { entry with maxsize := entry.expectedsize }
    else
      entry
  if created.list.length ≥ created.maxsize then
    { created with maxsize := created.maxsize * 4 }
  else
    created

def addpointer {maxlevel : ℕ} (target : Target) (settings : Settings)
    (pointervalue pointerwiththisvalue : UInt64) (add : Bool)
    (table : Table PointerList maxlevel) : Table PointerList maxlevel :=
  findoraddpointervalue pointervalue (fun plist =>
    if add then
      { plist.ensureRoom with
        list := plist.list ++
          [{ address := pointerwiththisvalue
             staticdata := isStatic target settings pointerwiththisvalue }] }
    else
      { plist with expectedsize := plist.expectedsize + 1 }) table

structure Scan (maxlevel : ℕ) where
  buffer : Buffer
  inModulePointerMap : UInt64 → Option Bool
  level0list : Table PointerList maxlevel
  count : ℕ

/-- Whether the value points to something that begins with a pointer into a
module. -/
def isClassPointer (target : Target) (settings : Settings)
    (memoryregion : List MemoryRegion) (value : UInt64) : Bool :=
  let (found, temp) :=
    readprocessmemory target value target.pointersize target.uninitialized
  if found then
    if settings.allowNonModulePointers then
      let (foundNext, next) :=
        readprocessmemory target (wordAt target temp 0) target.pointersize temp
      foundNext || isModulePointer memoryregion (wordAt target next 0)
    else
      isModulePointer memoryregion (wordAt target temp 0)
  else
    false

def checkClassPointer (target : Target) (settings : Settings)
    (memoryregion : List MemoryRegion) (value : UInt64)
    (inModulePointerMap : UInt64 → Option Bool) :
    Bool × (UInt64 → Option Bool) :=
  if settings.mustbeclasspointers then
    match inModulePointerMap value with
    | some valid => (valid, inModulePointerMap)
    | none =>
      let valid := isClassPointer target settings memoryregion value
      (valid, Function.update inModulePointerMap value (some valid))
  else
    (true, inModulePointerMap)

section

variable {maxlevel : ℕ} (target : Target) (settings : Settings)
  (memoryregion : List MemoryRegion)

/-- One turn of the loop over a buffer; both passes have the same body. -/
def scanWord (add : Bool) (region : MemoryRegion) (scan : Scan maxlevel)
    (offset : ℕ) : Scan maxlevel :=
  let value := wordAt target scan.buffer offset
  let address := region.baseAddress + UInt64.ofNat offset
  if (settings.alligned && value % 4 == 0 &&
        ispointer settings memoryregion value) ||
      (!settings.alligned && ispointer settings memoryregion value) then
    let (valid, inModulePointerMap) := checkClassPointer target settings
      memoryregion value scan.inModulePointerMap
    if valid && isScannablePage settings address then
      { scan with
        inModulePointerMap
        level0list :=
          addpointer target settings value address add scan.level0list
        count := if add then scan.count + 1 else scan.count }
    else
      { scan with inModulePointerMap }
  else
    scan

def Settings.step : ℕ :=
  if settings.alligned then 4 else 1

def scanRegion (add : Bool) (bound : ℕ) (region : MemoryRegion)
    (scan : Scan maxlevel) : Scan maxlevel :=
  let (success, buffer) := readprocessmemory target region.baseAddress
    region.memorySize.toNat scan.buffer
  if success then
    (stepsBelow settings.step bound bound 0).foldl
      (scanWord target settings memoryregion add region) { scan with buffer }
  else
    { scan with buffer }

def initialScan (scan : Scan maxlevel) (region : MemoryRegion) :
    Scan maxlevel :=
  if region.validPointerRange then
    scanRegion target settings memoryregion false
      (region.memorySize.toNat + 1 - target.pointersize) region scan
  else
    scan

/-- The secondary scan; its last word begins before the end of the region. -/
def secondaryScan (scan : Scan maxlevel) (region : MemoryRegion) :
    Scan maxlevel :=
  scanRegion target settings memoryregion true region.memorySize.toNat region
    scan

end

def emptyScan (target : Target) : Scan target.maxlevel where
  buffer := target.uninitialized
  inModulePointerMap := fun _ => none
  level0list := .nil
  count := 0

def runPasses (target : Target) (settings : Settings) :
    Scan target.maxlevel :=
  let memoryregion := memoryRegions target settings
  let counted := memoryregion.foldl
    (initialScan target settings memoryregion) (emptyScan target)
  memoryregion.foldl (secondaryScan target settings memoryregion) counted

def create (target : Target) (settings : Settings) : Except String Handler :=
  if (memoryRegions target settings).isEmpty then
    throw "No memory found in the specified region"
  else
    let scan := runPasses target settings
    if (toList target.maxlevel scan.level0list).isEmpty then
      throw "Pointer value setup error"
    else
      return { maxlevel := target.maxlevel
               level0list := scan.level0list
               count := scan.count
               modulelist := modulelist target settings
               specificBaseAsStaticOnly := settings.specificBaseAsStaticOnly
               basestart := settings.baseStart
               basestop := settings.baseStop }

end CheatEngine.PointerValueList
