import CheatEngine.ByteStream
import CheatEngine.RadixTree

/-!
# The reverse pointer map and its stream format

A `TReversePointerListHandler` maps every pointer value to the addresses that
hold it.  The values are the paths of a radix tree with 16 branches per level;
`fillLinkedList` threads its leaves in the order of their values.  The map is
exported as the list of these leaves and read back into a new tree.
-/

namespace CheatEngine.PointerValueList

open ByteStream RadixTree

/-- `TStaticData`; the offset is a `PtrInt`. -/
structure StaticData where
  moduleindex : UInt32
  offset : Int64
deriving DecidableEq, Repr

structure PointerData where
  address : UInt64
  staticdata : Option StaticData
deriving DecidableEq, Repr

/-- `TPointerlist`; `pos` is the length of the list, and an empty list stands
for a list that was never created. -/
structure PointerList where
  pointervalue : UInt64
  expectedsize : ℕ
  maxsize : ℕ
  list : List PointerData
deriving DecidableEq, Repr

/-- An entry of `modulelist`: the bytes of the name, and the base. -/
structure Module where
  name : List UInt8
  base : UInt64
deriving DecidableEq, Repr

structure Handler where
  maxlevel : ℕ
  level0list : Table PointerList maxlevel
  count : ℕ
  modulelist : List Module
  specificBaseAsStaticOnly : Bool
  basestart : UInt64
  basestop : UInt64

def guessedSize (pointervalue : UInt64) : ℕ :=
  if pointervalue % 0x10 = 0 then
    if pointervalue % 0x100 = 0 then
      if pointervalue % 0x1000 = 0 then
        if pointervalue % 0x10000 = 0 then 50 else 20
      else 10
    else 5
  else 1

def newPointerList (pointervalue : UInt64) : PointerList where
  pointervalue := pointervalue
  expectedsize := guessedSize pointervalue
  maxsize := 0
  list := []

/-- `findoraddpointervalue` followed by a change of the entry it returns. -/
def findoraddpointervalue {maxlevel : ℕ} (pointervalue : UInt64)
    (change : PointerList → PointerList) (table : Table PointerList maxlevel) :
    Table PointerList maxlevel :=
  alter (fun found => change (found.getD (newPointerList pointervalue)))
    maxlevel table pointervalue.toNat

def addressesIn {maxlevel : ℕ} (table : Table PointerList maxlevel)
    (pointervalue : UInt64) : List PointerData :=
  ((find maxlevel table pointervalue.toNat).map PointerList.list).getD []

def Handler.addresses (handler : Handler) (pointervalue : UInt64) :
    List PointerData :=
  addressesIn handler.level0list pointervalue

def SamePath (maxlevel : ℕ) (first second : UInt64) : Prop :=
  ∀ level ≤ maxlevel, digit level first.toNat = digit level second.toNat

theorem samePath_iff {maxlevel : ℕ} {first second : UInt64}
    (hfirst : first.toNat < 16 ^ (maxlevel + 1))
    (hsecond : second.toNat < 16 ^ (maxlevel + 1)) :
    SamePath maxlevel first second ↔ first = second := by
  rw [SamePath, ← mod_eq_iff_digits, Nat.mod_eq_of_lt hfirst,
    Nat.mod_eq_of_lt hsecond, UInt64.toNat_inj]

def Placed {maxlevel : ℕ} (table : Table PointerList maxlevel) : Prop :=
  ∀ key < 16 ^ (maxlevel + 1), ∀ entry,
    find maxlevel table key = some entry → entry.pointervalue.toNat = key

section

variable {maxlevel : ℕ} {table : Table PointerList maxlevel}

theorem placed_nil : Placed (.nil : Table PointerList maxlevel) := by
  intro key _ entry hfind
  rw [find_nil] at hfind
  cases hfind

theorem Placed.pointervalue_eq (hplaced : Placed table) {key : ℕ}
    {entry : PointerList} (hmem : (key, entry) ∈ entries maxlevel table) :
    entry.pointervalue.toNat = key := by
  obtain ⟨hkey, hfind⟩ := (mem_entries _ _ _ _).mp hmem
  exact hplaced key hkey entry hfind

theorem Placed.mem_toList_iff (hplaced : Placed table) (entry : PointerList) :
    entry ∈ toList maxlevel table ↔
      entry.pointervalue.toNat < 16 ^ (maxlevel + 1) ∧
        find maxlevel table entry.pointervalue.toNat = some entry := by
  rw [toList_eq_entries, List.mem_map]
  constructor
  · rintro ⟨⟨key, found⟩, hmem, rfl⟩
    rw [hplaced.pointervalue_eq hmem]
    exact (mem_entries _ _ _ _).mp hmem
  · intro hfind
    exact ⟨(entry.pointervalue.toNat, entry), (mem_entries _ _ _ _).mpr hfind,
      rfl⟩

theorem addressesIn_findoraddpointervalue_self
    (change : PointerList → PointerList) {pointervalue added : UInt64}
    (hsame : SamePath maxlevel pointervalue added) :
    addressesIn (findoraddpointervalue added change table) pointervalue =
      (change ((find maxlevel table added.toNat).getD
        (newPointerList added))).list := by
  rw [addressesIn, find_congr maxlevel _ hsame, findoraddpointervalue,
    find_alter_self]
  rfl

theorem find_findoraddpointervalue_of_ne
    (change : PointerList → PointerList) {pointervalue added : UInt64}
    (hdiffers : ¬ SamePath maxlevel pointervalue added) :
    find maxlevel (findoraddpointervalue added change table)
        pointervalue.toNat = find maxlevel table pointervalue.toNat := by
  have hlevel : ∃ level ≤ maxlevel,
      digit level pointervalue.toNat ≠ digit level added.toNat := by
    unfold SamePath at hdiffers
    push Not at hdiffers
    exact hdiffers
  exact find_alter_of_ne _ _ _ hlevel

end

def writeModule (entry : Module) : List UInt8 :=
  writeDWord (UInt32.ofNat entry.name.length) ++
    (entry.name ++ writeQWord entry.base)

def saveModuleListToResults (modulelist : List Module) : List UInt8 :=
  writeDWord (UInt32.ofNat modulelist.length) ++
    modulelist.flatMap writeModule

def writePointerData (entry : PointerData) : List UInt8 :=
  writeQWord entry.address ++
    match entry.staticdata with
    | none => writeByte 0
    | some staticdata =>
      writeByte 1 ++ (writeDWord staticdata.moduleindex ++
        writeDWord staticdata.offset.toUInt64.toUInt32)

def writePointerList (entry : PointerList) : List UInt8 :=
  writeQWord entry.pointervalue ++
    (writeDWord (UInt32.ofNat entry.list.length) ++
      entry.list.flatMap writePointerData)

/-- The linked list, less the entries that were counted but never filled. -/
def Handler.filledLists (handler : Handler) : List PointerList :=
  (toList handler.maxlevel handler.level0list).filter fun entry =>
    !entry.list.isEmpty

def writeSpecificBase (handler : Handler) : List UInt8 :=
  if handler.specificBaseAsStaticOnly then
    writeByte 1 ++ (writeQWord handler.basestart ++
      writeQWord handler.basestop)
  else
    writeByte 0

def exportToStream (handler : Handler) : List UInt8 :=
  writeByte 0xce ++ (writeByte 1 ++
    (saveModuleListToResults handler.modulelist ++
      (writeSpecificBase handler ++
        (writeDWord (UInt32.ofNat handler.maxlevel) ++
          (writeQWord (UInt64.ofNat handler.count) ++
            handler.filledLists.flatMap writePointerList)))))

def readModule : Reader Module := do
  let x ← readDWord
  let mname ← readBuffer x.toNat
  let mbase ← readQWord
  return { name := mname.takeWhile (· ≠ 0), base := mbase }

def loadModuleList : Reader (List Module) := do
  let mlistlength ← readDWord
  readMany readModule mlistlength.toInt32.toNatClampNeg

def expectByte (expected : UInt8) (message : String) : Reader Unit := do
  let found ← readByte
  if found ≠ expected then throw message else pure ()

def readBounds (specific : Bool) : Reader (UInt64 × UInt64) :=
  if specific then do
    let basestart ← readQWord
    let basestop ← readQWord
    return (basestart, basestop)
  else
    pure (0, 0)

/-- The header, and the number of addresses that follow. -/
structure Header where
  modulelist : List Module
  specificBaseAsStaticOnly : Bool
  bounds : UInt64 × UInt64
  maxlevel : ℕ
  totalcount : ℕ

def loadHeader : Reader Header := do
  expectByte 0xce "Invalid scandata file"
  expectByte 1 "Invalid scandata version"
  let modulelist ← loadModuleList
  let specific ← readByte
  let bounds ← readBounds (specific == 1)
  let maxlevel ← readDWord
  let totalcount ← readQWord
  return { modulelist, specificBaseAsStaticOnly := specific == 1, bounds,
           maxlevel := maxlevel.toNat, totalcount := totalcount.toNat }

def readStaticData (present : UInt8) : Reader (Option StaticData) :=
  if present = 1 then do
    let moduleindex ← readDWord
    let offset ← readDWord
    return some { moduleindex, offset := offset.toUInt64.toInt64 }
  else
    pure none

def readPointerData : Reader PointerData := do
  let address ← readQWord
  let present ← readByte
  let staticdata ← readStaticData present
  return { address, staticdata }

/-- One turn of the loop of `createFromStream`: the value and its list. -/
def readPointerList : Reader PointerList := do
  let pvalue ← readQWord
  let numberofpointers ← readDWord
  let list ← readMany readPointerData numberofpointers.toInt32.toNatClampNeg
  return { newPointerList pvalue with list }

/-- `while count<totalcount`; a turn reads at least twelve bytes or raises, so
the unread bytes bound the number of turns. -/
def loadPointerLists {maxlevel : ℕ} (totalcount : ℕ) :
    ℕ → ℕ → Table PointerList maxlevel →
      Reader (ℕ × Table PointerList maxlevel)
  | 0, count, table =>
    if count < totalcount then
      throw "Stream read error"
    else
      pure (count, table)
  | turns + 1, count, table =>
    if count < totalcount then do
      let loaded ← readPointerList
      loadPointerLists totalcount turns (count + loaded.list.length)
        (findoraddpointervalue loaded.pointervalue
          (fun entry => { entry with list := loaded.list }) table)
    else
      pure (count, table)

def readTable (header : Header) :
    Reader (ℕ × Table PointerList header.maxlevel) := fun unread =>
  loadPointerLists header.totalcount unread.length 0 .nil unread

/-- `fillLinkedList` raises when the tree has no entries. -/
def createFromStream (stream : List UInt8) : Except String Handler := do
  let (header, unread) ← loadHeader stream
  let ((count, table), _) ← readTable header unread
  if (toList header.maxlevel table).isEmpty then
    throw "Pointer value setup error"
  else
    return { maxlevel := header.maxlevel
             level0list := table
             count := count
             modulelist := header.modulelist
             specificBaseAsStaticOnly := header.specificBaseAsStaticOnly
             basestart := header.bounds.1
             basestop := header.bounds.2 }

end CheatEngine.PointerValueList
