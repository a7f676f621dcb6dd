import CheatEngine.ScannedText

/-!
# The region queries of ceserver

`VirtualQueryEx` looks one address up in `/proc/pid/maps`, and
`VirtualQueryExFull` lists the regions of `/proc/pid/smaps`.  Both read the
file line by line into a buffer of 200 characters.
-/

namespace CheatEngine.CeserverRegions

open ScannedText

structure RegionInfo where
  baseaddress : UInt64
  size : UInt64
  protection : UInt32
  type : UInt32
deriving DecidableEq, Repr

def pageNoaccess : UInt32 := 1
def pageReadonly : UInt32 := 2
def pageReadwrite : UInt32 := 4
def pageExecuteRead : UInt32 := 32
def pageExecuteReadwrite : UInt32 := 64
def memMapped : UInt32 := 262144
def memPrivate : UInt32 := 131072

def protectionStringToType (protectionstring : List Char) : UInt32 :=
  if 's' ∈ protectionstring then memMapped else memPrivate

def protectionStringToProtection (protectionstring : List Char) : UInt32 :=
  if 'x' ∈ protectionstring then
    if 'w' ∈ protectionstring then pageExecuteReadwrite else pageExecuteRead
  else
    if 'w' ∈ protectionstring then pageReadwrite else pageReadonly

/-- The contents of the buffer `x`, and the rest of the file.  Of a line that
does not fit the rest is read into `discard`.  `fgets` never gets to
`discard[99]`, so the loop around it ends after one turn. -/
def nextLine (maps : List Char) : List Char × List Char :=
  let (x, rest) := fgets 199 maps
  if x.getLast? = some '\n' then
    (x, rest)
  else
    (x, (fgets 98 rest).2)

def linesRead : ℕ → List Char → List (List Char)
  | 0, _ => []
  | _, [] => []
  | turns + 1, maps => (nextLine maps).1 :: linesRead turns (nextLine maps).2

def lines (maps : List Char) : List (List Char) :=
  linesRead maps.length maps

/-- The variables after `sscanf(x, "%llx-%llx %s", &start, &stop, word)`, which
are zero or without a word before. -/
structure Scanned where
  start : UInt64
  stop : UInt64
  word : Option (List Char)
deriving DecidableEq

def scanLine (x : List Char) : Scanned :=
  match scanHex x with
  | none => { start := 0, stop := 0, word := none }
  | some (start, '-' :: rest) =>
    match scanHex rest with
    | none => { start, stop := 0, word := none }
    | some (stop, rest) => { start, stop, word := scanWord rest }
  | some (start, _) => { start, stop := 0, word := none }

/-! ## `VirtualQueryExFull` -/

/-- The list that `AddToRegionList` adds to; it has room for one more. -/
structure RegionList where
  entries : List RegionInfo
  max : ℕ
  room : entries.length < max

def addToRegionList (region : RegionInfo) (list : RegionList) : RegionList where
  entries := list.entries ++ [region]
  max := if list.entries.length + 1 ≥ list.max then list.max * 2 else list.max
  room := by
    have hroom := list.room
    rw [List.length_append, List.length_singleton]
    split <;> omega

/-- The flags, and the entries of `/proc/pid/pagemap` where it can be
opened. -/
structure QueryFlags where
  pagedonly : Bool
  dirtyonly : Bool
  noshared : Bool

structure Block where
  start : UInt64
  stop : UInt64
  protectionstring : List Char
  isdirty : Bool
  r : RegionList

def pagesize : ℕ := 4096

/-- The runs of present pages among the entries from index `i` on;
`currentstart` is the first page of the run that is being collected. -/
def addPresentPages (current : UInt64) (type protection : UInt32) :
    List UInt64 → ℕ → Option ℕ → RegionList → RegionList
  | [], _, none, r => r
  | [], i, some currentstart, r =>
    addToRegionList
      { baseaddress := current + UInt64.ofNat (currentstart * pagesize)
        size := UInt64.ofNat ((i - currentstart) * pagesize)
        protection, type } r
  | entry :: entries, i, currentstart, r =>
    if entry >>> 63 ≠ 0 then
      addPresentPages current type protection entries (i + 1)
        (some (currentstart.getD i)) r
    else
      match currentstart with
      | none => addPresentPages current type protection entries (i + 1) none r
      | some first =>
        addPresentPages current type protection entries (i + 1) none
          (addToRegionList
            { baseaddress := current + UInt64.ofNat (first * pagesize)
              size := UInt64.ofNat ((i - first) * pagesize)
              protection, type } r)

/-- `while (current<stop)`, at most 512 pages a turn. -/
def addPagedRegions (pagemap : ℕ → UInt64) (stop : UInt64)
    (type protection : UInt32) : ℕ → UInt64 → RegionList → RegionList
  | 0, _, r => r
  | turns + 1, current, r =>
    if current < stop then
      let pagecount := min ((stop - current).toNat / pagesize) 512
      let entries := (List.range pagecount).map fun i =>
        pagemap (current.toNat / pagesize + i)
      addPagedRegions pagemap stop type protection turns
        (current + UInt64.ofNat (pagecount * pagesize))
        (addPresentPages current type protection entries 0 none r)
    else
      r

def finishBlock (flags : QueryFlags) (pagemap : ℕ → UInt64) (block : Block) :
    RegionList :=
  let type := protectionStringToType block.protectionstring
  let protection := protectionStringToProtection block.protectionstring
  if block.start = 0 then
    block.r
  else if flags.noshared ∧ type = memMapped then
    block.r
  else if flags.dirtyonly ∧ ¬ block.isdirty then
    block.r
  else if flags.pagedonly then
    addPagedRegions pagemap block.stop type protection
      ((block.stop - block.start).toNat / pagesize) block.start block.r
  else
    addToRegionList
      { baseaddress := block.start
        size := block.stop - block.start
        protection, type } block.r

/-- `%d` reads a `long`, the nearest one to the number, and stores its low 32
bits. -/
def isPositiveNumber (text : List Char) : Bool :=
  let (negative, unsigned) := scanSign (skipSpaces text)
  let value := Nat.ofDigits 10 ((unsigned.takeWhile Char.isDigit).map
    fun digit => digit.toNat - '0'.toNat).reverse
  let number : ℤ :=
    if negative then -min value (2 ^ 63) else min value (2 ^ 63 - 1)
  0 < number.bmod (2 ^ 32)

def isDirtyLine (x : List Char) : Bool :=
  let name := (x.take 31).takeWhile (· ≠ ':')
  match x.drop name.length with
  | ':' :: text =>
    (name = "Shared_Dirty".toList ∨ name = "Private_Dirty".toList) &&
      isPositiveNumber text
  | _ => false

def fullLine (flags : QueryFlags) (pagemap : ℕ → UInt64) (block : Block)
    (x : List Char) : Block :=
  let scanned := scanLine x
  match scanned.word with
  | some temp =>
    { start := scanned.start
      stop := scanned.stop
      protectionstring := temp.take 24
      isdirty := false
      r := finishBlock flags pagemap block }
  | none =>
    if flags.dirtyonly ∧ block.start ≠ 0 ∧ isDirtyLine x then
      { block with isdirty := true }
    else
      block

def emptyList (flags : QueryFlags) : RegionList where
  entries := []
  max := if flags.pagedonly then 64 else 128
  room := by split <;> decide

/-- The files of a process; a file that cannot be opened is missing. -/
structure ProcFiles where
  maps : Option (List Char)
  smaps : Option (List Char)
  pagemap : Option (ℕ → UInt64)

/-- The list, when the call returns 1.  The turn that meets the end of the file
finishes the last block. -/
def virtualQueryExFull (files : ProcFiles) (flags : QueryFlags) :
    Option (List RegionInfo) :=
  match files.smaps with
  | none => none
  | some maps =>
    if flags.pagedonly ∧ files.pagemap.isNone then
      none
    else
      let pagemap := files.pagemap.getD fun _ => 0
      let last := (lines maps).foldl (fullLine flags pagemap)
        { start := 0, stop := 0, protectionstring := [], isdirty := false,
          r := emptyList flags }
      some (finishBlock flags pagemap last).entries

/-- What `VirtualQueryEx` leaves in `rinfo` and `mapsline`. -/
structure QueryAnswer where
  rinfo : RegionInfo
  mapsline : List Char
deriving DecidableEq

/-- The protection of a line; without a word it is what `protectionstring` held
before. -/
def Scanned.protectionstring (unset : List Char) (scanned : Scanned) :
    List Char :=
  scanned.word.getD unset

/-- The word does not go over the end of `protectionstring`. -/
def Scanned.fits (scanned : Scanned) : Bool :=
  match scanned.word with
  | none => true
  | some word => word.length ≤ 24

def answerLine (unset : List Char) (page : UInt64) (x : List Char) :
    QueryAnswer :=
  let scanned := scanLine x
  let protectionstring := scanned.protectionstring unset
  { rinfo :=
      if page ≥ scanned.start then
        { baseaddress := page
          size := scanned.stop - page
          protection := protectionStringToProtection protectionstring
          type := protectionStringToType protectionstring }
      else
        { baseaddress := page
          size := scanned.start - page
          protection := pageNoaccess
          type := 0 }
    mapsline := x }

/-- The loop over the lines.  A word that does not fit goes over the end of
`protectionstring`. -/
def queryLines (unset : List Char) (page : UInt64) :
    List (List Char) → Except String (Option QueryAnswer)
  | [] => .ok none
  | x :: more =>
    if ¬ (scanLine x).fits then
      .error "stack buffer overflow"
    else if (scanLine x).stop > page then
      .ok (some (answerLine unset page x))
    else
      queryLines unset page more

def pageOf (lpAddress : UInt64) : UInt64 :=
  lpAddress &&& ~~~0xfff

def virtualQueryEx (files : ProcFiles) (unset : List Char)
    (lpAddress : UInt64) : Except String (Option QueryAnswer) :=
  match files.maps with
  | none => .ok none
  | some maps => queryLines unset (pageOf lpAddress) (lines maps)

end CheatEngine.CeserverRegions
