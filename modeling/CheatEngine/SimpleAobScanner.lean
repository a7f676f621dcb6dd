import CheatEngine.AobPattern
import CheatEngine.MemScanOnlyOne
import CheatEngine.MemScanRegions

/-!
# Searching for one array of bytes

`findaob` and `findaobInModule` start a first scan with `OnlyOne` set and wait
for its result.  The scan does not get the requested alignment, its start
address is rounded up to a multiple of eight, and the address that it finds
comes back through an `integer`.
-/

namespace CheatEngine
namespace SimpleAobScanner

open List

open MemScan (ScanParameters FastScan AlignedScan MemoryMap Target Scanned
  IsFirst)
open MemScanRegions (FirstScan MemoryBasicInformation Inclusion)
open PascalText AobPattern

/-- What `VirtualQueryEx` answers from address 0 on, one region after the
other, and how many bytes `ReadProcessMemory` gets. -/
structure AddressSpace where
  regions : List MemoryBasicInformation
  actualread : ℕ → ℕ → ℕ
  contiguous : regions.IsChain fun first second =>
    first.stop = second.baseAddress
  size_pos : ∀ mbi ∈ regions, 0 < mbi.regionSize
  size_lt : ∀ mbi ∈ regions, mbi.regionSize < 2 ^ 64
  inside : ∀ mbi ∈ regions, mbi.stop ≤ 2 ^ 64
  first_base : ∀ first ∈ regions.head?, first.baseAddress = 0
  actualread_le : ∀ address size, actualread address size ≤ size

structure TModuleInfo where
  modulename : List Char
  baseaddress : ℕ
  basesize : ℕ
  basesize_lt : basesize < 2 ^ 32
  stop_lt : baseaddress + basesize < 2 ^ 64

structure Process where
  is64Bit : Bool
  is64bitOS : Bool
  modulelist : List TModuleInfo
  space : AddressSpace

structure Settings where
  scanMemPrivate : Bool
  scanMemImage : Bool
  scanMemMapped : Bool
  useddbkquery : Bool
  bufsize : ℕ
  bufsize_pos : 0 < bufsize
  bufsize_lt : bufsize * 1024 < 2 ^ 32

structure ProtectionFlags where
  scanWritable : Inclusion
  scanCopyOnWrite : Inclusion
  scanExecutable : Inclusion
deriving DecidableEq

/-- One character of `parseProtectionflags`, with `currentstate`. -/
def parseFlag (state : Inclusion × ProtectionFlags) (char : Char) :
    Inclusion × ProtectionFlags :=
  match char with
  | '-' => (.scanExclude, state.2)
  | '+' => (.scanInclude, state.2)
  | '*' => (.scanDontCare, state.2)
  | 'W' => (.scanDontCare, { state.2 with scanWritable := state.1 })
  | 'C' => (.scanDontCare, { state.2 with scanCopyOnWrite := state.1 })
  | 'X' => (.scanDontCare, { state.2 with scanExecutable := state.1 })
  | _ => state

def parseProtectionflags (protectionflags : List Char) : ProtectionFlags :=
  ((upperCase protectionflags).foldl parseFlag (.scanDontCare,
    { scanWritable := .scanDontCare
      scanCopyOnWrite := .scanDontCare
      scanExecutable := .scanDontCare })).2

structure Request where
  process : Process
  settings : Settings
  modulename : List Char
  protectionflags : List Char
  alignment : FastScan
  bytecount : ℕ
  bytecount_pos : 0 < bytecount
  bytecount_lt : bytecount < 2 ^ 31

structure AobString (bytecount : ℕ) where
  aobstring : List Char
  length_eq : (convertStringToBytes aobstring).length = bytecount

structure SearchRange where
  minaddress : ℕ
  maxaddress : ℕ
  max_lt : maxaddress < 2 ^ 64

namespace Process

variable (process : Process)

def moduleNameToFind (modulename : List Char) : List Char :=
  let name := upperCase modulename
  if name.head? = some '"' then
    copy (trim name) 2 ((trim name).length - 2)
  else
    name

def getmodulebyname (modulename : List Char) : Option TModuleInfo :=
  process.modulelist.find? fun mi =>
    upperCase mi.modulename = moduleNameToFind modulename

def wholeRange : SearchRange :=
  if process.is64Bit then
    { minaddress := 0, maxaddress := 0x7fffffffffffffff, max_lt := by decide }
  else if process.is64bitOS then
    { minaddress := 0, maxaddress := 0xffffffff, max_lt := by decide }
  else
    { minaddress := 0, maxaddress := 0x7fffffff, max_lt := by decide }

end Process

namespace Request

variable (request : Request)

/-- The range of `AsyncAOBScan`, which gives no scan for an unknown
module. -/
def searchRange : Option SearchRange :=
  if request.modulename = [] then some request.process.wholeRange
  else
    (request.process.getmodulebyname request.modulename).map fun mi =>
      { minaddress := mi.baseaddress
        maxaddress := mi.baseaddress + mi.basesize
        max_lt := mi.stop_lt }

def requestedScan (range : SearchRange) : FirstScan :=
  let flags := parseProtectionflags request.protectionflags
  { startaddress := range.minaddress
    stopaddress := range.maxaddress
    scanMemPrivate := request.settings.scanMemPrivate
    scanMemImage := request.settings.scanMemImage
    scanMemMapped := request.settings.scanMemMapped
    scanWritable := flags.scanWritable
    scanExecutable := flags.scanExecutable
    scanCopyOnWrite := flags.scanCopyOnWrite
    useddbkquery := request.settings.useddbkquery
    stop_lt := range.max_lt }

end Request

/-! ## The scan -/

def alignForward (startaddress : ℕ) : ℕ :=
  if startaddress % 8 > 0 then
    (startaddress - startaddress % 8 + 8) % 2 ^ 64
  else
    startaddress

def onlyOneScan (request : Request) (range : SearchRange) : FirstScan :=
  { request.requestedScan range with
    startaddress := alignForward range.minaddress }

namespace AddressSpace

variable (space : AddressSpace)

theorem covering (scan : FirstScan) : scan.Covering space.regions where
  contiguous := space.contiguous
  size_pos := space.size_pos
  size_lt := space.size_lt
  inside := space.inside
  covers := fun first hfirst => by
    rw [space.first_base first hfirst]
    exact Nat.zero_le _

def gathering (scan : FirstScan) : Option FirstScan.Gathering :=
  scan.gather space.regions (space.regions.length + 1) scan.initial

def memRegion (scan : FirstScan) : List MemScan.MemoryRegion :=
  match space.gathering scan with
  | none => []
  | some result =>
    result.memRegion.map fun region =>
      { BaseAddress := region.baseAddress
        MemorySize := region.memorySize }

variable {space} {scan : FirstScan}

theorem exists_gathering (space : AddressSpace) (scan : FirstScan) :
    ∃ result, space.gathering scan = some result ∧
      FirstScan.ranges result = scan.gathered space.regions := by
  have hsplit := @takeWhile_append_dropWhile _
    (fun mbi : MemoryBasicInformation =>
      decide (mbi.stop ≤ scan.startaddress)) space.regions
  have hlength := (dropWhile_sublist
    (fun mbi : MemoryBasicInformation =>
      decide (mbi.stop ≤ scan.startaddress)) (l := space.regions)).length_le
  obtain ⟨result, hresult, hranges, -⟩ :=
    FirstScan.gather_eq (Nat.lt_succ_of_le hlength)
      (space.covering scan).ahead_initial
  rw [hsplit] at hresult
  exact ⟨result, hresult, hranges⟩

theorem memRegion_eq (space : AddressSpace) (scan : FirstScan) :
    space.memRegion scan =
      (scan.gathered space.regions).map fun range =>
        { BaseAddress := range.base, MemorySize := range.size } := by
  obtain ⟨result, hresult, hranges⟩ := space.exists_gathering scan
  rw [memRegion, hresult, ← hranges, FirstScan.ranges, map_map]
  rfl

theorem eligible_bounds {mbi : MemoryBasicInformation}
    {range : FirstScan.AddressRange}
    (heligible : scan.eligible mbi = some range) :
    mbi.baseAddress ≤ range.base ∧
      range.base + range.size ≤ min mbi.stop scan.stopaddress := by
  unfold FirstScan.eligible at heligible
  simp only at heligible
  split at heligible
  · obtain rfl := Option.some.inj heligible
    dsimp only
    omega
  · cases heligible

theorem regions_ordered (space : AddressSpace) :
    space.regions.Pairwise fun first second =>
      first.stop ≤ second.baseAddress := by
  have htrans : IsTrans MemoryBasicInformation
      fun first second => first.stop ≤ second.baseAddress :=
    ⟨fun first second third hfirst hsecond => by
      unfold MemoryBasicInformation.stop at *
      omega⟩
  exact (space.contiguous.imp fun _ _ heq => heq.le).pairwise

theorem memRegion_ordered (space : AddressSpace) (scan : FirstScan) :
    (space.memRegion scan).Pairwise fun first second =>
      first.stop ≤ second.BaseAddress := by
  rw [memRegion_eq, pairwise_map, FirstScan.gathered, pairwise_filterMap]
  have hsublist : ((scan.ahead space.regions).takeWhile
      scan.reaches).Sublist space.regions :=
    (takeWhile_sublist _).trans (dropWhile_sublist _)
  apply (space.regions_ordered.sublist hsublist).imp
  intro first second hle range hrange other hother
  have hfirst := eligible_bounds hrange
  have hsecond := eligible_bounds hother
  unfold MemScan.MemoryRegion.stop
  dsimp only
  omega

theorem memRegion_stop_le (space : AddressSpace) (scan : FirstScan) :
    ∀ region ∈ space.memRegion scan, region.stop ≤ scan.stopaddress := by
  rw [memRegion_eq]
  intro region hregion
  obtain ⟨range, hrange, rfl⟩ := mem_map.mp hregion
  obtain ⟨mbi, -, heligible⟩ := mem_filterMap.mp hrange
  exact (eligible_bounds heligible).2.trans (min_le_right _ _)

def memoryMap (space : AddressSpace) (scan : FirstScan) : MemoryMap where
  memregion := space.memRegion scan
  stopaddress := scan.stopaddress
  ordered := space.memRegion_ordered scan
  stop_le := space.memRegion_stop_le scan
  stopaddress_lt := scan.stop_lt

/-- The address space with bytes in it.  A first scan has no previous
values. -/
def target (space : AddressSpace) (memory : ℕ → UInt8) : Target where
  memory
  previous := fun _ _ => 0
  actualread := space.actualread
  actualread_le := space.actualread_le

end AddressSpace

/-- `fsmNotAligned` without a parameter, whatever alignment is asked for. -/
def fsmNotAligned : AlignedScan :=
  ⟨{ fastscanmethod := .fsmNotAligned
     fastscanparameter := []
     typesize := 1
     parameter_lt := by decide
     typesize_pos := Nat.one_pos
     typesize_lt := MemScan.one_lt_maxint }, by decide⟩

namespace Request

variable (request : Request)

def parameters : ScanParameters where
  buffersize := request.settings.bufsize * 1024
  variablesize := request.bytecount
  buffersize_pos := Nat.mul_pos request.settings.bufsize_pos (by decide)
  variablesize_pos := request.bytecount_pos
  variablesize_lt := request.bytecount_lt

def map (range : SearchRange) : MemoryMap :=
  request.process.space.memoryMap (onlyOneScan request range)

end Request

def getOnlyOneResult (request : Request) (range : SearchRange)
    (memory : ℕ → UInt8) (pattern : AobString request.bytecount) :
    Option (Option ℕ) :=
  MemScan.firstscanOnlyOne request.parameters fsmNotAligned.val
    (fun newvalue _ =>
      arrayOfByteExact (convertStringToBytes pattern.aobstring) newvalue)
    (request.process.space.target memory) (request.map range)

/-- An address as the `integer` result of `FinishAOBScan`, and that as a
`ptruint` again. -/
def throughInteger (address : ℕ) : ℕ :=
  ((address : ℤ).bmod (2 ^ 32) % 2 ^ 64).toNat

def finishAOBScan : Option ℕ → ℕ
  | none => 0
  | some x => throughInteger x

/-- `findaobInModule`, and `findaob` where the name is empty.  There is no
result when `FinishAOBScan` is called without a scan. -/
def findaobInModule (request : Request) (memory : ℕ → UInt8)
    (pattern : AobString request.bytecount) : Option ℕ := do
  let range ← request.searchRange
  let result ← getOnlyOneResult request range memory pattern
  some (finishAOBScan result)

/-- The pattern may be found at the address: it lies in the range and has the
alignment that is asked for, and all bytes of the pattern are in memory that
is to be scanned. -/
structure Requested (request : Request) (range : SearchRange)
    (address : ℕ) : Prop where
  min_le : range.minaddress ≤ address
  le_max : address + request.bytecount ≤ range.maxaddress
  aligned : request.alignment.selected address = true
  readable : ∀ i < request.bytecount,
    ∃ mbi ∈ request.process.space.regions, ∃ part,
      (request.requestedScan range).eligible mbi = some part ∧
        part.base ≤ address + i ∧ address + i < part.base + part.size

/-- The address is one that is asked for, and the pattern matches there. -/
def RealMatch (request : Request) (memory : ℕ → UInt8)
    (pattern : AobString request.bytecount) (address : ℕ) : Prop :=
  ∃ range, request.searchRange = some range ∧
    Requested request range address ∧
    Matches pattern.aobstring
      (MemScan.valueAt request.parameters memory address)

/-- The search returns 0 or a match, and finds one where there is one. -/
def FindsRealMatch (request : Request) (memory : ℕ → UInt8)
    (pattern : AobString request.bytecount) : Prop :=
  ∃ result, findaobInModule request memory pattern = some result ∧
    (result = 0 ∨ RealMatch request memory pattern result) ∧
    ((∃ address, RealMatch request memory pattern address) → result ≠ 0)

/-- What the layout needs.  Every address that is asked for is scanned.  An
address that is scanned is asked for and comes back unchanged, or it comes back
as 0 and is behind all that are asked for. -/
structure Suits (request : Request) (range : SearchRange) : Prop where
  scanned : ∀ address, Requested request range address →
    Scanned request.parameters request.process.space.actualread
      (request.map range) address
  kept : ∀ address,
    Scanned request.parameters request.process.space.actualread
      (request.map range) address →
    (Requested request range address ∧ address ≠ 0 ∧
      throughInteger address = address) ∨
    (2 ^ 32 ∣ address ∧
      ∀ other, Requested request range other → other < address)

section

variable {request : Request} {range : SearchRange} {memory : ℕ → UInt8}
  {pattern : AobString request.bytecount}

def ScannedMatch (request : Request) (range : SearchRange)
    (memory : ℕ → UInt8) (pattern : AobString request.bytecount)
    (address : ℕ) : Prop :=
  Scanned request.parameters request.process.space.actualread
      (request.map range) address ∧
    Matches pattern.aobstring
      (MemScan.valueAt request.parameters memory address)

theorem getOnlyOneResult_isFirst (request : Request) (range : SearchRange)
    (memory : ℕ → UInt8) (pattern : AobString request.bytecount) :
    ∃ result,
      getOnlyOneResult request range memory pattern = some result ∧
        IsFirst (ScannedMatch request range memory pattern) result := by
  obtain ⟨result, hresult, hfirst⟩ := @MemScan.firstscanOnlyOne_isFirst
    request.parameters fsmNotAligned (request.process.space.target memory)
    (request.map range)
    (fun newvalue _ => arrayOfByteExact
      (convertStringToBytes pattern.aobstring) newvalue) rfl
  refine ⟨result, hresult, ?_⟩
  convert hfirst using 2 with address
  exact and_congr_right' (arrayOfByteExact_iff _ _).symm

theorem throughInteger_eq_zero_iff (address : ℕ) :
    throughInteger address = 0 ↔ 2 ^ 32 ∣ address := by
  have hlow : -2 ^ 31 ≤ (address : ℤ).bmod (2 ^ 32) :=
    Int.le_bmod (by decide)
  have hhigh : (address : ℤ).bmod (2 ^ 32) < 2 ^ 31 :=
    Int.bmod_lt (by decide)
  have hdvd : (2 ^ 32 : ℤ) ∣ (address : ℤ).bmod (2 ^ 32) - address :=
    Int.dvd_bmod_sub_self
  unfold throughInteger
  omega

theorem findaobInModule_eq (hrange : request.searchRange = some range)
    {result : Option ℕ}
    (hresult : getOnlyOneResult request range memory pattern = some result) :
    findaobInModule request memory pattern =
      some (finishAOBScan result) := by
  rw [findaobInModule, hrange, Option.bind_eq_bind, Option.bind_some, hresult]
  rfl

theorem Suits.findsRealMatch (hsuits : Suits request range)
    (hrange : request.searchRange = some range) :
    FindsRealMatch request memory pattern := by
  obtain ⟨result, hresult, hfirst⟩ :=
    getOnlyOneResult_isFirst request range memory pattern
  refine ⟨_, findaobInModule_eq hrange hresult, ?_⟩
  cases result with
  | none =>
    refine ⟨.inl rfl, ?_⟩
    rintro ⟨address, other, hother, hrequested, hmatches⟩
    cases hrange.symm.trans hother
    exact absurd ⟨hsuits.scanned address hrequested, hmatches⟩ (hfirst address)
  | some address =>
    obtain ⟨⟨hscanned, hmatches⟩, hleast⟩ := hfirst
    rcases hsuits.kept address hscanned with
      ⟨hrequested, hne, hthrough⟩ | ⟨hdvd, hbehind⟩
    · rw [finishAOBScan, hthrough]
      exact ⟨.inr ⟨range, hrange, hrequested, hmatches⟩, fun _ => hne⟩
    · rw [finishAOBScan, (throughInteger_eq_zero_iff address).mpr hdvd]
      refine ⟨.inl rfl, ?_⟩
      rintro ⟨found, other, hother, hrequested, hfound⟩
      cases hrange.symm.trans hother
      have hless := hbehind found hrequested
      have hle : address ≤ found :=
        hleast ⟨hsuits.scanned found hrequested, hfound⟩
      omega

end

/-! ## Searches that show what is needed -/

section

variable {request : Request} {range : SearchRange}

def mark (request : Request) : AobString request.bytecount where
  aobstring := markText request.bytecount
  length_eq := length_convertStringToBytes_markText request.bytecount_pos

def marked (addresses : List ℕ) (address : ℕ) : UInt8 :=
  if address ∈ addresses then 1 else 0

theorem matches_mark_iff (addresses : List ℕ) (address : ℕ) :
    Matches (mark request).aobstring
        (MemScan.valueAt request.parameters (marked addresses) address) ↔
      address ∈ addresses := by
  obtain ⟨more, hmore⟩ : ∃ more, request.bytecount = more + 1 :=
    ⟨request.bytecount - 1, by have hpos := request.bytecount_pos; omega⟩
  have hvalue : MemScan.valueAt request.parameters (marked addresses)
      address = marked addresses address ::
        (List.range more).map fun i =>
          marked addresses (address + (i + 1)) := by
    unfold MemScan.valueAt Request.parameters
    dsimp only
    rw [hmore, range_succ_eq_map, map_cons, map_map]
    rfl
  rw [hvalue, mark, matches_markText, marked]
  split
  · rename_i hmem
    exact iff_of_true rfl hmem
  · rename_i hmem
    exact iff_of_false (by decide) hmem

section

variable (hrange : request.searchRange = some range)

include hrange

theorem realMatch_mark_iff (addresses : List ℕ) (address : ℕ) :
    RealMatch request (marked addresses) (mark request) address ↔
      Requested request range address ∧ address ∈ addresses := by
  unfold RealMatch
  constructor
  · rintro ⟨other, hother, hrequested, hmatches⟩
    cases hrange.symm.trans hother
    exact ⟨hrequested, (matches_mark_iff addresses address).mp hmatches⟩
  · rintro ⟨hrequested, hmem⟩
    exact ⟨range, hrange, hrequested,
      (matches_mark_iff addresses address).mpr hmem⟩

theorem findaobInModule_mark (addresses : List ℕ) :
    ∃ result,
      findaobInModule request (marked addresses) (mark request) =
        some (finishAOBScan result) ∧
      IsFirst (fun address =>
        Scanned request.parameters request.process.space.actualread
          (request.map range) address ∧ address ∈ addresses) result := by
  obtain ⟨result, hresult, hfirst⟩ := getOnlyOneResult_isFirst request range
    (marked addresses) (mark request)
  refine ⟨result, findaobInModule_eq hrange hresult, ?_⟩
  convert hfirst using 2 with address
  exact and_congr_right' (matches_mark_iff addresses address).symm

theorem suits_of_findsRealMatch
    (hfinds : ∀ memory pattern, FindsRealMatch request memory pattern) :
    Suits request range := by
  have hmark : ∀ addresses : List ℕ, ∃ result,
      IsFirst (fun address =>
        Scanned request.parameters request.process.space.actualread
          (request.map range) address ∧ address ∈ addresses) result ∧
      (finishAOBScan result = 0 ∨
        Requested request range (finishAOBScan result) ∧
          finishAOBScan result ∈ addresses) ∧
      ((∃ address, Requested request range address ∧
        address ∈ addresses) → finishAOBScan result ≠ 0) := by
    intro addresses
    obtain ⟨result, hresult, hfirst⟩ := findaobInModule_mark hrange addresses
    obtain ⟨value, hvalue, hreal, hnonzero⟩ :=
      hfinds (marked addresses) (mark request)
    cases hresult.symm.trans hvalue
    simp only [realMatch_mark_iff hrange] at hreal hnonzero
    exact ⟨result, hfirst, hreal, hnonzero⟩
  constructor
  · intro address hrequested
    obtain ⟨result, hfirst, -, hnonzero⟩ := hmark [address]
    cases result with
    | none =>
      exact absurd rfl
        (hnonzero ⟨address, hrequested, mem_singleton_self _⟩)
    | some found =>
      obtain ⟨⟨hscanned, hmem⟩, -⟩ := hfirst
      rwa [mem_singleton.mp hmem] at hscanned
  · intro address hscanned
    obtain ⟨result, hfirst, hreal, hnonzero⟩ := hmark [address]
    have hresult : result = some address := by
      cases result with
      | none => exact absurd ⟨hscanned, by simp⟩ (hfirst address)
      | some found => rw [mem_singleton.mp hfirst.1.2]
    rw [hresult, finishAOBScan] at hreal hnonzero
    by_cases hzero : throughInteger address = 0
    · refine .inr ⟨(throughInteger_eq_zero_iff address).mp hzero, ?_⟩
      intro other hother
      by_contra hle
      obtain ⟨both, hleast, -, hnot⟩ := hmark [address, other]
      have hboth : both = some address := by
        cases both with
        | none => exact absurd ⟨hscanned, by simp⟩ (hleast address)
        | some found =>
          have hfound := hleast.2 ⟨hscanned, by simp⟩
          rcases mem_pair.mp hleast.1.2 with rfl | rfl
          · rfl
          · exact congrArg some (le_antisymm hfound (not_lt.mp hle))
      rw [hboth, finishAOBScan] at hnot
      exact hnot ⟨other, hother, by simp⟩ hzero
    · obtain ⟨hrequested, hmem⟩ := hreal.resolve_left hzero
      have hsame := mem_singleton.mp hmem
      rw [hsame] at hrequested
      exact .inl ⟨hrequested, fun hnil => hzero (hsame.trans hnil), hsame⟩

end

/-- Every search is right if and only if the module is known and the layout
suits. -/
theorem findsRealMatch_iff (request : Request) :
    (∀ memory pattern, FindsRealMatch request memory pattern) ↔
      ∃ range, request.searchRange = some range ∧ Suits request range := by
  constructor
  · intro hfinds
    obtain ⟨result, hresult, -⟩ := hfinds (marked []) (mark request)
    obtain ⟨range, hrange, -⟩ := Option.bind_eq_some_iff.mp hresult
    exact ⟨range, hrange, suits_of_findsRealMatch hrange hfinds⟩
  · rintro ⟨range, hrange, hsuits⟩ memory pattern
    exact hsuits.findsRealMatch hrange

end

def pageAddress : ℕ := 0x100001000

def highPage : AddressSpace where
  regions :=
    [⟨0, pageAddress, 0x10000, MemScanRegions.pageNoaccess, 0⟩,
      FirstScan.writablePage pageAddress,
      ⟨0x100002000, 0x7ffeffffdfff, 0x10000,
        MemScanRegions.pageNoaccess, 0⟩]
  actualread := fun _ size => size
  contiguous := by
    simp [FirstScan.writablePage, FirstScan.page, pageAddress,
      MemoryBasicInformation.stop]
  size_pos := by decide
  size_lt := by decide
  inside := by decide
  first_base := by decide
  actualread_le := fun _ _ => le_rfl

def highSearch : Request where
  process :=
    { is64Bit := true
      is64bitOS := true
      modulelist := []
      space := highPage }
  settings :=
    { scanMemPrivate := true
      scanMemImage := true
      scanMemMapped := false
      useddbkquery := false
      bufsize := 512
      bufsize_pos := by decide
      bufsize_lt := by decide }
  modulename := []
  protectionflags := []
  alignment := fsmNotAligned.val
  bytecount := 1
  bytecount_pos := Nat.one_pos
  bytecount_lt := MemScan.one_lt_maxint

theorem highSearch_memregion :
    (highSearch.map highSearch.process.wholeRange).memregion =
      [⟨pageAddress, 0x1000⟩] := by
  decide

theorem highSearch_misses :
    ¬ FindsRealMatch highSearch (marked [pageAddress])
      (mark highSearch) := by
  have hrange : highSearch.searchRange =
      some highSearch.process.wholeRange := rfl
  have hscanned : Scanned highSearch.parameters
      highSearch.process.space.actualread
      (highSearch.map highSearch.process.wholeRange) pageAddress := by
    apply @MemScan.scanned_of_fits _ _ ⟨pageAddress, 0x1000⟩
    · rw [highSearch_memregion]
      exact mem_singleton_self _
    all_goals decide
  obtain ⟨found, hfound, hfirst⟩ :=
    findaobInModule_mark hrange [pageAddress]
  rintro ⟨result, hresult, hreal, -⟩
  cases hfound.symm.trans hresult
  cases found with
  | none => exact hfirst pageAddress ⟨hscanned, mem_singleton_self _⟩
  | some address =>
    obtain rfl := mem_singleton.mp hfirst.1.2
    have hlow : finishAOBScan (some pageAddress) = 0x1000 := by decide
    rw [hlow, realMatch_mark_iff hrange] at hreal
    rcases hreal with hzero | ⟨-, hmem⟩
    · exact absurd hzero (by decide)
    · exact absurd hmem (by decide)

end SimpleAobScanner
end CheatEngine
