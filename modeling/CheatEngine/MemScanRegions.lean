import Mathlib.Data.List.TakeWhile
import Mathlib.Tactic

/-!
# The regions of a first scan

`firstScan` walks through the regions of the process with `VirtualQueryEx`,
from `startaddress` to `stopaddress`, and collects those that are to be
scanned in `memRegion`.  A region next to the one before it is meant to be
appended to that one, so that a value over the border of both is found.
-/

namespace CheatEngine
namespace MemScanRegions

open List

structure MemoryBasicInformation where
  baseAddress : ℕ
  regionSize : ℕ
  state : UInt32
  protect : UInt32
  type : UInt32
deriving DecidableEq, Repr

def memCommit : UInt32 := 0x1000
def memPrivate : UInt32 := 0x20000
def memMapped : UInt32 := 0x40000
def memImage : UInt32 := 0x1000000
def pageNoaccess : UInt32 := 0x01
def pageReadwrite : UInt32 := 0x04
def pageWritecopy : UInt32 := 0x08
def pageExecute : UInt32 := 0x10
def pageExecuteRead : UInt32 := 0x20
def pageExecuteReadwrite : UInt32 := 0x40
def pageExecuteWritecopy : UInt32 := 0x80
def pageGuard : UInt32 := 0x100

inductive Inclusion
  | scanDontCare
  | scanExclude
  | scanInclude
deriving DecidableEq, Repr

namespace Inclusion

def permits : Inclusion → Bool → Bool
  | scanDontCare, _ => true
  | scanExclude, flag => !flag
  | scanInclude, flag => flag

end Inclusion

namespace MemoryBasicInformation

variable (mbi : MemoryBasicInformation)

def stop : ℕ :=
  mbi.baseAddress + mbi.regionSize

def hasProtection (flags : List UInt32) : Bool :=
  flags.any fun flag => mbi.protect &&& flag ≠ 0

def isWritable : Bool :=
  mbi.hasProtection
    [pageReadwrite, pageWritecopy, pageExecuteReadwrite,
      pageExecuteWritecopy]

def isExecutable : Bool :=
  mbi.hasProtection
    [pageExecute, pageExecuteRead, pageExecuteReadwrite,
      pageExecuteWritecopy]

def isCopyOnWrite : Bool :=
  mbi.hasProtection [pageWritecopy, pageExecuteWritecopy]

end MemoryBasicInformation

/-- The settings of the scan; `startaddress` is already aligned. -/
structure FirstScan where
  startaddress : ℕ
  stopaddress : ℕ
  scanMemPrivate : Bool
  scanMemImage : Bool
  scanMemMapped : Bool
  scanWritable : Inclusion
  scanExecutable : Inclusion
  scanCopyOnWrite : Inclusion
  useddbkquery : Bool
  stop_lt : stopaddress < 2 ^ 64

namespace FirstScan

variable (scan : FirstScan)

def validRegion (mbi : MemoryBasicInformation) : Bool :=
  mbi.state = memCommit &&
    mbi.baseAddress < scan.stopaddress &&
    !mbi.hasProtection [pageGuard] &&
    !mbi.hasProtection [pageNoaccess] &&
    !(!scan.scanMemPrivate && mbi.type = memPrivate) &&
    !(!scan.scanMemImage && mbi.type = memImage) &&
    !(!scan.scanMemMapped && mbi.type = memMapped) &&
    (!scan.useddbkquery || mbi.regionSize < 0x2ffffffff) &&
    scan.scanWritable.permits mbi.isWritable &&
    scan.scanExecutable.permits mbi.isExecutable &&
    scan.scanCopyOnWrite.permits mbi.isCopyOnWrite

structure MemoryRegion where
  baseAddress : ℕ
  memorySize : ℕ
  startaddress : ℕ
deriving DecidableEq, Repr

structure Gathering where
  currentBaseAddress : ℕ
  memRegion : List MemoryRegion
  totalProcessMemorySize : ℕ
deriving DecidableEq, Repr

def unusedEntry : MemoryRegion :=
  { baseAddress := 0, memorySize := 0, startaddress := 0 }

def clip (mbi : MemoryBasicInformation) : MemoryBasicInformation :=
  let mbi :=
    if mbi.baseAddress < scan.startaddress then
      { mbi with
        regionSize :=
          mbi.regionSize - (scan.startaddress - mbi.baseAddress)
        baseAddress := scan.startaddress }
    else
      mbi
  if scan.stopaddress ≤ (mbi.baseAddress + mbi.regionSize) % 2 ^ 64 then
    { mbi with regionSize := scan.stopaddress - mbi.baseAddress }
  else
    mbi

def newRegion (mbi : MemoryBasicInformation) (gathering : Gathering) :
    Gathering :=
  { currentBaseAddress := (mbi.baseAddress + mbi.regionSize) % 2 ^ 64
    memRegion := gathering.memRegion ++
      [{ baseAddress := mbi.baseAddress
         memorySize := mbi.regionSize
         startaddress := gathering.totalProcessMemorySize }]
    totalProcessMemorySize :=
      gathering.totalProcessMemorySize + mbi.regionSize }

/-- What is done with a region.  The size of the entry at `memRegionPos` is
added to the address of the entry before it. -/
def handle (mbi : MemoryBasicInformation) (gathering : Gathering) :
    Gathering :=
  if scan.validRegion mbi then
    match gathering.memRegion.getLast? with
    | none => newRegion mbi gathering
    | some last =>
      let unused := gathering.memRegion.getD gathering.memRegion.length
        unusedEntry
      if (last.baseAddress + unused.memorySize) % 2 ^ 64 =
          mbi.baseAddress then
        { gathering with
          memRegion := gathering.memRegion.dropLast ++
            [{ last with memorySize := last.memorySize + mbi.regionSize }]
          totalProcessMemorySize :=
            gathering.totalProcessMemorySize + mbi.regionSize }
      else
        newRegion mbi gathering
  else
    { gathering with
      currentBaseAddress := (mbi.baseAddress + mbi.regionSize) % 2 ^ 64 }

/-- `VirtualQueryEx`: the region with the address. -/
def virtualQueryEx (regions : List MemoryBasicInformation) (address : ℕ) :
    Option MemoryBasicInformation :=
  regions.find? fun mbi =>
    mbi.baseAddress ≤ address && address < mbi.stop

def gather (regions : List MemoryBasicInformation) :
    ℕ → Gathering → Option Gathering
  | 0, _ => none
  | turns + 1, gathering =>
    match virtualQueryEx regions gathering.currentBaseAddress with
    | none => some gathering
    | some mbi =>
      if gathering.currentBaseAddress < scan.stopaddress ∧
          gathering.currentBaseAddress <
            (gathering.currentBaseAddress + mbi.regionSize) % 2 ^ 64 then
        gather regions turns (scan.handle (scan.clip mbi) gathering)
      else
        some gathering

def initial : Gathering :=
  { currentBaseAddress := scan.startaddress
    memRegion := []
    totalProcessMemorySize := 0 }

def Ends (regions : List MemoryBasicInformation) (result : Gathering) :
    Prop :=
  ∃ turns, scan.gather regions turns scan.initial = some result

structure AddressRange where
  base : ℕ
  size : ℕ
deriving DecidableEq, Repr

def join : List AddressRange → List AddressRange
  | [] => []
  | range :: rest =>
    match join rest with
    | [] => [range]
    | next :: more =>
      if range.base + range.size = next.base then
        { range with size := range.size + next.size } :: more
      else
        range :: next :: more

def eligible (mbi : MemoryBasicInformation) : Option AddressRange :=
  let base := max mbi.baseAddress scan.startaddress
  let stop := min mbi.stop scan.stopaddress
  if base < stop ∧ scan.validRegion
      { mbi with baseAddress := base, regionSize := stop - base } then
    some { base, size := stop - base }
  else
    none

def totalSize (ranges : List AddressRange) : ℕ :=
  (ranges.map AddressRange.size).sum

def ranges (gathering : Gathering) : List AddressRange :=
  gathering.memRegion.map fun region =>
    ⟨region.baseAddress, region.memorySize⟩

/-- The loop ends, and has gathered the eligible regions, adjacent ones
joined, and their size. -/
def GathersExactly (regions : List MemoryBasicInformation) : Prop :=
  ∃ result, scan.Ends regions result ∧
    ranges result = join (regions.filterMap scan.eligible) ∧
    result.totalProcessMemorySize =
      totalSize (regions.filterMap scan.eligible)

/-! ## One region -/

/-- What `VirtualQueryEx` answers over the whole range, one region after the
other. -/
structure Covering (scan : FirstScan)
    (regions : List MemoryBasicInformation) : Prop where
  contiguous : regions.IsChain fun first second =>
    first.stop = second.baseAddress
  size_pos : ∀ mbi ∈ regions, 0 < mbi.regionSize
  size_lt : ∀ mbi ∈ regions, mbi.regionSize < 2 ^ 64
  inside : ∀ mbi ∈ regions, mbi.stop ≤ 2 ^ 64
  covers : ∀ first ∈ regions.head?, first.baseAddress ≤ scan.startaddress

def entry (mbi : MemoryBasicInformation) : ℕ :=
  max mbi.baseAddress scan.startaddress

def reaches (mbi : MemoryBasicInformation) : Bool :=
  scan.entry mbi < scan.stopaddress &&
    scan.entry mbi + mbi.regionSize < 2 ^ 64

variable {scan}

variable {mbi : MemoryBasicInformation} {gathering : Gathering}
  {before rest regions : List MemoryBasicInformation} {turns : ℕ}

theorem reaches_iff (hpos : 0 < mbi.regionSize)
    (hlt : mbi.regionSize < 2 ^ 64) (hstop : mbi.stop ≤ 2 ^ 64)
    (hentry : scan.entry mbi < mbi.stop) :
    scan.reaches mbi ↔
      scan.entry mbi < scan.stopaddress ∧
        scan.entry mbi < (scan.entry mbi + mbi.regionSize) % 2 ^ 64 := by
  rw [reaches, Bool.and_eq_true, decide_eq_true_eq, decide_eq_true_eq]
  apply and_congr_right
  intro _
  constructor
  · intro hfits
    rw [Nat.mod_eq_of_lt hfits]
    omega
  · intro hover
    by_contra hwrap
    have hmod : (scan.entry mbi + mbi.regionSize) % 2 ^ 64 =
        scan.entry mbi + mbi.regionSize - 2 ^ 64 := by
      rw [Nat.mod_eq_sub_mod (by omega), Nat.mod_eq_of_lt (by omega)]
    omega

theorem clip_eq (hreaches : scan.reaches mbi)
    (hentry : scan.entry mbi < mbi.stop) :
    scan.clip mbi =
      { mbi with
        baseAddress := scan.entry mbi
        regionSize := min mbi.stop scan.stopaddress - scan.entry mbi } := by
  rw [reaches, Bool.and_eq_true, decide_eq_true_eq, decide_eq_true_eq]
    at hreaches
  obtain ⟨hstop, hfits⟩ := hreaches
  unfold entry MemoryBasicInformation.stop at *
  unfold clip
  by_cases hbase : mbi.baseAddress < scan.startaddress
  · have hmax : max mbi.baseAddress scan.startaddress =
        scan.startaddress := max_eq_right (by omega)
    rw [hmax] at hstop hfits hentry ⊢
    simp only [if_pos hbase]
    have hmod : (scan.startaddress + (mbi.regionSize -
        (scan.startaddress - mbi.baseAddress))) % 2 ^ 64 =
          mbi.baseAddress + mbi.regionSize := by
      rw [Nat.mod_eq_of_lt (by omega)]
      omega
    rw [hmod]
    split
    · rw [min_eq_right (by omega)]
    · rw [min_eq_left (by omega), MemoryBasicInformation.mk.injEq]
      exact ⟨rfl, by omega, rfl, rfl, rfl⟩
  · have hmax : max mbi.baseAddress scan.startaddress =
        mbi.baseAddress := max_eq_left (by omega)
    rw [hmax] at hstop hfits hentry ⊢
    simp only [if_neg hbase, Nat.mod_eq_of_lt hfits]
    split
    · rw [min_eq_right (by omega)]
    · rw [min_eq_left (by omega), Nat.add_sub_cancel_left]

theorem handle_valid (hvalid : scan.validRegion mbi)
    (hlast : ∀ last ∈ gathering.memRegion.getLast?,
      last.baseAddress < mbi.baseAddress) (hbase : mbi.baseAddress < 2 ^ 64) :
    scan.handle mbi gathering = newRegion mbi gathering := by
  rw [handle, if_pos hvalid]
  cases hcase : gathering.memRegion.getLast? with
  | none => rfl
  | some last =>
    have hless := hlast last hcase
    have hunused : gathering.memRegion.getD gathering.memRegion.length
        unusedEntry = unusedEntry := by
      rw [getD_eq_getElem?_getD, getElem?_eq_none le_rfl, Option.getD_none]
    have hother : (last.baseAddress + (gathering.memRegion.getD
        gathering.memRegion.length unusedEntry).memorySize) % 2 ^ 64 ≠
          mbi.baseAddress := by
      rw [hunused, unusedEntry, Nat.add_zero, Nat.mod_eq_of_lt (by omega)]
      omega
    exact if_neg hother

theorem handle_clip (hreaches : scan.reaches mbi)
    (hentry : scan.entry mbi < mbi.stop)
    (hlast : ∀ last ∈ gathering.memRegion.getLast?,
      last.baseAddress < scan.entry mbi) :
    let next := scan.handle (scan.clip mbi) gathering
    next.currentBaseAddress = min mbi.stop scan.stopaddress ∧
      ranges next = ranges gathering ++ (scan.eligible mbi).toList ∧
      next.totalProcessMemorySize = gathering.totalProcessMemorySize +
        totalSize (scan.eligible mbi).toList ∧
      ∀ last ∈ next.memRegion.getLast?,
        last.baseAddress < min mbi.stop scan.stopaddress := by
  have hbounds := hreaches
  rw [reaches, Bool.and_eq_true, decide_eq_true_eq, decide_eq_true_eq]
    at hbounds
  have hless : scan.entry mbi < min mbi.stop scan.stopaddress :=
    lt_min hentry hbounds.1
  have hstop := scan.stop_lt
  have hmod : (scan.entry mbi +
      (min mbi.stop scan.stopaddress - scan.entry mbi)) % 2 ^ 64 =
        min mbi.stop scan.stopaddress := by
    rw [Nat.add_sub_cancel' hless.le]
    exact Nat.mod_eq_of_lt (min_lt_of_right_lt hstop)
  by_cases hvalid : scan.validRegion (scan.clip mbi)
  · have hhandle : scan.handle (scan.clip mbi) gathering =
        newRegion (scan.clip mbi) gathering := by
      apply handle_valid hvalid
      · rw [clip_eq hreaches hentry]
        exact hlast
      · rw [clip_eq hreaches hentry]
        exact hbounds.1.trans hstop
    rw [clip_eq hreaches hentry] at hvalid
    have heligible : scan.eligible mbi = some ⟨scan.entry mbi,
        min mbi.stop scan.stopaddress - scan.entry mbi⟩ :=
      if_pos ⟨hless, hvalid⟩
    rw [heligible, hhandle, clip_eq hreaches hentry]
    simp only [newRegion, hmod, ranges, map_append, map_singleton,
      Option.toList_some, totalSize, sum_singleton, getLast?_append,
      getLast?_singleton, Option.some_or, Option.mem_some_iff, true_and]
    rintro last rfl
    exact hless
  · have hhandle : scan.handle (scan.clip mbi) gathering =
        { gathering with
          currentBaseAddress := min mbi.stop scan.stopaddress } := by
      rw [handle, if_neg hvalid, clip_eq hreaches hentry, hmod]
    rw [clip_eq hreaches hentry] at hvalid
    have heligible : scan.eligible mbi = none :=
      if_neg fun hboth => hvalid hboth.2
    rw [heligible]
    simp only [hhandle, ranges, Option.toList_none, append_nil,
      totalSize, map_nil, sum_nil, Nat.add_zero, true_and]
    exact fun last hmem => (hlast last hmem).trans hless

/-! ## The whole loop -/

/-- The regions that the loop has not got to are found where it stands. -/
structure Ahead (scan : FirstScan)
    (before rest : List MemoryBasicInformation) (gathering : Gathering) :
    Prop where
  contiguous : rest.IsChain fun first second =>
    first.stop = second.baseAddress
  size_pos : ∀ mbi ∈ rest, 0 < mbi.regionSize
  size_lt : ∀ mbi ∈ rest, mbi.regionSize < 2 ^ 64
  inside : ∀ mbi ∈ rest, mbi.stop ≤ 2 ^ 64
  passed : gathering.currentBaseAddress < scan.stopaddress →
    ∀ mbi ∈ before, mbi.stop ≤ gathering.currentBaseAddress
  next : ∀ first ∈ rest.head?,
    (gathering.currentBaseAddress = scan.entry first ∧
        scan.entry first < first.stop) ∨
      (scan.stopaddress ≤ gathering.currentBaseAddress ∧
        scan.stopaddress ≤ first.baseAddress)
  last_lt : ∀ last ∈ gathering.memRegion.getLast?,
    last.baseAddress < gathering.currentBaseAddress

theorem virtualQueryEx_passed {address : ℕ}
    (hbefore : ∀ mbi ∈ before, mbi.stop ≤ address) :
    virtualQueryEx (before ++ rest) address = virtualQueryEx rest address := by
  have hnone : before.find? (fun mbi =>
      decide (mbi.baseAddress ≤ address) && decide (address < mbi.stop)) =
        none := by
    rw [find?_eq_none]
    intro mbi hmbi hfound
    have hstop := hbefore mbi hmbi
    rw [Bool.and_eq_true, decide_eq_true_eq, decide_eq_true_eq] at hfound
    omega
  rw [virtualQueryEx, find?_append, hnone, Option.none_or]
  rfl

theorem Ahead.tail (hahead : scan.Ahead before (mbi :: rest) gathering)
    (hreaches : scan.reaches mbi)
    (hcurrent : gathering.currentBaseAddress = scan.entry mbi)
    (hentry : scan.entry mbi < mbi.stop) :
    scan.Ahead (before ++ [mbi]) rest
      (scan.handle (scan.clip mbi) gathering) := by
  have hlast := hahead.last_lt
  rw [hcurrent] at hlast
  obtain ⟨hnext, -, -, hnextLast⟩ := handle_clip hreaches hentry hlast
  rw [reaches, Bool.and_eq_true, decide_eq_true_eq, decide_eq_true_eq]
    at hreaches
  refine ⟨hahead.contiguous.tail, fun other hother =>
    hahead.size_pos other (.tail _ hother), fun other hother =>
    hahead.size_lt other (.tail _ hother), fun other hother =>
    hahead.inside other (.tail _ hother), ?_, ?_, ?_⟩
  · rw [hnext]
    intro hrun other hother
    rcases mem_append.mp hother with hbefore | hlastRegion
    · have hpassed := hahead.passed (hcurrent ▸ hreaches.1) other hbefore
      omega
    · rw [mem_singleton.mp hlastRegion]
      omega
  · intro first hfirst
    have hborder : mbi.stop = first.baseAddress := by
      have hcontiguous := hahead.contiguous
      cases rest with
      | nil => cases hfirst
      | cons second more =>
        obtain rfl : second = first := Option.some.inj hfirst
        exact (isChain_cons_cons.mp hcontiguous).1
    have hsize := hahead.size_pos first (.tail _ (mem_of_head? hfirst))
    rw [hnext]
    unfold entry MemoryBasicInformation.stop at *
    omega
  · rw [hnext]
    exact hnextLast

theorem gather_done
    (hdone : ∀ mbi, virtualQueryEx regions gathering.currentBaseAddress =
      some mbi → ¬ (gathering.currentBaseAddress < scan.stopaddress ∧
        gathering.currentBaseAddress <
          (gathering.currentBaseAddress + mbi.regionSize) % 2 ^ 64)) :
    scan.gather regions (turns + 1) gathering = some gathering := by
  rw [gather]
  cases hquery : virtualQueryEx regions gathering.currentBaseAddress with
  | none => rfl
  | some mbi => exact if_neg (hdone mbi hquery)

theorem Ahead.not_reaches (hahead : scan.Ahead before rest gathering)
    (hdone : ¬ gathering.currentBaseAddress < scan.stopaddress) :
    rest.takeWhile scan.reaches = [] := by
  cases rest with
  | nil => rfl
  | cons mbi rest =>
    apply takeWhile_cons_of_neg
    intro hreaches
    rw [reaches, Bool.and_eq_true, decide_eq_true_eq] at hreaches
    rcases hahead.next mbi rfl with ⟨hcurrent, -⟩ | ⟨-, hbase⟩
    · rw [hcurrent] at hdone
      exact hdone hreaches.1
    · have hle : mbi.baseAddress ≤ scan.entry mbi := le_max_left ..
      omega

theorem gather_eq (hturns : rest.length < turns)
    (hahead : scan.Ahead before rest gathering) :
    ∃ result, scan.gather (before ++ rest) turns gathering = some result ∧
      ranges result = ranges gathering ++
        (rest.takeWhile scan.reaches).filterMap scan.eligible ∧
      result.totalProcessMemorySize = gathering.totalProcessMemorySize +
        totalSize ((rest.takeWhile scan.reaches).filterMap
          scan.eligible) := by
  obtain ⟨turns, rfl⟩ : ∃ more, turns = more + 1 :=
    ⟨turns - 1, by omega⟩
  induction rest generalizing before gathering turns with
  | nil =>
    refine ⟨gathering, gather_done ?_, (append_nil _).symm, rfl⟩
    intro mbi hquery hrun
    rw [virtualQueryEx_passed (hahead.passed hrun.1)] at hquery
    cases hquery
  | cons mbi rest ih =>
    by_cases hrun : gathering.currentBaseAddress < scan.stopaddress
    · obtain ⟨hcurrent, hentry⟩ : gathering.currentBaseAddress =
          scan.entry mbi ∧ scan.entry mbi < mbi.stop := by
        rcases hahead.next mbi rfl with hnext | ⟨hdone, -⟩
        · exact hnext
        · omega
      have hquery : virtualQueryEx (before ++ mbi :: rest)
          gathering.currentBaseAddress = some mbi := by
        rw [virtualQueryEx_passed (hahead.passed hrun), hcurrent,
          virtualQueryEx, find?_cons_of_pos]
        rw [Bool.and_eq_true, decide_eq_true_eq, decide_eq_true_eq]
        exact ⟨le_max_left .., hentry⟩
      have hiff := reaches_iff (hahead.size_pos mbi (mem_cons_self ..))
        (hahead.size_lt mbi (mem_cons_self ..))
        (hahead.inside mbi (mem_cons_self ..)) hentry
      by_cases hreaches : scan.reaches mbi
      · have hlast := hahead.last_lt
        rw [hcurrent] at hlast
        obtain ⟨-, hranges, htotal, -⟩ := handle_clip hreaches hentry hlast
        obtain ⟨turns, rfl⟩ : ∃ more, turns = more + 1 :=
          ⟨turns - 1, by rw [length_cons] at hturns; omega⟩
        obtain ⟨result, hresult, hresultRanges, hresultTotal⟩ :=
          ih (hahead.tail hreaches hcurrent hentry) turns
            (by rw [length_cons] at hturns; omega)
        refine ⟨result, ?_, ?_, ?_⟩
        · rw [gather, hquery]
          simp only [hcurrent, if_pos (hiff.mp hreaches)]
          rw [append_assoc, singleton_append] at hresult
          exact hresult
        · rw [hresultRanges, hranges, takeWhile_cons_of_pos hreaches,
            append_assoc]
          congr 1
          cases heligible : scan.eligible mbi <;>
            simp [heligible]
        · rw [hresultTotal, htotal, takeWhile_cons_of_pos hreaches]
          cases heligible : scan.eligible mbi <;>
            simp [heligible, totalSize]
          omega
      · refine ⟨gathering, gather_done ?_, ?_, ?_⟩
        · intro other hother hboth
          obtain rfl : mbi = other := Option.some.inj (hquery ▸ hother)
          rw [hcurrent] at hboth
          exact hreaches (hiff.mpr hboth)
        · rw [takeWhile_cons_of_neg hreaches]
          exact (append_nil _).symm
        · rw [takeWhile_cons_of_neg hreaches]
          rfl
    · refine ⟨gathering, gather_done fun _ _ hboth => hrun hboth.1, ?_, ?_⟩
      · rw [hahead.not_reaches hrun]
        exact (append_nil _).symm
      · rw [hahead.not_reaches hrun]
        rfl

theorem gather_succ {result : Gathering}
    (hresult : scan.gather regions turns gathering = some result) :
    scan.gather regions (turns + 1) gathering = some result := by
  induction turns generalizing gathering with
  | zero => cases hresult
  | succ turns ih =>
    rw [gather] at hresult ⊢
    cases hquery : virtualQueryEx regions gathering.currentBaseAddress with
    | none =>
      rw [hquery] at hresult
      exact hresult
    | some mbi =>
      simp only [hquery] at hresult ⊢
      split at hresult
      · rename_i hgo
        rw [if_pos hgo]
        exact ih hresult
      · rename_i hdone
        rw [if_neg hdone]
        exact hresult

theorem gather_le {more : ℕ} {result : Gathering} (hle : turns ≤ more)
    (hresult : scan.gather regions turns gathering = some result) :
    scan.gather regions more gathering = some result := by
  induction hle with
  | refl => exact hresult
  | step _ ih => exact gather_succ ih

theorem ends_unique {first second : Gathering}
    (hfirst : scan.Ends regions first) (hsecond : scan.Ends regions second) :
    first = second := by
  obtain ⟨turns, hfirst⟩ := hfirst
  obtain ⟨more, hsecond⟩ := hsecond
  have hmax := gather_le (le_max_left turns more) hfirst
  rw [gather_le (le_max_right turns more) hsecond] at hmax
  exact (Option.some.inj hmax).symm

def ahead (scan : FirstScan) (regions : List MemoryBasicInformation) :
    List MemoryBasicInformation :=
  regions.dropWhile fun mbi => mbi.stop ≤ scan.startaddress

/-- The regions from the first one on that the loop does not go on with. -/
def unreached (scan : FirstScan) (regions : List MemoryBasicInformation) :
    List MemoryBasicInformation :=
  (scan.ahead regions).dropWhile scan.reaches

def gathered (scan : FirstScan) (regions : List MemoryBasicInformation) :
    List AddressRange :=
  ((scan.ahead regions).takeWhile scan.reaches).filterMap scan.eligible

theorem passed_of_mem
    (hmbi : mbi ∈ regions.takeWhile fun mbi => mbi.stop ≤ scan.startaddress) :
    mbi.stop ≤ scan.startaddress := by
  have hpassed := mem_takeWhile_imp hmbi
  exact of_decide_eq_true hpassed

theorem Covering.ahead_initial (hcovering : scan.Covering regions) :
    scan.Ahead (regions.takeWhile fun mbi => mbi.stop ≤ scan.startaddress)
      (scan.ahead regions) scan.initial := by
  have hsublist := dropWhile_sublist
    (fun mbi : MemoryBasicInformation =>
      decide (mbi.stop ≤ scan.startaddress)) (l := regions)
  have hsplit := @takeWhile_append_dropWhile _
    (fun mbi : MemoryBasicInformation =>
      decide (mbi.stop ≤ scan.startaddress)) regions
  have hcontiguous := hcovering.contiguous
  rw [← hsplit, isChain_append] at hcontiguous
  refine ⟨hcontiguous.2.1,
    fun mbi hmbi => hcovering.size_pos mbi (hsublist.subset hmbi),
    fun mbi hmbi => hcovering.size_lt mbi (hsublist.subset hmbi),
    fun mbi hmbi => hcovering.inside mbi (hsublist.subset hmbi),
    fun _ mbi hmbi => passed_of_mem hmbi, ?_,
    fun last hlast => nomatch hlast⟩
  intro first hfirst
  have hstop := head?_dropWhile_not
    (fun mbi : MemoryBasicInformation =>
      decide (mbi.stop ≤ scan.startaddress)) regions
  rw [ahead, Option.mem_def] at hfirst
  simp only [hfirst, decide_eq_false_iff_not, not_le] at hstop
  have hbase : first.baseAddress ≤ scan.startaddress := by
    cases hlast : (regions.takeWhile fun mbi : MemoryBasicInformation =>
        decide (mbi.stop ≤ scan.startaddress)).getLast? with
    | none =>
      rw [getLast?_eq_none_iff] at hlast
      rw [hlast, nil_append] at hsplit
      rw [hsplit] at hfirst
      exact hcovering.covers first hfirst
    | some last =>
      have hborder := hcontiguous.2.2 last hlast first hfirst
      have hpassed := passed_of_mem (mem_of_getLast? hlast)
      omega
  have hentry : scan.entry first = scan.startaddress := max_eq_right hbase
  exact .inl ⟨hentry.symm, hentry ▸ hstop⟩

theorem eligible_passed (hstop : mbi.stop ≤ scan.startaddress) :
    scan.eligible mbi = none := by
  apply if_neg
  rintro ⟨hless, -⟩
  omega

theorem filterMap_eligible (regions : List MemoryBasicInformation) :
    regions.filterMap scan.eligible =
      scan.gathered regions ++
        (scan.unreached regions).filterMap scan.eligible := by
  have hpassed : (regions.takeWhile fun mbi =>
      mbi.stop ≤ scan.startaddress).filterMap scan.eligible = [] := by
    rw [filterMap_eq_nil_iff]
    intro mbi hmbi
    exact eligible_passed (passed_of_mem hmbi)
  conv_lhs =>
    rw [← @takeWhile_append_dropWhile _ (fun mbi =>
      decide (mbi.stop ≤ scan.startaddress)) regions, filterMap_append,
      hpassed, nil_append]
  rw [gathered, unreached, ← filterMap_append,
    takeWhile_append_dropWhile, ahead]

theorem Covering.ends (hcovering : scan.Covering regions) :
    ∃ result, scan.Ends regions result ∧
      ranges result = scan.gathered regions ∧
      result.totalProcessMemorySize = totalSize (scan.gathered regions) := by
  obtain ⟨result, hresult, hranges, htotal⟩ :=
    gather_eq (Nat.lt_succ_self _) hcovering.ahead_initial
  rw [ahead, takeWhile_append_dropWhile] at hresult
  exact ⟨result, ⟨_, hresult⟩, hranges, htotal.trans (Nat.zero_add _)⟩

theorem eligible_size_pos {range : AddressRange}
    (heligible : scan.eligible mbi = some range) :
    0 < range.size := by
  unfold eligible at heligible
  simp only at heligible
  split at heligible
  · rename_i hboth
    obtain rfl := Option.some.inj heligible
    exact Nat.sub_pos_of_lt hboth.1
  · cases heligible

theorem totalSize_append (left right : List AddressRange) :
    totalSize (left ++ right) = totalSize left + totalSize right := by
  rw [totalSize, map_append, sum_append]
  rfl

def NoneAdjacent (ranges : List AddressRange) : Prop :=
  ranges.IsChain fun first second => first.base + first.size ≠ second.base

theorem length_join_le (ranges : List AddressRange) :
    (join ranges).length ≤ ranges.length := by
  induction ranges with
  | nil => exact le_rfl
  | cons range rest ih =>
    rw [join]
    cases hjoin : join rest with
    | nil => exact Nat.succ_le_succ (Nat.zero_le _)
    | cons next more =>
      rw [hjoin, length_cons] at ih
      dsimp only
      split
      · rw [length_cons, length_cons]
        omega
      · simp only [length_cons]
        omega

theorem join_eq_self_iff (ranges : List AddressRange) :
    join ranges = ranges ↔ NoneAdjacent ranges := by
  induction ranges with
  | nil => exact iff_of_true rfl isChain_nil
  | cons range rest ih =>
    have hlength := length_join_le rest
    cases rest with
    | nil => exact iff_of_true rfl (isChain_singleton range)
    | cons next more =>
      rw [NoneAdjacent, isChain_cons_cons, ← NoneAdjacent, ← ih, join]
      constructor
      · intro hself
        cases hjoin : join (next :: more) with
        | nil =>
          rw [hjoin] at hself
          cases hself
        | cons first others =>
          rw [hjoin, length_cons, length_cons] at hlength
          rw [hjoin] at hself
          dsimp only at hself
          split at hself
          · have hothers := (List.cons.inj hself).2
            rw [hothers, length_cons] at hlength
            omega
          · rename_i hborder
            have hnext := (List.cons.inj hself).2
            rw [(List.cons.inj hnext).1] at hborder
            exact ⟨hborder, hnext⟩
      · rintro ⟨hborder, hjoin⟩
        rw [hjoin]
        exact if_neg hborder

theorem totalSize_unreached :
    totalSize ((scan.unreached regions).filterMap scan.eligible) = 0 ↔
      ∀ mbi ∈ scan.unreached regions, scan.eligible mbi = none := by
  rw [totalSize, sum_eq_zero_iff, ← filterMap_eq_nil_iff]
  constructor
  · intro hzero
    apply eq_nil_iff_forall_not_mem.mpr
    intro range hrange
    obtain ⟨mbi, -, heligible⟩ := mem_filterMap.mp hrange
    have hpos := eligible_size_pos heligible
    have hsize := hzero range.size (mem_map_of_mem hrange)
    omega
  · intro hnil size hsize
    rw [hnil] at hsize
    cases hsize

theorem gathersExactly_iff_join (hcovering : scan.Covering regions) :
    scan.GathersExactly regions ↔
      scan.gathered regions = join (regions.filterMap scan.eligible) ∧
        totalSize (scan.gathered regions) =
          totalSize (regions.filterMap scan.eligible) := by
  obtain ⟨result, hends, hranges, htotal⟩ := hcovering.ends
  rw [← htotal, ← hranges]
  constructor
  · rintro ⟨other, hother, hexact⟩
    rw [ends_unique hends hother]
    exact hexact
  · exact fun hexact => ⟨result, hends, hexact⟩

/-- The loop gathers what it should if and only if no two eligible regions
are next to each other, and none of them is behind an overflow. -/
theorem gathersExactly_iff {regions : List MemoryBasicInformation}
    (hcovering : scan.Covering regions) :
    scan.GathersExactly regions ↔
      NoneAdjacent (regions.filterMap scan.eligible) ∧
        ∀ mbi ∈ scan.unreached regions, scan.eligible mbi = none := by
  have hsplit := @filterMap_eligible scan regions
  rw [gathersExactly_iff_join hcovering, ← totalSize_unreached]
  constructor
  · rintro ⟨hjoin, hsize⟩
    rw [hsplit, totalSize_append] at hsize
    have hzero : totalSize ((scan.unreached regions).filterMap
        scan.eligible) = 0 := by omega
    have hnil := filterMap_eq_nil_iff.mpr (totalSize_unreached.mp hzero)
    rw [hsplit, hnil, append_nil] at hjoin ⊢
    exact ⟨(join_eq_self_iff _).mp hjoin.symm, rfl⟩
  · rintro ⟨hnone, hzero⟩
    have hnil := filterMap_eq_nil_iff.mpr (totalSize_unreached.mp hzero)
    rw [hsplit, hnil, append_nil] at hnone ⊢
    exact ⟨((join_eq_self_iff _).mpr hnone).symm, rfl⟩

def everything : FirstScan :=
  { startaddress := 0x10000
    stopaddress := 0x12000
    scanMemPrivate := true
    scanMemImage := true
    scanMemMapped := true
    scanWritable := .scanDontCare
    scanExecutable := .scanDontCare
    scanCopyOnWrite := .scanDontCare
    useddbkquery := false
    stop_lt := by decide }

def page (baseAddress : ℕ) (state protect type : UInt32) :
    MemoryBasicInformation :=
  { baseAddress, regionSize := 0x1000, state, protect, type }

def writablePage (baseAddress : ℕ) : MemoryBasicInformation :=
  page baseAddress memCommit pageReadwrite memPrivate

theorem gap_gathersExactly :
    everything.GathersExactly
      [writablePage 0x10000, page 0x11000 0x10000 pageNoaccess 0,
        writablePage 0x12000] :=
  (gathersExactly_iff
    ⟨by simp [writablePage, page, MemoryBasicInformation.stop],
      by decide, by decide, by decide, by decide⟩).mpr
        ⟨isChain_singleton (⟨0x10000, 0x1000⟩ : AddressRange), by decide⟩

theorem adjacent_not_gathersExactly :
    ¬ everything.GathersExactly
      [writablePage 0x10000,
        page 0x11000 memCommit pageExecuteRead memImage] := by
  have hcovering : everything.Covering
      [writablePage 0x10000,
        page 0x11000 memCommit pageExecuteRead memImage] :=
    ⟨by simp [writablePage, page, MemoryBasicInformation.stop],
      by decide, by decide, by decide, by decide⟩
  rw [gathersExactly_iff_join hcovering]
  decide

end FirstScan

end MemScanRegions
end CheatEngine
