import CheatEngine.MemScanFirstScan
import Mathlib.Order.Bounds.Basic

/-!
# A scan for one result

With `OnlyOne` a first scan has a single thread, which stops at the first
match.  The address of that match is the least one at which a whole value was
read and matches.
-/

namespace CheatEngine.MemScan

open List

section

variable (parameters : ScanParameters) (fast : FastScan)
  (checkroutine : List UInt8 → List UInt8 → Bool) (target : Target)

/-- `FirstScanmem` leaves the loop with `AddressFound` at the first match. -/
def scanmemOnlyOne (chunk : Chunk) : Option (Option ℕ) :=
  let size : ℤ :=
    (target.actualread chunk.base chunk.requested : ℤ).bmod (2 ^ 32)
  (positions fast.stepsize (size - parameters.variablesize)
      fast.firstoffset).map fun visited =>
    (visited.find? (isMatch parameters checkroutine target false chunk)).map
      fun p => chunk.base + p.toNat

/-- `if (OnlyOne and (found>0)) then exit` after each chunk. -/
def scanChunksOnlyOne : List Chunk → Option (Option ℕ)
  | [] => some none
  | chunk :: rest => do
      match ← scanmemOnlyOne parameters fast checkroutine target chunk with
      | some addressFound => some (some addressFound)
      | none => scanChunksOnlyOne rest

def firstscanOnlyOne (map : MemoryMap) : Option (Option ℕ) :=
  scanChunksOnlyOne parameters fast checkroutine target
    (allFirstscanChunks parameters map 1)

/-- The whole value at the address is in what is read of some chunk. -/
def Scanned (actualread : ℕ → ℕ → ℕ) (map : MemoryMap) (address : ℕ) :
    Prop :=
  ∃ chunk ∈ allFirstscanChunks parameters map 1,
    chunk.base ≤ address ∧
      (address : ℤ) + parameters.variablesize ≤
        chunk.base +
          (actualread chunk.base chunk.requested : ℤ).bmod (2 ^ 32)

end

/-- The result is the least address with the property, if there is one. -/
def IsFirst (property : ℕ → Prop) : Option ℕ → Prop
  | none => ∀ address, ¬ property address
  | some first => IsLeast {address | property address} first

section

variable {parameters : ScanParameters} {fast : FastScan}
  {checkroutine : List UInt8 → List UInt8 → Bool} {target : Target}

theorem scanmemOnlyOne_eq (chunk : Chunk) :
    scanmemOnlyOne parameters fast checkroutine target chunk =
      (scanmem parameters fast checkroutine target false chunk).map
        List.head? := by
  rw [scanmemOnlyOne, scanmem, Option.map_map]
  apply Option.map_congr
  intro visited _
  rw [Function.comp_apply, head?_map, head?_filter]

theorem scanChunksOnlyOne_eq {list : List Chunk} {stored : List ℕ}
    (hstored : scanChunks parameters fast checkroutine target false list =
      some stored) :
    scanChunksOnlyOne parameters fast checkroutine target list =
      some stored.head? := by
  induction list generalizing stored with
  | nil =>
    cases hstored
    rfl
  | cons chunk rest ih =>
    rw [scanChunks] at hstored
    obtain ⟨found, hfound, hthen⟩ := Option.bind_eq_some_iff.mp hstored
    obtain ⟨later, hlater, hboth⟩ := Option.bind_eq_some_iff.mp hthen
    obtain rfl : found ++ later = stored := Option.some.inj hboth
    rw [scanChunksOnlyOne, scanmemOnlyOne_eq, hfound, head?_append]
    cases found with
    | nil => exact ih hlater
    | cons first more => rfl

theorem isFirst_head {list : List ℕ} {property : ℕ → Prop}
    (hsorted : list.Pairwise (· < ·))
    (hmem : ∀ address, address ∈ list ↔ property address) :
    IsFirst property list.head? := by
  cases list with
  | nil =>
    intro address hproperty
    exact not_mem_nil ((hmem address).mpr hproperty)
  | cons first rest =>
    refine ⟨(hmem first).mp (mem_cons_self ..), ?_⟩
    intro address hproperty
    rcases mem_cons.mp ((hmem address).mpr hproperty) with rfl | hrest
    · exact le_rfl
    · exact ((pairwise_cons.mp hsorted).1 address hrest).le

end

section

variable {parameters : ScanParameters} {map : MemoryMap}

theorem partsExact_one (map : MemoryMap) :
    PartsExact (firstScanWork map 1) 1 := by
  apply partsExact_of_everyCutFits
  intro index hindex
  omega

theorem bytes_sorted (map : MemoryMap) : map.bytes.Pairwise (· < ·) := by
  rw [MemoryMap.bytes, pairwise_flatMap]
  refine ⟨fun region _ => pairwise_lt_range', ?_⟩
  apply map.ordered.imp
  intro first second hle address hfirst other hother
  rw [MemoryRegion.bytes, mem_range'_1] at hfirst hother
  unfold MemoryRegion.stop at hle
  omega

theorem chunks_sorted (parameters : ScanParameters) (map : MemoryMap) :
    (allFirstscanChunks parameters map 1).Pairwise fun first second =>
      ∀ address ∈ List.range' first.base first.size,
        ∀ other ∈ List.range' second.base second.size, address < other := by
  have hexact := partsExact_one map
  have hsorted := bytes_sorted map
  have hbytes := hexact.bytes
  change _ = map.bytes at hbytes
  rw [← hbytes, pairwise_flatMap] at hsorted
  have hranges : ((allFirstscanChunks parameters map 1).flatMap
      fun chunk => List.range' chunk.base chunk.size).Pairwise
        (· < ·) := by
    rw [hexact.ranges_eq, pairwise_flatMap]
    refine ⟨fun part _ => pairwise_lt_range', ?_⟩
    apply hsorted.2.imp
    intro first second hless address haddress other hother
    rw [mem_range'_1] at haddress hother
    have hfirst : first.reach (firstScanWork map 1) ≤ _ :=
      Nat.min_le_left _ _
    have hsecond : second.reach (firstScanWork map 1) ≤ _ :=
      Nat.min_le_left _ _
    exact hless address (mem_range'_1.mpr (by omega)) other
      (mem_range'_1.mpr (by omega))
  exact (pairwise_flatMap.mp hranges).2

theorem part_start {part : Part}
    (hpart : part ∈ (firstScanWork map 1).parts 1) :
    part.start (firstScanWork map 1) =
      (part.region (firstScanWork map 1)).BaseAddress := by
  obtain ⟨scanner, hscanner, hin⟩ := mem_flatMap.mp hpart
  obtain ⟨index, -, rfl⟩ := mem_map.mp hin
  obtain rfl := mem_singleton.mp hscanner
  have hinside := (partsExact_one map).inside _ hpart
  have hlt := hinside.stop_lt
  unfold Part.start Scanner.currentbase
  split
  · rename_i hfirst
    obtain rfl : index = 0 := hfirst
    have hbase : (Part.region (firstScanWork map 1)
        ⟨(firstScanWork map 1).lastScanner ⟨0, 0⟩, 0⟩).BaseAddress <
          2 ^ 64 := (Nat.le_add_right _ _).trans_lt hlt
    exact Nat.mod_eq_of_lt hbase
  · rfl

theorem part_stop {part : Part}
    (hpart : part ∈ (firstScanWork map 1).parts 1) :
    part.stop (firstScanWork map 1) =
      (part.region (firstScanWork map 1)).stop := by
  obtain ⟨scanner, hscanner, hin⟩ := mem_flatMap.mp hpart
  obtain ⟨index, -, rfl⟩ := mem_map.mp hin
  obtain rfl := mem_singleton.mp hscanner
  have hinside := (partsExact_one map).inside _ hpart
  have hstop := map.stop_le _ hinside.mem
  exact if_neg fun hboth => absurd hboth.2 (not_lt.mpr hstop)

theorem exists_part {region : MemoryRegion}
    (hregion : region ∈ map.memregion) :
    ∃ part ∈ (firstScanWork map 1).parts 1,
      part.region (firstScanWork map 1) = region := by
  obtain ⟨index, hindex, rfl⟩ := getElem_of_mem hregion
  refine ⟨⟨(firstScanWork map 1).lastScanner ⟨0, 0⟩, index⟩, ?_,
    (firstScanWork map 1).region_eq_getElem hindex⟩
  rw [Workload.parts, mem_flatMap]
  refine ⟨_, mem_singleton_self _, mem_map_of_mem ?_⟩
  rw [Scanner.regionIndices, mem_range'_1]
  have hcount : (firstScanWork map 1).memregionpos =
      map.memregion.length := rfl
  unfold Workload.lastScanner
  dsimp only
  omega

/-- A value inside of a region is scanned when the region fits into the buffer
and is read. -/
theorem scanned_of_fits {region : MemoryRegion} {address : ℕ}
    {actualread : ℕ → ℕ → ℕ} (hregion : region ∈ map.memregion)
    (hbuffer : region.MemorySize ≤ parameters.buffersize)
    (hsize : region.MemorySize < 2 ^ 31)
    (hread : actualread region.BaseAddress region.MemorySize =
      region.MemorySize) (hbase : region.BaseAddress ≤ address)
    (hstop : address + parameters.variablesize ≤ region.stop) :
    Scanned parameters actualread map address := by
  obtain ⟨part, hpart, rfl⟩ := exists_part hregion
  have hreach : part.reach (firstScanWork map 1) =
      (part.region (firstScanWork map 1)).MemorySize := by
    rw [Part.reach, part_start hpart, part_stop hpart, MemoryRegion.stop,
      Nat.add_sub_cancel_left, Nat.mod_eq_of_lt (by omega), Nat.min_self]
  refine ⟨⟨part.index, (part.region (firstScanWork map 1)).BaseAddress,
    (part.region (firstScanWork map 1)).MemorySize,
    (part.region (firstScanWork map 1)).MemorySize⟩, ?_, hbase, ?_⟩
  · rw [(partsExact_one map).chunks_eq, mem_flatMap]
    refine ⟨part, hpart, ?_⟩
    rw [Part.chunks, hreach, part_start hpart, chunks,
      if_neg (not_lt.mpr hbuffer)]
    exact mem_singleton_self _
  · dsimp only
    rw [hread, bmod_of_lt hsize]
    unfold MemoryRegion.stop at hstop
    omega

end

section

variable {parameters : ScanParameters} {fast : AlignedScan}
  {target : Target} {map : MemoryMap}
  {checkroutine : List UInt8 → List UInt8 → Bool}

theorem exists_stored (hstep : fast.val.stepsize = 1) :
    ∃ stored,
      scanChunks parameters fast.val checkroutine
          target false (allFirstscanChunks parameters map 1) =
        some stored ∧
      stored.Pairwise (· < ·) ∧
      ∀ address, address ∈ stored ↔
        Scanned parameters target.actualread map address ∧
          isMatchAt parameters checkroutine target address = true := by
  have hall : ∀ chunk : Chunk, ∃ found,
      scanmem parameters fast.val checkroutine target
        false chunk = some found := fun chunk =>
    exists_scanmem fun _ => by rw [hstep]; exact Int.one_pos
  choose found hfound using hall
  have hstores := fun chunk => scanmem_stores (hfound chunk)
  refine ⟨_, scanChunks_eq_some fun chunk _ => hfound chunk, ?_, ?_⟩
  · rw [pairwise_flatMap]
    refine ⟨fun chunk _ => (hstores chunk).sorted, ?_⟩
    apply (chunks_sorted parameters map).imp_of_mem
    intro first second hfirst hsecond hless address haddress other hother
    obtain ⟨_, _, _, hfirstOf⟩ := (partsExact_one map).chunkOf hfirst
    obtain ⟨_, _, _, hsecondOf⟩ := (partsExact_one map).chunkOf hsecond
    exact hless address ((hstores first).mem_range hfirstOf haddress) other
      ((hstores second).mem_range hsecondOf hother)
  · intro address
    rw [mem_flatMap]
    constructor
    · rintro ⟨chunk, hchunk, haddress⟩
      obtain ⟨q, rfl, hle, -, hmatch⟩ :=
        ((hstores chunk).mem_iff address).mp haddress
      unfold lastOffset at hle
      exact ⟨⟨chunk, hchunk, Nat.le_add_right _ _, by omega⟩, hmatch⟩
    · rintro ⟨⟨chunk, hchunk, hbase, hlast⟩, hmatch⟩
      refine ⟨chunk, hchunk, ((hstores chunk).mem_iff address).mpr
        ⟨address - chunk.base, by omega, ?_, ?_, hmatch⟩⟩
      · unfold lastOffset
        omega
      · rw [hstep]
        exact one_dvd _

theorem firstscanOnlyOne_isFirst (hstep : fast.val.stepsize = 1) :
    ∃ result,
      firstscanOnlyOne parameters fast.val
          checkroutine target map = some result ∧
        IsFirst (fun address =>
          Scanned parameters target.actualread map address ∧
            isMatchAt parameters checkroutine target address = true)
          result := by
  obtain ⟨stored, hstored, hsorted, hmem⟩ := @exists_stored parameters fast
    target map checkroutine hstep
  exact ⟨_, scanChunksOnlyOne_eq hstored, isFirst_head hsorted hmem⟩

end

end CheatEngine.MemScan
