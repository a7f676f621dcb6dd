import CheatEngine.MemScanFastScan

/-!
# What a first scan finds

The regions are cut between the threads and each part into chunks.  The
addresses that are found are compared with those of all values that lie
inside of a region.
-/

namespace CheatEngine
namespace MemScan

open List

abbrev AlignedScan : Type :=
  { fast : FastScan // fast.fastscanmethod ≠ .fsmLastDigits }

structure Part where
  scanner : Scanner
  index : ℕ
deriving DecidableEq

namespace Part

variable (work : Workload) (part : Part)

def region : MemoryRegion := work.region part.index

def start : ℕ := part.scanner.currentbase part.index (part.region work)

def stop : ℕ := part.scanner.shareStop part.index (part.region work)

/-- The bytes that the thread goes through: `toread` is a `dword`. -/
def reach : ℕ :=
  min (part.stop work - part.start work)
    (((part.region work).stop - part.start work) % 2 ^ 32)

end Part

namespace Workload

variable (work : Workload)

def parts (threadcount : ℕ) : List Part :=
  (work.split threadcount).flatMap fun scanner =>
    scanner.regionIndices.map fun index => { scanner, index }

end Workload

section

variable (parameters : ScanParameters) (fast : AlignedScan)
  (map : MemoryMap) (threadcount : ℕ)

def ReadsRegions (target : Target) : Prop :=
  ∀ region ∈ map.memregion, ∀ address size,
    region.BaseAddress ≤ address → address + size ≤ region.stop →
      target.actualread address size = size

/-- The value at the address lies inside of a region and is one that the scan
asks for. -/
def Wanted (address : ℕ) : Prop :=
  fast.val.selected address = true ∧
    ∃ region ∈ map.memregion, region.BaseAddress ≤ address ∧
      address + parameters.variablesize ≤ region.stop

/-- Whatever the memory holds and is searched for, every wanted address with a
match is reported once, and no other address. -/
def FindsExactly : Prop :=
  ∀ checkroutine target, ReadsRegions map target →
    ∃ stored,
      firstscan parameters fast.val checkroutine target
          map threadcount = some stored ∧
        stored.Nodup ∧
        ∀ address, address ∈ stored ↔
          Wanted parameters fast map address ∧
            checkroutine (valueAt parameters target.memory address)
              [] = true

/-- What a chunk needs: it is read inside of its region; it starts at a
multiple of the alignment, if a value fits in; and the wanted values that
start in it are inside of what is read. -/
structure ChunkFits (region : MemoryRegion) (chunk : Chunk) : Prop where
  inside : chunk.base + chunk.requested ≤ region.stop
  aligned : (parameters.variablesize : ℤ) ≤
      (chunk.requested : ℤ).bmod (2 ^ 32) →
    fast.val.Usable ∧ fast.val.modulus ∣ chunk.base
  straddles : ∀ address, fast.val.selected address = true →
    chunk.base ≤ address → address < chunk.base + chunk.size →
    address + parameters.variablesize ≤ region.stop →
    (address : ℤ) + parameters.variablesize ≤
      chunk.base + (chunk.requested : ℤ).bmod (2 ^ 32)

/-- What a part needs: its chunks fit, and what lies behind the 32-bit length
holds no wanted value. -/
structure PartFits (work : Workload) (part : Part) : Prop where
  chunks : ∀ chunk ∈ chunks parameters part.index (part.reach work)
    (part.start work), ChunkFits parameters fast (part.region work) chunk
  beyond : ∀ address, fast.val.selected address = true →
    part.start work + part.reach work ≤ address →
    address < part.stop work →
    (part.region work).stop < address + parameters.variablesize

end

section

variable {work : Workload} {part : Part}

structure Part.Inside (work : Workload) (part : Part) : Prop where
  mem : part.region work ∈ work.map.memregion
  base_le : (part.region work).BaseAddress ≤ part.start work
  start_le : part.start work ≤ part.stop work
  stop_le : part.stop work ≤ (part.region work).stop

theorem Part.Inside.stop_lt (hinside : part.Inside work) :
    (part.region work).stop < 2 ^ 64 :=
  (work.map.stop_le _ hinside.mem).trans_lt work.map.stopaddress_lt

theorem part_inside (hwithin : part.scanner.Within work)
    (hindex : part.index ∈ part.scanner.regionIndices) :
    part.Inside work := by
  rw [Scanner.regionIndices, mem_range'_1] at hindex
  rcases hwithin with ⟨hnone, hstop⟩ | ⟨hle, hlt, hbase, hstart, hlast, hsame⟩
  · omega
  have hin : part.index < work.memregionpos := by omega
  have hmem : part.region work ∈ work.map.memregion := by
    rw [Part.region, work.region_eq_getElem hin]
    exact getElem_mem _
  have hregion : (part.region work).BaseAddress ≤ (part.region work).stop :=
    Nat.le_add_right _ _
  have hstartBounds : (part.region work).BaseAddress ≤ part.start work ∧
      part.start work ≤ (part.region work).stop := by
    unfold Part.start Scanner.currentbase
    split
    · rename_i hfirst
      unfold Part.region
      rw [hfirst]
      exact ⟨hbase, hstart⟩
    · exact ⟨le_rfl, hregion⟩
  refine ⟨hmem, hstartBounds.1, ?_, ?_⟩
  · unfold Part.stop Scanner.shareStop
    split
    · rename_i hcut
      have hindexEq : part.scanner.stopregion.toNat = part.index := by omega
      unfold Part.start Scanner.currentbase
      split
      · rename_i hfirst
        exact hsame (by omega)
      · rw [hindexEq] at hlast
        exact hlast
    · exact hstartBounds.2
  · unfold Part.stop Scanner.shareStop
    split
    · rename_i hcut
      exact hcut.2.le
    · exact le_rfl

theorem rest_eq (hstop : part.start work ≤ (part.region work).stop) :
    (if part.index = part.scanner.startregion then
      ((((part.region work).MemorySize : ℤ) -
        (part.scanner.startaddress - (part.region work).BaseAddress)) %
          2 ^ 32).toNat
    else
      (part.region work).MemorySize % 2 ^ 32) =
        ((part.region work).stop - part.start work) % 2 ^ 32 := by
  unfold Part.start Scanner.currentbase MemoryRegion.stop at *
  split
  · rename_i hfirst
    rw [if_pos hfirst] at hstop
    omega
  · rw [Nat.add_sub_cancel_left]

theorem firstscanToread_eq (hinside : part.Inside work) :
    firstscanToread part.scanner part.index (part.region work) =
      part.reach work := by
  have hlt := hinside.stop_lt
  have hstart := hinside.start_le
  have hstop := hinside.stop_le
  have hwrap : (part.start work +
      ((part.region work).stop - part.start work) % 2 ^ 32) % 2 ^ 64 =
        part.start work +
          ((part.region work).stop - part.start work) % 2 ^ 32 := by
    have hmod := Nat.mod_le ((part.region work).stop - part.start work)
      (2 ^ 32)
    exact Nat.mod_eq_of_lt (by omega)
  unfold firstscanToread
  rw [rest_eq (hstart.trans hstop)]
  change (if (part.index : ℤ) = part.scanner.stopregion ∧
      part.scanner.stopaddress < (part.start work +
        ((part.region work).stop - part.start work) % 2 ^ 32) % 2 ^ 64 then
    (((part.scanner.stopaddress : ℤ) - part.start work) % 2 ^ 32).toNat
    else ((part.region work).stop - part.start work) % 2 ^ 32) = _
  rw [hwrap]
  have hmodLt : ((part.region work).stop - part.start work) % 2 ^ 32 <
      2 ^ 32 := Nat.mod_lt _ (by decide)
  have hmodLe := Nat.mod_le ((part.region work).stop - part.start work)
    (2 ^ 32)
  unfold Part.reach
  split
  · rename_i hcut
    have hstopEq : part.stop work = part.scanner.stopaddress := by
      unfold Part.stop Scanner.shareStop
      exact if_pos ⟨hcut.1, by omega⟩
    rw [← hstopEq] at hcut ⊢
    omega
  · rename_i hnot
    apply (Nat.min_eq_right ?_).symm
    by_cases hindex : (part.index : ℤ) = part.scanner.stopregion
    · have hge : part.start work +
          ((part.region work).stop - part.start work) % 2 ^ 32 ≤
            part.scanner.stopaddress :=
        not_lt.mp fun hcut => hnot ⟨hindex, hcut⟩
      unfold Part.stop Scanner.shareStop
      split <;> omega
    · have hstopEq : part.stop work = (part.region work).stop := by
        unfold Part.stop Scanner.shareStop
        exact if_neg fun hboth => hindex hboth.1
      rw [hstopEq]
      exact hmodLe

end

section

variable {parameters : ScanParameters}

theorem chunks_ranges (index : ℕ) {toread currentbase : ℕ}
    (hlt : currentbase + toread < 2 ^ 64) :
    (chunks parameters index toread currentbase).flatMap
        (fun chunk => List.range' chunk.base chunk.size) =
      List.range' currentbase toread := by
  induction toread, currentbase using
      chunks.induct parameters with
  | case1 toread currentbase hmore ih =>
    have hmod : (currentbase + parameters.buffersize) % 2 ^ 64 =
        currentbase + parameters.buffersize := Nat.mod_eq_of_lt (by omega)
    rw [hmod] at ih
    rw [chunks, if_pos hmore, hmod, flatMap_cons, ih (by omega)]
    have happend := @range'_append_1 currentbase
      parameters.buffersize (toread - parameters.buffersize)
    rw [Nat.add_sub_cancel' hmore.le] at happend
    exact happend
  | case2 toread currentbase hlast =>
    rw [chunks, if_neg hlast, flatMap_singleton]

/-- A chunk of a part: the last one is read as it is, the others with the
bytes after them. -/
structure ChunkOf (parameters : ScanParameters) (index currentbase stop : ℕ)
    (chunk : Chunk) : Prop where
  index_eq : chunk.index = index
  base_le : currentbase ≤ chunk.base
  stop_le : chunk.base + chunk.size ≤ stop
  requested : chunk.requested = chunk.size ∨
    0 < chunk.size ∧
      chunk.requested = chunk.size + parameters.variablesize - 1

theorem chunkOf_mem {index toread currentbase : ℕ}
    (hlt : currentbase + toread < 2 ^ 64) {chunk : Chunk}
    (hchunk : chunk ∈ chunks parameters index toread currentbase) :
    ChunkOf parameters index currentbase (currentbase + toread) chunk := by
  induction toread, currentbase using
      chunks.induct parameters with
  | case1 toread currentbase hmore ih =>
    have hmod : (currentbase + parameters.buffersize) % 2 ^ 64 =
        currentbase + parameters.buffersize := Nat.mod_eq_of_lt (by omega)
    rw [hmod] at ih
    rw [chunks, if_pos hmore, hmod] at hchunk
    rcases mem_cons.mp hchunk with rfl | hrest
    · exact ⟨rfl, le_rfl, by dsimp only; omega,
        .inr ⟨parameters.buffersize_pos, rfl⟩⟩
    · obtain ⟨hindex, hbase, hstop, hrequested⟩ := ih (by omega) hrest
      exact ⟨hindex, by omega, by omega, hrequested⟩
  | case2 toread currentbase hlast =>
    rw [chunks, if_neg hlast, mem_singleton] at hchunk
    rw [hchunk]
    exact ⟨rfl, le_rfl, le_rfl, .inl rfl⟩

end

/-! ## An aligned scan of a chunk -/

section

variable {parameters : ScanParameters} {fast : AlignedScan}
  {target : Target} {chunk : Chunk}
  {checkroutine : List UInt8 → List UInt8 → Bool}

theorem aligned_firstoffset (fast : AlignedScan) :
    fast.val.firstoffset = 0 := by
  have hmethod := fast.property
  unfold FastScan.firstoffset
  cases hcase : fast.val.fastscanmethod with
  | fsmNotAligned => rfl
  | fsmAligned => rfl
  | fsmLastDigits => exact absurd hcase hmethod

theorem aligned_residue (fast : AlignedScan) : fast.val.residue = 0 := by
  have hmethod := fast.property
  unfold FastScan.residue
  cases hcase : fast.val.fastscanmethod with
  | fsmNotAligned => rfl
  | fsmAligned => rfl
  | fsmLastDigits => exact absurd hcase hmethod

theorem selected_iff_dvd (address : ℕ) :
    fast.val.selected address = true ↔ fast.val.modulus ∣ address := by
  rw [FastScan.selected, decide_eq_true_eq, aligned_residue]
  exact (Nat.dvd_iff_mod_eq_zero).symm

def isMatchAt (parameters : ScanParameters)
    (checkroutine : List UInt8 → List UInt8 → Bool)
    (target : Target) (address : ℕ) : Bool :=
  checkroutine (valueAt parameters target.memory address) []

/-- What is stored of a chunk: matches at every step as far as a value fits
in. -/
structure Stores (parameters : ScanParameters) (fast : AlignedScan)
    (checkroutine : List UInt8 → List UInt8 → Bool)
    (target : Target) (chunk : Chunk) (found : List ℕ) : Prop where
  steps : 0 ≤ lastOffset parameters target chunk → 0 < fast.val.stepsize
  sorted : found.Pairwise (· < ·)
  mem_iff : ∀ address, address ∈ found ↔
    ∃ q : ℕ, address = chunk.base + q ∧
      (q : ℤ) ≤ lastOffset parameters target chunk ∧
      fast.val.stepsize ∣ q ∧
      isMatchAt parameters checkroutine target address = true

theorem exists_scanmem
    (hstep : 0 ≤ lastOffset parameters target chunk → 0 < fast.val.stepsize) :
    ∃ found, scanmem parameters fast.val checkroutine
      target false chunk = some found := by
  rcases lt_or_ge (lastOffset parameters target chunk) 0 with hlast | hroom
  · refine ⟨_, scanmem_eq (positions_eq_nil ?_)⟩
    rw [aligned_firstoffset]
    exact hlast
  · obtain ⟨visited, hvisited, -⟩ := exists_positions (hstep hroom)
      (lastOffset parameters target chunk) fast.val.firstoffset
    exact ⟨_, scanmem_eq hvisited⟩

theorem scanmem_stores {found : List ℕ} (hfound : scanmem parameters fast.val
      checkroutine target false chunk = some found) :
    Stores parameters fast checkroutine target chunk found := by
  obtain ⟨visited, hvisited, rfl⟩ := Option.map_eq_some_iff.mp hfound
  change positions fast.val.stepsize (lastOffset parameters target chunk)
    fast.val.firstoffset = some visited at hvisited
  rw [aligned_firstoffset] at hvisited
  have hsteps := positions_steps hvisited
  have hnonneg : ∀ q ∈ visited, 0 ≤ q :=
    fun q hq => ((hsteps.mem_iff q).mp hq).1
  refine ⟨fun hroom => ?_, ?_, fun address => ?_⟩
  · by_contra hnot
    rw [positions_eq_none hroom (not_lt.mp hnot)] at hvisited
    cases hvisited
  · rw [pairwise_map]
    apply (hsteps.sorted.filter _).imp_of_mem
    intro first second hfirst hsecond hlt
    have hfirstNonneg := hnonneg first (mem_filter.mp hfirst).1
    omega
  · rw [mem_map]
    constructor
    · rintro ⟨q, hq, rfl⟩
      obtain ⟨hmem, hmatch⟩ := mem_filter.mp hq
      obtain ⟨hge, hle, hdvd⟩ := (hsteps.mem_iff q).mp hmem
      rw [sub_zero] at hdvd
      refine ⟨q.toNat, rfl, by omega, ?_, hmatch⟩
      rw [Int.toNat_of_nonneg hge]
      exact hdvd
    · rintro ⟨q, rfl, hle, hdvd, hmatch⟩
      refine ⟨q, mem_filter.mpr ⟨(hsteps.mem_iff q).mpr
        ⟨Int.natCast_nonneg q, hle, ?_⟩, hmatch⟩, by simp⟩
      rw [sub_zero]
      exact hdvd

def isFound (parameters : ScanParameters) (fast : AlignedScan)
    (checkroutine : List UInt8 → List UInt8 → Bool)
    (target : Target) (region : MemoryRegion) (address : ℕ) : Bool :=
  fast.val.selected address &&
    decide (address + parameters.variablesize ≤ region.stop) &&
    isMatchAt parameters checkroutine target address

theorem isFound_iff {region : MemoryRegion} {address : ℕ} :
    isFound parameters fast checkroutine target region address = true ↔
      (fast.val.selected address = true ∧
        address + parameters.variablesize ≤ region.stop) ∧
      isMatchAt parameters checkroutine target address = true := by
  simp only [isFound, Bool.and_eq_true, decide_eq_true_eq]

theorem lastOffset_eq
    (hread : target.actualread chunk.base chunk.requested = chunk.requested) :
    lastOffset parameters target chunk =
      (chunk.requested : ℤ).bmod (2 ^ 32) - parameters.variablesize := by
  unfold lastOffset
  simp only [hread]

theorem ChunkFits.scanmem_eq {region : MemoryRegion} {index first last : ℕ}
    (hfits : ChunkFits parameters fast region chunk)
    (hchunk : ChunkOf parameters index first last chunk)
    (hread : target.actualread chunk.base chunk.requested = chunk.requested) :
    scanmem parameters fast.val checkroutine target
        false chunk =
      some ((List.range' chunk.base chunk.size).filter
        (isFound parameters fast checkroutine target region)) := by
  have hlast := @lastOffset_eq parameters target chunk hread
  have hself := bmod_le_self chunk.requested
  have hpos := parameters.variablesize_pos
  have hrequested : chunk.requested ≤
      chunk.size + parameters.variablesize - 1 := by
    rcases hchunk.requested with heq | ⟨-, heq⟩ <;> omega
  have haligned : 0 ≤ lastOffset parameters target chunk →
      fast.val.Usable ∧ fast.val.modulus ∣ chunk.base := by
    intro hroom
    exact hfits.aligned (by omega)
  obtain ⟨found, hfound⟩ := @exists_scanmem parameters fast target chunk
    checkroutine (by
      intro hroom
      rw [(haligned hroom).1.stepsize_eq]
      exact_mod_cast (Nat.zero_le _).trans_lt fast.val.residue_lt)
  have hstores := scanmem_stores hfound
  rw [hfound]
  apply congrArg some
  have hrange : (List.range' chunk.base chunk.size).Pairwise (· < ·) :=
    pairwise_lt_range'
  apply hstores.sorted.eq_of_mem_iff (hrange.filter _)
  intro address
  rw [hstores.mem_iff, mem_filter, mem_range'_1, isFound_iff]
  constructor
  · rintro ⟨q, rfl, hle, hdvd, hmatch⟩
    obtain ⟨husable, hbase⟩ := haligned (by omega)
    have hinside := hfits.inside
    rw [husable.stepsize_eq, Int.natCast_dvd_natCast] at hdvd
    refine ⟨⟨by omega, by omega⟩, ⟨?_, by omega⟩, hmatch⟩
    exact (selected_iff_dvd _).mpr (hbase.add hdvd)
  · rintro ⟨⟨hge, hlt⟩, ⟨hselected, hstop⟩, hmatch⟩
    have hstraddles := hfits.straddles address hselected hge hlt hstop
    obtain ⟨husable, hbase⟩ := haligned (by omega)
    refine ⟨address - chunk.base, by omega, by omega, ?_, hmatch⟩
    rw [husable.stepsize_eq, Int.natCast_dvd_natCast]
    exact Nat.dvd_sub ((selected_iff_dvd _).mp hselected) hbase

end

/-! ## All parts -/

section

variable {parameters : ScanParameters} {fast : AlignedScan}
  {map : MemoryMap} {threadcount : ℕ} {target : Target}
  {checkroutine : List UInt8 → List UInt8 → Bool}

def Apart (first second : MemoryRegion) : Prop :=
  first.stop ≤ second.BaseAddress ∨ second.stop ≤ first.BaseAddress

instance : Std.Symm Apart where
  symm _ _ := Or.symm

variable {address : ℕ} {work : Workload} {part : Part}

theorem region_unique {first second : MemoryRegion}
    (hfirst : first ∈ map.memregion) (hsecond : second ∈ map.memregion)
    (hinFirst : first.BaseAddress ≤ address ∧ address < first.stop)
    (hinSecond : second.BaseAddress ≤ address ∧ address < second.stop) :
    first = second := by
  by_contra hne
  have heither : map.memregion.Pairwise Apart := map.ordered.imp Or.inl
  rcases heither.forall hfirst hsecond hne with hle | hle <;> omega

theorem wanted_iff {region : MemoryRegion} (hregion : region ∈ map.memregion)
    (hinside : region.BaseAddress ≤ address ∧ address < region.stop) :
    Wanted parameters fast map address ↔
      fast.val.selected address = true ∧
        address + parameters.variablesize ≤ region.stop := by
  have hpos := parameters.variablesize_pos
  apply and_congr_right
  intro _
  constructor
  · rintro ⟨other, hother, hbase, hstop⟩
    rw [region_unique hregion hother hinside ⟨hbase, by omega⟩]
    exact hstop
  · exact fun hstop => ⟨region, hregion, hinside.1, hstop⟩

theorem mem_bytes : address ∈ map.bytes ↔
    ∃ region ∈ map.memregion,
      region.BaseAddress ≤ address ∧ address < region.stop := by
  unfold MemoryMap.bytes MemoryRegion.bytes MemoryRegion.stop
  simp only [mem_flatMap, mem_range'_1]

theorem bytes_nodup : map.bytes.Nodup := by
  rw [MemoryMap.bytes, nodup_flatMap]
  refine ⟨fun region _ => nodup_range', ?_⟩
  apply map.ordered.imp
  intro first second hle address hfirst hsecond
  rw [MemoryRegion.bytes, mem_range'_1] at hfirst hsecond
  unfold MemoryRegion.stop at hle
  omega

theorem allFirstscanChunks_eq :
    allFirstscanChunks parameters map threadcount =
      ((firstScanWork map threadcount).parts threadcount).flatMap
        fun part => chunks parameters part.index
          (firstscanToread part.scanner part.index
            (part.region (firstScanWork map threadcount)))
          (part.start (firstScanWork map threadcount)) := by
  rw [allFirstscanChunks, Workload.parts, flatMap_assoc]
  congr 1
  funext scanner
  rw [flatMap_map]
  rfl

structure PartsExact (work : Workload) (threadcount : ℕ) : Prop where
  inside : ∀ part ∈ work.parts threadcount, part.Inside work
  bytes : (work.parts threadcount).flatMap (fun part =>
      List.range' (part.start work) (part.stop work - part.start work)) =
    work.map.bytes

theorem partsExact_of_everyCutFits (hfits : work.EveryCutFits threadcount) :
    PartsExact work threadcount := by
  obtain ⟨hwithin, hbytes⟩ :=
    (work.exactPartition_split_iff threadcount).mpr hfits
  constructor
  · intro part hpart
    obtain ⟨scanner, hscanner, hin⟩ := mem_flatMap.mp hpart
    obtain ⟨index, hindex, rfl⟩ := mem_map.mp hin
    exact part_inside (hwithin scanner hscanner) hindex
  · rw [← hbytes, Workload.parts, flatMap_assoc]
    congr 1
    funext scanner
    rw [flatMap_map]
    rfl

def Part.chunks (parameters : ScanParameters) (work : Workload)
    (part : Part) : List Chunk :=
  MemScan.chunks parameters part.index (part.reach work) (part.start work)

theorem Part.Inside.reach_le (hinside : part.Inside work) :
    part.start work + part.reach work ≤ part.stop work := by
  have hle : part.reach work ≤ part.stop work - part.start work :=
    Nat.min_le_left _ _
  have hstart := hinside.start_le
  omega

theorem Part.Inside.chunkOf (hinside : part.Inside work) {chunk : Chunk}
    (hchunk : chunk ∈ part.chunks parameters work) :
    ChunkOf parameters part.index (part.start work)
      (part.start work + part.reach work) chunk := by
  have hreach := hinside.reach_le
  have hstop := hinside.stop_le
  have hlt := hinside.stop_lt
  exact chunkOf_mem (by omega) hchunk

theorem PartsExact.chunks_eq
    (hexact : PartsExact (firstScanWork map threadcount) threadcount) :
    allFirstscanChunks parameters map threadcount =
      ((firstScanWork map threadcount).parts threadcount).flatMap
        (Part.chunks parameters (firstScanWork map threadcount)) := by
  rw [allFirstscanChunks_eq]
  apply flatMap_congr
  intro part hpart
  rw [firstscanToread_eq (hexact.inside part hpart)]
  rfl

theorem Part.Inside.flatMap_chunks (hinside : part.Inside work) :
    (part.chunks parameters work).flatMap
        (fun chunk => List.range' chunk.base chunk.size) =
      List.range' (part.start work) (part.reach work) := by
  have hreach := hinside.reach_le
  have hstop := hinside.stop_le
  have hlt := hinside.stop_lt
  exact chunks_ranges part.index (by omega)

def isReported (parameters : ScanParameters) (fast : AlignedScan)
    (checkroutine : List UInt8 → List UInt8 → Bool)
    (target : Target) (map : MemoryMap) (address : ℕ) : Bool :=
  map.memregion.any fun region =>
    decide (region.BaseAddress ≤ address) &&
      isFound parameters fast checkroutine target region address

theorem isReported_iff :
    isReported parameters fast checkroutine target map address = true ↔
      Wanted parameters fast map address ∧
        isMatchAt parameters checkroutine target address = true := by
  unfold isReported Wanted
  simp only [any_eq_true, Bool.and_eq_true, decide_eq_true_eq, isFound_iff]
  constructor
  · rintro ⟨region, hregion, hbase, ⟨hselected, hstop⟩, hmatch⟩
    exact ⟨⟨hselected, region, hregion, hbase, hstop⟩, hmatch⟩
  · rintro ⟨⟨hselected, region, hregion, hbase, hstop⟩, hmatch⟩
    exact ⟨region, hregion, hbase, ⟨hselected, hstop⟩, hmatch⟩

theorem isReported_eq {region : MemoryRegion}
    (hregion : region ∈ map.memregion)
    (hinside : region.BaseAddress ≤ address ∧ address < region.stop) :
    isReported parameters fast checkroutine target map address =
      isFound parameters fast checkroutine target region address := by
  rw [Bool.eq_iff_iff, isReported_iff, isFound_iff, wanted_iff hregion hinside]

theorem PartFits.filter_eq
    (hinside : part.Inside (firstScanWork map threadcount))
    (hfits : PartFits parameters fast (firstScanWork map threadcount) part) :
    (List.range' (part.start (firstScanWork map threadcount))
        (part.stop (firstScanWork map threadcount) -
          part.start (firstScanWork map threadcount))).filter
        (isReported parameters fast checkroutine target map) =
      (List.range' (part.start (firstScanWork map threadcount))
        (part.reach (firstScanWork map threadcount))).filter
        (isReported parameters fast checkroutine target map) := by
  have hreach := hinside.reach_le
  have hbase := hinside.base_le
  have hstop := hinside.stop_le
  have happend := @range'_append_1
    (part.start (firstScanWork map threadcount))
    (part.reach (firstScanWork map threadcount))
    (part.stop (firstScanWork map threadcount) -
      part.start (firstScanWork map threadcount) -
        part.reach (firstScanWork map threadcount))
  rw [Nat.add_sub_cancel' (by omega)] at happend
  rw [← happend, filter_append]
  apply append_right_eq_self.mpr
  rw [filter_eq_nil_iff]
  intro address haddress hreported
  rw [mem_range'_1] at haddress
  have hmem : part.region (firstScanWork map threadcount) ∈
      map.memregion := hinside.mem
  rw [isReported_eq hmem (by omega), isFound_iff] at hreported
  have hbeyond := hfits.beyond address hreported.1.1 haddress.1 (by omega)
  omega

theorem findsExactly_of_fits
    (hexact : PartsExact (firstScanWork map threadcount) threadcount)
    (hfits : ∀ part ∈ (firstScanWork map threadcount).parts threadcount,
      PartFits parameters fast (firstScanWork map threadcount) part) :
    FindsExactly parameters fast map threadcount := by
  intro checkroutine target hreads
  have hscan : ∀ chunk ∈ allFirstscanChunks parameters map threadcount,
      scanmem parameters fast.val checkroutine target
          false chunk =
        some ((List.range' chunk.base chunk.size).filter
          (isReported parameters fast checkroutine target map)) := by
    rw [hexact.chunks_eq]
    intro chunk hchunk
    obtain ⟨part, hpart, hin⟩ := mem_flatMap.mp hchunk
    have hinside := hexact.inside part hpart
    have hof := hinside.chunkOf hin
    have hfitsChunk := (hfits part hpart).chunks chunk hin
    have hbase := hinside.base_le
    have hbaseChunk := hof.base_le
    have hread := hreads _ hinside.mem chunk.base chunk.requested
      (hbase.trans hbaseChunk) hfitsChunk.inside
    rw [hfitsChunk.scanmem_eq hof hread]
    apply congrArg some
    apply filter_congr
    intro address haddress
    rw [mem_range'_1] at haddress
    have hreach := hinside.reach_le
    have hstop := hinside.stop_le
    have hstopChunk := hof.stop_le
    exact (isReported_eq hinside.mem (by omega)).symm
  have hstored : (allFirstscanChunks parameters map threadcount).flatMap
      (fun chunk => (List.range' chunk.base chunk.size).filter
        (isReported parameters fast checkroutine target map)) =
      map.bytes.filter
        (isReported parameters fast checkroutine target map) := by
    have hbytes := hexact.bytes
    change _ = map.bytes at hbytes
    rw [← hbytes, hexact.chunks_eq, flatMap_assoc, filter_flatMap]
    apply flatMap_congr
    intro part hpart
    have hinside := hexact.inside part hpart
    rw [(hfits part hpart).filter_eq hinside, ← filter_flatMap,
      hinside.flatMap_chunks]
  refine ⟨map.bytes.filter
    (isReported parameters fast checkroutine target map), ?_,
    bytes_nodup.filter _, fun address => ?_⟩
  · rw [← hstored]
    exact scanChunks_eq_some hscan
  · rw [mem_filter, isReported_iff]
    apply and_iff_right_of_imp
    rintro ⟨⟨-, region, hregion, hbase, hstop⟩, -⟩
    have hpos := parameters.variablesize_pos
    exact mem_bytes.mpr ⟨region, hregion, hbase, by omega⟩

/-! ## Scans that find everything -/

/-- Everything can be read, but the read of one chunk gets only `count`
bytes. -/
def readsBut (chunk : Chunk) (count : ℕ) (hcount : count ≤ chunk.requested) :
    Target where
  memory := fun _ => 0
  previous := fun _ _ => 0
  actualread := fun address size =>
    if address = chunk.base ∧ size = chunk.requested then count else size
  actualread_le := by
    intro address size
    split
    · rename_i hboth
      rw [hboth.2]
      exact hcount
    · exact le_rfl

theorem actualread_readsBut {chunk : Chunk} {count : ℕ}
    (hcount : count ≤ chunk.requested) :
    (readsBut chunk count hcount).actualread chunk.base chunk.requested =
      count := by
  simp only [readsBut, and_self, if_true]

theorem readsRegions_readsBut {chunk : Chunk} {count : ℕ}
    (hcount : count ≤ chunk.requested)
    (hleaves : count = chunk.requested ∨ ∀ region ∈ map.memregion,
      region.BaseAddress ≤ chunk.base →
        region.stop < chunk.base + chunk.requested) :
    ReadsRegions map (readsBut chunk count hcount) := by
  intro region hregion address size hbase hstop
  unfold readsBut
  dsimp only
  split
  · rename_i hsame
    rcases hleaves with hall | hleaves
    · rw [hall, hsame.2]
    · have hout := hleaves region hregion (hsame.1 ▸ hbase)
      rw [← hsame.1, ← hsame.2] at hout
      omega
  · rfl

def Part.leftover (work : Workload) (part : Part) : List ℕ :=
  List.range' (part.start work + part.reach work)
    (part.stop work - part.start work - part.reach work)

theorem Part.Inside.append_leftover (hinside : part.Inside work) :
    List.range' (part.start work) (part.reach work) ++ part.leftover work =
      List.range' (part.start work)
        (part.stop work - part.start work) := by
  have hreach := hinside.reach_le
  have happend := @range'_append_1 (part.start work)
    (part.reach work)
    (part.stop work - part.start work - part.reach work)
  rw [Nat.add_sub_cancel' (by omega)] at happend
  exact happend

theorem PartsExact.ranges_eq
    (hexact : PartsExact (firstScanWork map threadcount) threadcount) :
    (allFirstscanChunks parameters map threadcount).flatMap
        (fun chunk => List.range' chunk.base chunk.size) =
      ((firstScanWork map threadcount).parts threadcount).flatMap
        fun part => List.range' (part.start (firstScanWork map threadcount))
          (part.reach (firstScanWork map threadcount)) := by
  rw [hexact.chunks_eq, flatMap_assoc]
  apply flatMap_congr
  intro part hpart
  exact (hexact.inside part hpart).flatMap_chunks

theorem PartsExact.ranges_nodup
    (hexact : PartsExact (firstScanWork map threadcount) threadcount) :
    ((allFirstscanChunks parameters map threadcount).flatMap
        (fun chunk => List.range' chunk.base chunk.size) ++
      ((firstScanWork map threadcount).parts threadcount).flatMap
        (Part.leftover (firstScanWork map threadcount))).Nodup := by
  rw [hexact.ranges_eq, (flatMap_append_perm _ _ _).nodup_iff]
  have hbytes := hexact.bytes
  change _ = map.bytes at hbytes
  have hwhole := @bytes_nodup map
  rw [← hbytes] at hwhole
  convert hwhole using 1
  apply flatMap_congr
  intro part hpart
  exact (hexact.inside part hpart).append_leftover

theorem Stores.mem_range {index first last : ℕ} {chunk : Chunk}
    {found : List ℕ}
    (hstores : Stores parameters fast checkroutine target chunk found)
    (hchunk : ChunkOf parameters index first last chunk)
    (haddress : address ∈ found) :
    address ∈ List.range' chunk.base chunk.size := by
  obtain ⟨q, rfl, hle, -⟩ := (hstores.mem_iff address).mp haddress
  have hself := bmod_le_self (target.actualread chunk.base chunk.requested)
  have hread := target.actualread_le chunk.base chunk.requested
  have hpos := parameters.variablesize_pos
  unfold lastOffset at hle
  rw [mem_range'_1]
  rcases hchunk.requested with heq | ⟨hsize, heq⟩ <;> omega

theorem PartsExact.chunkOf
    (hexact : PartsExact (firstScanWork map threadcount) threadcount)
    {chunk : Chunk}
    (hchunk : chunk ∈ allFirstscanChunks parameters map threadcount) :
    ∃ index first last, ChunkOf parameters index first last chunk := by
  rw [hexact.chunks_eq] at hchunk
  obtain ⟨part, hpart, hin⟩ := mem_flatMap.mp hchunk
  exact ⟨_, _, _, (hexact.inside part hpart).chunkOf hin⟩

theorem PartsExact.chunk_unique
    (hexact : PartsExact (firstScanWork map threadcount) threadcount)
    {first second : Chunk}
    (hfirst : first ∈ allFirstscanChunks parameters map threadcount)
    (hsecond : second ∈ allFirstscanChunks parameters map threadcount)
    (hinFirst : address ∈ List.range' first.base first.size)
    (hinSecond : address ∈ List.range' second.base second.size) :
    first = second := by
  by_contra hne
  have hnodup := (nodup_append.mp
    (@PartsExact.ranges_nodup parameters map threadcount hexact)).1
  have hapart := (nodup_flatMap.mp hnodup).2
  have hsymm : Std.Symm (Function.onFun List.Disjoint
      fun chunk : Chunk => List.range' chunk.base chunk.size) :=
    ⟨fun _ _ hdisjoint => hdisjoint.symm⟩
  exact hapart.forall hfirst hsecond hne hinFirst hinSecond

section

variable (hfinds : FindsExactly parameters fast map threadcount)
  (hexact : PartsExact (firstScanWork map threadcount) threadcount)

include hfinds hexact

theorem FindsExactly.chunk {chunk : Chunk}
    (hchunk : chunk ∈ allFirstscanChunks parameters map threadcount)
    (hreads : ReadsRegions map target) :
    ∃ found, Stores parameters fast accepting target chunk found ∧
      ∀ address, address ∈ List.range' chunk.base chunk.size →
        (address ∈ found ↔ Wanted parameters fast map address) := by
  obtain ⟨stored, hstored, -, hmem⟩ :=
    hfinds accepting target hreads
  obtain ⟨found, rfl, hfound⟩ := scanmem_of_scanChunks hstored
  change ∀ chunk ∈ allFirstscanChunks parameters map threadcount, _ at hfound
  change ∀ address, address ∈ (allFirstscanChunks parameters map
    threadcount).flatMap found ↔ _ at hmem
  refine ⟨found chunk, scanmem_stores (hfound chunk hchunk), ?_⟩
  intro address haddress
  simp only [accepting, and_true] at hmem
  rw [← hmem address, mem_flatMap]
  constructor
  · exact fun hin => ⟨chunk, hchunk, hin⟩
  · rintro ⟨other, hother, hin⟩
    obtain ⟨index, first, last, hof⟩ := hexact.chunkOf hother
    have hrange := (scanmem_stores (hfound other hother)).mem_range hof hin
    rw [hexact.chunk_unique hchunk hother haddress hrange]
    exact hin

/-- A chunk that is not read inside of its region is found out by a read that
gets nothing and one that gets a single value. -/
theorem FindsExactly.inside
    (hpart : part ∈ (firstScanWork map threadcount).parts threadcount)
    {chunk : Chunk}
    (hchunk : chunk ∈ part.chunks parameters (firstScanWork map threadcount)) :
    chunk.base + chunk.requested ≤
      (part.region (firstScanWork map threadcount)).stop := by
  by_contra hleaves
  have hall : chunk ∈ allFirstscanChunks parameters map threadcount := by
    rw [hexact.chunks_eq]
    exact mem_flatMap.mpr ⟨part, hpart, hchunk⟩
  have hinside := hexact.inside part hpart
  have hregion : part.region (firstScanWork map threadcount) ∈
      map.memregion := hinside.mem
  have hof := hinside.chunkOf hchunk
  have hbase := hinside.base_le.trans hof.base_le
  have hstop := (hof.stop_le.trans hinside.reach_le).trans hinside.stop_le
  have hpos := parameters.variablesize_pos
  have hsize : 0 < chunk.size ∧ parameters.variablesize ≤
      chunk.requested := by
    rcases hof.requested with heq | ⟨hsize, heq⟩ <;> omega
  have hout : ∀ region ∈ map.memregion, region.BaseAddress ≤ chunk.base →
      region.stop < chunk.base + chunk.requested := by
    intro region hmem hle
    by_contra hin
    have hsame := region_unique hregion hmem ⟨hbase, by omega⟩ ⟨hle, by omega⟩
    rw [hsame] at hleaves
    exact hleaves (not_lt.mp hin)
  have hstart : chunk.base ∈ List.range' chunk.base chunk.size :=
    mem_range'_1.mpr ⟨le_rfl, by omega⟩
  obtain ⟨none, hnone, hnoneIff⟩ := hfinds.chunk hexact hall
    (readsRegions_readsBut (Nat.zero_le _) (.inr hout))
  obtain ⟨one, hone, honeIff⟩ := hfinds.chunk hexact hall
    (readsRegions_readsBut hsize.2 (.inr hout))
  have hlastNone : lastOffset parameters
      (readsBut chunk 0 (Nat.zero_le _)) chunk < 0 := by
    unfold lastOffset
    rw [actualread_readsBut, Nat.cast_zero, Int.zero_bmod]
    omega
  have hlastOne : lastOffset parameters
      (readsBut chunk parameters.variablesize hsize.2) chunk = 0 := by
    unfold lastOffset
    rw [actualread_readsBut, bmod_of_lt parameters.variablesize_lt, sub_self]
  have hfound : chunk.base ∈ one :=
    (hone.mem_iff _).mpr ⟨0, rfl, by rw [hlastOne]; rfl, dvd_zero _, rfl⟩
  have hfoundNone := (hnoneIff _ hstart).mpr ((honeIff _ hstart).mp hfound)
  obtain ⟨q, -, hle, -⟩ := (hnone.mem_iff _).mp hfoundNone
  omega

end

def readsAll : Target where
  memory := fun _ => 0
  previous := fun _ _ => 0
  actualread := fun _ size => size
  actualread_le := fun _ _ => le_rfl

theorem readsRegions_readsAll : ReadsRegions map readsAll :=
  fun _ _ _ _ _ _ => rfl

theorem aligned_usable (hstep : 0 < fast.val.stepsize) : fast.val.Usable := by
  by_contra hnot
  rcases FastScan.not_usable hnot with hle | ⟨-, hone, -⟩
  · omega
  · rw [aligned_firstoffset] at hone
    cases hone

section

variable (hfinds : FindsExactly parameters fast map threadcount)
  (hexact : PartsExact (firstScanWork map threadcount) threadcount)
  (hpart : part ∈ (firstScanWork map threadcount).parts threadcount)

include hfinds hexact hpart

theorem FindsExactly.chunkFits {chunk : Chunk}
    (hchunk : chunk ∈ part.chunks parameters (firstScanWork map threadcount)) :
    ChunkFits parameters fast
      (part.region (firstScanWork map threadcount)) chunk := by
  have hall : chunk ∈ allFirstscanChunks parameters map threadcount := by
    rw [hexact.chunks_eq]
    exact mem_flatMap.mpr ⟨part, hpart, hchunk⟩
  have hinside := hexact.inside part hpart
  have hregion : part.region (firstScanWork map threadcount) ∈
      map.memregion := hinside.mem
  have hof := hinside.chunkOf hchunk
  have hbase := hinside.base_le.trans hof.base_le
  have hstop := (hof.stop_le.trans hinside.reach_le).trans hinside.stop_le
  have hpos := parameters.variablesize_pos
  obtain ⟨found, hstores, hiff⟩ :=
    hfinds.chunk hexact hall readsRegions_readsAll
  have hlast := @lastOffset_eq parameters readsAll chunk rfl
  refine ⟨hfinds.inside hexact hpart hchunk, ?_, ?_⟩
  · intro hroom
    have hstep := hstores.steps (by omega)
    have husable := aligned_usable hstep
    have hself := bmod_le_self chunk.requested
    have hfound : chunk.base ∈ found :=
      (hstores.mem_iff _).mpr ⟨0, rfl, by omega, dvd_zero _, rfl⟩
    have hstart := hstores.mem_range hof hfound
    have hwanted := (hiff _ hstart).mp hfound
    exact ⟨husable, (selected_iff_dvd _).mp hwanted.1⟩
  · intro address hselected hge hlt hin
    have hwanted : Wanted parameters fast map address :=
      (wanted_iff hregion ⟨by omega, by omega⟩).mpr ⟨hselected, hin⟩
    have hfound := (hiff address (mem_range'_1.mpr ⟨hge, hlt⟩)).mpr
      hwanted
    obtain ⟨q, heq, hle, -⟩ := (hstores.mem_iff _).mp hfound
    omega

theorem FindsExactly.partFits :
    PartFits parameters fast (firstScanWork map threadcount) part := by
  refine ⟨fun chunk hchunk => hfinds.chunkFits hexact hpart hchunk, ?_⟩
  intro address hselected hge hlt
  by_contra hin
  have hinside := hexact.inside part hpart
  have hregion : part.region (firstScanWork map threadcount) ∈
      map.memregion := hinside.mem
  have hbase := hinside.base_le
  have hstop := hinside.stop_le
  have hwanted : Wanted parameters fast map address :=
    (wanted_iff hregion ⟨by omega, by omega⟩).mpr ⟨hselected, not_lt.mp hin⟩
  obtain ⟨stored, hstored, -, hmem⟩ :=
    hfinds accepting readsAll readsRegions_readsAll
  obtain ⟨found, rfl, hfound⟩ := scanmem_of_scanChunks hstored
  obtain ⟨chunk, hchunk, hfoundIn⟩ := mem_flatMap.mp
    ((hmem address).mpr ⟨hwanted, rfl⟩)
  obtain ⟨index, first, last, hof⟩ := hexact.chunkOf hchunk
  have hrange := (scanmem_stores (hfound chunk hchunk)).mem_range hof hfoundIn
  have hleftover : address ∈
      part.leftover (firstScanWork map threadcount) := by
    rw [Part.leftover, mem_range'_1]
    omega
  exact (nodup_append.mp (@PartsExact.ranges_nodup parameters map
    threadcount hexact)).2.2 address
    (mem_flatMap.mpr ⟨chunk, hchunk, hrange⟩) address
    (mem_flatMap.mpr ⟨part, hpart, hleftover⟩) rfl

end

end

def EveryPartFits (parameters : ScanParameters) (fast : AlignedScan)
    (map : MemoryMap) (threadcount : ℕ) : Prop :=
  (firstScanWork map threadcount).EveryCutFits threadcount ∧
    ∀ part ∈ (firstScanWork map threadcount).parts threadcount,
      PartFits parameters fast (firstScanWork map threadcount) part

/-- A first scan finds every wanted match once when all parts fit; as far as
the cuts between the threads fit, only then.  They fit when no region reaches
4 GiB. -/
theorem findsExactly_iff (parameters : ScanParameters) (fast : AlignedScan)
    (map : MemoryMap) (threadcount : ℕ) :
    (EveryPartFits parameters fast map threadcount →
      FindsExactly parameters fast map threadcount) ∧
    ((firstScanWork map threadcount).EveryCutFits threadcount →
      FindsExactly parameters fast map threadcount →
        EveryPartFits parameters fast map threadcount) ∧
    (0 < map.totalProcessMemorySize →
      (∀ region ∈ map.memregion, region.MemorySize < 2 ^ 32) →
        (firstScanWork map threadcount).EveryCutFits threadcount) := by
  refine ⟨?_, ?_, ?_⟩
  · rintro ⟨hcuts, hparts⟩
    exact findsExactly_of_fits (partsExact_of_everyCutFits hcuts) hparts
  · intro hcuts hfinds
    exact ⟨hcuts, fun part hpart =>
      hfinds.partFits (partsExact_of_everyCutFits hcuts) hpart⟩
  · intro hbytes hsmall
    exact Workload.everyCutFits_of_small hsmall
      (threads_mul_firstScanBlocksize_le map threadcount) hbytes

def unaligned : AlignedScan :=
  ⟨{ lastFourDigits with fastscanmethod := .fsmNotAligned }, by decide⟩

def fourPages : MemoryMap where
  memregion := [⟨0x10000, 0x4000⟩]
  stopaddress := 0x7fffffffffff
  ordered := pairwise_singleton _ _
  stop_le := by decide
  stopaddress_lt := userEnd_lt

def firstHalf : Part where
  scanner := ⟨0, 0, 0x10000, 0x12000⟩
  index := 0

theorem firstHalf_mem : firstHalf ∈ (firstScanWork fourPages 2).parts 2 := by
  have hscanner : firstHalf.scanner ∈ (firstScanWork fourPages 2).split 2 := by
    decide
  refine mem_flatMap.mpr ⟨_, hscanner, ?_⟩
  exact mem_map.mpr ⟨0, by decide, rfl⟩

theorem firstHalf_chunks :
    chunks fourBytes 0 (firstHalf.reach (firstScanWork fourPages 2))
        (firstHalf.start (firstScanWork fourPages 2)) =
      [⟨0, 0x10000, 0x2000, 0x2000⟩] := by
  have hreach : firstHalf.reach (firstScanWork fourPages 2) = 0x2000 := by
    decide
  have hstart : firstHalf.start (firstScanWork fourPages 2) = 0x10000 := by
    decide
  rw [hreach, hstart, chunks, if_neg (by decide)]

theorem not_findsExactly : ¬ FindsExactly fourBytes unaligned fourPages 2 := by
  intro hfinds
  have hcuts : (firstScanWork fourPages 2).EveryCutFits 2 :=
    Workload.everyCutFits_of_small (by decide)
      (threads_mul_firstScanBlocksize_le fourPages 2) (by decide)
  have hparts := hfinds.partFits (partsExact_of_everyCutFits hcuts)
    firstHalf_mem
  have hchunk := hparts.chunks ⟨0, 0x10000, 0x2000, 0x2000⟩ (by
    change _ ∈ chunks fourBytes 0 _ _
    rw [firstHalf_chunks]
    exact mem_singleton_self _)
  have hcut := hchunk.straddles 0x11ffe (by decide) (by decide) (by decide)
    (by decide)
  exact absurd hcut (by decide)

end MemScan
end CheatEngine
