import Mathlib.Tactic
import Mathlib.Algebra.BigOperators.Intervals

/-!
# Splitting a memory scan between threads

Both kinds of first scan walk over the list of memory regions and give every
scanner thread a start and a stop in it.  A thread gets `blocksize` bytes,
the last one what is left.  The bytes of the last region beyond the share are
kept in `leftfromprevious`, a 32-bit number, and the next thread starts that
many bytes before the end of the region.

The array behind the list is read one entry past its end in some branches;
`beyond` is what is found there.
-/

namespace CheatEngine
namespace MemScan

open List

/-- `TMemoryRegion`, as far as the split needs it. -/
structure MemoryRegion where
  BaseAddress : ℕ
  MemorySize : ℕ
deriving DecidableEq, Repr, Inhabited

namespace MemoryRegion

def stop (region : MemoryRegion) : ℕ :=
  region.BaseAddress + region.MemorySize

def bytes (region : MemoryRegion) : List ℕ :=
  List.range' region.BaseAddress region.MemorySize

end MemoryRegion

/-- The regions of one 64-bit address space that a scan goes through, in
ascending order and cut off at the end of the scanned range. -/
structure MemoryMap where
  memregion : List MemoryRegion
  stopaddress : ℕ
  ordered : memregion.Pairwise fun first second =>
    first.stop ≤ second.BaseAddress
  stop_le : ∀ region ∈ memregion, region.stop ≤ stopaddress
  stopaddress_lt : stopaddress < 2 ^ 64

namespace MemoryMap

def memregionpos (map : MemoryMap) : ℕ :=
  map.memregion.length

def totalProcessMemorySize (map : MemoryMap) : ℕ :=
  (map.memregion.map MemoryRegion.MemorySize).sum

def bytes (map : MemoryMap) : List ℕ :=
  map.memregion.flatMap MemoryRegion.bytes

end MemoryMap

structure Scanner where
  startregion : ℕ
  stopregion : ℤ
  startaddress : ℕ
  stopaddress : ℕ
deriving DecidableEq, Repr

structure Workload where
  map : MemoryMap
  beyond : MemoryRegion
  blocksize : ℕ

structure Cursor where
  j : ℕ
  offsetincurrentregion : ℕ
deriving DecidableEq, Repr

namespace Workload

variable (work : Workload)

def memregionpos : ℕ :=
  work.map.memregionpos

def region (index : ℕ) : MemoryRegion :=
  work.map.memregion.getD index work.beyond

/-- `while (currentblocksize<blocksize) and (j<memregionpos)`; the first
argument is `memregionpos-j`. -/
def growBlock : ℕ → ℕ → ℕ → ℕ × ℕ
  | 0, currentblocksize, j => (currentblocksize, j)
  | remaining + 1, currentblocksize, j =>
    if currentblocksize < work.blocksize then
      growBlock remaining
        (currentblocksize + (work.region j).MemorySize) (j + 1)
    else
      (currentblocksize, j)

def blockReached (cursor : Cursor) : ℕ × ℕ :=
  work.growBlock (work.memregionpos - (cursor.j + 1))
    (((work.region cursor.j).MemorySize + 2 ^ 64 -
      cursor.offsetincurrentregion) % 2 ^ 64) (cursor.j + 1)

def stopregion (cursor : Cursor) : ℕ :=
  (work.blockReached cursor).2 - 1

/-- The bytes that are too many for this block, as a `dword`. -/
def leftfromprevious (cursor : Cursor) : ℕ :=
  ((work.blockReached cursor).1 + 2 ^ 64 - work.blocksize) % 2 ^ 32

def startaddress (cursor : Cursor) : ℕ :=
  ((work.region cursor.j).BaseAddress + cursor.offsetincurrentregion) % 2 ^ 64

def blockScanner (cursor : Cursor) : Scanner where
  startregion := cursor.j
  stopregion := work.stopregion cursor
  startaddress := work.startaddress cursor
  stopaddress := ((work.region (work.stopregion cursor)).stop + 2 ^ 64 -
    work.leftfromprevious cursor) % 2 ^ 64

def nextCursor (cursor : Cursor) : Cursor :=
  if work.leftfromprevious cursor = 0 then
    { j := work.stopregion cursor + 1
      offsetincurrentregion := 0 }
  else
    { j := work.stopregion cursor
      offsetincurrentregion :=
        ((work.region (work.stopregion cursor)).MemorySize + 2 ^ 64 -
          work.leftfromprevious cursor) % 2 ^ 64 }

def lastScanner (cursor : Cursor) : Scanner where
  startregion := cursor.j
  stopregion := (work.memregionpos : ℤ) - 1
  startaddress := work.startaddress cursor
  stopaddress := work.map.stopaddress

/-- The loop over the threads; the first argument is the number of threads
after the current one. -/
def splitFrom : ℕ → Cursor → List Scanner
  | 0, cursor => [work.lastScanner cursor]
  | remaining + 1, cursor =>
    work.blockScanner cursor ::
      splitFrom remaining (work.nextCursor cursor)

def advance (threads : ℕ) (cursor : Cursor) : Cursor :=
  work.nextCursor^[threads] cursor

def split (threadcount : ℕ) : List Scanner :=
  work.splitFrom (threadcount - 1) ⟨0, 0⟩

end Workload

def firstScanBlocksize (map : MemoryMap) (threadcount : ℕ) : ℕ :=
  let blocksize := map.totalProcessMemorySize / threadcount
  if blocksize % 4096 > 0 then blocksize - blocksize % 4096 else blocksize

/-- `blocksize` of a first next scan: a `dword`, computed from a sum that
includes the entry after the last region. -/
def firstNextScanBlocksize (map : MemoryMap) (beyond : MemoryRegion)
    (threadcount : ℕ) : ℕ :=
  let totalProcessMemorySize :=
    (map.totalProcessMemorySize + beyond.MemorySize) % 2 ^ 64
  let blocksize := totalProcessMemorySize / threadcount % 2 ^ 32
  blocksize - blocksize % 4096

/-- The work of a first scan.  The array of regions has an empty entry after
the last region. -/
def firstScanWork (map : MemoryMap) (threadcount : ℕ) : Workload where
  map := map
  beyond := ⟨0, 0⟩
  blocksize := firstScanBlocksize map threadcount

def firstNextScanWork (map : MemoryMap) (beyond : MemoryRegion)
    (threadcount : ℕ) : Workload where
  map := map
  beyond := beyond
  blocksize := firstNextScanBlocksize map beyond threadcount

namespace Scanner

def currentbase (scanner : Scanner) (index : ℕ) (region : MemoryRegion) :
    ℕ :=
  if index = scanner.startregion then scanner.startaddress
  else region.BaseAddress

def shareStop (scanner : Scanner) (index : ℕ) (region : MemoryRegion) : ℕ :=
  if (index : ℤ) = scanner.stopregion ∧
      region.stop > scanner.stopaddress then
    scanner.stopaddress
  else
    region.stop

def share (scanner : Scanner) (index : ℕ) (region : MemoryRegion) :
    List ℕ :=
  List.range' (scanner.currentbase index region)
    (scanner.shareStop index region - scanner.currentbase index region)

def regionIndices (scanner : Scanner) : List ℕ :=
  List.range' scanner.startregion
    (scanner.stopregion + 1 - scanner.startregion).toNat

def bytes (work : Workload) (scanner : Scanner) : List ℕ :=
  scanner.regionIndices.flatMap fun index =>
    scanner.share index (work.region index)

/-- The scanner goes through no region, or it starts and stops inside regions
of the list and does not stop before it starts. -/
def Within (work : Workload) (scanner : Scanner) : Prop :=
  (scanner.startregion = work.memregionpos ∧
    scanner.stopregion + 1 = work.memregionpos) ∨
  (scanner.startregion ≤ scanner.stopregion ∧
    scanner.stopregion < work.memregionpos ∧
    (work.region scanner.startregion).BaseAddress ≤ scanner.startaddress ∧
    scanner.startaddress ≤ (work.region scanner.startregion).stop ∧
    (work.region scanner.stopregion.toNat).BaseAddress ≤
      scanner.stopaddress ∧
    (scanner.startregion = scanner.stopregion →
      scanner.startaddress ≤ scanner.stopaddress))

end Scanner

namespace Workload

/-- The scanners go through every byte of the regions once and in order, and
none of them leaves the list. -/
def ExactPartition (work : Workload) (scanners : List Scanner) : Prop :=
  (∀ scanner ∈ scanners, scanner.Within work) ∧
    scanners.flatMap (Scanner.bytes work) = work.map.bytes

/-- A thread starts inside the list, and `leftfromprevious` is not more than
what the thread has of its last region. -/
def Fits (work : Workload) (cursor : Cursor) : Prop :=
  cursor.j < work.memregionpos ∧
    work.leftfromprevious cursor ≤
      (work.region (work.stopregion cursor)).MemorySize ∧
    (work.stopregion cursor = cursor.j →
      work.leftfromprevious cursor + cursor.offsetincurrentregion ≤
        (work.region cursor.j).MemorySize)

/-! ## One share -/

variable {work : Workload} {cursor : Cursor}

theorem growBlock_spec (work : Workload) (remaining currentblocksize j : ℕ) :
    let result := work.growBlock remaining currentblocksize j
    j ≤ result.2 ∧ result.2 ≤ j + remaining ∧
      result.1 = currentblocksize +
        ∑ index ∈ Finset.Ico j result.2, (work.region index).MemorySize ∧
      (result.1 < work.blocksize → result.2 = j + remaining) ∧
      (j < result.2 →
        result.1 < work.blocksize +
          (work.region (result.2 - 1)).MemorySize) := by
  induction remaining generalizing currentblocksize j with
  | zero => simp [growBlock]
  | succ remaining ih =>
    simp only [growBlock]
    by_cases hsmall : currentblocksize < work.blocksize
    · rw [if_pos hsmall]
      obtain ⟨hle, hbound, hsum, hend, hlast⟩ :=
        ih (currentblocksize + (work.region j).MemorySize) (j + 1)
      set result := work.growBlock remaining
        (currentblocksize + (work.region j).MemorySize) (j + 1)
      have hbot : ∑ index ∈ Finset.Ico j result.2,
          (work.region index).MemorySize =
          (work.region j).MemorySize +
            ∑ index ∈ Finset.Ico (j + 1) result.2,
              (work.region index).MemorySize :=
        Finset.sum_eq_sum_Ico_succ_bot hle _
      refine ⟨by omega, by omega, ?_, by omega, ?_⟩
      · rw [hsum, hbot, add_assoc]
      · intro _
        by_cases hmore : j + 1 < result.2
        · exact hlast hmore
        · have hone : result.2 = j + 1 := by omega
          rw [hsum, hone]
          simp only [Finset.Ico_self, Finset.sum_empty, add_zero,
            Nat.add_sub_cancel]
          omega
    · rw [if_neg hsmall]
      refine ⟨le_refl _, by simp, by simp, ?_, ?_⟩
      · intro hcontra
        exact absurd hcontra hsmall
      · intro hcontra
        exact absurd hcontra (lt_irrefl j)

variable {index position : ℕ}

theorem region_eq_getElem (work : Workload)
    (hindex : index < work.map.memregion.length) :
    work.region index = work.map.memregion[index] := by
  simp [region, getD_eq_getElem?_getD, hindex]

theorem region_stop_lt (work : Workload) (hindex : index < work.memregionpos) :
    (work.region index).stop < 2 ^ 64 := by
  rw [work.region_eq_getElem hindex]
  exact (work.map.stop_le _ (getElem_mem hindex)).trans_lt
    work.map.stopaddress_lt

theorem stopregion_bounds (hcursor : cursor.j < work.memregionpos) :
    cursor.j ≤ work.stopregion cursor ∧
      work.stopregion cursor < work.memregionpos := by
  obtain ⟨hle, hbound, _⟩ := work.growBlock_spec
    (work.memregionpos - (cursor.j + 1))
    (((work.region cursor.j).MemorySize + 2 ^ 64 -
      cursor.offsetincurrentregion) % 2 ^ 64) (cursor.j + 1)
  unfold stopregion blockReached
  omega

def Inside (work : Workload) (cursor : Cursor) : Prop :=
  cursor.j < work.memregionpos ∧
    cursor.offsetincurrentregion ≤ (work.region cursor.j).MemorySize

theorem Inside.startaddress_eq (hinside : work.Inside cursor) :
    work.startaddress cursor =
      (work.region cursor.j).BaseAddress + cursor.offsetincurrentregion := by
  have hstop := work.region_stop_lt hinside.1
  have hoffset := hinside.2
  unfold MemoryRegion.stop at hstop
  exact Nat.mod_eq_of_lt (by omega)

private theorem wrapped_sub {value amount : ℕ} (hle : amount ≤ value)
    (hlt : value < 2 ^ 64) : (value + 2 ^ 64 - amount) % 2 ^ 64 =
      value - amount := by
  rw [Nat.sub_add_comm hle, Nat.add_mod_right]
  exact Nat.mod_eq_of_lt (by omega)

theorem Fits.stopaddress_eq (hfits : work.Fits cursor) :
    (work.blockScanner cursor).stopaddress =
      (work.region (work.stopregion cursor)).stop -
        work.leftfromprevious cursor := by
  have hstop := work.region_stop_lt (stopregion_bounds hfits.1).2
  have hleft := hfits.2.1
  apply wrapped_sub _ hstop
  unfold MemoryRegion.stop
  omega

theorem Fits.nextCursor_eq (hfits : work.Fits cursor)
    (hleft : work.leftfromprevious cursor ≠ 0) :
    work.nextCursor cursor =
      { j := work.stopregion cursor
        offsetincurrentregion :=
          (work.region (work.stopregion cursor)).MemorySize -
            work.leftfromprevious cursor } := by
  have hstop := work.region_stop_lt (stopregion_bounds hfits.1).2
  unfold MemoryRegion.stop at hstop
  rw [nextCursor, if_neg hleft, wrapped_sub hfits.2.1 (by omega)]

def bytesIn (work : Workload) (cursor : Cursor) (index : ℕ) : List ℕ :=
  if index = cursor.j then
    List.range'
      ((work.region index).BaseAddress + cursor.offsetincurrentregion)
      ((work.region index).MemorySize - cursor.offsetincurrentregion)
  else
    (work.region index).bytes

def bytesFrom (work : Workload) (cursor : Cursor) : List ℕ :=
  (List.range' cursor.j (work.memregionpos - cursor.j)).flatMap
    (work.bytesIn cursor)

theorem bytesIn_zero (work : Workload) (j index : ℕ) :
    work.bytesIn ⟨j, 0⟩ index = (work.region index).bytes := by
  unfold bytesIn MemoryRegion.bytes
  split <;> simp

theorem bytesFrom_zero (work : Workload) :
    work.bytesFrom ⟨0, 0⟩ = work.map.bytes := by
  have hregions : (List.range work.map.memregion.length).map work.region =
      work.map.memregion := by
    apply ext_getElem
    · simp
    · intro index hindex _
      rw [getElem_map, getElem_range, work.region_eq_getElem]
  have hbytes : work.bytesIn ⟨0, 0⟩ = fun index => (work.region index).bytes :=
    funext (work.bytesIn_zero 0)
  rw [bytesFrom, hbytes, Nat.sub_zero, ← range_eq_range', MemoryMap.bytes]
  conv_rhs => rw [← hregions]
  rw [flatMap_map]
  rfl

theorem Inside.currentbase_eq (hinside : work.Inside cursor)
    {scanner : Scanner} (hregion : scanner.startregion = cursor.j)
    (haddress : scanner.startaddress = work.startaddress cursor) (index : ℕ) :
    scanner.currentbase index (work.region index) =
      (work.region index).BaseAddress +
        if index = cursor.j then cursor.offsetincurrentregion else 0 := by
  rw [Scanner.currentbase, hregion, haddress, hinside.startaddress_eq]
  by_cases hfirst : index = cursor.j
  · rw [if_pos hfirst, if_pos hfirst, hfirst]
  · rw [if_neg hfirst, if_neg hfirst, Nat.add_zero]

theorem bytesIn_eq (work : Workload) (cursor : Cursor) (index : ℕ) :
    work.bytesIn cursor index =
      List.range' ((work.region index).BaseAddress +
          if index = cursor.j then cursor.offsetincurrentregion else 0)
        ((work.region index).MemorySize -
          if index = cursor.j then cursor.offsetincurrentregion else 0) := by
  unfold bytesIn MemoryRegion.bytes
  split <;> rfl

/-- In a region that it does not leave early a scanner takes everything from
the cursor on. -/
theorem Inside.share_eq (hinside : work.Inside cursor) {scanner : Scanner}
    (hregion : scanner.startregion = cursor.j)
    (haddress : scanner.startaddress = work.startaddress cursor)
    (hstop : scanner.shareStop index (work.region index) =
      (work.region index).stop) :
    scanner.share index (work.region index) = work.bytesIn cursor index := by
  rw [Scanner.share, hstop, hinside.currentbase_eq hregion haddress,
    work.bytesIn_eq, MemoryRegion.stop, Nat.add_sub_add_left]

private theorem range'_leave {base offset size left : ℕ}
    (hroom : offset + left ≤ size) :
    List.range' (base + offset) (base + size - left - (base + offset)) ++
        List.range' (base + size - left) left =
      List.range' (base + offset) (size - offset) := by
  have hlength : base + size - left - (base + offset) =
      size - left - offset := by
    omega
  have hsecond : base + size - left =
      base + offset + (size - left - offset) := by
    omega
  have hall : size - left - offset + left = size - offset := by
    omega
  rw [hlength, hsecond, range'_append_1, hall]

theorem Fits.share_stopregion (hfits : work.Fits cursor)
    (hinside : work.Inside cursor) :
    (work.blockScanner cursor).share (work.stopregion cursor)
        (work.region (work.stopregion cursor)) ++
      List.range'
        ((work.region (work.stopregion cursor)).stop -
          work.leftfromprevious cursor)
        (work.leftfromprevious cursor) =
      work.bytesIn cursor (work.stopregion cursor) := by
  have haddress := hfits.stopaddress_eq
  obtain ⟨_, hleft, hsame⟩ := hfits
  have hoffset := hinside.2
  have hstop : (work.blockScanner cursor).shareStop (work.stopregion cursor)
      (work.region (work.stopregion cursor)) =
      (work.region (work.stopregion cursor)).stop -
        work.leftfromprevious cursor := by
    unfold Scanner.shareStop
    rw [haddress]
    split
    · rfl
    · rename_i hnot
      have hzero : ¬ (work.region (work.stopregion cursor)).stop >
          (work.region (work.stopregion cursor)).stop -
            work.leftfromprevious cursor :=
        fun hmore => hnot ⟨rfl, hmore⟩
      omega
  have hroom : (if work.stopregion cursor = cursor.j then
      cursor.offsetincurrentregion else 0) + work.leftfromprevious cursor ≤
      (work.region (work.stopregion cursor)).MemorySize := by
    split
    · rename_i hfirst
      have hroom := hsame hfirst
      rw [hfirst]
      omega
    · omega
  rw [Scanner.share, hstop, hinside.currentbase_eq rfl rfl, work.bytesIn_eq]
  exact range'_leave hroom

theorem bytesIn_of_lt (work : Workload) (hindex : cursor.j < index) :
    work.bytesIn cursor index = (work.region index).bytes :=
  if_neg (by omega)

theorem Fits.bytesFrom_nextCursor (hfits : work.Fits cursor) :
    work.bytesFrom (work.nextCursor cursor) =
      List.range' ((work.region (work.stopregion cursor)).stop -
          work.leftfromprevious cursor) (work.leftfromprevious cursor) ++
        (List.range' (work.stopregion cursor + 1)
          (work.memregionpos - (work.stopregion cursor + 1))).flatMap
            fun index => (work.region index).bytes := by
  obtain ⟨_, hlt⟩ := stopregion_bounds hfits.1
  have hleft := hfits.2.1
  by_cases hzero : work.leftfromprevious cursor = 0
  · rw [nextCursor, if_pos hzero, hzero, bytesFrom,
      funext (work.bytesIn_zero _)]
    rfl
  · rw [hfits.nextCursor_eq hzero, bytesFrom]
    set last := work.stopregion cursor
    rw [show work.memregionpos - last =
      work.memregionpos - (last + 1) + 1 by omega, range'_succ,
      flatMap_cons]
    congr 1
    · rw [bytesIn, if_pos rfl]
      unfold MemoryRegion.stop
      congr 1 <;> dsimp only <;> omega
    · apply flatMap_congr
      intro index hindex
      apply work.bytesIn_of_lt
      exact (mem_range'_1.mp hindex).1

theorem Fits.bytesFrom_eq (hfits : work.Fits cursor)
    (hinside : work.Inside cursor) :
    work.bytesFrom cursor = (work.blockScanner cursor).bytes work ++
      work.bytesFrom (work.nextCursor cursor) := by
  obtain ⟨hle, hlt⟩ := stopregion_bounds hfits.1
  have hlastShare := hfits.share_stopregion hinside
  rw [hfits.bytesFrom_nextCursor]
  set last := work.stopregion cursor with hlast
  have hindices : List.range' cursor.j (work.memregionpos - cursor.j) =
      List.range' cursor.j (last - cursor.j) ++
        (last :: List.range' (last + 1)
          (work.memregionpos - (last + 1))) := by
    rw [← range'_succ, show work.memregionpos - cursor.j =
      (last - cursor.j) + (work.memregionpos - (last + 1) + 1) by omega,
      ← range'_append_1,
      show cursor.j + (last - cursor.j) = last by omega]
  have hscanner : (work.blockScanner cursor).regionIndices =
      List.range' cursor.j (last - cursor.j) ++ [last] := by
    have hcount : ((last : ℤ) + 1 - cursor.j).toNat =
        last + 1 - cursor.j := by
      omega
    change List.range' cursor.j ((last : ℤ) + 1 - cursor.j).toNat = _
    rw [hcount, show last + 1 - cursor.j = (last - cursor.j) + 1 by omega,
      ← range'_append_1, show cursor.j + (last - cursor.j) = last by omega]
    rfl
  have hbefore : (List.range' cursor.j (last - cursor.j)).flatMap
      (fun index => (work.blockScanner cursor).share index
        (work.region index)) =
      (List.range' cursor.j (last - cursor.j)).flatMap
        (work.bytesIn cursor) := by
    apply flatMap_congr
    intro index hindex
    apply hinside.share_eq rfl rfl
    apply if_neg
    have hbound := mem_range'_1.mp hindex
    rintro ⟨hstop, _⟩
    change (index : ℤ) = (last : ℤ) at hstop
    omega
  have hafter : (List.range' (last + 1)
      (work.memregionpos - (last + 1))).flatMap (work.bytesIn cursor) =
      (List.range' (last + 1) (work.memregionpos - (last + 1))).flatMap
        fun index => (work.region index).bytes := by
    apply flatMap_congr
    intro index hindex
    apply work.bytesIn_of_lt
    have hbound := mem_range'_1.mp hindex
    omega
  rw [bytesFrom, hindices, Scanner.bytes, hscanner, flatMap_append,
    flatMap_append, hbefore, flatMap_cons, hafter, ← hlastShare]
  simp

def Valid (work : Workload) (cursor : Cursor) : Prop :=
  work.Inside cursor ∨ cursor = ⟨work.memregionpos, 0⟩

theorem Fits.nextCursor_valid (hfits : work.Fits cursor) :
    work.Valid (work.nextCursor cursor) := by
  obtain ⟨_, hlt⟩ := stopregion_bounds hfits.1
  by_cases hzero : work.leftfromprevious cursor = 0
  · rw [nextCursor, if_pos hzero]
    by_cases hend : work.stopregion cursor + 1 = work.memregionpos
    · rw [hend]
      exact Or.inr rfl
    · refine Or.inl ⟨?_, Nat.zero_le _⟩
      change work.stopregion cursor + 1 < work.memregionpos
      omega
  · rw [hfits.nextCursor_eq hzero]
    exact Or.inl ⟨hlt, Nat.sub_le _ _⟩

theorem Fits.inside (hfits : work.Fits cursor)
    (hvalid : work.Valid cursor) : work.Inside cursor := by
  rcases hvalid with hinside | hend
  · exact hinside
  · have hstart := hfits.1
    rw [hend] at hstart
    exact absurd hstart (lt_irrefl _)

theorem Fits.within (hfits : work.Fits cursor) (hinside : work.Inside cursor) :
    (work.blockScanner cursor).Within work := by
  obtain ⟨hle, hlt⟩ := stopregion_bounds hfits.1
  have hstart : (work.blockScanner cursor).startaddress = _ :=
    hinside.startaddress_eq
  have hstop := hfits.stopaddress_eq
  have hoffset := hinside.2
  obtain ⟨_, hleft, hsame⟩ := hfits
  refine Or.inr ⟨Int.ofNat_le.mpr hle, Int.ofNat_lt.mpr hlt, ?_, ?_, ?_, ?_⟩
  · rw [hstart]
    exact Nat.le_add_right _ _
  · rw [hstart]
    exact Nat.add_le_add_left hoffset _
  · rw [hstop]
    unfold MemoryRegion.stop
    change (work.region (work.stopregion cursor)).BaseAddress ≤ _
    omega
  · intro hsameRegion
    have hfirst : cursor.j = work.stopregion cursor :=
      Int.ofNat_inj.mp hsameRegion
    have hroom := hsame hfirst.symm
    rw [hstart, hstop, ← hfirst]
    unfold MemoryRegion.stop
    omega

theorem lastScanner_within (hvalid : work.Valid cursor) :
    (work.lastScanner cursor).Within work := by
  rcases hvalid with hinside | hend
  · have hstart : (work.lastScanner cursor).startaddress = _ :=
      hinside.startaddress_eq
    have hoffset := hinside.2
    have hj := hinside.1
    have hpos : 0 < work.memregionpos := Nat.zero_lt_of_lt hj
    have hindex : (work.lastScanner cursor).stopregion =
        ((work.memregionpos - 1 : ℕ) : ℤ) := by
      change (work.memregionpos : ℤ) - 1 = _
      omega
    have hlast : work.memregionpos - 1 < work.map.memregion.length :=
      Nat.sub_one_lt_of_lt hpos
    have hmem : work.region (work.memregionpos - 1) ∈
        work.map.memregion := by
      rw [work.region_eq_getElem hlast]
      exact getElem_mem hlast
    have hstop := work.map.stop_le _ hmem
    unfold MemoryRegion.stop at hstop
    rw [Scanner.Within, hindex]
    refine Or.inr ⟨?_, Int.ofNat_lt.mpr hlast, ?_, ?_, ?_, ?_⟩
    · exact Int.ofNat_le.mpr (Nat.le_sub_one_of_lt hj)
    · rw [hstart]
      exact Nat.le_add_right _ _
    · rw [hstart]
      exact Nat.add_le_add_left hoffset _
    · change (work.region (work.memregionpos - 1)).BaseAddress ≤
        work.map.stopaddress
      omega
    · intro hsame
      have hfirst : cursor.j = work.memregionpos - 1 :=
        Int.ofNat_inj.mp hsame
      rw [← hfirst] at hstop
      rw [hstart]
      change _ ≤ work.map.stopaddress
      omega
  · subst hend
    exact Or.inl ⟨rfl, sub_add_cancel _ _⟩

theorem lastScanner_bytes (hvalid : work.Valid cursor) :
    (work.lastScanner cursor).bytes work = work.bytesFrom cursor := by
  have hindices : (work.lastScanner cursor).regionIndices =
      List.range' cursor.j (work.memregionpos - cursor.j) := by
    change List.range' cursor.j
      ((work.memregionpos : ℤ) - 1 + 1 - cursor.j).toNat = _
    rw [sub_add_cancel, Int.toNat_sub]
  rw [Scanner.bytes, hindices, bytesFrom]
  rcases hvalid with hinside | hend
  · apply flatMap_congr
    intro index hindex
    have hbound := mem_range'_1.mp hindex
    have hlt : index < work.map.memregion.length := by
      have hcount : work.memregionpos = work.map.memregion.length := rfl
      omega
    apply hinside.share_eq rfl rfl
    apply if_neg
    rintro ⟨_, hmore⟩
    rw [work.region_eq_getElem hlt] at hmore
    have hstop := work.map.stop_le _ (getElem_mem hlt)
    change _ > work.map.stopaddress at hmore
    omega
  · rw [hend, Nat.sub_self]
    rfl

/-! ## All shares -/

@[simp]
theorem advance_zero (work : Workload) (cursor : Cursor) :
    work.advance 0 cursor = cursor :=
  rfl

theorem advance_nextCursor (work : Workload) (threads : ℕ) (cursor : Cursor) :
    work.advance threads (work.nextCursor cursor) =
      work.advance (threads + 1) cursor :=
  (Function.iterate_succ_apply _ _ _).symm

theorem advance_succ (work : Workload) (threads : ℕ) (cursor : Cursor) :
    work.advance (threads + 1) cursor =
      work.nextCursor (work.advance threads cursor) :=
  Function.iterate_succ_apply' _ _ _

theorem splitFrom_exact {remaining : ℕ} (hvalid : work.Valid cursor)
    (hfits : ∀ index < remaining, work.Fits (work.advance index cursor)) :
    (∀ scanner ∈ work.splitFrom remaining cursor, scanner.Within work) ∧
      (work.splitFrom remaining cursor).flatMap (Scanner.bytes work) =
        work.bytesFrom cursor := by
  induction remaining generalizing cursor with
  | zero =>
    simp only [splitFrom, mem_singleton, forall_eq, flatMap_singleton]
    exact ⟨lastScanner_within hvalid, lastScanner_bytes hvalid⟩
  | succ remaining ih =>
    have hfirst := hfits 0 (Nat.zero_lt_succ _)
    rw [advance_zero] at hfirst
    have hinside := hfirst.inside hvalid
    have hrest : ∀ index < remaining,
        work.Fits (work.advance index (work.nextCursor cursor)) := by
      intro index hindex
      rw [advance_nextCursor]
      exact hfits (index + 1) (Nat.succ_lt_succ hindex)
    obtain ⟨hwithin, hbytes⟩ := ih hfirst.nextCursor_valid hrest
    refine ⟨?_, ?_⟩
    · intro scanner hmem
      rcases mem_cons.mp hmem with hhead | htail
      · rw [hhead]
        exact hfirst.within hinside
      · exact hwithin scanner htail
    · rw [splitFrom, flatMap_cons, hbytes, hfirst.bytesFrom_eq hinside]

theorem exists_mem_splitFrom (work : Workload) (remaining : ℕ)
    (cursor : Cursor) :
    ∃ scanner ∈ work.splitFrom remaining cursor,
      scanner.startregion = cursor.j ∧
        scanner.startaddress = work.startaddress cursor := by
  cases remaining with
  | zero => exact ⟨work.lastScanner cursor, by simp [splitFrom], rfl, rfl⟩
  | succ remaining =>
    exact ⟨work.blockScanner cursor, by simp [splitFrom], rfl, rfl⟩

private theorem le_size_of_wrapped {base size left : ℕ}
    (hend : base + size < 2 ^ 64) (hleft : left < 2 ^ 32)
    (hlower : base ≤ (base + (size + 2 ^ 64 - left) % 2 ^ 64) % 2 ^ 64)
    (hupper : (base + (size + 2 ^ 64 - left) % 2 ^ 64) % 2 ^ 64 ≤
      base + size) : left ≤ size := by
  omega

theorem fits_of_within (hvalid : work.Valid cursor)
    (hthis : (work.blockScanner cursor).Within work) {next : Scanner}
    (hregion : next.startregion = (work.nextCursor cursor).j)
    (haddress : next.startaddress = work.startaddress (work.nextCursor cursor))
    (hnext : next.Within work) : work.Fits cursor := by
  have hinside : work.Inside cursor := by
    rcases hvalid with hinside | hend
    · exact hinside
    · exfalso
      have hstop : work.stopregion cursor = work.memregionpos := by
        rw [hend]
        simp [stopregion, blockReached, growBlock]
      rcases hthis with ⟨_, hnone⟩ | ⟨_, hlt, _⟩
      · change (work.stopregion cursor : ℤ) + 1 = work.memregionpos at hnone
        omega
      · change (work.stopregion cursor : ℤ) < work.memregionpos at hlt
        omega
  obtain ⟨hle, hlt⟩ := stopregion_bounds hinside.1
  have hdword : work.leftfromprevious cursor < 2 ^ 32 :=
    Nat.mod_lt _ (by norm_num)
  have hstopLt := work.region_stop_lt hlt
  have hleft : work.leftfromprevious cursor ≤
      (work.region (work.stopregion cursor)).MemorySize := by
    by_cases hzero : work.leftfromprevious cursor = 0
    · omega
    · have hcursor : work.nextCursor cursor =
          ⟨work.stopregion cursor, ((work.region
            (work.stopregion cursor)).MemorySize + 2 ^ 64 -
              work.leftfromprevious cursor) % 2 ^ 64⟩ := by
        rw [nextCursor, if_neg hzero]
      rw [hcursor] at hregion haddress
      rcases hnext with ⟨hend, _⟩ | ⟨_, _, hlower, hupper, _⟩
      · change next.startregion = work.stopregion cursor at hregion
        omega
      · rw [hregion, haddress] at hlower hupper
        exact le_size_of_wrapped hstopLt hdword hlower hupper
  refine ⟨hinside.1, hleft, ?_⟩
  intro hsame
  rcases hthis with ⟨hend, _⟩ | ⟨_, _, _, _, _, horder⟩
  · change cursor.j = work.memregionpos at hend
    have hj := hinside.1
    omega
  · have hstart : (work.blockScanner cursor).startaddress = _ :=
      hinside.startaddress_eq
    have hstop : (work.blockScanner cursor).stopaddress = _ :=
      wrapped_sub (hleft.trans (Nat.le_add_left _ _)) hstopLt
    have hbefore := horder (Int.ofNat_inj.mpr hsame.symm)
    rw [hstart, hstop, hsame] at hbefore
    rw [hsame] at hleft
    unfold MemoryRegion.stop at hbefore
    omega

theorem splitFrom_fits {remaining : ℕ} (hvalid : work.Valid cursor)
    (hwithin : ∀ scanner ∈ work.splitFrom remaining cursor,
      scanner.Within work) :
    ∀ index < remaining, work.Fits (work.advance index cursor) := by
  induction remaining generalizing cursor with
  | zero =>
    intro index hindex
    omega
  | succ remaining ih =>
    obtain ⟨next, hmem, hregion, haddress⟩ :=
      work.exists_mem_splitFrom remaining (work.nextCursor cursor)
    have hrest : ∀ scanner ∈ work.splitFrom remaining
        (work.nextCursor cursor), scanner.Within work :=
      fun scanner hscanner =>
        hwithin scanner (mem_cons_of_mem _ hscanner)
    have hfirst : work.Fits cursor :=
      fits_of_within hvalid (hwithin _ mem_cons_self) hregion haddress
        (hrest next hmem)
    intro index hindex
    cases index with
    | zero =>
      rw [advance_zero]
      exact hfirst
    | succ index =>
      rw [← advance_nextCursor]
      exact ih hfirst.nextCursor_valid hrest index (by omega)

theorem start_valid (work : Workload) : work.Valid ⟨0, 0⟩ := by
  rcases Nat.eq_zero_or_pos work.memregionpos with hnone | hpos
  · rw [Valid, hnone]
    exact Or.inr rfl
  · exact Or.inl ⟨hpos, Nat.zero_le _⟩

theorem exactPartition_split_iff (work : Workload) (threadcount : ℕ) :
    work.ExactPartition (work.split threadcount) ↔
      ∀ index, index + 1 < threadcount →
        work.Fits (work.advance index ⟨0, 0⟩) := by
  constructor
  · rintro ⟨hwithin, _⟩ index hindex
    exact splitFrom_fits work.start_valid hwithin index (by omega)
  · intro hfits
    have hcuts : ∀ index < threadcount - 1,
        work.Fits (work.advance index ⟨0, 0⟩) :=
      fun index hindex => hfits index (by omega)
    obtain ⟨hwithin, hbytes⟩ := splitFrom_exact work.start_valid hcuts
    exact ⟨hwithin, hbytes.trans work.bytesFrom_zero⟩

/-! ## Regions below 4 GiB -/

def sizeBefore (work : Workload) (index : ℕ) : ℕ :=
  ∑ earlier ∈ Finset.range index, (work.region earlier).MemorySize

theorem sizeBefore_succ (work : Workload) (index : ℕ) :
    work.sizeBefore (index + 1) =
      work.sizeBefore index + (work.region index).MemorySize :=
  Finset.sum_range_succ _ _

theorem sizeBefore_memregionpos (work : Workload) :
    work.sizeBefore work.memregionpos = work.map.totalProcessMemorySize := by
  unfold sizeBefore MemoryMap.totalProcessMemorySize memregionpos
    MemoryMap.memregionpos
  rw [Finset.sum_range, ← sum_ofFn]
  congr 1
  apply ext_getElem
  · simp
  · intro index hindex _
    have hlt : index < work.map.memregion.length := by
      simpa using hindex
    simp [work.region_eq_getElem hlt]

structure AtByte (work : Workload) (position : ℕ) (cursor : Cursor) :
    Prop where
  inside : work.Inside cursor
  position_eq :
    work.sizeBefore cursor.j + cursor.offsetincurrentregion = position

section

variable (hcursor : work.AtByte position cursor)
  (htotal : position + work.blocksize ≤ work.map.totalProcessMemorySize)

include hcursor htotal

theorem AtByte.blockReached_eq :
    work.sizeBefore (work.stopregion cursor + 1) =
        position + (work.blockReached cursor).1 ∧
      work.blocksize ≤ (work.blockReached cursor).1 ∧
      (work.stopregion cursor ≠ cursor.j →
        (work.blockReached cursor).1 < work.blocksize +
          (work.region (work.stopregion cursor)).MemorySize) := by
  obtain ⟨hinside, hposition⟩ := hcursor
  have hj := hinside.1
  have hoffset := hinside.2
  have hstop := work.region_stop_lt hinside.1
  unfold MemoryRegion.stop at hstop
  have hfirst : ((work.region cursor.j).MemorySize + 2 ^ 64 -
      cursor.offsetincurrentregion) % 2 ^ 64 =
      (work.region cursor.j).MemorySize - cursor.offsetincurrentregion :=
    wrapped_sub hoffset (by omega)
  obtain ⟨hle, hbound, hsum, hend, hlast⟩ := work.growBlock_spec
    (work.memregionpos - (cursor.j + 1))
    (((work.region cursor.j).MemorySize + 2 ^ 64 -
      cursor.offsetincurrentregion) % 2 ^ 64) (cursor.j + 1)
  change _ ≤ (work.blockReached cursor).2 at hle
  change (work.blockReached cursor).2 ≤ _ at hbound
  change (work.blockReached cursor).1 = _ at hsum
  change (work.blockReached cursor).1 < work.blocksize →
    (work.blockReached cursor).2 = _ at hend
  change _ < (work.blockReached cursor).2 → (work.blockReached cursor).1 <
    work.blocksize +
      (work.region ((work.blockReached cursor).2 - 1)).MemorySize at hlast
  change ((work.blockReached cursor).1 = _ +
    ∑ index ∈ Finset.Ico _ (work.blockReached cursor).2, _) at hsum
  have hstopregion : work.stopregion cursor + 1 =
      (work.blockReached cursor).2 := by
    unfold stopregion
    omega
  have hbefore : work.sizeBefore (work.blockReached cursor).2 =
      position + (work.blockReached cursor).1 := by
    have hsplit : work.sizeBefore (cursor.j + 1) +
        ∑ index ∈ Finset.Ico (cursor.j + 1) (work.blockReached cursor).2,
          (work.region index).MemorySize =
        work.sizeBefore (work.blockReached cursor).2 :=
      Finset.sum_range_add_sum_Ico _ hle
    rw [work.sizeBefore_succ] at hsplit
    omega
  rw [hstopregion]
  refine ⟨hbefore, ?_, ?_⟩
  · by_contra hsmall
    have hall : (work.blockReached cursor).2 = work.memregionpos := by
      have hreached := hend (by omega)
      omega
    rw [hall, work.sizeBefore_memregionpos] at hbefore
    omega
  · intro hother
    exact hlast (by omega)

theorem AtByte.fits
    (hsmall : ∀ region ∈ work.map.memregion, region.MemorySize < 2 ^ 32) :
    work.Fits cursor ∧
      work.leftfromprevious cursor =
        (work.blockReached cursor).1 - work.blocksize := by
  obtain ⟨hbefore, hreached, hlast⟩ := hcursor.blockReached_eq htotal
  obtain ⟨hinside, hposition⟩ := hcursor
  obtain ⟨hle, hlt⟩ := stopregion_bounds hinside.1
  have hoffset := hinside.2
  have hsize : (work.region (work.stopregion cursor)).MemorySize <
      2 ^ 32 := by
    rw [work.region_eq_getElem hlt]
    exact hsmall _ (getElem_mem hlt)
  rw [work.sizeBefore_succ] at hbefore
  have hexcess : (work.blockReached cursor).1 - work.blocksize ≤
      (work.region (work.stopregion cursor)).MemorySize ∧
      (work.stopregion cursor = cursor.j →
        (work.blockReached cursor).1 - work.blocksize +
            cursor.offsetincurrentregion ≤
          (work.region cursor.j).MemorySize) := by
    by_cases hsame : work.stopregion cursor = cursor.j
    · rw [hsame] at hbefore ⊢
      omega
    · have hbound := hlast hsame
      exact ⟨by omega, fun hcontra => absurd hcontra hsame⟩
  have hleft : work.leftfromprevious cursor =
      (work.blockReached cursor).1 - work.blocksize := by
    unfold leftfromprevious
    rw [Nat.sub_add_comm hreached, Nat.add_mod,
      show (2 : ℕ) ^ 64 % 2 ^ 32 = 0 by norm_num, Nat.add_zero, Nat.mod_mod]
    exact Nat.mod_eq_of_lt (by omega)
  rw [← hleft] at hexcess
  exact ⟨⟨hinside.1, hexcess.1, hexcess.2⟩, hleft⟩

end

theorem AtByte.nextCursor (hcursor : work.AtByte position cursor)
    (htotal : position + work.blocksize < work.map.totalProcessMemorySize)
    (hsmall : ∀ region ∈ work.map.memregion, region.MemorySize < 2 ^ 32) :
    work.AtByte (position + work.blocksize) (work.nextCursor cursor) := by
  obtain ⟨hbefore, hreached, _⟩ := hcursor.blockReached_eq htotal.le
  obtain ⟨hfits, hleft⟩ := hcursor.fits htotal.le hsmall
  obtain ⟨_, hlt⟩ := stopregion_bounds hfits.1
  by_cases hzero : work.leftfromprevious cursor = 0
  · rw [Workload.nextCursor, if_pos hzero]
    refine ⟨⟨?_, Nat.zero_le _⟩, ?_⟩
    · by_contra hend
      have hall : work.stopregion cursor + 1 = work.memregionpos := by
        dsimp only at hend
        omega
      rw [hall, work.sizeBefore_memregionpos] at hbefore
      omega
    · dsimp only
      omega
  · have hroom := hfits.2.1
    rw [work.sizeBefore_succ] at hbefore
    rw [hfits.nextCursor_eq hzero]
    refine ⟨⟨hlt, Nat.sub_le _ _⟩, ?_⟩
    dsimp only
    omega

theorem advance_atByte {threadcount : ℕ}
    (hsmall : ∀ region ∈ work.map.memregion, region.MemorySize < 2 ^ 32)
    (hblocks : threadcount * work.blocksize ≤ work.map.totalProcessMemorySize)
    (hbytes : 0 < work.map.totalProcessMemorySize)
    (hindex : index < threadcount) :
    work.AtByte (index * work.blocksize)
      (work.advance index ⟨0, 0⟩) := by
  induction index with
  | zero =>
    have hpos : 0 < work.memregionpos := by
      by_contra hnone
      have hempty : work.memregionpos = 0 := by omega
      rw [← work.sizeBefore_memregionpos, hempty] at hbytes
      exact absurd hbytes (lt_irrefl 0)
    refine ⟨⟨hpos, Nat.zero_le _⟩, ?_⟩
    simp [advance, sizeBefore]
  | succ index ih =>
    have hbefore := ih (by omega)
    have hroom : (index + 1) * work.blocksize <
        work.map.totalProcessMemorySize := by
      rcases Nat.eq_zero_or_pos work.blocksize with hzero | hpos
      · rw [hzero, Nat.mul_zero]
        exact hbytes
      · exact ((Nat.mul_lt_mul_right hpos).mpr hindex).trans_le hblocks
    rw [Nat.add_one_mul] at hroom ⊢
    rw [work.advance_succ]
    exact hbefore.nextCursor hroom hsmall

/-- Every thread but the last one starts inside the list and is cut where it
fits. -/
def EveryCutFits (work : Workload) (threadcount : ℕ) : Prop :=
  ∀ index, index + 1 < threadcount →
    work.Fits (work.advance index ⟨0, 0⟩)

theorem everyCutFits_of_small {threadcount : ℕ}
    (hsmall : ∀ region ∈ work.map.memregion, region.MemorySize < 2 ^ 32)
    (hblocks : threadcount * work.blocksize ≤ work.map.totalProcessMemorySize)
    (hbytes : 0 < work.map.totalProcessMemorySize) :
    work.EveryCutFits threadcount := by
  intro index hindex
  have hcursor := advance_atByte hsmall hblocks hbytes
    (Nat.lt_of_succ_lt hindex)
  have hroom : index * work.blocksize + work.blocksize ≤
      work.map.totalProcessMemorySize := by
    rw [← Nat.add_one_mul]
    exact (Nat.mul_le_mul_right _ hindex.le).trans hblocks
  exact (hcursor.fits hroom hsmall).1

end Workload

theorem threads_mul_firstScanBlocksize_le (map : MemoryMap) (threadcount : ℕ) :
    threadcount * firstScanBlocksize map threadcount ≤
      map.totalProcessMemorySize := by
  have hblock : firstScanBlocksize map threadcount ≤
      map.totalProcessMemorySize / threadcount := by
    unfold firstScanBlocksize
    dsimp only
    split
    · exact Nat.sub_le _ _
    · exact le_refl _
  exact (Nat.mul_le_mul_left _ hblock).trans (Nat.mul_div_le _ _)

theorem threads_mul_firstNextScanBlocksize_le (map : MemoryMap)
    {beyond : MemoryRegion} (hbeyond : beyond.MemorySize = 0)
    (threadcount : ℕ) :
    threadcount * firstNextScanBlocksize map beyond threadcount ≤
      map.totalProcessMemorySize := by
  have hblock : firstNextScanBlocksize map beyond threadcount ≤
      map.totalProcessMemorySize / threadcount := by
    unfold firstNextScanBlocksize
    dsimp only
    rw [hbeyond, Nat.add_zero]
    calc _ ≤ map.totalProcessMemorySize % 2 ^ 64 / threadcount % 2 ^ 32 :=
          Nat.sub_le _ _
      _ ≤ map.totalProcessMemorySize % 2 ^ 64 / threadcount :=
          Nat.mod_le _ _
      _ ≤ map.totalProcessMemorySize / threadcount :=
          Nat.div_le_div_right (Nat.mod_le _ _)
  exact (Nat.mul_le_mul_left _ hblock).trans (Nat.mul_div_le _ _)

/-- Both splits are exact partitions when every cut fits and only then.  All
cuts fit when no region reaches 4 GiB and nothing is found behind the list. -/
theorem split_exact_iff (map : MemoryMap) (beyond : MemoryRegion)
    (threadcount : ℕ) :
    ((firstScanWork map threadcount).ExactPartition
        ((firstScanWork map threadcount).split threadcount) ↔
      (firstScanWork map threadcount).EveryCutFits threadcount) ∧
    ((firstNextScanWork map beyond threadcount).ExactPartition
        ((firstNextScanWork map beyond threadcount).split threadcount) ↔
      (firstNextScanWork map beyond threadcount).EveryCutFits threadcount) ∧
    (0 < map.totalProcessMemorySize →
      (∀ region ∈ map.memregion, region.MemorySize < 2 ^ 32) →
      (firstScanWork map threadcount).EveryCutFits threadcount ∧
        (beyond.MemorySize = 0 →
          (firstNextScanWork map beyond threadcount).EveryCutFits
            threadcount)) := by
  refine ⟨Workload.exactPartition_split_iff _ _,
    Workload.exactPartition_split_iff _ _, ?_⟩
  intro hbytes hsmall
  constructor
  · exact Workload.everyCutFits_of_small hsmall
      (threads_mul_firstScanBlocksize_le map threadcount) hbytes
  · intro hbeyond
    exact Workload.everyCutFits_of_small hsmall
      (threads_mul_firstNextScanBlocksize_le map hbeyond threadcount) hbytes

theorem userEnd_lt : 0x7fffffffffff < 2 ^ 64 := by
  norm_num

theorem one_lt_maxint : 1 < 2 ^ 31 := by
  norm_num

def sixGiBMap : MemoryMap where
  memregion := [⟨0x10000, 0x180000000⟩]
  stopaddress := 0x7fffffffffff
  ordered := pairwise_singleton _ _
  stop_le := by decide
  stopaddress_lt := userEnd_lt

/-- The second of four threads starts 512 MiB before the end of the region
and is told to stop before it starts. -/
theorem sixGiB_split_not_exact :
    ¬ (firstScanWork sixGiBMap 4).ExactPartition
      ((firstScanWork sixGiBMap 4).split 4) := by
  rw [Workload.exactPartition_split_iff]
  intro hfits
  have hcut := (hfits 1 (by norm_num)).2.2
  revert hcut
  decide

end MemScan
end CheatEngine
