import Mathlib.Tactic

/-!
# Splitting the saved results of a scan between threads

A repeated next scan goes through the addresses that the scan before it saved.
`NextNextScan` gives each scanner a range of entries, both ends included, and
`nextNextscan` reads its range in chunks.  The number of entries that are left
is a 64-bit number, `chunksize` is an `integer`.
-/

namespace CheatEngine
namespace MemScanRanges

open List

structure NextNextScan where
  totalAddresses : UInt64
  threadcount : ℕ
  buffersize : UInt32
  threadcount_pos : 0 < threadcount
  threadcount_lt : threadcount < 2 ^ 31
  buffersize_pos : 0 < buffersize.toNat

structure Scanner where
  startentry : ℕ
  stopentry : ℕ
deriving DecidableEq, Repr

namespace Scanner

def entries (scanner : Scanner) : List ℕ :=
  List.range' scanner.startentry
    (scanner.stopentry + 1 - scanner.startentry)

end Scanner

namespace NextNextScan

variable (scan : NextNextScan)

def total : ℕ :=
  scan.totalAddresses.toNat

def blocksize : ℕ :=
  if scan.total / scan.threadcount = 0 ∧ 0 < scan.total then
    1
  else
    scan.total / scan.threadcount

def lastEntry (i currententry : ℕ) : ℕ :=
  if i = scan.threadcount - 1 then
    scan.total - 1
  else
    (currententry + scan.blocksize) % 2 ^ 64

def scanner (i currententry : ℕ) : Scanner :=
  if 0 < scan.total then
    { startentry := currententry
      stopentry :=
        if scan.total ≤ scan.lastEntry i currententry then
          scan.total - 1
        else
          scan.lastEntry i currententry }
  else
    { startentry := 1, stopentry := 0 }

/-- The scanners from `i` on; the first argument is how many there are. -/
def scannersFrom : ℕ → ℕ → ℕ → List Scanner
  | 0, _, _ => []
  | turns + 1, i, currententry =>
    scan.scanner i currententry ::
      scannersFrom turns (i + 1)
        (((scan.scanner i currententry).stopentry + 1) % 2 ^ 64)

def scanners : List Scanner :=
  scan.scannersFrom scan.threadcount 0 0

end NextNextScan

/-! ## The chunks of a range -/

/-- What an assignment to an `integer` makes of a 64-bit number. -/
def toInteger (value : ℕ) : ℤ :=
  (value : ℤ).bmod (2 ^ 32)

def chunksize (buffersize remaining : ℕ) : ℤ :=
  if toInteger remaining > buffersize then
    buffersize
  else
    toInteger remaining

def nextIndex (i count : ℕ) : ℕ :=
  (i + count) % 2 ^ 64

/-- The loop of `nextNextscan`: the entries it goes through, when `fuel` turns
are enough for it.  A chunk of no or of fewer entries makes `maxindex` wrap
around, and the scan leaves the buffer. -/
def scanChunks (buffersize startentry stopindex : ℕ) :
    ℕ → ℕ → Option (List ℕ)
  | 0, _ => none
  | fuel + 1, i =>
    if i ≤ stopindex then
      let count := chunksize buffersize (stopindex - i + 1)
      if 0 < count then
        (scanChunks buffersize startentry stopindex fuel
          (nextIndex i count.toNat)).map
          fun rest => List.range' (startentry + i) count.toNat ++ rest
      else
        none
    else
      some []

def nextNextscan (buffersize fuel : ℕ) (scanner : Scanner) :
    Option (List ℕ) :=
  if scanner.startentry > scanner.stopentry then
    some []
  else
    scanChunks buffersize scanner.startentry
      (scanner.stopentry - scanner.startentry) fuel 0

/-- The scan of a range ends and goes through its entries once, in order. -/
def ScansOnce (buffersize : ℕ) (scanner : Scanner) : Prop :=
  ∃ fuel, nextNextscan buffersize fuel scanner = some scanner.entries

theorem toInteger_of_lt {value : ℕ} (hvalue : value < 2 ^ 31) :
    toInteger value = value :=
  Int.bmod_eq_of_le (by omega) (by omega)

/-- What an `integer` keeps of a number beyond its range is either not
positive or leaves a multiple of `2^32` out. -/
theorem toInteger_le {value : ℕ} (hvalue : 2 ^ 31 ≤ value)
    (hpos : 0 < toInteger value) : toInteger value + 2 ^ 32 ≤ value := by
  unfold toInteger at hpos ⊢
  rw [Int.bmod_def] at hpos ⊢
  split at hpos <;> split <;> omega

theorem chunksize_le (buffersize remaining : ℕ) :
    chunksize buffersize remaining ≤ toInteger remaining := by
  unfold chunksize
  split <;> omega

variable {buffersize : ℕ}

theorem chunksize_pos {remaining : ℕ} (hbuffer : 0 < buffersize)
    (hremaining : 0 < remaining) (hlt : remaining < 2 ^ 31) :
    0 < chunksize buffersize remaining := by
  unfold chunksize
  rw [toInteger_of_lt hlt]
  split <;> omega

theorem scanChunks_of_lt (hbuffer : 0 < buffersize) (startentry : ℕ)
    {stopindex : ℕ} (hstop : stopindex + 1 < 2 ^ 31) {i : ℕ}
    (hi : i ≤ stopindex + 1) :
    ∃ fuel, scanChunks buffersize startentry stopindex fuel i =
      some (List.range' (startentry + i) (stopindex + 1 - i)) := by
  obtain ⟨remaining, hremaining⟩ := Nat.exists_eq_add_of_le hi
  induction remaining using Nat.strong_induction_on generalizing i with
  | _ remaining ih =>
    by_cases hinside : i ≤ stopindex
    · have hpos := chunksize_pos hbuffer
        (show 0 < stopindex - i + 1 by omega) (by omega)
      have hle := chunksize_le buffersize (stopindex - i + 1)
      rw [toInteger_of_lt (by omega)] at hle
      obtain ⟨count, hcount⟩ := Int.eq_ofNat_of_zero_le (le_of_lt hpos)
      rw [hcount] at hpos hle
      have hwrap : nextIndex i count = i + count :=
        Nat.mod_eq_of_lt (by omega)
      obtain ⟨fuel, hfuel⟩ := ih (remaining - count) (by omega)
        (show i + count ≤ stopindex + 1 by omega) (by omega)
      refine ⟨fuel + 1, ?_⟩
      rw [scanChunks, if_pos hinside]
      have hsum : count + (stopindex + 1 - (i + count)) =
          stopindex + 1 - i := by
        omega
      simp only [hcount, if_pos hpos, Int.toNat_natCast, hwrap, hfuel,
        Option.map_some]
      rw [← Nat.add_assoc startentry i, range'_append_1, hsum]
    · refine ⟨1, ?_⟩
      rw [scanChunks, if_neg hinside]
      have hend : stopindex + 1 - i = 0 := by omega
      rw [hend]
      rfl

theorem scanChunks_of_ge (buffersize startentry : ℕ) {stopindex : ℕ}
    (hstop : stopindex < 2 ^ 64) (fuel : ℕ) {i : ℕ}
    (hi : i + 2 ^ 31 ≤ stopindex + 1) :
    scanChunks buffersize startentry stopindex fuel i = none := by
  induction fuel generalizing i with
  | zero => rfl
  | succ fuel ih =>
    have hinside : i ≤ stopindex := by omega
    rw [scanChunks, if_pos hinside]
    have hle := chunksize_le buffersize (stopindex - i + 1)
    by_cases hpos : 0 < chunksize buffersize (stopindex - i + 1)
    · have hleft := toInteger_le
        (show 2 ^ 31 ≤ stopindex - i + 1 by omega) (by omega)
      obtain ⟨count, hcount⟩ := Int.eq_ofNat_of_zero_le (le_of_lt hpos)
      rw [hcount] at hpos hle
      have hwrap : nextIndex i count = i + count :=
        Nat.mod_eq_of_lt (by omega)
      simp only [hcount, if_pos hpos, Int.toNat_natCast, hwrap]
      rw [ih (by omega)]
      rfl
    · simp only [if_neg hpos]

theorem scansOnce_iff (hbuffer : 0 < buffersize) {scanner : Scanner}
    (hstop : scanner.stopentry < 2 ^ 64) :
    ScansOnce buffersize scanner ↔ scanner.entries.length < 2 ^ 31 := by
  rw [Scanner.entries, length_range']
  by_cases hempty : scanner.startentry > scanner.stopentry
  · have hnone : scanner.stopentry + 1 - scanner.startentry = 0 := by omega
    simp [ScansOnce, nextNextscan, hempty, Scanner.entries, hnone]
  · have hindex : scanner.stopentry + 1 - scanner.startentry =
        scanner.stopentry - scanner.startentry + 1 := by omega
    rw [hindex]
    constructor
    · rintro ⟨fuel, hfuel⟩
      by_contra hge
      rw [nextNextscan, if_neg hempty, scanChunks_of_ge _ _ (by omega) _
        (by omega)] at hfuel
      cases hfuel
    · intro hlt
      obtain ⟨fuel, hfuel⟩ := scanChunks_of_lt hbuffer scanner.startentry hlt
        (Nat.zero_le _)
      refine ⟨fuel, ?_⟩
      rw [nextNextscan, if_neg hempty, hfuel, Scanner.entries, hindex]
      rfl

/-! ## The ranges of the scanners -/

theorem range'_append_of_le {first middle last : ℕ} (hfirst : first ≤ middle)
    (hlast : middle ≤ last) :
    List.range' first (middle - first) ++ List.range' middle (last - middle) =
      List.range' first (last - first) := by
  obtain ⟨count, rfl⟩ := Nat.exists_eq_add_of_le hfirst
  rw [Nat.add_sub_cancel_left, range'_append_1]
  congr 1
  omega

namespace NextNextScan

variable {scan : NextNextScan}

theorem total_lt : scan.total < 2 ^ 64 :=
  scan.totalAddresses.toNat_lt

theorem blocksize_pos (htotal : 0 < scan.total) : 0 < scan.blocksize := by
  unfold blocksize
  split
  · exact Nat.one_pos
  · next hblock =>
    exact Nat.pos_of_ne_zero fun hzero => hblock ⟨hzero, htotal⟩

theorem blocksize_le : scan.blocksize ≤ scan.total := by
  unfold blocksize
  split
  · next hblock => exact hblock.2
  · exact Nat.div_le_self _ _

theorem total_lt_blocks :
    scan.total < scan.threadcount * (scan.blocksize + 1) := by
  have hpos := scan.threadcount_pos
  have hdiv := Nat.lt_mul_div_succ scan.total hpos
  unfold blocksize
  split
  · next hzero =>
    rw [hzero.1] at hdiv
    omega
  · exact hdiv

def start (scan : NextNextScan) (i : ℕ) : ℕ :=
  min scan.total (i * (scan.blocksize + 1))

theorem start_le (i : ℕ) : scan.start i ≤ scan.total :=
  Nat.min_le_left _ _

variable {i : ℕ} {scanner : Scanner}

theorem start_add_blocksize_lt (hi : i + 1 < scan.threadcount) :
    scan.start i + scan.blocksize < 2 ^ 64 := by
  have htotal := @total_lt scan
  have hthreads := scan.threadcount_lt
  have hstart := @start_le scan i
  by_cases hsmall : scan.total < 2 ^ 63
  · have hblock := @blocksize_le scan
    omega
  · have hmul : scan.start i ≤ i * (scan.blocksize + 1) :=
      Nat.min_le_right _ _
    have hlarge : 2 ^ 31 ≤ scan.total / scan.threadcount := by
      rw [Nat.le_div_iff_mul_le scan.threadcount_pos]
      omega
    have hblock : scan.blocksize = scan.total / scan.threadcount :=
      if_neg fun hzero => by omega
    have hwhole : scan.threadcount * scan.blocksize ≤ scan.total := by
      rw [hblock]
      exact Nat.mul_div_le _ _
    have hlast : (i + 2) * (scan.blocksize + 1) ≤
        scan.threadcount * (scan.blocksize + 1) :=
      Nat.mul_le_mul_right _ hi
    rw [Nat.add_mul, Nat.mul_add scan.threadcount] at hlast
    rw [← hblock] at hlarge
    omega

theorem start_succ (i : ℕ) :
    scan.start (i + 1) =
      min scan.total (scan.start i + (scan.blocksize + 1)) := by
  unfold start
  rw [Nat.add_mul, Nat.one_mul]
  omega

theorem scanner_of_lt (htotal : 0 < scan.total)
    (hi : i + 1 < scan.threadcount) :
    scan.scanner i (scan.start i) =
      { startentry := scan.start i, stopentry := scan.start (i + 1) - 1 } := by
  have hblock := blocksize_pos htotal
  have hwrap : (scan.start i + scan.blocksize) % 2 ^ 64 =
      scan.start i + scan.blocksize :=
    Nat.mod_eq_of_lt (start_add_blocksize_lt hi)
  have hlast : scan.lastEntry i (scan.start i) =
      scan.start i + scan.blocksize := by
    rw [lastEntry, if_neg (by omega), hwrap]
  rw [scanner, if_pos htotal, hlast, start_succ]
  congr 1
  split <;> omega

theorem scanner_last (htotal : 0 < scan.total)
    (hi : i + 1 = scan.threadcount) (currententry : ℕ) :
    scan.scanner i currententry =
      { startentry := currententry, stopentry := scan.total - 1 } := by
  have hlast : scan.lastEntry i currententry = scan.total - 1 := by
    rw [lastEntry, if_pos (by omega)]
  rw [scanner, if_pos htotal, hlast]
  congr 1
  split <;> omega

theorem start_succ_pos (htotal : 0 < scan.total) (i : ℕ) :
    0 < scan.start (i + 1) := by
  rw [start_succ]
  omega

theorem entries_scannersFrom (htotal : 0 < scan.total) {turns i : ℕ}
    (hturns : i + (turns + 1) = scan.threadcount) :
    (scan.scannersFrom (turns + 1) i (scan.start i)).flatMap Scanner.entries =
      List.range' (scan.start i) (scan.total - scan.start i) := by
  induction turns generalizing i with
  | zero =>
    rw [scannersFrom, scannersFrom, scanner_last htotal (by omega)]
    have hsize : scan.total - 1 + 1 - scan.start i =
        scan.total - scan.start i := by
      omega
    simp [Scanner.entries, hsize]
  | succ turns ih =>
    have hpos := start_succ_pos htotal i
    have hle := @start_le scan (i + 1)
    have hbound := @total_lt scan
    have hback : scan.start (i + 1) - 1 + 1 = scan.start (i + 1) := by omega
    have hnext : (scan.start (i + 1) - 1 + 1) % 2 ^ 64 =
        scan.start (i + 1) := by
      rw [hback]
      exact Nat.mod_eq_of_lt (by omega)
    have hmono : scan.start i ≤ scan.start (i + 1) := by
      rw [start_succ]
      exact le_min (start_le i) (Nat.le_add_right _ _)
    rw [scannersFrom, scanner_of_lt htotal (by omega), flatMap_cons]
    dsimp only
    rw [hnext, ih (by omega), Scanner.entries]
    dsimp only
    rw [hback, range'_append_of_le hmono hle]

theorem entries_scanners (scan : NextNextScan) :
    scan.scanners.flatMap Scanner.entries = List.range scan.total := by
  obtain ⟨turns, hturns⟩ :=
    Nat.exists_eq_add_of_le' (show 1 ≤ scan.threadcount from
      scan.threadcount_pos)
  unfold scanners
  by_cases htotal : 0 < scan.total
  · have hstart : scan.start 0 = 0 := by simp [start]
    have hentries := @entries_scannersFrom scan htotal turns 0 (by omega)
    rw [hstart] at hentries
    rw [hturns, hentries, range_eq_range']
    rfl
  · have hzero : scan.total = 0 := by omega
    have hempty : ∀ (turns i currententry : ℕ),
        (scan.scannersFrom turns i currententry).flatMap Scanner.entries =
          [] := by
      intro turns
      induction turns with
      | zero => simp [scannersFrom]
      | succ turns ih =>
        intro i currententry
        rw [scannersFrom, flatMap_cons, ih, scanner, if_neg htotal]
        rfl
    rw [hempty, hzero]
    rfl

theorem length_entries_le (hscanner : scanner ∈ scan.scanners) :
    scanner.entries.length ≤ scan.total := by
  have hsublist : scanner.entries.Sublist
      (scan.scanners.flatMap Scanner.entries) := by
    rw [flatMap_def]
    exact sublist_flatten_of_mem (mem_map_of_mem hscanner)
  have hlength := hsublist.length_le
  rwa [entries_scanners, length_range] at hlength

theorem stopentry_scanner_lt (i currententry : ℕ) :
    (scan.scanner i currententry).stopentry < 2 ^ 64 := by
  have hbound := @total_lt scan
  unfold scanner
  split
  · dsimp only
    split <;> omega
  · norm_num

theorem stopentry_lt {turns currententry : ℕ}
    (hscanner : scanner ∈ scan.scannersFrom turns i currententry) :
    scanner.stopentry < 2 ^ 64 := by
  induction turns generalizing i currententry with
  | zero => cases hscanner
  | succ turns ih =>
    rcases mem_cons.mp hscanner with rfl | htail
    · exact stopentry_scanner_lt _ _
    · exact ih htail

theorem length_entries_scannersFrom (htotal : 0 < scan.total) {turns : ℕ}
    (hturns : i + (turns + 1) = scan.threadcount)
    (hscanner : scanner ∈ scan.scannersFrom (turns + 1) i (scan.start i)) :
    scanner.entries.length ≤ scan.blocksize + 1 := by
  induction turns generalizing i with
  | zero =>
    rw [scannersFrom, scannersFrom, mem_singleton,
      scanner_last htotal (by omega)] at hscanner
    have hblocks := @total_lt_blocks scan
    rw [← hturns, Nat.zero_add, Nat.add_mul, Nat.one_mul] at hblocks
    rw [hscanner, Scanner.entries, length_range', start]
    dsimp only
    omega
  | succ turns ih =>
    have hpos := start_succ_pos htotal i
    have hle := @start_le scan (i + 1)
    have hbound := @total_lt scan
    have hback : scan.start (i + 1) - 1 + 1 = scan.start (i + 1) := by omega
    have hnext : (scan.start (i + 1) - 1 + 1) % 2 ^ 64 =
        scan.start (i + 1) := by
      rw [hback]
      exact Nat.mod_eq_of_lt (by omega)
    rw [scannersFrom, scanner_of_lt htotal (by omega), mem_cons]
      at hscanner
    dsimp only at hscanner
    rw [hnext] at hscanner
    rcases hscanner with rfl | htail
    · rw [Scanner.entries, length_range', start_succ]
      dsimp only
      omega
    · exact ih (by omega) htail

/-- The scanners get fewer than `2^31` entries each. -/
def Short (scan : NextNextScan) : Prop :=
  scan.total < 2 ^ 31 ∨
    1 < scan.threadcount ∧ scan.total / scan.threadcount + 1 < 2 ^ 31

theorem scanner_mem_scanners (scan : NextNextScan) :
    scan.scanner 0 (scan.start 0) ∈ scan.scanners := by
  obtain ⟨turns, hturns⟩ :=
    Nat.exists_eq_add_of_le' (show 1 ≤ scan.threadcount from
      scan.threadcount_pos)
  have hstart : scan.start 0 = 0 := by simp [start]
  rw [scanners, hturns, scannersFrom, hstart]
  exact mem_cons_self

theorem blocksize_add_one_lt
    (hshort : scan.total / scan.threadcount + 1 < 2 ^ 31) :
    scan.blocksize + 1 < 2 ^ 31 := by
  unfold blocksize
  split
  · norm_num
  · exact hshort

theorem short_iff (scan : NextNextScan) :
    (∀ scanner ∈ scan.scanners, scanner.entries.length < 2 ^ 31) ↔
      scan.Short := by
  have hthreads := scan.threadcount_pos
  have hzero : scan.start 0 = 0 := by simp [start]
  constructor
  · intro hall
    have hfirst := hall _ scan.scanner_mem_scanners
    by_contra hshort
    obtain ⟨hlarge, hblock⟩ := not_or.mp hshort
    have htotal : 0 < scan.total := by omega
    by_cases halone : scan.threadcount = 1
    · rw [scanner_last htotal halone.symm, Scanner.entries,
        length_range', hzero] at hfirst
      dsimp only at hfirst
      omega
    · have hmany : 0 + 1 < scan.threadcount := by omega
      have hquotient := not_lt.mp fun hlt => hblock ⟨hmany, hlt⟩
      have hsize : scan.blocksize = scan.total / scan.threadcount :=
        if_neg fun hnone => by omega
      rw [scanner_of_lt htotal hmany, Scanner.entries, length_range',
        start_succ, hzero, hsize] at hfirst
      dsimp only at hfirst
      omega
  · intro hshort scanner hscanner
    by_cases hsmall : scan.total < 2 ^ 31
    · exact lt_of_le_of_lt (length_entries_le hscanner) hsmall
    · obtain ⟨hmany, hblock⟩ := hshort.resolve_left hsmall
      obtain ⟨turns, hturns⟩ := Nat.exists_eq_add_of_le' hthreads
      have hfrom : scanner ∈ scan.scannersFrom (turns + 1) 0
          (scan.start 0) := by
        rwa [hzero, ← hturns]
      exact lt_of_le_of_lt
        (length_entries_scannersFrom (by omega) (by omega) hfrom)
        (blocksize_add_one_lt hblock)

end NextNextScan

/-- The ranges always partition the saved results.  Every scanner goes through
its range once exactly when none of them gets `2^31` entries or more. -/
theorem nextNextScan_exact_iff (scan : NextNextScan) :
    (scan.scanners.flatMap Scanner.entries = List.range scan.total ∧
        ∀ scanner ∈ scan.scanners, ScansOnce scan.buffersize.toNat scanner) ↔
      scan.Short := by
  rw [← scan.short_iff]
  have heach : ∀ scanner ∈ scan.scanners,
      (ScansOnce scan.buffersize.toNat scanner ↔
        scanner.entries.length < 2 ^ 31) :=
    fun scanner hscanner =>
      scansOnce_iff scan.buffersize_pos (NextNextScan.stopentry_lt hscanner)
  constructor
  · intro hexact scanner hscanner
    exact (heach scanner hscanner).mp (hexact.2 scanner hscanner)
  · intro hshort
    exact ⟨scan.entries_scanners, fun scanner hscanner =>
      (heach scanner hscanner).mpr (hshort scanner hscanner)⟩

/-- `2^31` saved results for one thread, and chunks of 512 thousand. -/
def oneThread : NextNextScan where
  totalAddresses := 2147483648
  threadcount := 1
  buffersize := 524288
  threadcount_pos := by decide
  threadcount_lt := by decide
  buffersize_pos := by decide

theorem oneThread_not_scanned :
    ¬ (oneThread.scanners.flatMap Scanner.entries =
        List.range oneThread.total ∧
      ∀ scanner ∈ oneThread.scanners,
        ScansOnce oneThread.buffersize.toNat scanner) := by
  rintro ⟨-, hall⟩
  have hscanners : oneThread.scanners = [⟨0, 2147483647⟩] := by decide
  have hscans := hall ⟨0, 2147483647⟩ (by rw [hscanners]; simp)
  rw [scansOnce_iff (by decide) (by decide), Scanner.entries,
    length_range'] at hscans
  exact absurd hscans (by decide)

end MemScanRanges
end CheatEngine
