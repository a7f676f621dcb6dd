import CheatEngine.ByteMemory

/-!
# Reading the results of a pointer scan

The results are spread over several files.  `getPointer` maps a part of one
file into memory, from the record that is asked for on, and keeps it for the
calls that follow.  The index of the first record in the cache is an
`integer`, the index that is asked for a `qword`.
-/

namespace CheatEngine
namespace PointerscanResultReader

open List ByteMemory

structure ResultFile where
  filesize : ℕ
  byte : ℕ → UInt8

structure FileEntry where
  startindex : ℕ
  lastindex : ℕ
  file : ResultFile

/-- The part of a file that is mapped; `position` is where `cache` points to
in the view. -/
structure Cache where
  cacheStart : ℤ
  cacheSize : ℕ
  file : ResultFile
  viewOffset : ℕ
  viewSize : ℕ
  position : ℕ

def dwAllocationGranularity : ℕ :=
  65536

def toInteger (value : ℤ) : ℤ :=
  value.bmod (2 ^ 32)

/-- The result files, which hold whole records of the size that the header
says. -/
structure Results where
  sizeOfEntry : ℕ
  sizeOfEntry_pos : 0 < sizeOfEntry
  resultFiles : List ResultFile
  whole : ∀ file ∈ resultFiles, sizeOfEntry ∣ file.filesize

namespace Results

variable (results : Results)

def entries (file : ResultFile) : ℕ :=
  file.filesize / results.sizeOfEntry

def filesFrom : ℕ → List ResultFile → List FileEntry
  | _, [] => []
  | fcount, file :: rest =>
    if 0 < file.filesize then
      { startindex := fcount
        lastindex := fcount + results.entries file - 1
        file } :: filesFrom (fcount + results.entries file) rest
    else
      filesFrom fcount rest

def fcountFrom : ℕ → List ResultFile → ℕ
  | fcount, [] => fcount
  | fcount, file :: rest =>
    if 0 < file.filesize then
      fcountFrom (fcount + results.entries file) rest
    else
      fcountFrom fcount rest

def files : List FileEntry :=
  results.filesFrom 0 results.resultFiles

def count : ℕ :=
  results.fcountFrom 0 results.resultFiles

def view (cacheStart : ℤ) (file : ResultFile) (index : ℕ) : Cache :=
  let wantedoffset := results.sizeOfEntry * index
  let offset := wantedoffset - wantedoffset % dwAllocationGranularity
  let viewSize := min (file.filesize - offset) (dwAllocationGranularity * 32)
  { cacheStart
    cacheSize := (viewSize - (wantedoffset - offset)) / results.sizeOfEntry
    file
    viewOffset := offset
    viewSize
    position := wantedoffset - offset }

def initializeCache (cacheStart : ℤ) (i : ℕ) : Option Cache :=
  if results.count ≤ i then
    none
  else
    match results.files.find? fun entry =>
        entry.startindex ≤ i && i ≤ entry.lastindex with
    | none => none
    | some entry =>
      some (results.view cacheStart entry.file (i - entry.startindex))

def readRecord (cache : Cache) (cachepos : ℤ) : Option (List UInt8) :=
  let position := cache.position + cachepos * results.sizeOfEntry
  if 0 ≤ position ∧ position + results.sizeOfEntry ≤ cache.viewSize then
    some (load cache.file.byte (cache.viewOffset + position.toNat)
      results.sizeOfEntry)
  else
    none

def inCache (cache : Cache) (i : ℕ) : Bool :=
  cache.cacheStart ≤ i && i ≤ cache.cacheStart + cache.cacheSize - 1

def getPointer (i : ℕ) (cache : Option Cache) :
    Option (List UInt8) × Option Cache :=
  if results.count ≤ i then
    (none, cache)
  else
    match cache.filter fun cache => inCache cache i with
    | some cache =>
      (results.readRecord cache (toInteger (i - cache.cacheStart)),
        some cache)
    | none =>
      match results.initializeCache (toInteger i) i with
      | none => (none, cache)
      | some cache =>
        (results.readRecord cache (toInteger (i - cache.cacheStart)),
          some cache)

def initial : Option Cache :=
  results.initializeCache 0 0

def calls : Option Cache → List ℕ → List (Option (List UInt8))
  | _, [] => []
  | cache, i :: rest =>
    (results.getPointer i cache).1 ::
      calls (results.getPointer i cache).2 rest

def locateIn : List ResultFile → ℕ → Option (ResultFile × ℕ)
  | [], _ => none
  | file :: rest, i =>
    if i < results.entries file then
      some (file, i)
    else
      locateIn rest (i - results.entries file)

def locate (i : ℕ) : Option (ResultFile × ℕ) :=
  results.locateIn results.resultFiles i

def recordOf (file : ResultFile) (index : ℕ) : List UInt8 :=
  load file.byte (results.sizeOfEntry * index) results.sizeOfEntry

def record (i : ℕ) : Option (List UInt8) :=
  (results.locate i).map fun place => results.recordOf place.1 place.2

/-- Every call returns the record that it is asked for, whatever was asked
for before, and the number of records is right. -/
def HistoryIndependent : Prop :=
  results.count = (results.resultFiles.map results.entries).sum ∧
    ∀ indices : List ℕ, (∀ i ∈ indices, i < results.count) →
      results.calls results.initial indices = indices.map results.record

/-! ## The file table -/

variable {results}

theorem fcountFrom_eq (fcount : ℕ) (files : List ResultFile) :
    results.fcountFrom fcount files =
      fcount + (files.map results.entries).sum := by
  induction files generalizing fcount with
  | nil => rfl
  | cons file rest ih =>
    rw [fcountFrom, map_cons, sum_cons]
    split
    · rw [ih, Nat.add_assoc]
    · rename_i hempty
      have hentries : results.entries file = 0 := by
        rw [entries, Nat.eq_zero_of_not_pos hempty, Nat.zero_div]
      rw [ih, hentries, Nat.zero_add]

theorem count_eq :
    results.count = (results.resultFiles.map results.entries).sum := by
  rw [count, fcountFrom_eq, Nat.zero_add]

variable {files : List ResultFile} {i index : ℕ} {file : ResultFile}
  {cache : Option Cache}

theorem locateIn_of_lt (hi : i < (files.map results.entries).sum) :
    ∃ file index, results.locateIn files i = some (file, index) := by
  induction files generalizing i with
  | nil => cases hi
  | cons file rest ih =>
    rw [map_cons, sum_cons] at hi
    rw [locateIn]
    split
    · exact ⟨file, i, rfl⟩
    · exact ih (by omega)

theorem locate_of_lt (hi : i < results.count) :
    ∃ file index, results.locate i = some (file, index) :=
  locateIn_of_lt (count_eq ▸ hi)

theorem locateIn_lt (hlocate : results.locateIn files i = some (file, index)) :
    i < (files.map results.entries).sum ∧ file ∈ files ∧
      index < results.entries file ∧ index ≤ i := by
  induction files generalizing i with
  | nil => cases hlocate
  | cons head rest ih =>
    rw [locateIn] at hlocate
    rw [map_cons, sum_cons]
    split at hlocate
    · rename_i hlt
      cases hlocate
      exact ⟨by omega, mem_cons_self .., hlt, le_rfl⟩
    · obtain ⟨hlt, hmem, hindex, hle⟩ := ih hlocate
      exact ⟨by omega, mem_cons_of_mem _ hmem, hindex, by omega⟩

theorem locateIn_add {d : ℕ}
    (hlocate : results.locateIn files i = some (file, index))
    (hd : index + d < results.entries file) :
    results.locateIn files (i + d) = some (file, index + d) := by
  induction files generalizing i with
  | nil => cases hlocate
  | cons head rest ih =>
    rw [locateIn] at hlocate ⊢
    split at hlocate
    · cases hlocate
      rw [if_pos hd]
    · have hnot : ¬ i + d < results.entries head := by omega
      have hsub : i + d - results.entries head =
          i - results.entries head + d := by omega
      rw [if_neg hnot, hsub]
      exact ih hlocate

theorem find_filesFrom {fcount : ℕ} {files : List ResultFile}
    (hfiles : ∀ file ∈ files, results.sizeOfEntry ∣ file.filesize)
    {i index : ℕ} {file : ResultFile}
    (hlocate : results.locateIn files i = some (file, index)) :
    ∃ entry, (results.filesFrom fcount files).find? (fun entry =>
        entry.startindex ≤ fcount + i && fcount + i ≤ entry.lastindex) =
          some entry ∧
      entry.file = file ∧ fcount + i - entry.startindex = index := by
  induction files generalizing fcount i with
  | nil => cases hlocate
  | cons head rest ih =>
    have hrest : ∀ file ∈ rest, results.sizeOfEntry ∣ file.filesize :=
      fun other hother => hfiles other (mem_cons_of_mem head hother)
    rw [locateIn] at hlocate
    rw [filesFrom]
    by_cases hempty : 0 < head.filesize
    · rw [if_pos hempty]
      split at hlocate
      · rename_i hlt
        cases hlocate
        refine ⟨_, find?_cons_of_pos ?_, rfl, Nat.add_sub_cancel_left ..⟩
        rw [Bool.and_eq_true, decide_eq_true_eq, decide_eq_true_eq]
        dsimp only
        omega
      · rename_i hnot
        have hpos : 0 < results.entries head :=
          Nat.div_pos (Nat.le_of_dvd hempty
            (hfiles head (mem_cons_self ..))) results.sizeOfEntry_pos
        obtain ⟨entry, hfind, hfile, hindex⟩ :=
          @ih (fcount + results.entries head) hrest _ hlocate
        have hsum : fcount + results.entries head +
            (i - results.entries head) = fcount + i := by omega
        rw [hsum] at hfind hindex
        refine ⟨entry, ?_, hfile, hindex⟩
        rw [find?_cons_of_neg, hfind]
        rw [Bool.and_eq_true, decide_eq_true_eq, decide_eq_true_eq]
        dsimp only
        omega
    · have hentries : results.entries head = 0 := by
        rw [entries, Nat.eq_zero_of_not_pos hempty, Nat.zero_div]
      rw [if_neg hempty]
      rw [hentries, if_neg (Nat.not_lt_zero i), Nat.sub_zero] at hlocate
      exact ih hrest hlocate

theorem initializeCache_eq (hlocate : results.locate i = some (file, index))
    (cacheStart : ℤ) :
    results.initializeCache cacheStart i =
      some (results.view cacheStart file index) := by
  obtain ⟨entry, hfind, rfl, rfl⟩ :=
    @find_filesFrom results 0 _ results.whole i index file hlocate
  have hlt : ¬ results.count ≤ i := by
    rw [count_eq]
    have hsum := (locateIn_lt hlocate).1
    omega
  simp only [Nat.zero_add] at hfind ⊢
  rw [initializeCache, if_neg hlt, files, hfind]

/-- How many records the view for a record holds from that record on. -/
def window (results : Results) (file : ResultFile) (index : ℕ) : ℕ :=
  (results.view 0 file index).cacheSize

def Fits (results : Results) (index : ℕ) : Prop :=
  results.sizeOfEntry * index % dwAllocationGranularity +
      results.sizeOfEntry ≤
    dwAllocationGranularity * 32

theorem position_view (cacheStart : ℤ) (file : ResultFile) (index : ℕ) :
    (results.view cacheStart file index).position =
      results.sizeOfEntry * index % dwAllocationGranularity := by
  have hmod := Nat.mod_le (results.sizeOfEntry * index) dwAllocationGranularity
  unfold view
  dsimp only
  omega

theorem window_mul_le (file : ResultFile) (index : ℕ) :
    results.window file index * results.sizeOfEntry ≤
      (results.view 0 file index).viewSize -
        results.sizeOfEntry * index % dwAllocationGranularity := by
  rw [← position_view 0 file index]
  exact Nat.div_mul_le_self ..

theorem viewSize_le (file : ResultFile) (index : ℕ) :
    (results.view 0 file index).viewSize ≤ dwAllocationGranularity * 32 ∧
      (results.view 0 file index).viewSize ≤ file.filesize -
        (results.sizeOfEntry * index -
          results.sizeOfEntry * index % dwAllocationGranularity) :=
  ⟨min_le_right .., min_le_left ..⟩

theorem window_lt (file : ResultFile) (index : ℕ) :
    results.window file index < 2 ^ 31 := by
  have hmul := results.window_mul_le file index
  have hview := (results.viewSize_le file index).1
  have hpos := results.sizeOfEntry_pos
  have hle := Nat.le_mul_of_pos_right (results.window file index) hpos
  unfold dwAllocationGranularity at *
  omega

theorem window_entries {d : ℕ} (hd : d < results.window file index) :
    index + d < results.entries file := by
  have hmul := results.window_mul_le file index
  have hview := (results.viewSize_le file index).2
  have hmod := Nat.mod_le (results.sizeOfEntry * index) dwAllocationGranularity
  have hnext := Nat.mul_le_mul_right results.sizeOfEntry (Nat.succ_le_of_lt hd)
  rw [Nat.succ_mul] at hnext
  have hpos := results.sizeOfEntry_pos
  rw [entries, ← Nat.succ_le_iff, Nat.le_div_iff_mul_le hpos, Nat.succ_mul,
    Nat.add_mul, Nat.mul_comm index]
  omega

theorem window_pos_iff (hindex : index < results.entries file) :
    0 < results.window file index ↔ results.Fits index := by
  have hpos := results.sizeOfEntry_pos
  have hmod := Nat.mod_le (results.sizeOfEntry * index) dwAllocationGranularity
  have hend : results.sizeOfEntry * index + results.sizeOfEntry ≤
      file.filesize := by
    have hmul := Nat.mul_le_of_le_div _ _ _ (Nat.succ_le_of_lt hindex)
    rw [Nat.succ_mul, Nat.mul_comm index] at hmul
    exact hmul
  have hwindow : results.window file index =
      ((results.view 0 file index).viewSize -
        results.sizeOfEntry * index % dwAllocationGranularity) /
          results.sizeOfEntry := by
    rw [← position_view 0 file index]
    rfl
  have hview : (results.view 0 file index).viewSize =
      min (file.filesize - (results.sizeOfEntry * index -
        results.sizeOfEntry * index % dwAllocationGranularity))
        (dwAllocationGranularity * 32) := rfl
  rw [hwindow, Nat.div_pos_iff, and_iff_right hpos, hview, Fits]
  omega

theorem readRecord_view {d : ℕ} (hd : d < results.window file index)
    (cacheStart : ℤ) :
    results.readRecord (results.view cacheStart file index) d =
      some (results.recordOf file (index + d)) := by
  have hmul := results.window_mul_le file index
  have hmod := Nat.mod_le (results.sizeOfEntry * index) dwAllocationGranularity
  have hnext := Nat.mul_le_mul_right results.sizeOfEntry (Nat.succ_le_of_lt hd)
  rw [Nat.succ_mul] at hnext
  have hpos := results.sizeOfEntry_pos
  have hplace : ((results.view cacheStart file index).position : ℤ) +
      (d : ℤ) * results.sizeOfEntry =
        ((results.sizeOfEntry * index % dwAllocationGranularity +
          d * results.sizeOfEntry : ℕ) : ℤ) := by
    rw [position_view]
    push_cast
    rfl
  have hsize : (results.view cacheStart file index).viewSize =
      (results.view 0 file index).viewSize := rfl
  have hoffset : (results.view cacheStart file index).viewOffset =
      results.sizeOfEntry * index -
        results.sizeOfEntry * index % dwAllocationGranularity := rfl
  rw [readRecord, if_pos]
  · rw [hplace, Int.toNat_natCast, hoffset, recordOf]
    congr 2
    rw [Nat.mul_add, Nat.mul_comm d]
    omega
  · rw [hplace, hsize]
    omega

theorem readRecord_view_not_fits (hnot : ¬ results.Fits index)
    (cacheStart : ℤ) :
    results.readRecord (results.view cacheStart file index) 0 = none := by
  have hview := (results.viewSize_le file index).1
  have hsize : (results.view cacheStart file index).viewSize =
      (results.view 0 file index).viewSize := rfl
  unfold Fits at hnot
  rw [readRecord]
  apply if_neg
  rw [position_view, hsize]
  omega

/-! ## Runs -/

theorem toInteger_natCast {value : ℕ} (hvalue : value < 2 ^ 31) :
    toInteger value = value := by
  unfold toInteger
  rw [Int.bmod_eq_of_le] <;> omega

theorem toInteger_sub_toInteger (value : ℤ) :
    toInteger (value - toInteger value) = 0 := by
  unfold toInteger
  rw [Int.sub_bmod_bmod, sub_self, Int.zero_bmod]

def loaded (results : Results) (i : ℕ) (file : ResultFile) (index : ℕ) :
    Cache :=
  results.view (toInteger i) file index

theorem loaded_cacheStart (i : ℕ) (file : ResultFile) (index : ℕ) :
    (results.loaded i file index).cacheStart = toInteger i := by
  rw [loaded, view]

theorem loaded_cacheSize (i : ℕ) (file : ResultFile) (index : ℕ) :
    (results.loaded i file index).cacheSize = results.window file index := by
  rw [loaded, window, view, view]

def Filled (results : Results) (cache : Option Cache) : Prop :=
  ∃ i file index, results.locate i = some (file, index) ∧
    cache = some (results.loaded i file index)

/-- Where the start of the window is truncated, the records that it is taken
for are the same. -/
def NoStaleWindow (results : Results) : Prop :=
  ∀ i file index, results.locate i = some (file, index) →
    ∀ d < results.window file index, 0 ≤ toInteger i + d →
      results.record (toInteger i + d).toNat = results.record (i + d)

theorem record_add {d : ℕ} (hlocate : results.locate i = some (file, index))
    (hd : d < results.window file index) :
    results.record (i + d) = some (results.recordOf file (index + d)) := by
  rw [record, locate, locateIn_add hlocate (window_entries hd)]
  rfl

theorem inCache_loaded {k : ℕ} :
    inCache (results.loaded i file index) k ↔
      toInteger i ≤ k ∧ (k : ℤ) < toInteger i + results.window file index := by
  rw [inCache, Bool.and_eq_true, decide_eq_true_eq, decide_eq_true_eq,
    loaded_cacheStart, loaded_cacheSize, Int.le_sub_one_iff]

theorem getPointer_cached {k : ℕ} (hk : k < results.count)
    (hcached : inCache (results.loaded i file index) k) :
    ∃ d < results.window file index, (k : ℤ) = toInteger i + d ∧
      results.getPointer k (some (results.loaded i file index)) =
        (some (results.recordOf file (index + d)),
          some (results.loaded i file index)) := by
  obtain ⟨hlow, hhigh⟩ := inCache_loaded.mp hcached
  obtain ⟨d, hd⟩ := Int.eq_ofNat_of_zero_le (sub_nonneg.mpr hlow)
  have hwindow : d < results.window file index := by omega
  refine ⟨d, hwindow, by omega, ?_⟩
  have hlt := results.window_lt file index
  have hpos : toInteger ((k : ℤ) -
      (results.loaded i file index).cacheStart) = d := by
    rw [loaded_cacheStart, hd]
    exact toInteger_natCast (hwindow.trans hlt)
  have hfilter : (some (results.loaded i file index)).filter
      (fun cache => inCache cache k) = some (results.loaded i file index) := by
    rw [Option.filter_some, if_pos hcached]
  have hread : results.readRecord (results.loaded i file index) d =
      some (results.recordOf file (index + d)) :=
    readRecord_view hwindow (toInteger i)
  rw [getPointer, if_neg (Nat.not_le_of_lt hk), hfilter]
  simp only [hpos, hread]

theorem getPointer_load {k : ℕ}
    (hlocate : results.locate k = some (file, index))
    (hmiss : cache.filter (fun cache => inCache cache k) = none) :
    results.getPointer k cache =
      (results.readRecord (results.loaded k file index) 0,
        some (results.loaded k file index)) := by
  have hk : ¬ results.count ≤ k := by
    rw [count_eq]
    have hsum := (locateIn_lt hlocate).1
    omega
  have hpos : toInteger ((k : ℤ) -
      (results.loaded k file index).cacheStart) = 0 := by
    rw [loaded_cacheStart, toInteger_sub_toInteger]
  rw [getPointer, if_neg hk, hmiss]
  simp only [initializeCache_eq hlocate]
  rw [← loaded, hpos]

def AllFit (results : Results) : Prop :=
  ∀ i file index, results.locate i = some (file, index) →
    results.Fits index

theorem readRecord_loaded (hlocate : results.locate i = some (file, index))
    (hfits : results.Fits index) :
    results.readRecord (results.loaded i file index) 0 =
      results.record i := by
  have hwindow := (window_pos_iff (locateIn_lt hlocate).2.2.1).mpr hfits
  have hrecord := record_add hlocate hwindow
  have hread := readRecord_view hwindow (toInteger i)
  simp only [Nat.add_zero] at hrecord hread
  rw [hrecord, ← hread, loaded, Nat.cast_zero]

theorem getPointer_eq (hfit : results.AllFit)
    (hstale : results.NoStaleWindow) (hfilled : results.Filled cache) {k : ℕ}
    (hk : k < results.count) :
    (results.getPointer k cache).1 = results.record k ∧
      results.Filled (results.getPointer k cache).2 := by
  obtain ⟨i, file, index, hlocate, rfl⟩ := hfilled
  by_cases hcached : inCache (results.loaded i file index) k
  · obtain ⟨d, hd, hplace, hget⟩ := getPointer_cached hk hcached
    rw [hget]
    refine ⟨?_, i, file, index, hlocate, rfl⟩
    have hsame := hstale i file index hlocate d hd (by omega)
    rw [← hplace, Int.toNat_natCast, record_add hlocate hd] at hsame
    exact hsame.symm
  · obtain ⟨other, place, hother⟩ := locate_of_lt hk
    have hmiss : (some (results.loaded i file index)).filter
        (fun cache => inCache cache k) = none := by
      rw [Option.filter_some, if_neg hcached]
    rw [getPointer_load hother hmiss]
    exact ⟨readRecord_loaded hother (hfit k other place hother), k, other,
      place, hother, rfl⟩

theorem calls_eq (hfit : results.AllFit) (hstale : results.NoStaleWindow)
    (hfilled : results.Filled cache) {indices : List ℕ}
    (hindices : ∀ i ∈ indices, i < results.count) :
    results.calls cache indices = indices.map results.record := by
  induction indices generalizing cache with
  | nil => rfl
  | cons i rest ih =>
    obtain ⟨hrecord, hnext⟩ := getPointer_eq hfit hstale hfilled
      (hindices i (mem_cons_self ..))
    rw [calls, map_cons, hrecord,
      ih hnext fun k hk => hindices k (mem_cons_of_mem i hk)]

theorem toInteger_zero : toInteger 0 = 0 :=
  Int.zero_bmod

theorem initial_eq (hlocate : results.locate 0 = some (file, index)) :
    results.initial = some (results.loaded 0 file index) := by
  rw [initial, initializeCache_eq hlocate, loaded, Nat.cast_zero,
    toInteger_zero]

theorem historyIndependent_of (hfit : results.AllFit)
    (hstale : results.NoStaleWindow) :
    results.HistoryIndependent := by
  refine ⟨count_eq, ?_⟩
  intro indices hindices
  cases indices with
  | nil => rfl
  | cons i rest =>
    have hcount := hindices i (mem_cons_self ..)
    obtain ⟨file, index, hlocate⟩ := locate_of_lt (Nat.zero_lt_of_lt hcount)
    exact calls_eq hfit hstale ⟨0, file, index, hlocate,
      initial_eq hlocate⟩ hindices

theorem dwAllocationGranularity_pos : 0 < dwAllocationGranularity := by
  decide

theorem initial_filter (hlocate : results.locate i = some (file, index))
    (houtside : ∀ first place, results.locate 0 = some (first, place) →
      results.window first place ≤ i) :
    results.initial.filter (fun cache => inCache cache i) = none := by
  have hcount : 0 < results.count := by
    have hsum := (locateIn_lt hlocate).1
    rw [← count_eq] at hsum
    omega
  obtain ⟨first, place, hzero⟩ := locate_of_lt hcount
  have hwindow := houtside first place hzero
  rw [initial_eq hzero, Option.filter_some, if_neg]
  rw [inCache_loaded, Nat.cast_zero, toInteger_zero]
  omega

theorem allFit_of_historyIndependent (hresults : results.HistoryIndependent) :
    results.AllFit := by
  intro i file index hlocate
  by_contra hnot
  have hcount : i < results.count := by
    rw [count_eq]
    exact (locateIn_lt hlocate).1
  have hmiss : results.initial.filter (fun cache => inCache cache i) =
      none := by
    apply initial_filter hlocate
    intro first place hzero
    by_contra hinside
    have hmul := results.window_mul_le first place
    have hview := (results.viewSize_le first place).1
    have hmod := Nat.mod_lt (results.sizeOfEntry * index)
      dwAllocationGranularity_pos
    have hone : results.window first place < 2 := by
      by_contra htwo
      have hdouble := Nat.mul_le_mul_right results.sizeOfEntry (not_lt.mp htwo)
      unfold Fits at hnot
      omega
    have hi : i = 0 := by omega
    subst hi
    obtain ⟨rfl, rfl⟩ := Prod.mk.inj (Option.some.inj
      (hlocate.symm.trans hzero))
    exact hnot ((window_pos_iff (locateIn_lt hlocate).2.2.1).mp (by omega))
  have hcall := hresults.2 [i] fun k hk =>
    mem_singleton.mp hk ▸ hcount
  rw [calls, getPointer_load hlocate hmiss, map_singleton,
    loaded, readRecord_view_not_fits hnot, record, hlocate] at hcall
  cases (List.cons.inj hcall).1

/-- A call that maps a view, and then one for which the truncated start of
the view is right. -/
theorem noStaleWindow_of_historyIndependent
    (hresults : results.HistoryIndependent) :
    results.NoStaleWindow := by
  intro i file index hlocate d hd hnonneg
  have hcount : i < results.count := by
    rw [count_eq]
    exact (locateIn_lt hlocate).1
  by_cases hsmall : i < 2 ^ 31
  · rw [toInteger_natCast hsmall]
    congr 1
  · have hmiss : results.initial.filter (fun cache => inCache cache i) =
        none := by
      apply initial_filter hlocate
      intro first place _
      have hlt := results.window_lt first place
      omega
    obtain ⟨k, hk⟩ := Int.eq_ofNat_of_zero_le hnonneg
    have hkCount : k < results.count := by
      have hadd := (locateIn_lt (locateIn_add hlocate (window_entries hd))).1
      have hlow : toInteger i < 2 ^ 31 := by
        unfold toInteger
        have hbmod := @Int.bmod_lt i (2 ^ 32) (by omega)
        omega
      rw [count_eq]
      omega
    have hcached : inCache (results.loaded i file index) k := by
      rw [inCache_loaded]
      omega
    obtain ⟨other, hother, hplace, hget⟩ := getPointer_cached hkCount hcached
    have hcalls := hresults.2 [i, k] (by
      intro other hmem
      rcases mem_pair.mp hmem with rfl | rfl
      · exact hcount
      · exact hkCount)
    obtain rfl : other = d := by omega
    simp only [calls, getPointer_load hlocate hmiss, hget, map_cons,
      map_nil] at hcalls
    have hsecond := (List.cons.inj (List.cons.inj hcalls).2).1
    rw [hk, Int.toNat_natCast, ← hsecond, record_add hlocate hd]

/-- The calls do not depend on each other if and only if every record fits in
a view, and no window is stale: where the index of its first record does not
fit in an `integer`, the records that it is taken for are the same. -/
theorem historyIndependent_iff (results : Results) :
    results.HistoryIndependent ↔ results.AllFit ∧ results.NoStaleWindow :=
  ⟨fun hresults => ⟨allFit_of_historyIndependent hresults,
    noStaleWindow_of_historyIndependent hresults⟩,
    fun hboth => historyIndependent_of hboth.1 hboth.2⟩

def hugeFile : ResultFile :=
  { filesize := 16 * (2 ^ 32 + 1)
    byte := fun offset => if offset < 16 then 0 else 1 }

def hugeResults : Results :=
  { sizeOfEntry := 16
    sizeOfEntry_pos := by decide
    resultFiles := [hugeFile]
    whole := by
      intro file hfile
      rw [mem_singleton.mp hfile]
      exact Nat.dvd_mul_right .. }

theorem hugeResults_not_historyIndependent :
    ¬ hugeResults.HistoryIndependent := by
  intro hresults
  have hentries : hugeResults.entries hugeFile = 2 ^ 32 + 1 := by decide
  have hlocate : ∀ i < 2 ^ 32 + 1,
      hugeResults.locate i = some (hugeFile, i) := by
    intro i hi
    rw [← hentries] at hi
    exact if_pos hi
  have hwindow : 0 < hugeResults.window hugeFile (2 ^ 32) := by
    rw [window_pos_iff (by rw [hentries]; decide), Fits]
    decide
  have hstale := noStaleWindow_of_historyIndependent hresults (2 ^ 32)
    hugeFile (2 ^ 32) (hlocate _ (by decide)) 0 hwindow (by decide)
  have hzero : (toInteger ((2 ^ 32 : ℕ) : ℤ) + (0 : ℕ)).toNat = 0 := by
    decide
  rw [hzero, Nat.add_zero, record, record, hlocate 0 (by decide),
    hlocate (2 ^ 32) (by decide)] at hstale
  revert hstale
  decide

end Results

end PointerscanResultReader
end CheatEngine
