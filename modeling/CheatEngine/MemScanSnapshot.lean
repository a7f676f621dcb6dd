import CheatEngine.MemScanSavedRegions

/-!
# The snapshot of an unknown initial value

Every thread moves a pointer through the buffer while it goes through its part
of the regions.  `toread` is a `dword`: of a longer part the thread reads less,
and its pointer then lags behind.
-/

namespace CheatEngine
namespace MemScan

open List

def ScanParameters.ignoringSize (parameters : ScanParameters) :
    ScanParameters :=
  { parameters with
    variablesize := 1
    variablesize_pos := Nat.one_pos
    variablesize_lt := one_lt_maxint }

section

variable (parameters : ScanParameters) (work : Workload)

/-- `memregion[index].startaddress`, the total size before the region. -/
def savedStart (index : ℕ) : ℕ :=
  if index < work.memregionpos then work.sizeBefore index else 0

def firstBuffer (scanner : Scanner) : ℤ :=
  savedStart work scanner.startregion +
    ((scanner.startaddress : ℤ) -
      (work.region scanner.startregion).BaseAddress)

def snapshotOf (scanner : Scanner) : List Placed :=
  place (firstBuffer work scanner)
    (firstscanChunks parameters.ignoringSize work scanner)

def snapshot (map : MemoryMap) (threadcount : ℕ) : List Placed :=
  let work := firstScanWork map threadcount
  (work.split threadcount).flatMap (snapshotOf parameters work)

end

namespace Part

variable (work : Workload) (part : Part)

def missing : ℕ :=
  part.stop work - part.start work - part.reach work

def lag : ℕ :=
  ∑ index ∈ Finset.Ico part.scanner.startregion part.index,
    missing work { scanner := part.scanner, index }

/-- Where the second part goes on at the address at which the first one ends,
their threads have left out the same before. -/
def Continues (first second : Part) : Prop :=
  0 < second.reach work →
    first.start work + first.reach work = second.start work →
      first.lag work = second.lag work

end Part

/-- Nothing is left out when all earlier parts of the thread are shorter than
4 GiB. -/
def NothingSkipped (work : Workload) (threadcount : ℕ) : Prop :=
  (work.parts threadcount).Pairwise (Part.Continues work)

namespace Workload

variable {work : Workload}

def position (work : Workload) (address : ℕ) : ℕ :=
  ∑ index ∈ Finset.range work.memregionpos,
    min (address - (work.region index).BaseAddress)
      (work.region index).MemorySize

theorem position_mono (work : Workload) {first second : ℕ}
    (hle : first ≤ second) : work.position first ≤ work.position second := by
  apply Finset.sum_le_sum
  intro index _
  exact min_le_min_right _ (Nat.sub_le_sub_right hle _)

theorem stop_le_base {first second : ℕ} (hlt : first < second)
    (hsecond : second < work.memregionpos) :
    (work.region first).stop ≤ (work.region second).BaseAddress := by
  have hfirst : first < work.map.memregion.length := hlt.trans hsecond
  have hordered := pairwise_iff_getElem.mp work.map.ordered first second
    hfirst hsecond hlt
  rw [work.region_eq_getElem hfirst, work.region_eq_getElem hsecond]
  exact hordered

theorem sum_before {index address count : ℕ}
    (hindex : index < work.memregionpos)
    (hbase : (work.region index).BaseAddress ≤ address)
    (hcount : count ≤ index) :
    ∑ earlier ∈ Finset.range count,
        min (address - (work.region earlier).BaseAddress)
          (work.region earlier).MemorySize =
      work.sizeBefore count := by
  apply Finset.sum_congr rfl
  intro earlier hearlier
  have hlt := Finset.mem_range.mp hearlier
  have hle := stop_le_base (hlt.trans_le hcount) hindex
  unfold MemoryRegion.stop at hle
  exact Nat.min_eq_right (by omega)

theorem position_eq {index address : ℕ} (hindex : index < work.memregionpos)
    (hbase : (work.region index).BaseAddress ≤ address)
    (hstop : address ≤ (work.region index).stop) :
    work.position address =
      work.sizeBefore index +
        (address - (work.region index).BaseAddress) := by
  have hsum : ∀ later, index + 1 + later ≤ work.memregionpos →
      ∑ earlier ∈ Finset.range (index + 1 + later),
          min (address - (work.region earlier).BaseAddress)
            (work.region earlier).MemorySize =
        work.sizeBefore index +
          (address - (work.region index).BaseAddress) := by
    intro later
    induction later with
    | zero =>
      intro _
      rw [Nat.add_zero, Finset.sum_range_succ, sum_before hindex hbase le_rfl]
      unfold MemoryRegion.stop at hstop
      rw [Nat.min_eq_left (by omega)]
    | succ later ih =>
      intro hle
      have hafter := @stop_le_base work index (index + 1 + later)
        (by omega) (by omega)
      unfold MemoryRegion.stop at hafter hstop
      have hzero : address -
          (work.region (index + 1 + later)).BaseAddress = 0 := by omega
      rw [← Nat.add_assoc, Finset.sum_range_succ, ih (by omega), hzero,
        Nat.zero_min, Nat.add_zero]
  have hall := hsum (work.memregionpos - (index + 1)) (by omega)
  rw [Nat.add_sub_cancel' hindex] at hall
  exact hall

end Workload

/-! ## The order of the parts -/

section

variable {work : Workload}

def Scanner.parts (scanner : Scanner) : List Part :=
  scanner.regionIndices.map fun index => { scanner, index }

variable {scanner : Scanner} {index : ℕ} {cursor : Cursor}

theorem Scanner.mem_regionIndices :
    index ∈ scanner.regionIndices ↔
      scanner.startregion ≤ index ∧ (index : ℤ) ≤ scanner.stopregion := by
  rw [regionIndices, mem_range'_1]
  omega

theorem Scanner.Within.index_lt (hwithin : scanner.Within work)
    (hindex : index ∈ scanner.regionIndices) :
    index < work.memregionpos := by
  rw [mem_regionIndices] at hindex
  rcases hwithin with ⟨hstart, hstop⟩ | ⟨-, hstop, -⟩ <;> omega

def Part.Before (work : Workload) (first second : Part) : Prop :=
  first.index < second.index ∨
    first.index = second.index ∧ first.stop work ≤ second.start work

def Part.From (work : Workload) (cursor : Cursor) (part : Part) : Prop :=
  cursor.j < part.index ∨
    cursor.j = part.index ∧
      (work.region cursor.j).BaseAddress + cursor.offsetincurrentregion ≤
        part.start work

theorem Part.Before.le {first second : Part}
    (hbefore : first.Before work second) (hfirst : first.Inside work)
    (hsecond : second.Inside work)
    (hindex : second.index < work.memregionpos) :
    first.stop work ≤ second.start work := by
  rcases hbefore with hlt | ⟨-, hle⟩
  · exact (hfirst.stop_le.trans (Workload.stop_le_base hlt hindex)).trans
      hsecond.base_le
  · exact hle

theorem from_startaddress (hinside : work.Inside cursor)
    (hregion : scanner.startregion = cursor.j)
    (haddress : scanner.startaddress = work.startaddress cursor)
    (hindex : index ∈ scanner.regionIndices) :
    Part.From work cursor { scanner, index } := by
  rw [Scanner.mem_regionIndices, hregion] at hindex
  rcases hindex.1.eq_or_lt with heq | hlt
  · right
    refine ⟨heq, ?_⟩
    unfold Part.start Part.region Scanner.currentbase
    dsimp only
    rw [if_pos (heq.symm.trans hregion.symm), haddress,
      hinside.startaddress_eq]
  · exact .inl hlt

theorem Workload.Fits.from_next (hfits : work.Fits cursor) {part : Part}
    (hfrom : part.From work (work.nextCursor cursor)) :
    part.From work cursor := by
  have hbounds := Workload.stopregion_bounds hfits.1
  have hsame := hfits.2.2
  by_cases hzero : work.leftfromprevious cursor = 0
  · rw [Workload.nextCursor, if_pos hzero] at hfrom
    unfold Part.From at hfrom ⊢
    dsimp only at hfrom
    omega
  · rw [hfits.nextCursor_eq hzero] at hfrom
    rcases hfrom with hlt | ⟨heq, hle⟩
    · exact .inl (hbounds.1.trans_lt hlt)
    · rcases hbounds.1.eq_or_lt with hfirst | hlt
      · right
        refine ⟨hfirst.trans heq, ?_⟩
        have hroom := hsame hfirst.symm
        dsimp only at hle
        rw [← hfirst] at hle
        omega
      · exact .inl (heq ▸ hlt)

theorem Workload.Fits.before_next (hfits : work.Fits cursor)
    (hindex : index ∈ (work.blockScanner cursor).regionIndices) {part : Part}
    (hfrom : part.From work (work.nextCursor cursor)) :
    Part.Before work { scanner := work.blockScanner cursor, index }
      part := by
  rw [Scanner.mem_regionIndices] at hindex
  have hle : index ≤ work.stopregion cursor :=
    Int.ofNat_le.mp hindex.2
  have hleft := hfits.2.1
  by_cases hzero : work.leftfromprevious cursor = 0
  · rw [Workload.nextCursor, if_pos hzero] at hfrom
    unfold Part.From at hfrom
    dsimp only at hfrom
    left
    dsimp only
    omega
  · have haddress := hfits.stopaddress_eq
    rw [hfits.nextCursor_eq hzero] at hfrom
    unfold Part.From at hfrom
    dsimp only at hfrom
    rcases hfrom with hlt | ⟨heq, hge⟩
    · exact .inl (hle.trans_lt hlt)
    · rcases hle.eq_or_lt with hlast | hlt
      · right
        refine ⟨hlast.trans heq, ?_⟩
        have hstop : Part.stop work
            { scanner := work.blockScanner cursor, index } ≤
              (work.blockScanner cursor).stopaddress := by
          unfold Part.stop Scanner.shareStop
          dsimp only
          split
          · exact le_rfl
          · rename_i hnot
            by_contra hmore
            exact hnot ⟨congrArg Nat.cast hlast, not_le.mp hmore⟩
        rw [haddress] at hstop
        unfold MemoryRegion.stop at hstop
        omega
      · exact .inl (hlt.trans_eq heq)

theorem splitFrom_ordered {remaining : ℕ} {cursor : Cursor}
    (hvalid : work.Valid cursor)
    (hfits : ∀ index < remaining, work.Fits (work.advance index cursor)) :
    (∀ scanner ∈ work.splitFrom remaining cursor, ∀ part ∈ scanner.parts,
        part.From work cursor) ∧
      (work.splitFrom remaining cursor).Pairwise fun first second =>
        ∀ part ∈ first.parts, ∀ other ∈ second.parts,
          part.Before work other := by
  induction remaining generalizing cursor with
  | zero =>
    refine ⟨?_, pairwise_singleton _ _⟩
    intro scanner hscanner part hpart
    rw [Workload.splitFrom, mem_singleton] at hscanner
    obtain ⟨index, hindex, rfl⟩ := mem_map.mp hpart
    rw [hscanner] at hindex ⊢
    rcases hvalid with hinside | hend
    · exact from_startaddress hinside rfl rfl hindex
    · rw [hend, Scanner.mem_regionIndices] at hindex
      change work.memregionpos ≤ index ∧
        (index : ℤ) ≤ (work.memregionpos : ℤ) - 1 at hindex
      omega
  | succ remaining ih =>
    have hfirst := hfits 0 (Nat.zero_lt_succ _)
    rw [Workload.advance_zero] at hfirst
    have hinside := hfirst.inside hvalid
    have hrest : ∀ index < remaining,
        work.Fits (work.advance index (work.nextCursor cursor)) := by
      intro index hindex
      rw [Workload.advance_nextCursor]
      exact hfits (index + 1) (Nat.succ_lt_succ hindex)
    obtain ⟨hfrom, hordered⟩ := ih hfirst.nextCursor_valid hrest
    rw [Workload.splitFrom]
    constructor
    · intro scanner hscanner part hpart
      rcases mem_cons.mp hscanner with rfl | hlater
      · obtain ⟨index, hindex, rfl⟩ := mem_map.mp hpart
        exact from_startaddress hinside rfl rfl hindex
      · exact hfirst.from_next (hfrom scanner hlater part hpart)
    · apply pairwise_cons.mpr
      refine ⟨?_, hordered⟩
      intro scanner hscanner part hpart other hother
      obtain ⟨index, hindex, rfl⟩ := mem_map.mp hpart
      exact hfirst.before_next hindex (hfrom scanner hscanner other hother)

end

def Part.buffer (work : Workload) (part : Part) : ℤ :=
  (work.position (part.start work) : ℤ) - part.lag work

section

variable {work : Workload}

theorem Part.Inside.position_add {part : Part}
    (hinside : part.Inside work) (hindex : part.index < work.memregionpos)
    {size : ℕ} (hsize : part.start work + size ≤ part.stop work) :
    work.position (part.start work + size) =
      work.position (part.start work) + size := by
  have hbase : (work.region part.index).BaseAddress ≤ part.start work :=
    hinside.base_le
  have hstop : part.stop work ≤ (work.region part.index).stop :=
    hinside.stop_le
  rw [Workload.position_eq hindex (by omega) (by omega),
    Workload.position_eq hindex hbase (by omega)]
  omega

theorem Part.Inside.missing_eq {part : Part} (hinside : part.Inside work) :
    part.start work + part.reach work + part.missing work =
      part.stop work := by
  have hreach := hinside.reach_le
  unfold missing
  omega

variable {scanner : Scanner}

theorem Part.lag_succ {index : ℕ} (hindex : index ∈ scanner.regionIndices) :
    Part.lag work { scanner, index := index + 1 } =
      Part.lag work { scanner, index } +
        Part.missing work { scanner, index } := by
  exact Finset.sum_Ico_succ_top (Scanner.mem_regionIndices.mp hindex).1 _

theorem Scanner.Within.buffer_succ (hwithin : scanner.Within work)
    {index : ℕ} (hindex : index ∈ scanner.regionIndices)
    (hnext : index + 1 ∈ scanner.regionIndices) :
    Part.buffer work { scanner, index := index + 1 } =
      Part.buffer work { scanner, index } +
        Part.reach work { scanner, index } := by
  have hinside := @part_inside work { scanner, index } hwithin hindex
  have hlt := hwithin.index_lt hindex
  have hltNext := hwithin.index_lt hnext
  have hmissing := hinside.missing_eq
  have hstop : Part.stop work { scanner, index } =
      (work.region index).stop := by
    rw [mem_regionIndices] at hnext
    unfold Part.stop Scanner.shareStop
    apply if_neg
    dsimp only
    omega
  have hstart : Part.start work { scanner, index := index + 1 } =
      (work.region (index + 1)).BaseAddress := by
    rw [mem_regionIndices] at hindex
    unfold Part.start Scanner.currentbase
    apply if_neg
    dsimp only
    omega
  have hposition := @Workload.position_eq work index
    (Part.start work { scanner, index }) hlt hinside.base_le
    (hinside.start_le.trans hinside.stop_le)
  have hbase := hinside.base_le
  change (work.region index).BaseAddress ≤ _ at hbase
  rw [hstop] at hmissing
  unfold Part.buffer
  rw [Part.lag_succ hindex, hstart, hposition,
    Workload.position_eq hltNext le_rfl (Nat.le_add_right _ _),
    Workload.sizeBefore_succ]
  unfold MemoryRegion.stop at hmissing
  push_cast
  omega

theorem Scanner.Within.firstBuffer_eq (hwithin : scanner.Within work)
    (hindex : scanner.startregion ∈ scanner.regionIndices) :
    firstBuffer work scanner =
      Part.buffer work { scanner, index := scanner.startregion } := by
  have hinside := @part_inside work { scanner, index := scanner.startregion }
    hwithin hindex
  have hlt := hwithin.index_lt hindex
  have hbase := hinside.base_le
  have hstart : Part.start work { scanner, index := scanner.startregion } =
      scanner.startaddress := by
    unfold Part.start Scanner.currentbase
    exact if_pos rfl
  have hstop := hinside.start_le.trans hinside.stop_le
  rw [hstart] at hbase hstop
  change (work.region scanner.startregion).BaseAddress ≤ _ at hbase
  change _ ≤ (work.region scanner.startregion).stop at hstop
  unfold firstBuffer savedStart Part.buffer Part.lag
  rw [if_pos hlt, hstart, Workload.position_eq hlt hbase hstop,
    Finset.Ico_self, Finset.sum_empty]
  omega

theorem Scanner.Within.buffer_le (hwithin : scanner.Within work)
    {first second : ℕ} (hfirst : first ∈ scanner.regionIndices)
    (hle : first ≤ second) (hsecond : second ∈ scanner.regionIndices) :
    Part.buffer work { scanner, index := first } ≤
      Part.buffer work { scanner, index := second } := by
  induction second, hle using Nat.le_induction with
  | base => exact le_rfl
  | succ second hle ih =>
    have hbetween : second ∈ scanner.regionIndices := by
      rw [mem_regionIndices] at hfirst hsecond ⊢
      omega
    have hstep := hwithin.buffer_succ hbetween hsecond
    have hrest := ih hbetween
    omega

end

/-! ## The chunks of a part in the buffer -/

section

variable {parameters : ScanParameters} {work : Workload}

theorem place_append (memorybuffer : ℤ) (first second : List Chunk) :
    place memorybuffer (first ++ second) =
      place memorybuffer first ++
        place (memorybuffer + (first.map Chunk.size).sum) second := by
  induction first generalizing memorybuffer with
  | nil => simp [place]
  | cons chunk rest ih =>
    rw [cons_append, place, place, ih, map_cons, sum_cons,
      Nat.cast_add, add_assoc, cons_append]

theorem chunks_sum (index toread currentbase : ℕ) :
    ((chunks parameters index toread currentbase).map Chunk.size).sum =
      toread := by
  induction toread, currentbase using chunks.induct parameters with
  | case1 toread currentbase hmore ih =>
    rw [chunks, if_pos hmore, map_cons, sum_cons, ih]
    dsimp only
    omega
  | case2 toread currentbase hlast =>
    rw [chunks, if_neg hlast, map_singleton, sum_singleton]

def Part.placed (parameters : ScanParameters) (work : Workload)
    (part : Part) : List Placed :=
  place (part.buffer work) (part.chunks parameters.ignoringSize work)

structure Run (start size : ℕ) (buffer : ℤ) (placed : List Placed) :
    Prop where
  base_le : ∀ chunk ∈ placed, start ≤ chunk.base
  stop_le : ∀ chunk ∈ placed, chunk.base + chunk.size ≤ start + size
  memorybuffer_eq : ∀ chunk ∈ placed,
    chunk.memorybuffer + start = buffer + chunk.base
  ordered : placed.Pairwise fun first second =>
    first.base + first.size ≤ second.base
  first : 0 < size → ∃ chunk ∈ placed, chunk.base = start ∧ 0 < chunk.size
  last : ∃ chunk ∈ placed, chunk.base + chunk.size = start + size

theorem run_chunks (index : ℕ) {toread currentbase : ℕ}
    (hlt : currentbase + toread < 2 ^ 64) (memorybuffer : ℤ) :
    Run currentbase toread memorybuffer
      (place memorybuffer (chunks parameters index toread currentbase)) := by
  induction toread, currentbase using chunks.induct parameters
    generalizing memorybuffer with
  | case1 toread currentbase hmore ih =>
    have hmod : (currentbase + parameters.buffersize) % 2 ^ 64 =
        currentbase + parameters.buffersize := Nat.mod_eq_of_lt (by omega)
    have hpos := parameters.buffersize_pos
    rw [hmod] at ih
    have hrest := ih (by omega) (memorybuffer + parameters.buffersize)
    rw [chunks, if_pos hmore, hmod, place]
    constructor
    · rw [forall_mem_cons]
      refine ⟨le_rfl, fun chunk hchunk => ?_⟩
      have hbase := hrest.base_le chunk hchunk
      omega
    · rw [forall_mem_cons]
      refine ⟨by dsimp only; omega, fun chunk hchunk => ?_⟩
      have hstop := hrest.stop_le chunk hchunk
      omega
    · rw [forall_mem_cons]
      refine ⟨rfl, fun chunk hchunk => ?_⟩
      have hbuffer := hrest.memorybuffer_eq chunk hchunk
      push_cast at hbuffer
      omega
    · rw [pairwise_cons]
      exact ⟨hrest.base_le, hrest.ordered⟩
    · exact fun _ => ⟨_, mem_cons_self, rfl, hpos⟩
    · obtain ⟨chunk, hchunk, hstop⟩ := hrest.last
      exact ⟨chunk, mem_cons_of_mem _ hchunk, by omega⟩
  | case2 toread currentbase hlast =>
    rw [chunks, if_neg hlast, place, place]
    refine ⟨?_, ?_, ?_, pairwise_singleton _ _, ?_, ?_⟩
    · rw [forall_mem_singleton]
    · rw [forall_mem_singleton]
    · rw [forall_mem_singleton]
    · exact fun hsize => ⟨_, mem_singleton_self _, rfl, hsize⟩
    · exact ⟨_, mem_singleton_self _, rfl⟩

theorem Part.Inside.run {part : Part} (hinside : part.Inside work) :
    Run (part.start work) (part.reach work) (part.buffer work)
      (part.placed parameters work) := by
  have hreach := hinside.reach_le
  have hstop := hinside.stop_le
  have hlt := hinside.stop_lt
  exact run_chunks part.index (by omega) _

theorem Scanner.Within.place_range {scanner : Scanner}
    (hwithin : scanner.Within work) {first count : ℕ}
    (hindices : ∀ index ∈ List.range' first count,
      index ∈ scanner.regionIndices) :
    place (Part.buffer work { scanner, index := first })
        ((List.range' first count).flatMap fun index =>
          Part.chunks parameters work { scanner, index }) =
      (List.range' first count).flatMap fun index =>
        place (Part.buffer work { scanner, index })
          (Part.chunks parameters work { scanner, index }) := by
  induction count generalizing first with
  | zero => rfl
  | succ count ih =>
    rw [range'_succ] at hindices ⊢
    obtain ⟨hfirst, hrest⟩ := forall_mem_cons.mp hindices
    rw [flatMap_cons, flatMap_cons, place_append]
    rcases Nat.eq_zero_or_pos count with rfl | hpos
    · simp [place]
    · have hnext : first + 1 ∈ scanner.regionIndices :=
        hrest _ (mem_range'_1.mpr ⟨le_rfl, by omega⟩)
      rw [← ih hrest, hwithin.buffer_succ hfirst hnext, Part.chunks,
        chunks_sum]

theorem Scanner.Within.snapshotOf_eq {scanner : Scanner}
    (hwithin : scanner.Within work) :
    snapshotOf parameters work scanner =
      scanner.parts.flatMap (Part.placed parameters work) := by
  have hchunks : firstscanChunks parameters.ignoringSize work scanner =
      scanner.regionIndices.flatMap fun index =>
        Part.chunks parameters.ignoringSize work { scanner, index } := by
    apply flatMap_congr
    intro index hindex
    have hinside := @part_inside work { scanner, index } hwithin hindex
    unfold Part.chunks
    rw [← firstscanToread_eq hinside]
    rfl
  rw [snapshotOf, hchunks, parts, flatMap_map]
  rcases Nat.eq_zero_or_pos
    (scanner.stopregion + 1 - scanner.startregion).toNat with hnone | hpos
  · rw [regionIndices, hnone]
    rfl
  · have hfirst : scanner.startregion ∈ scanner.regionIndices := by
      rw [mem_regionIndices]
      omega
    rw [hwithin.firstBuffer_eq hfirst]
    exact hwithin.place_range fun index hindex => hindex

end

/-! ## All parts -/

/-- The second part lies behind the first one, in memory and in the
buffer. -/
def Part.Ahead (work : Workload) (first second : Part) : Prop :=
  first.stop work ≤ second.start work ∧
    first.buffer work + first.reach work ≤ second.buffer work

section

variable {parameters : ScanParameters} {work : Workload} {threadcount : ℕ}

theorem Scanner.Within.ahead {scanner : Scanner}
    (hwithin : scanner.Within work) {first second : ℕ}
    (hfirst : first ∈ scanner.regionIndices) (hlt : first < second)
    (hsecond : second ∈ scanner.regionIndices) :
    Part.Ahead work { scanner, index := first }
      { scanner, index := second } := by
  have hnext : first + 1 ∈ scanner.regionIndices := by
    rw [mem_regionIndices] at hfirst hsecond ⊢
    omega
  constructor
  · have hbefore : Part.Before work { scanner, index := first }
        { scanner, index := second } := .inl hlt
    exact hbefore.le (part_inside hwithin hfirst)
      (part_inside hwithin hsecond) (hwithin.index_lt hsecond)
  · rw [← hwithin.buffer_succ hfirst hnext]
    exact hwithin.buffer_le hnext hlt hsecond

theorem ahead_of_before {first second : Scanner} (hfirst : first.Within work)
    (hsecond : second.Within work) {index : ℕ}
    (hindex : index ∈ first.regionIndices) (hbefore : ∀ other ∈ second.parts,
      Part.Before work { scanner := first, index } other) {other : ℕ}
    (hother : other ∈ second.regionIndices) :
    Part.Ahead work { scanner := first, index }
      { scanner := second, index := other } := by
  have hstart : second.startregion ∈ second.regionIndices := by
    rw [Scanner.mem_regionIndices] at hother ⊢
    omega
  have hinside := @part_inside work { scanner := first, index } hfirst hindex
  have hle : ∀ later ∈ second.regionIndices,
      Part.stop work { scanner := first, index } ≤
        Part.start work { scanner := second, index := later } := by
    intro later hlater
    exact (hbefore _ (mem_map_of_mem hlater)).le hinside
      (part_inside hsecond hlater) (hsecond.index_lt hlater)
  refine ⟨hle other hother, ?_⟩
  have hbuffer := hsecond.buffer_le hstart
    (Scanner.mem_regionIndices.mp hother).1 hother
  apply le_trans ?_ hbuffer
  have hposition := hinside.position_add (hfirst.index_lt hindex)
    hinside.reach_le
  have hmono := work.position_mono (hinside.reach_le.trans (hle _ hstart))
  unfold Part.buffer
  rw [Part.lag, Part.lag, Finset.Ico_self, Finset.sum_empty]
  omega

theorem parts_ahead (hcuts : work.EveryCutFits threadcount) :
    (work.parts threadcount).Pairwise (Part.Ahead work) := by
  obtain ⟨hwithin, -⟩ :=
    (work.exactPartition_split_iff threadcount).mpr hcuts
  have hordered := (@splitFrom_ordered work (threadcount - 1) ⟨0, 0⟩
    work.start_valid fun index hindex => hcuts index (by omega)).2
  change (work.split threadcount).Pairwise _ at hordered
  rw [Workload.parts, pairwise_flatMap]
  constructor
  · intro scanner hscanner
    rw [pairwise_map]
    have hrange : scanner.regionIndices.Pairwise (· < ·) :=
      pairwise_lt_range'
    apply hrange.imp_of_mem
    intro first second hfirst hsecond hlt
    exact (hwithin scanner hscanner).ahead hfirst hlt hsecond
  · apply hordered.imp_of_mem
    intro first second hfirst hsecond hbefore part hpart other hother
    obtain ⟨index, hindex, rfl⟩ := mem_map.mp hpart
    obtain ⟨later, hlater, rfl⟩ := mem_map.mp hother
    exact ahead_of_before (hwithin first hfirst) (hwithin second hsecond)
      hindex (hbefore _ hpart) hlater

theorem Part.Ahead.ascending {first second : Part}
    (hahead : first.Ahead work second) (hfirst : first.Inside work)
    (hsecond : second.Inside work) :
    ∀ chunk ∈ first.placed parameters work,
      ∀ other ∈ second.placed parameters work, Ascending chunk other := by
  intro chunk hchunk other hother
  have hrunFirst := @Part.Inside.run parameters work first hfirst
  have hrunSecond := @Part.Inside.run parameters work second hsecond
  have hstop := hrunFirst.stop_le chunk hchunk
  have hbufferFirst := hrunFirst.memorybuffer_eq chunk hchunk
  have hbase := hrunSecond.base_le other hother
  have hbufferSecond := hrunSecond.memorybuffer_eq other hother
  have hreach := hfirst.reach_le
  obtain ⟨hle, hbuffer⟩ := hahead
  constructor <;> omega

theorem Part.Inside.continues_iff {first second : Part}
    (hfirst : first.Inside work) (hindex : first.index < work.memregionpos)
    (hjoin : first.start work + first.reach work = second.start work) :
    first.lag work = second.lag work ↔
      first.buffer work + first.reach work = second.buffer work := by
  have hposition := hfirst.position_add hindex hfirst.reach_le
  unfold Part.buffer
  rw [← hjoin]
  omega

theorem Part.Ahead.joined_iff {first second : Part}
    (hahead : first.Ahead work second) (hfirst : first.Inside work)
    (hsecond : second.Inside work) (hindex : first.index < work.memregionpos) :
    (∀ chunk ∈ first.placed parameters work,
      ∀ other ∈ second.placed parameters work, Joined chunk other) ↔
      first.Continues work second := by
  have hrunFirst := @Part.Inside.run parameters work first hfirst
  have hrunSecond := @Part.Inside.run parameters work second hsecond
  constructor
  · intro hjoined hreach hjoin
    rw [hfirst.continues_iff hindex hjoin]
    obtain ⟨chunk, hchunk, hlast⟩ := hrunFirst.last
    obtain ⟨other, hother, hbase, hsize⟩ := hrunSecond.first hreach
    have hbuffer := hjoined chunk hchunk other hother hsize (by omega)
    have hbufferFirst := hrunFirst.memorybuffer_eq chunk hchunk
    have hbufferSecond := hrunSecond.memorybuffer_eq other hother
    omega
  · intro hcontinues chunk hchunk other hother hsize hbase
    have hstop := hrunFirst.stop_le chunk hchunk
    have hstart := hrunSecond.base_le other hother
    have hend := hrunSecond.stop_le other hother
    have hreach := hfirst.reach_le
    have hle := hahead.1
    have hjoin : first.start work + first.reach work =
        second.start work := by omega
    have hlag := hcontinues (by omega) hjoin
    rw [hfirst.continues_iff hindex hjoin] at hlag
    have hbufferFirst := hrunFirst.memorybuffer_eq chunk hchunk
    have hbufferSecond := hrunSecond.memorybuffer_eq other hother
    omega

end

/-! ## The snapshot -/

section

variable {parameters : ScanParameters} {map : MemoryMap} {threadcount : ℕ}

theorem snapshot_eq
    (hcuts : (firstScanWork map threadcount).EveryCutFits threadcount) :
    snapshot parameters map threadcount =
      ((firstScanWork map threadcount).parts threadcount).flatMap
        (Part.placed parameters (firstScanWork map threadcount)) := by
  obtain ⟨hwithin, -⟩ := ((firstScanWork map threadcount)
    |>.exactPartition_split_iff threadcount).mpr hcuts
  rw [Workload.parts, flatMap_assoc]
  apply flatMap_congr
  intro scanner hscanner
  rw [(hwithin scanner hscanner).snapshotOf_eq]
  rfl

theorem part_index_lt {work : Workload}
    (hcuts : work.EveryCutFits threadcount) {part : Part}
    (hpart : part ∈ work.parts threadcount) :
    part.index < work.memregionpos := by
  obtain ⟨hwithin, -⟩ :=
    (work.exactPartition_split_iff threadcount).mpr hcuts
  obtain ⟨scanner, hscanner, hin⟩ := mem_flatMap.mp hpart
  obtain ⟨index, hindex, rfl⟩ := mem_map.mp hin
  exact (hwithin scanner hscanner).index_lt hindex

theorem snapshot_ascending
    (hcuts : (firstScanWork map threadcount).EveryCutFits threadcount) :
    (snapshot parameters map threadcount).Pairwise Ascending := by
  have hinside := (partsExact_of_everyCutFits hcuts).inside
  rw [snapshot_eq hcuts, pairwise_flatMap]
  constructor
  · intro part hpart
    have hrun := @Part.Inside.run parameters _ part (hinside part hpart)
    apply hrun.ordered.imp_of_mem
    intro first second hfirst hsecond hle
    have hbufferFirst := hrun.memorybuffer_eq first hfirst
    have hbufferSecond := hrun.memorybuffer_eq second hsecond
    exact ⟨hle, by omega⟩
  · apply (parts_ahead hcuts).imp_of_mem
    intro first second hfirst hsecond hahead
    exact hahead.ascending (hinside first hfirst) (hinside second hsecond)

theorem joined_iff_nothingSkipped
    (hcuts : (firstScanWork map threadcount).EveryCutFits threadcount) :
    (snapshot parameters map threadcount).Pairwise Joined ↔
      NothingSkipped (firstScanWork map threadcount) threadcount := by
  have hinside := (partsExact_of_everyCutFits hcuts).inside
  have hahead := parts_ahead hcuts
  rw [snapshot_eq hcuts, pairwise_flatMap]
  constructor
  · rintro ⟨-, hjoined⟩
    apply (hahead.and hjoined).imp_of_mem
    intro first second hfirst hsecond hboth
    exact (hboth.1.joined_iff (hinside first hfirst) (hinside second hsecond)
      (part_index_lt hcuts hfirst)).mp hboth.2
  · intro hnothing
    constructor
    · intro part hpart
      have hrun := @Part.Inside.run parameters _ part (hinside part hpart)
      apply hrun.ordered.imp_of_mem
      intro first second hfirst hsecond _ _ hbase
      have hbufferFirst := hrun.memorybuffer_eq first hfirst
      have hbufferSecond := hrun.memorybuffer_eq second hsecond
      omega
    · apply (hahead.and hnothing).imp_of_mem
      intro first second hfirst hsecond hboth
      exact (hboth.1.joined_iff (hinside first hfirst)
        (hinside second hsecond) (part_index_lt hcuts hfirst)).mpr hboth.2

theorem nothingSkipped_of_small {work : Workload}
    (hcuts : work.EveryCutFits threadcount)
    (hsmall : ∀ region ∈ work.map.memregion, region.MemorySize < 2 ^ 32) :
    NothingSkipped work threadcount := by
  have hinside := (partsExact_of_everyCutFits hcuts).inside
  have hmissing : ∀ part ∈ work.parts threadcount,
      part.missing work = 0 := by
    intro part hpart
    have hpartInside := hinside part hpart
    have hsize := hsmall _ hpartInside.mem
    have hbase := hpartInside.base_le
    have hstop := hpartInside.stop_le
    have hmod : ((part.region work).stop - part.start work) % 2 ^ 32 =
        (part.region work).stop - part.start work := by
      unfold MemoryRegion.stop
      exact Nat.mod_eq_of_lt (by omega)
    unfold Part.missing Part.reach
    rw [hmod]
    omega
  have hlag : ∀ part ∈ work.parts threadcount, part.lag work = 0 := by
    intro part hpart
    obtain ⟨scanner, hscanner, hin⟩ := mem_flatMap.mp hpart
    obtain ⟨index, hindex, rfl⟩ := mem_map.mp hin
    apply Finset.sum_eq_zero
    intro earlier hearlier
    apply hmissing
    refine mem_flatMap.mpr ⟨scanner, hscanner, mem_map_of_mem ?_⟩
    rw [Finset.mem_Ico] at hearlier
    rw [Scanner.mem_regionIndices] at hindex ⊢
    dsimp only at hearlier
    omega
  have hahead := parts_ahead hcuts
  apply hahead.imp_of_mem
  intro first second hfirst hsecond _ _ _
  rw [hlag first hfirst, hlag second hsecond]

end

/-- As far as the cuts between the threads fit, the saved bytes are those of
the merged regions when no thread skips bytes of a region before another one
goes on.  So it is when no region reaches 4 GiB. -/
theorem snapshotExact_iff (parameters : ScanParameters) (map : MemoryMap)
    (threadcount : ℕ) :
    ((firstScanWork map threadcount).EveryCutFits threadcount →
      (SnapshotExact (snapshot parameters map threadcount) ↔
        NothingSkipped (firstScanWork map threadcount) threadcount)) ∧
    (0 < map.totalProcessMemorySize →
      (∀ region ∈ map.memregion, region.MemorySize < 2 ^ 32) →
        (firstScanWork map threadcount).EveryCutFits threadcount ∧
          NothingSkipped (firstScanWork map threadcount) threadcount) := by
  constructor
  · intro hcuts
    rw [snapshotExact_iff_joined (snapshot_ascending hcuts)]
    exact joined_iff_nothingSkipped hcuts
  · intro hbytes hsmall
    have hcuts : (firstScanWork map threadcount).EveryCutFits threadcount :=
      Workload.everyCutFits_of_small hsmall
        (threads_mul_firstScanBlocksize_le map threadcount) hbytes
    exact ⟨hcuts, nothingSkipped_of_small hcuts hsmall⟩

def threeRegions : MemoryMap where
  memregion := [⟨0x10000, 0x100001000⟩, ⟨0x200000000, 0xc0000000⟩,
    ⟨0x300000000, 0xc0000000⟩]
  stopaddress := 0x7fffffffffff
  ordered := by decide
  stop_le := by decide
  stopaddress_lt := userEnd_lt

def firstStop : Part where
  scanner := ⟨0, 1, 0x10000, 0x23ffff000⟩
  index := 1

def secondStart : Part where
  scanner := ⟨1, 2, 0x23ffff000, 0x7fffffffffff⟩
  index := 1

/-- The first thread reads one page of the first region; the second thread
goes on in the second region where the first one stops. -/
theorem not_snapshotExact :
    ¬ SnapshotExact (snapshot fourBytes threeRegions 2) := by
  have hcuts : (firstScanWork threeRegions 2).EveryCutFits 2 := by
    intro index hindex
    obtain rfl : index = 0 := by omega
    change (firstScanWork threeRegions 2).Fits ⟨0, 0⟩
    unfold Workload.Fits
    decide
  intro hexact
  rw [snapshotExact_iff_joined (snapshot_ascending hcuts),
    joined_iff_nothingSkipped hcuts] at hexact
  have hparts : [firstStop, secondStart].Sublist
      ((firstScanWork threeRegions 2).parts 2) := by decide
  have hlag := pairwise_iff_forall_sublist.mp hexact hparts
    (by decide) (by decide)
  exact absurd hlag (by decide)

end MemScan
end CheatEngine
