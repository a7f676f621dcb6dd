import CheatEngine.MemScanChunks

/-!
# Fast scans as filters

A fast scan visits some positions of each chunk, counted from the start of
the chunk.  This is the filter of the full scan by the address when the chunk
starts at a multiple of the step.
-/

namespace CheatEngine
namespace MemScan

open List

namespace FastScan

variable (fast : FastScan)

/-- The parameter as an alignment: without digits it is 1, and 0 stands for
the alignment of the type. -/
def alignment : ℕ :=
  if fast.fastscanparameter = [] then 1
  else if hexValue fast.fastscanparameter = 0 then fast.typesize
  else hexValue fast.fastscanparameter

def modulus : ℕ :=
  match fast.fastscanmethod with
  | .fsmNotAligned => 1
  | .fsmAligned => fast.alignment
  | .fsmLastDigits => 16 ^ fast.fastscandigitcount

def residue : ℕ :=
  match fast.fastscanmethod with
  | .fsmLastDigits => hexValue fast.fastscanparameter
  | _ => 0

def selected (address : ℕ) : Bool :=
  address % fast.modulus = fast.residue

def full : FastScan :=
  { fast with fastscanmethod := .fsmNotAligned }

/-- The parameter gives a positive step: an alignment below `2 ^ 31`, or one
to seven digits. -/
def Usable : Prop :=
  match fast.fastscanmethod with
  | .fsmNotAligned => True
  | .fsmAligned => hexValue fast.fastscanparameter < 2 ^ 31
  | .fsmLastDigits =>
    1 ≤ fast.fastscandigitcount ∧ fast.fastscandigitcount ≤ 7

end FastScan

section

variable (parameters : ScanParameters) (fast : FastScan)

def room (chunk : Chunk) : ℤ :=
  min chunk.requested (2 ^ 31 - 1) - parameters.variablesize

/-- The chunk starts at a multiple of the step, or there is nothing in it for
either scan. -/
def Regular (chunk : Chunk) : Prop :=
  (fast.Usable ∧ fast.modulus ∣ chunk.base) ∨
  (room parameters chunk < fast.firstoffset ∧
    ∀ p : ℕ, (p : ℤ) ≤ room parameters chunk →
      fast.selected (chunk.base + p) = false)

/-- The fast scan gives the selected addresses of the full scan, whatever is
read and whatever the check routine takes. -/
def Filters (withPrevious : Bool) (list : List Chunk) : Prop :=
  ∀ checkroutine target, ∃ stored,
    scanChunks parameters fast.full checkroutine target withPrevious list =
        some stored ∧
      scanChunks parameters fast checkroutine target withPrevious list =
        some (stored.filter fast.selected)

end

/-! ## Parameters -/

theorem hexValue_append_singleton (digits : List (Fin 16)) (digit : Fin 16) :
    hexValue (digits ++ [digit]) = hexValue digits * 16 + digit := by
  rw [hexValue, foldl_append]
  rfl

theorem hexValue_lt (digits : List (Fin 16)) :
    hexValue digits < 16 ^ digits.length := by
  induction digits using List.reverseRecOn with
  | nil => exact Nat.one_pos
  | append_singleton digits digit ih =>
    have hdigit := digit.isLt
    rw [hexValue_append_singleton, length_append, length_singleton, pow_succ]
    omega

theorem bmod_of_lt {value : ℕ} (hvalue : value < 2 ^ 31) :
    (value : ℤ).bmod (2 ^ 32) = value := by
  apply Int.bmod_eq_of_le
  · omega
  · omega

theorem bmod_of_ge {value : ℕ} (hvalue : 2 ^ 31 ≤ value)
    (hlt : value < 2 ^ 32) :
    (value : ℤ).bmod (2 ^ 32) = value - 2 ^ 32 := by
  rw [Int.bmod_def]
  omega

theorem bmod_le_self (value : ℕ) : (value : ℤ).bmod (2 ^ 32) ≤ value := by
  rw [Int.bmod_def]
  omega

theorem bmod_lt_pow (value : ℤ) : value.bmod (2 ^ 32) ≤ 2 ^ 31 - 1 := by
  rw [Int.bmod_def]
  omega

theorem pow_sixteen_bmod {count : ℕ} (hcount : 8 ≤ count) :
    (16 ^ count : ℤ).bmod (2 ^ 32) = 0 := by
  have hsplit : (16 : ℤ) ^ count = 2 ^ 32 * 16 ^ (count - 8) := by
    rw [← Nat.add_sub_cancel' hcount, pow_add]
    norm_num
  rw [hsplit, Int.bmod_def]
  omega

theorem pow_sixteen_lt {count : ℕ} (hcount : count ≤ 7) :
    16 ^ count < 2 ^ 31 :=
  (Nat.pow_le_pow_right (by decide) hcount).trans_lt (by decide)

namespace FastScan

variable {fast : FastScan}

theorem Usable.stepsize_eq (husable : fast.Usable) :
    fast.stepsize = fast.modulus := by
  unfold Usable at husable
  unfold stepsize modulus fastscanalignsize fastscanalignment alignment
  have htype := fast.typesize_pos
  cases hmethod : fast.fastscanmethod with
  | fsmNotAligned => rfl
  | fsmAligned =>
    rw [hmethod] at husable
    simp only [reduceCtorEq, false_or]
    by_cases hempty : fast.fastscanparameter = []
    · simp [hempty]
    · simp only [hempty, if_false, bmod_of_lt husable]
      split <;> simp_all
  | fsmLastDigits =>
    rw [hmethod] at husable
    have hpow := bmod_of_lt (pow_sixteen_lt husable.2)
    exact_mod_cast hpow

theorem Usable.firstoffset_eq (husable : fast.Usable) :
    fast.firstoffset = fast.residue := by
  unfold Usable at husable
  unfold firstoffset residue fastscanalignsize fastscanalignment
  cases hmethod : fast.fastscanmethod with
  | fsmNotAligned => rfl
  | fsmAligned => rfl
  | fsmLastDigits =>
    rw [hmethod] at husable
    have hne : fast.fastscanparameter ≠ [] :=
      ne_nil_of_length_pos husable.1
    have hvalue : hexValue fast.fastscanparameter < 2 ^ 31 :=
      (hexValue_lt _).trans (pow_sixteen_lt husable.2)
    simp only [true_or, if_true, hne, if_false, bmod_of_lt hvalue]

theorem alignment_pos : 0 < fast.alignment := by
  have htype := fast.typesize_pos
  unfold alignment
  split
  · exact Nat.one_pos
  · split <;> omega

theorem residue_lt : fast.residue < fast.modulus := by
  unfold residue modulus
  cases fast.fastscanmethod with
  | fsmNotAligned => exact Nat.one_pos
  | fsmAligned => exact alignment_pos
  | fsmLastDigits => exact hexValue_lt _

/-- Without a usable parameter the loop does not get on, or the first
position is left out. -/
theorem not_usable (husable : ¬ fast.Usable) :
    fast.stepsize ≤ 0 ∨
      fast.stepsize = 1 ∧ fast.firstoffset = 1 ∧ fast.modulus = 1 := by
  unfold Usable at husable
  unfold stepsize firstoffset modulus fastscanalignsize fastscanalignment
  cases hmethod : fast.fastscanmethod with
  | fsmNotAligned =>
    rw [hmethod] at husable
    exact absurd trivial husable
  | fsmAligned =>
    rw [hmethod] at husable
    simp only [not_lt] at husable
    have hne : fast.fastscanparameter ≠ [] := by
      intro hempty
      rw [hempty] at husable
      exact absurd husable (by decide)
    left
    have hbmod := bmod_of_ge husable fast.parameter_lt
    have hlt := fast.parameter_lt
    simp only [reduceCtorEq, false_or, hne, if_false, hbmod]
    rw [if_pos (by omega)]
    omega
  | fsmLastDigits =>
    rw [hmethod] at husable
    by_cases hzero : fast.fastscandigitcount = 0
    · right
      have hempty : fast.fastscanparameter = [] :=
        length_eq_zero_iff.mp hzero
      simp only [hzero, pow_zero, true_or, if_true, hempty, and_true]
      decide
    · left
      have hcount : 8 ≤ fast.fastscandigitcount := by omega
      exact (pow_sixteen_bmod hcount).le

theorem firstoffset_nonneg (hstep : 0 < fast.stepsize) :
    0 ≤ fast.firstoffset := by
  by_cases husable : fast.Usable
  · rw [husable.firstoffset_eq]
    exact Int.natCast_nonneg _
  · rcases not_usable husable with hle | ⟨-, hone, -⟩
    · omega
    · omega

theorem selected_add {base : ℕ} (hbase : fast.modulus ∣ base) (p : ℕ) :
    fast.selected (base + p) = true ↔
      (fast.residue : ℤ) ≤ p ∧ (fast.modulus : ℤ) ∣ p - fast.residue := by
  rw [selected, decide_eq_true_eq, Nat.add_mod,
    Nat.mod_eq_zero_of_dvd hbase, Nat.zero_add, Nat.mod_mod]
  constructor
  · intro hmod
    have hle : fast.residue ≤ p := hmod ▸ Nat.mod_le p _
    refine ⟨by exact_mod_cast hle, ?_⟩
    rw [← Nat.cast_sub hle, Int.natCast_dvd_natCast, ← hmod]
    exact Nat.dvd_sub_mod p
  · rintro ⟨hle, hdvd⟩
    have hle' : fast.residue ≤ p := by exact_mod_cast hle
    rw [← Nat.cast_sub hle', Int.natCast_dvd_natCast] at hdvd
    have hmodEq := (Nat.modEq_iff_dvd' hle').mpr hdvd
    rw [← hmodEq, Nat.mod_eq_of_lt residue_lt]

end FastScan

/-! ## One chunk -/

section

variable {parameters : ScanParameters} {fast : FastScan}
  {withPrevious : Bool} {checkroutine : List UInt8 → List UInt8 → Bool}
  {target : Target} {chunk : Chunk}

/-- The last offset that is compared with `lastmem`. -/
def lastOffset (parameters : ScanParameters) (target : Target)
    (chunk : Chunk) : ℤ :=
  (target.actualread chunk.base chunk.requested : ℤ).bmod (2 ^ 32) -
    parameters.variablesize

theorem lastOffset_le_room :
    lastOffset parameters target chunk ≤ room parameters chunk := by
  have hself := bmod_le_self (target.actualread chunk.base chunk.requested)
  have hread := target.actualread_le chunk.base chunk.requested
  have hlt := bmod_lt_pow (target.actualread chunk.base chunk.requested)
  unfold lastOffset room
  omega

def storedAt (parameters : ScanParameters)
    (checkroutine : List UInt8 → List UInt8 → Bool) (target : Target)
    (withPrevious : Bool) (chunk : Chunk) (visited : List ℤ) : List ℕ :=
  (visited.filter (isMatch parameters checkroutine target withPrevious
    chunk)).map fun p => chunk.base + p.toNat

variable {visited : List ℤ} {list : List Chunk}

theorem scanmem_eq
    (hvisited : positions fast.stepsize (lastOffset parameters target chunk)
      fast.firstoffset = some visited) :
    scanmem parameters fast checkroutine target withPrevious chunk =
      some (storedAt parameters checkroutine target withPrevious chunk
        visited) := by
  rw [scanmem]
  exact congrArg (Option.map _) hvisited

theorem storedAt_filter {all : List ℤ} (hvisited : visited.Pairwise (· < ·))
    (hall : all.Pairwise (· < ·))
    (hmem : ∀ q, q ∈ visited ↔
      q ∈ all ∧ fast.selected (chunk.base + q.toNat) = true) :
    storedAt parameters checkroutine target withPrevious chunk visited =
      (storedAt parameters checkroutine target withPrevious chunk
        all).filter fast.selected := by
  rw [storedAt, storedAt, filter_map]
  congr 1
  apply (hvisited.filter _).eq_of_mem_iff ((hall.filter _).filter _)
  intro q
  rw [mem_filter, mem_filter, mem_filter, hmem]
  exact and_right_comm

theorem full_positions (lastmem : ℤ) :
    ∃ all, positions fast.full.stepsize lastmem fast.full.firstoffset =
        some all ∧ all.Pairwise (· < ·) ∧
      ∀ q, q ∈ all ↔ 0 ≤ q ∧ q ≤ lastmem := by
  obtain ⟨all, hall, hsteps⟩ := exists_positions one_pos lastmem 0
  refine ⟨all, hall, hsteps.sorted, fun q => ?_⟩
  rw [hsteps.mem_iff]
  exact and_congr_right fun _ => and_iff_left (one_dvd _)

theorem Regular.scanmem_filter (hregular : Regular parameters fast chunk) :
    ∃ stored,
      scanmem parameters fast.full checkroutine target withPrevious chunk =
          some stored ∧
        scanmem parameters fast checkroutine target withPrevious chunk =
          some (stored.filter fast.selected) := by
  have hroom : lastOffset parameters target chunk ≤
      room parameters chunk := lastOffset_le_room
  obtain ⟨all, hall, hallSorted, hallMem⟩ :=
    @full_positions fast (lastOffset parameters target chunk)
  refine ⟨_, scanmem_eq hall, ?_⟩
  rcases hregular with ⟨husable, hbase⟩ | ⟨hfirst, hnone⟩
  · have hpos : (0 : ℤ) < fast.stepsize := by
      rw [husable.stepsize_eq]
      exact_mod_cast (Nat.zero_le _).trans_lt fast.residue_lt
    obtain ⟨visited, hvisited, hsteps⟩ := exists_positions hpos
      (lastOffset parameters target chunk) fast.firstoffset
    rw [scanmem_eq hvisited]
    congr 1
    apply storedAt_filter hsteps.sorted hallSorted
    intro q
    rw [hsteps.mem_iff, hallMem, husable.firstoffset_eq, husable.stepsize_eq]
    rcases lt_or_ge q 0 with hneg | hnonneg
    · constructor
      · rintro ⟨hge, -⟩
        omega
      · rintro ⟨⟨hge, -⟩, -⟩
        omega
    · obtain ⟨p, rfl⟩ := Int.eq_ofNat_of_zero_le hnonneg
      rw [Int.toNat_natCast, FastScan.selected_add hbase p]
      constructor
      · rintro ⟨hge, hle, hdvd⟩
        exact ⟨⟨hnonneg, hle⟩, hge, hdvd⟩
      · rintro ⟨⟨-, hle⟩, hge, hdvd⟩
        exact ⟨hge, hle, hdvd⟩
  · rw [scanmem_eq (positions_eq_nil (by omega))]
    congr 1
    apply storedAt_filter List.Pairwise.nil hallSorted
    intro q
    rw [hallMem]
    constructor
    · exact fun hmem => nomatch hmem
    · rintro ⟨⟨hge, hle⟩, hsel⟩
      have hnot := hnone q.toNat (by omega)
      rw [hsel] at hnot
      cases hnot

/-! ## All chunks -/

theorem filters_of_regular
    (hregular : ∀ chunk ∈ list, Regular parameters fast chunk) :
    Filters parameters fast withPrevious list := by
  intro checkroutine target
  induction list with
  | nil => exact ⟨[], rfl, rfl⟩
  | cons chunk rest ih =>
    obtain ⟨hchunk, hrest⟩ := forall_mem_cons.mp hregular
    obtain ⟨later, hfullLater, hfastLater⟩ := ih hrest
    obtain ⟨stored, hfull, hfast⟩ :=
      @Regular.scanmem_filter parameters fast withPrevious checkroutine
        target chunk hchunk
    refine ⟨stored ++ later, ?_, ?_⟩
    · rw [scanChunks, hfull, hfullLater]
      rfl
    · rw [scanChunks, hfast, hfastLater, filter_append]
      rfl

def readsOnly (chunk : Chunk) : Target where
  memory := fun _ => 0
  previous := fun _ _ => 0
  actualread := fun address size =>
    if address = chunk.base ∧ size = chunk.requested then
      min chunk.requested (2 ^ 31 - 1)
    else
      0
  actualread_le := by
    intro address size
    split
    · rename_i hboth
      rw [hboth.2]
      exact min_le_left _ _
    · exact Nat.zero_le _

theorem lastOffset_readsOnly :
    lastOffset parameters (readsOnly chunk) chunk =
      room parameters chunk := by
  have hread : (readsOnly chunk).actualread chunk.base chunk.requested =
      min chunk.requested (2 ^ 31 - 1) := by
    simp only [readsOnly, and_self, if_true]
  have hlt : min chunk.requested (2 ^ 31 - 1) < 2 ^ 31 :=
    min_lt_of_right_lt (by decide)
  unfold lastOffset room
  simp only [hread, bmod_of_lt hlt]

theorem lastOffset_readsOnly_of_ne {other : Chunk}
    (hne : ¬ (other.base = chunk.base ∧ other.requested = chunk.requested)) :
    lastOffset parameters (readsOnly chunk) other < 0 := by
  have hread : (readsOnly chunk).actualread other.base other.requested =
      0 := by
    simp only [readsOnly, hne, if_false]
  have hpos := parameters.variablesize_pos
  unfold lastOffset
  simp only [hread, Nat.cast_zero, Int.zero_bmod]
  omega

/-- The check routine that takes every value. -/
def accepting : List UInt8 → List UInt8 → Bool :=
  fun _ _ => true

theorem scanmem_eq_nil {found : List ℕ}
    (hlast : lastOffset parameters target chunk < 0)
    (hfound : scanmem parameters fast checkroutine target withPrevious chunk =
      some found) : found = [] := by
  obtain ⟨visited, hvisited, rfl⟩ := Option.map_eq_some_iff.mp hfound
  change positions fast.stepsize (lastOffset parameters target chunk)
    fast.firstoffset = some visited at hvisited
  have hsteps := positions_steps hvisited
  suffices hnil : visited = [] by rw [hnil]; rfl
  apply eq_nil_iff_forall_not_mem.mpr
  intro q hq
  obtain ⟨hge, hle, -⟩ := (hsteps.mem_iff q).mp hq
  have hstep : 0 < fast.stepsize := by
    by_contra hnot
    rw [positions_eq_none (hge.trans hle) (not_lt.mp hnot)] at hvisited
    cases hvisited
  have hnonneg := FastScan.firstoffset_nonneg hstep
  omega

theorem scanmem_congr {other : Chunk} (hbase : other.base = chunk.base)
    (hrequested : other.requested = chunk.requested) :
    scanmem parameters fast accepting target withPrevious other =
      scanmem parameters fast accepting target withPrevious chunk := by
  unfold scanmem isMatch accepting
  rw [hbase, hrequested]

theorem mem_flatMap_readsOnly (hchunk : chunk ∈ list)
    {found : Chunk → List ℕ} (hfound : ∀ other ∈ list,
      scanmem parameters fast accepting (readsOnly chunk) withPrevious
        other = some (found other))
    (address : ℕ) :
    address ∈ list.flatMap found ↔ address ∈ found chunk := by
  rw [mem_flatMap]
  constructor
  · rintro ⟨other, hother, haddress⟩
    by_cases hsame : other.base = chunk.base ∧
        other.requested = chunk.requested
    · have hequal := (hfound other hother).symm.trans
        ((scanmem_congr hsame.1 hsame.2).trans (hfound chunk hchunk))
      rw [Option.some.inj hequal] at haddress
      exact haddress
    · rw [scanmem_eq_nil (lastOffset_readsOnly_of_ne hsame)
        (hfound other hother)] at haddress
      cases haddress
  · exact fun haddress => ⟨chunk, hchunk, haddress⟩

theorem mem_storedAt (hnonneg : ∀ q ∈ visited, 0 ≤ q) (p : ℕ) :
    chunk.base + p ∈ storedAt parameters accepting target withPrevious chunk
        visited ↔ (p : ℤ) ∈ visited := by
  rw [storedAt, mem_map]
  constructor
  · rintro ⟨q, hq, haddress⟩
    have hmem := (mem_filter.mp hq).1
    have hge := hnonneg q hmem
    have hqp : q = p := by omega
    exact hqp ▸ hmem
  · exact fun hmem => ⟨p, mem_filter.mpr ⟨hmem, rfl⟩, by simp⟩

theorem positions_of_filters {list : List Chunk} (hchunk : chunk ∈ list)
    (hfilters : Filters parameters fast withPrevious list) :
    ∃ visited, positions fast.stepsize (room parameters chunk)
        fast.firstoffset = some visited ∧
      ∀ p : ℕ, (p : ℤ) ∈ visited ↔
        (p : ℤ) ≤ room parameters chunk ∧
          fast.selected (chunk.base + p) = true := by
  obtain ⟨stored, hfull, hfast⟩ := hfilters accepting (readsOnly chunk)
  obtain ⟨foundFull, rfl, hfoundFull⟩ := scanmem_of_scanChunks hfull
  obtain ⟨foundFast, hstored, hfoundFast⟩ := scanmem_of_scanChunks hfast
  obtain ⟨visited, hvisited, hfastEq⟩ :=
    Option.map_eq_some_iff.mp (hfoundFast chunk hchunk)
  obtain ⟨all, hall, hfullEq⟩ :=
    Option.map_eq_some_iff.mp (hfoundFull chunk hchunk)
  change positions fast.stepsize (lastOffset parameters (readsOnly chunk)
    chunk) fast.firstoffset = some visited at hvisited
  change positions 1 (lastOffset parameters (readsOnly chunk) chunk) 0 =
    some all at hall
  rw [lastOffset_readsOnly] at hvisited hall
  have hsteps := positions_steps hvisited
  have hstepsAll := positions_steps hall
  have hnonneg : ∀ q ∈ visited, 0 ≤ q := by
    intro q hq
    obtain ⟨hge, hle, -⟩ := (hsteps.mem_iff q).mp hq
    have hstep : 0 < fast.stepsize := by
      by_contra hnot
      rw [positions_eq_none (hge.trans hle) (not_lt.mp hnot)] at hvisited
      cases hvisited
    exact (FastScan.firstoffset_nonneg hstep).trans hge
  have hnonnegAll : ∀ q ∈ all, 0 ≤ q :=
    fun q hq => ((hstepsAll.mem_iff q).mp hq).1
  refine ⟨visited, hvisited, fun p => ?_⟩
  have hboth : chunk.base + p ∈ foundFast chunk ↔
      chunk.base + p ∈ foundFull chunk ∧
        fast.selected (chunk.base + p) = true := by
    rw [← mem_flatMap_readsOnly hchunk hfoundFast, ← hstored,
      mem_filter, mem_flatMap_readsOnly hchunk hfoundFull]
  rw [← hfastEq, ← hfullEq] at hboth
  rw [← mem_storedAt hnonneg p]
  refine hboth.trans (and_congr_left fun _ =>
    (mem_storedAt hnonnegAll p).trans ?_)
  rw [hstepsAll.mem_iff]
  simp only [Int.natCast_nonneg, true_and, one_dvd, and_true]

theorem regular_of_mem_iff
    (hvisited : positions fast.stepsize (room parameters chunk)
      fast.firstoffset = some visited) (hmem : ∀ p : ℕ, (p : ℤ) ∈ visited ↔
      (p : ℤ) ≤ room parameters chunk ∧
        fast.selected (chunk.base + p) = true) :
    Regular parameters fast chunk := by
  have hsteps := positions_steps hvisited
  rcases lt_or_ge (room parameters chunk) fast.firstoffset with hlt | hfirst
  · right
    refine ⟨hlt, fun p hp => ?_⟩
    by_contra hselected
    have hin := (hmem p).mpr ⟨hp, by simpa using hselected⟩
    obtain ⟨hge, hle, -⟩ := (hsteps.mem_iff p).mp hin
    omega
  · left
    have hstep : 0 < fast.stepsize := by
      by_contra hnot
      rw [positions_eq_none hfirst (not_lt.mp hnot)] at hvisited
      cases hvisited
    have hnonneg := FastScan.firstoffset_nonneg hstep
    have husable : fast.Usable := by
      by_contra hnot
      rcases FastScan.not_usable hnot with hle | ⟨-, hone, hmodulus⟩
      · omega
      · have hselected : fast.selected (chunk.base + 0) = true := by
          have hresidue := fast.residue_lt
          rw [FastScan.selected, decide_eq_true_eq, hmodulus, Nat.mod_one]
          omega
        have hzero := (hmem 0).mpr ⟨by omega, hselected⟩
        have hge := ((hsteps.mem_iff _).mp hzero).1
        rw [hone] at hge
        omega
    refine ⟨husable, ?_⟩
    have hfirstIn : ((fast.residue : ℕ) : ℤ) ∈ visited := by
      rw [hsteps.mem_iff, ← husable.firstoffset_eq, sub_self]
      exact ⟨le_rfl, hfirst, dvd_zero _⟩
    have hselected := of_decide_eq_true ((hmem _).mp hfirstIn).2
    have hmodEq : chunk.base + fast.residue ≡ 0 + fast.residue
        [MOD fast.modulus] := by
      rw [Nat.ModEq, Nat.zero_add, Nat.mod_eq_of_lt fast.residue_lt]
      exact hselected
    exact (Nat.modEq_zero_iff_dvd).mp (hmodEq.add_right_cancel' _)

theorem regular_of_filters
    (hfilters : Filters parameters fast withPrevious list) :
    ∀ chunk ∈ list, Regular parameters fast chunk := by
  intro chunk hchunk
  obtain ⟨visited, hvisited, hmem⟩ := positions_of_filters hchunk hfilters
  exact regular_of_mem_iff hvisited hmem

end

theorem filters_iff_regular (parameters : ScanParameters) (fast : FastScan)
    (withPrevious : Bool) (list : List Chunk) :
    Filters parameters fast withPrevious list ↔
      ∀ chunk ∈ list, Regular parameters fast chunk :=
  ⟨regular_of_filters, filters_of_regular⟩

section

variable (parameters : ScanParameters) (fast : FastScan) (map : MemoryMap)
  (beyond : MemoryRegion) (threadcount : ℕ)

/-- The fast scan reports the selected addresses of the full scan, in a first
scan and in a first next scan. -/
def FastScanFilters : Prop :=
  (∀ checkroutine target, ∃ stored,
    firstscan parameters fast.full checkroutine target map threadcount =
        some stored ∧
      firstscan parameters fast checkroutine target map threadcount =
        some (stored.filter fast.selected)) ∧
  ∀ checkroutine target, ∃ stored,
    firstnextscan parameters fast.full checkroutine target map beyond
        threadcount = some stored ∧
      firstnextscan parameters fast checkroutine target map beyond
        threadcount = some (stored.filter fast.selected)

def allFirstscanChunks : List Chunk :=
  let work := firstScanWork map threadcount
  (work.split threadcount).flatMap (firstscanChunks parameters work)

def allFirstnextscanChunks : List Chunk :=
  let work := firstNextScanWork map beyond threadcount
  (work.split threadcount).flatMap (firstnextscanChunks parameters work)

/-- Fast scans are filters exactly when all buffers that are gone through are
regular. -/
theorem fastScanFilters_iff :
    FastScanFilters parameters fast map beyond threadcount ↔
      (∀ chunk ∈ allFirstscanChunks parameters map threadcount,
        Regular parameters fast chunk) ∧
      ∀ chunk ∈ allFirstnextscanChunks parameters map beyond threadcount,
        Regular parameters fast chunk :=
  and_congr (filters_iff_regular ..) (filters_iff_regular ..)

end

def lastFourDigits : FastScan where
  fastscanmethod := .fsmLastDigits
  fastscanparameter := [1, 2, 3, 4]
  typesize := 4
  parameter_lt := by decide
  typesize_pos := by decide
  typesize_lt := by decide

def fourBytes : ScanParameters where
  buffersize := 524288
  variablesize := 4
  buffersize_pos := by decide
  variablesize_pos := by decide
  variablesize_lt := by decide

def twoPages : MemoryMap where
  memregion := [⟨0x401000, 0x2000⟩]
  stopaddress := 0x7fffffffffff
  ordered := pairwise_singleton _ _
  stop_le := by decide
  stopaddress_lt := userEnd_lt

theorem twoPages_mem : (⟨0, 0x401000, 0x2000, 0x2000⟩ : Chunk) ∈
    allFirstscanChunks fourBytes twoPages 1 := by
  have htoread : firstscanToread ⟨0, 0, 0x401000, 0x7fffffffffff⟩ 0
      ⟨0x401000, 0x2000⟩ = 0x2000 := by decide
  have hchunks : chunks fourBytes 0 0x2000 0x401000 =
      [⟨0, 0x401000, 0x2000, 0x2000⟩] := by
    rw [chunks, if_neg (by decide)]
  have hscanner : (⟨0, 0, 0x401000, 0x7fffffffffff⟩ : Scanner) ∈
      (firstScanWork twoPages 1).split 1 := by decide
  refine mem_flatMap.mpr ⟨_, hscanner, ?_⟩
  refine mem_flatMap.mpr ⟨0, by decide, ?_⟩
  change _ ∈ chunks fourBytes 0 (firstscanToread
    ⟨0, 0, 0x401000, 0x7fffffffffff⟩ 0 ⟨0x401000, 0x2000⟩) 0x401000
  rw [htoread, hchunks]
  exact mem_singleton_self _

theorem not_fastScanFilters :
    ¬ FastScanFilters fourBytes lastFourDigits twoPages ⟨0, 0⟩ 1 := by
  intro hfilters
  rcases regular_of_filters hfilters.1 _ twoPages_mem with
    ⟨-, hbase⟩ | ⟨hroom, -⟩
  · exact absurd hbase (by decide)
  · exact absurd hroom (by decide)

end MemScan
end CheatEngine
