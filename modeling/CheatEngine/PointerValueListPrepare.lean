import CheatEngine.PointerValueListExact
import CheatEngine.PointerValueListRegions
import Mathlib.Data.List.Fold

/-!
# The regions of the reverse pointer map

From the answers of `VirtualQueryEx` to the array that the passes go over: the
chunks are sorted and apart, fit the buffer, and cover the bytes of the
eligible regions in the range, ends included.
-/

namespace CheatEngine.PointerValueList

open List

def MemoryBasicInformation.upper (mbi : MemoryBasicInformation) : ℕ :=
  mbi.baseAddress.toNat + mbi.regionSize.toNat

/-- Each answer holds the address that was asked for and begins behind the one
before it, and none reaches the end of the address space. -/
def Answers : ℕ → UInt64 → List MemoryBasicInformation → Prop
  | _, _, [] => True
  | lowest, address, mbi :: rest =>
    lowest ≤ mbi.baseAddress.toNat ∧
      mbi.baseAddress.toNat ≤ address.toNat ∧
      address.toNat < mbi.upper ∧
      address.toNat + mbi.regionSize.toNat < 2 ^ 64 ∧
      Answers mbi.upper (mbi.baseAddress + mbi.regionSize) rest

structure AscendingAnswers (start : UInt64)
    (queried : List MemoryBasicInformation) : Prop where
  nonempty : ∀ mbi ∈ queried, 0 < mbi.regionSize.toNat
  behind : ∀ mbi ∈ queried, start.toNat < mbi.upper ∧ mbi.upper < 2 ^ 64
  apart : queried.Pairwise fun first second =>
    first.upper ≤ second.baseAddress.toNat

section

variable {lowest : ℕ} {address : UInt64} {mbi : MemoryBasicInformation}
  {queried rest : List MemoryBasicInformation}

theorem Answers.toNat_next (hanswers : Answers lowest address (mbi :: rest)) :
    (mbi.baseAddress + mbi.regionSize).toNat = mbi.upper := by
  obtain ⟨-, hbase, -, htop, -⟩ := hanswers
  rw [UInt64.toNat_add, MemoryBasicInformation.upper,
    Nat.mod_eq_of_lt (by omega)]

theorem Answers.lowest_le (hanswers : Answers lowest address queried) :
    ∀ mbi ∈ queried, lowest ≤ mbi.baseAddress.toNat := by
  induction queried generalizing lowest address with
  | nil => simp
  | cons mbi rest ih =>
    obtain ⟨hlowest, -, -, -, hrest⟩ := hanswers
    refine forall_mem_cons.mpr ⟨hlowest, fun later hlater => ?_⟩
    have hupper : mbi.baseAddress.toNat ≤ mbi.upper := Nat.le_add_right _ _
    exact (hlowest.trans hupper).trans (ih hrest later hlater)

theorem Answers.ascending (hanswers : Answers lowest address queried) :
    AscendingAnswers address queried := by
  induction queried generalizing lowest address with
  | nil => exact ⟨by simp, by simp, .nil⟩
  | cons mbi rest ih =>
    have hnext := hanswers.toNat_next
    obtain ⟨-, hbase, hhere, htop, hrest⟩ := hanswers
    obtain ⟨hnonempty, hbehind, hapart⟩ := ih hrest
    rw [hnext] at hbehind
    have hsize : 0 < mbi.regionSize.toNat := by
      rw [MemoryBasicInformation.upper] at hhere
      omega
    refine ⟨forall_mem_cons.mpr ⟨hsize, hnonempty⟩, ?_, ?_⟩
    · refine forall_mem_cons.mpr ⟨⟨hhere, ?_⟩, fun later hlater => ?_⟩
      · rw [MemoryBasicInformation.upper]
        omega
      · obtain ⟨hlow, hhigh⟩ := hbehind later hlater
        exact ⟨by omega, hhigh⟩
    · exact pairwise_cons.mpr ⟨hrest.lowest_le, hapart⟩

theorem AscendingAnswers.sublist
    (hascending : AscendingAnswers address queried)
    (hsublist : rest.Sublist queried) : AscendingAnswers address rest where
  nonempty := fun mbi hmbi => hascending.nonempty mbi (hsublist.subset hmbi)
  behind := fun mbi hmbi => hascending.behind mbi (hsublist.subset hmbi)
  apart := hascending.apart.sublist hsublist

end

/-! ## The eligible regions -/

def isEligible (target : Target) (settings : Settings)
    (mbi : MemoryBasicInformation) : Bool :=
  isScanned target settings mbi && decide (settings.start < settings.stop) &&
    decide (mbi.baseAddress < settings.stop)

def eligible (target : Target) (settings : Settings) :
    List MemoryBasicInformation :=
  target.queried.filter (isEligible target settings)

/-- The bytes of the answer in the range, whose ends both belong to it. -/
def MemoryBasicInformation.HoldsInRange (settings : Settings)
    (mbi : MemoryBasicInformation) (address : UInt64) : Prop :=
  mbi.baseAddress.toNat ≤ address.toNat ∧ address.toNat < mbi.upper ∧
    settings.start ≤ address ∧ address ≤ settings.stop

def sizeInRange (settings : Settings) (mbi : MemoryBasicInformation) : ℕ :=
  min mbi.upper (settings.stop.toNat + 1) -
    max settings.start.toNat mbi.baseAddress.toNat

def JoinsTo (target : Target) (settings : Settings)
    (first second : MemoryBasicInformation) : Prop :=
  second.baseAddress.toNat = first.upper ∧
    isValidPointerRange settings second = isValidPointerRange settings first ∧
    (settings.mustbeclasspointers = false ∨
      target.inModule second.baseAddress = target.inModule first.baseAddress)

instance (target : Target) (settings : Settings) :
    DecidableRel (JoinsTo target settings) :=
  fun _ _ => inferInstanceAs (Decidable (_ ∧ _ ∧ _))

def regionOf (target : Target) (settings : Settings)
    (mbi : MemoryBasicInformation) : MemoryRegion where
  baseAddress := mbi.baseAddress
  memorySize := mbi.regionSize.toUInt32
  inModule := target.inModule mbi.baseAddress
  validPointerRange := isValidPointerRange settings mbi

def clippedRegion (target : Target) (settings : Settings)
    (mbi : MemoryBasicInformation) : MemoryRegion :=
  cutAbove settings.stop (cutBelow settings.start
    (regionOf target settings mbi))

section

variable {target : Target} {settings : Settings}

theorem queryRegions_eq_map {lowest : ℕ} {address : UInt64}
    {queried : List MemoryBasicInformation}
    (hanswers : Answers lowest address queried)
    (hstart : settings.start ≤ address) (hstop : settings.stop ≤ address →
      settings.stop ≤ settings.start ∨ settings.stop.toNat ≤ lowest) :
    queryRegions target settings address queried =
      (queried.filter (isEligible target settings)).map
        (regionOf target settings) := by
  induction queried generalizing lowest address with
  | nil => rfl
  | cons mbi rest ih =>
    have hlowest := hanswers.lowest_le
    have hnext := hanswers.toNat_next
    obtain ⟨-, hbase, hhere, htop, hrest⟩ := hanswers
    by_cases hopen : address < settings.stop
    · have hgrows : address + mbi.regionSize > address := by
        rw [MemoryBasicInformation.upper] at hhere
        rw [gt_iff_lt, UInt64.lt_iff_toNat_lt, UInt64.toNat_add,
          Nat.mod_eq_of_lt htop]
        omega
      have hrange : settings.start < settings.stop :=
        UInt64.lt_of_le_of_lt hstart hopen
      have hbelow : mbi.baseAddress < settings.stop :=
        UInt64.lt_of_le_of_lt (UInt64.le_iff_toNat_le.mpr hbase) hopen
      have hlater := ih hrest
        (by
          rw [UInt64.le_iff_toNat_le] at hstart ⊢
          omega)
        (fun hle => Or.inr (by
          rw [UInt64.le_iff_toNat_le] at hle
          omega))
      rw [queryRegions, if_pos ⟨hopen, hgrows⟩, hlater, filter_cons,
        isEligible]
      simp only [hrange, hbelow, decide_true, Bool.and_true]
      split <;> rfl
    · rw [queryRegions, if_neg fun hboth => hopen hboth.1]
      rw [UInt64.not_lt] at hopen
      have hnone : (mbi :: rest).filter (isEligible target settings) = [] := by
        rw [filter_eq_nil_iff]
        intro other hother heligible
        simp only [isEligible, Bool.and_eq_true, decide_eq_true_eq,
          UInt64.lt_iff_toNat_lt] at heligible
        have hlow := hlowest other hother
        rcases hstop hopen with hempty | habove
        · rw [UInt64.le_iff_toNat_le] at hempty
          omega
        · omega
      rw [hnone, map_nil]

structure Collected (settings : Settings)
    (answers : List MemoryBasicInformation) : Prop where
  ascending : AscendingAnswers settings.start answers
  inRange : ∀ mbi ∈ answers, settings.start < settings.stop ∧
    mbi.baseAddress < settings.stop
  small : ∀ mbi ∈ answers, mbi.regionSize.toNat < 2 ^ 32

section

variable {answers : List MemoryBasicInformation} {mbi : MemoryBasicInformation}

theorem Collected.regionOf_upper (hcollected : Collected settings answers)
    (hmbi : mbi ∈ answers) :
    (regionOf target settings mbi).upper = mbi.upper := by
  rw [MemoryRegion.upper, regionOf,
    toNat_toUInt32_of_lt (hcollected.small mbi hmbi)]
  rfl

theorem Collected.cutBelow_upper (hcollected : Collected settings answers)
    (hmbi : mbi ∈ answers) :
    (cutBelow settings.start (regionOf target settings mbi)).upper =
      mbi.upper := by
  have hupper := @Collected.regionOf_upper target _ _ _ hcollected hmbi
  have hbehind := (hcollected.ascending.behind mbi hmbi).1
  rw [PointerValueList.cutBelow_upper (by rw [hupper]; exact hbehind), hupper]

theorem regionOf_cutBelow_base :
    (cutBelow settings.start (regionOf target settings mbi)).baseAddress.toNat =
      max settings.start.toNat mbi.baseAddress.toNat :=
  cutBelow_baseAddress _ _

theorem Collected.cutBelow_fits (hcollected : Collected settings answers)
    (hmbi : mbi ∈ answers) :
    (cutBelow settings.start (regionOf target settings mbi)).Fits := by
  have hupper := @Collected.cutBelow_upper target _ _ _ hcollected hmbi
  have hbase := @regionOf_cutBelow_base target settings mbi
  have hnonempty := hcollected.ascending.nonempty mbi hmbi
  obtain ⟨hbehind, htop⟩ := hcollected.ascending.behind mbi hmbi
  constructor
  · rw [MemoryRegion.upper, hbase] at hupper
    rw [MemoryBasicInformation.upper] at hupper hbehind
    omega
  · rw [hupper]
    exact htop

theorem Collected.clippedRegion_base :
    (clippedRegion target settings mbi).baseAddress.toNat =
      max settings.start.toNat mbi.baseAddress.toNat := by
  rw [clippedRegion, (cutAbove_flags _ _).2.2, regionOf_cutBelow_base]

theorem Collected.clippedRegion_upper (hcollected : Collected settings answers)
    (hmbi : mbi ∈ answers) :
    (clippedRegion target settings mbi).upper =
      min mbi.upper (settings.stop.toNat + 1) := by
  have hfits := @Collected.cutBelow_fits target _ _ _ hcollected hmbi
  obtain ⟨hrange, hbelow⟩ := hcollected.inRange mbi hmbi
  rw [UInt64.lt_iff_toNat_lt] at hrange hbelow
  rw [clippedRegion, cutAbove_upper hfits, hcollected.cutBelow_upper hmbi]
  rw [regionOf_cutBelow_base]
  omega

theorem clippedRegion_validPointerRange :
    (clippedRegion target settings mbi).validPointerRange =
      isValidPointerRange settings mbi := by
  rw [clippedRegion, (cutAbove_flags _ _).1, (cutBelow_flags _ _).1]
  rfl

theorem clippedRegion_inModule :
    (clippedRegion target settings mbi).inModule =
      target.inModule mbi.baseAddress := by
  rw [clippedRegion, (cutAbove_flags _ _).2.1, (cutBelow_flags _ _).2]
  rfl

section

variable (hcollected : Collected settings answers) (hmbi : mbi ∈ answers)

include hcollected hmbi

theorem Collected.clippedRegion_size :
    (clippedRegion target settings mbi).memorySize.toNat =
      sizeInRange settings mbi := by
  have hupper := @Collected.clippedRegion_upper target _ _ _ hcollected hmbi
  rw [MemoryRegion.upper, Collected.clippedRegion_base] at hupper
  rw [sizeInRange]
  omega

theorem Collected.clippedRegion_fits :
    (clippedRegion target settings mbi).Fits := by
  have hnonempty := hcollected.ascending.nonempty mbi hmbi
  obtain ⟨hbehind, htop⟩ := hcollected.ascending.behind mbi hmbi
  obtain ⟨hrange, hbelow⟩ := hcollected.inRange mbi hmbi
  rw [UInt64.lt_iff_toNat_lt] at hrange hbelow
  constructor
  · rw [hcollected.clippedRegion_size hmbi, sizeInRange]
    rw [MemoryBasicInformation.upper] at hbehind ⊢
    omega
  · rw [hcollected.clippedRegion_upper hmbi]
    omega

theorem Collected.clippedRegion_holds_iff (address : UInt64) :
    (clippedRegion target settings mbi).Holds address ↔
      mbi.HoldsInRange settings address := by
  rw [MemoryRegion.Holds, hcollected.clippedRegion_upper hmbi,
    Collected.clippedRegion_base, MemoryBasicInformation.HoldsInRange,
    UInt64.le_iff_toNat_le, UInt64.le_iff_toNat_le]
  omega

end

theorem Collected.clipped_ascend (hcollected : Collected settings answers) :
    Ascend (answers.map (clippedRegion target settings)) where
  fits := by
    intro region hregion
    obtain ⟨mbi, hmbi, rfl⟩ := mem_map.mp hregion
    exact hcollected.clippedRegion_fits hmbi
  apart := by
    rw [pairwise_map]
    refine hcollected.ascending.apart.imp_of_mem fun hfirst hsecond hle => ?_
    rw [hcollected.clippedRegion_upper hfirst, Collected.clippedRegion_base]
    omega

theorem Collected.clipped_covers (hcollected : Collected settings answers)
    (address : UInt64) (valid : Bool) :
    Covers (answers.map (clippedRegion target settings)) address valid ↔
      ∃ mbi ∈ answers, mbi.HoldsInRange settings address ∧
        isValidPointerRange settings mbi = valid := by
  constructor
  · rintro ⟨region, hregion, hholds, hvalid⟩
    obtain ⟨mbi, hmbi, rfl⟩ := mem_map.mp hregion
    rw [hcollected.clippedRegion_holds_iff hmbi] at hholds
    rw [clippedRegion_validPointerRange] at hvalid
    exact ⟨mbi, hmbi, hholds, hvalid⟩
  · rintro ⟨mbi, hmbi, hholds, hvalid⟩
    refine ⟨_, mem_map_of_mem hmbi, ?_, ?_⟩
    · exact (hcollected.clippedRegion_holds_iff hmbi address).mpr hholds
    · rw [clippedRegion_validPointerRange, hvalid]

section

variable (hcollected : Collected settings answers)

include hcollected

theorem Collected.clipped_joins_iff {first second : MemoryBasicInformation}
    (hfirst : first ∈ answers) (hsecond : second ∈ answers) :
    (clippedRegion target settings first).Joins
        settings.mustbeclasspointers
        (clippedRegion target settings second) ↔
      JoinsTo target settings first second := by
  have hbehind := (hcollected.ascending.behind first hfirst).1
  obtain ⟨hrange, hbelow⟩ := hcollected.inRange second hsecond
  rw [UInt64.lt_iff_toNat_lt] at hrange hbelow
  have hends : max settings.start.toNat second.baseAddress.toNat =
        min first.upper (settings.stop.toNat + 1) ↔
      second.baseAddress.toNat = first.upper := by
    omega
  rw [MemoryRegion.Joins, JoinsTo, hcollected.clippedRegion_upper hfirst,
    Collected.clippedRegion_base, hends]
  simp only [clippedRegion_validPointerRange, clippedRegion_inModule]

theorem Collected.clipped_short
    (hshort : RunsShort (sizeInRange settings) (JoinsTo target settings)
      (2 ^ 32) answers) :
    ShortRuns settings.mustbeclasspointers
      (answers.map (clippedRegion target settings)) :=
  hshort.map (fun _ hmbi => hcollected.clippedRegion_size hmbi)
    fun _ hfirst _ hsecond => hcollected.clipped_joins_iff hfirst hsecond

theorem Collected.clip_eq_map :
    clipStop settings.stop (clipStart settings.start
        (answers.map (regionOf target settings))) =
      answers.map (clippedRegion target settings) := by
  have hcut : clipStart settings.start
        (answers.map (regionOf target settings)) =
      (answers.map (regionOf target settings)).map
        (cutBelow settings.start) := by
    apply clipStart_eq_map
    · intro region hregion
      obtain ⟨mbi, hmbi, rfl⟩ := mem_map.mp hregion
      rw [hcollected.regionOf_upper hmbi]
      exact (hcollected.ascending.behind mbi hmbi).1
    · intro region hregion
      rw [← map_tail] at hregion
      obtain ⟨mbi, hmbi, rfl⟩ := mem_map.mp hregion
      have hapart := hcollected.ascending.apart.rel_head_tail hmbi
      have hbehind := (hcollected.ascending.behind _
        (head_mem (ne_nil_of_mem (mem_of_mem_tail hmbi)))).1
      change ¬ mbi.baseAddress < settings.start
      rw [UInt64.lt_iff_toNat_lt]
      omega
  rw [hcut, clipStop_eq_map, map_map, map_map]
  · rfl
  · intro region hregion
    rw [map_map, ← map_dropLast] at hregion
    obtain ⟨mbi, hmbi, rfl⟩ := mem_map.mp hregion
    have hmem := mem_of_mem_dropLast hmbi
    have hapart := hcollected.ascending.apart.rel_dropLast_getLast hmbi
    have hbelow := (hcollected.inRange _
      (getLast_mem (ne_nil_of_mem hmem))).2
    have hfits := @Collected.cutBelow_fits target _ _ _ hcollected hmem
    rw [UInt64.lt_iff_toNat_lt] at hbelow
    rw [Function.comp_apply, gt_iff_lt, UInt64.lt_iff_toNat_lt,
      hfits.toNat_endAddress, hcollected.cutBelow_upper hmem]
    omega

end

end

end

/-! ## The array of chunks -/

def bufferSize (memoryregion : List MemoryRegion) : ℕ :=
  memoryregion.foldl (fun maxsize region =>
    max maxsize region.memorySize.toNat) 0

theorem size_le_bufferSize {memoryregion : List MemoryRegion}
    {region : MemoryRegion} (hregion : region ∈ memoryregion) :
    region.memorySize.toNat ≤ bufferSize memoryregion := by
  rw [bufferSize, ← foldl_map, foldl_eq_foldr]
  exact le_max_of_le' 0 (mem_map_of_mem hregion) le_rfl

theorem Covers.perm {first second : List MemoryRegion}
    (hperm : first.Perm second) (address : UInt64) (valid : Bool) :
    Covers first address valid ↔ Covers second address valid := by
  simp only [Covers, hperm.mem_iff]

variable {regions : List MemoryRegion}

theorem Splits.ascend {chunks sorted : List MemoryRegion}
    (hsplits : Splits regions chunks) (hperm : sorted.Perm chunks)
    (hsorted : sorted.Pairwise fun first second =>
      first.baseAddress ≤ second.baseAddress) :
    Ascend sorted where
  fits := fun region hregion =>
    hsplits.fits region (hperm.mem_iff.mp hregion)
  apart := by
    have hapart : sorted.Pairwise MemoryRegion.Apart :=
      (hperm.pairwise_iff MemoryRegion.Apart.symm).mpr hsplits.apart
    refine (hsorted.and hapart).imp_of_mem fun hfirst hsecond hboth => ?_
    obtain ⟨hle, hbelow | habove⟩ := hboth
    · exact hbelow
    · have hpositive :=
        (hsplits.fits _ (hperm.mem_iff.mp hsecond)).positive
      rw [UInt64.le_iff_toNat_le] at hle
      rw [MemoryRegion.upper] at habove
      omega

theorem Ascend.apart_symmetric (hascend : Ascend regions) :
    regions.Pairwise MemoryRegion.Apart :=
  hascend.apart.imp Or.inl

structure Prepares (memoryregion : List MemoryRegion)
    (held : UInt64 → Bool → Prop) : Prop where
  ascend : Ascend memoryregion
  small : ∀ region ∈ memoryregion, region.memorySize.toNat ≤ 512 * 1024
  covers : ∀ address valid,
    Covers memoryregion address valid ↔ held address valid

theorem prepares_nil {held : UInt64 → Bool → Prop}
    (hnone : ∀ address valid, ¬ held address valid) : Prepares [] held where
  ascend := ⟨by simp, .nil⟩
  small := by simp
  covers := fun address valid =>
    iff_of_false (fun ⟨_, hmem, _⟩ => not_mem_nil hmem)
      (hnone address valid)

theorem Splits.prepares {chunks sorted : List MemoryRegion}
    (hsplits : Splits regions chunks) (hperm : sorted.Perm chunks)
    (hsorted : sorted.Pairwise fun first second =>
      first.baseAddress ≤ second.baseAddress) :
    Prepares sorted (Covers regions) where
  ascend := hsplits.ascend hperm hsorted
  small := fun region hregion =>
    hsplits.small region (hperm.mem_iff.mp hregion)
  covers := fun address valid =>
    (Covers.perm hperm address valid).trans (hsplits.covers address valid)

section

variable {target : Target} {settings : Settings}

/-- What the system promises, and sizes that fit 32 bits. -/
structure Reported (target : Target) (settings : Settings) : Prop where
  answers : Answers 0 settings.start target.queried
  small : ∀ mbi ∈ eligible target settings, mbi.regionSize.toNat < 2 ^ 32
  short : RunsShort (sizeInRange settings) (JoinsTo target settings) (2 ^ 32)
    (eligible target settings)

theorem Reported.collected (hreported : Reported target settings) :
    Collected settings (eligible target settings) where
  ascending := hreported.answers.ascending.sublist filter_sublist
  inRange := by
    intro mbi hmbi
    have heligible := (mem_filter.mp hmbi).2
    simp only [isEligible, Bool.and_eq_true, decide_eq_true_eq] at heligible
    exact ⟨heligible.1.2, heligible.2⟩
  small := hreported.small

theorem Reported.clipped_eq (hreported : Reported target settings) :
    clipStop settings.stop (clipStart settings.start
        (queryRegions target settings settings.start target.queried)) =
      (eligible target settings).map (clippedRegion target settings) := by
  rw [queryRegions_eq_map hreported.answers (UInt64.le_refl _) Or.inl]
  exact hreported.collected.clip_eq_map

theorem memoryRegions_prepares (hreported : Reported target settings) :
    Prepares (memoryRegions target settings) fun address valid =>
      ∃ mbi ∈ eligible target settings, mbi.HoldsInRange settings address ∧
        isValidPointerRange settings mbi = valid := by
  have hcollected := hreported.collected
  have hcovers := @Collected.clipped_covers target _ _ hcollected
  have hascend := @Collected.clipped_ascend target _ _ hcollected
  have hshort := hcollected.clipped_short hreported.short
  rw [memoryRegions, hreported.clipped_eq]
  generalize (eligible target settings).map (clippedRegion target settings) =
    clipped at hcovers hascend hshort
  cases clipped with
  | nil =>
    refine prepares_nil fun address valid hheld => ?_
    obtain ⟨region, hmem, -⟩ := (hcovers address valid).mpr hheld
    exact not_mem_nil hmem
  | cons first rest =>
    obtain ⟨hcombined, -, hsame⟩ := combineRegions_spec hascend hshort
    have hsplits := splitRegions_splits le_rfl hcombined.fits
      hcombined.apart_symmetric
    obtain ⟨hperm, hsorted⟩ := quicksort_chunks (splitRegions
      (numberOfChunks (combineRegions settings.mustbeclasspointers first
        rest)) (combineRegions settings.mustbeclasspointers first rest))
    obtain ⟨hresult, hsmall, hchunks⟩ := hsplits.prepares hperm hsorted
    refine ⟨hresult, hsmall, fun address valid => ?_⟩
    exact (hchunks address valid).trans
      ((hsame address valid).trans (hcovers address valid))

theorem Ascend.holds_unique {memoryregion : List MemoryRegion}
    {address : UInt64} (hascend : Ascend memoryregion)
    {first second : MemoryRegion} (hfirst : first ∈ memoryregion)
    (hsecond : second ∈ memoryregion) (hholds : first.Holds address)
    (hother : second.Holds address) : first = second := by
  have hsymm : Std.Symm MemoryRegion.Apart :=
    ⟨fun _ _ hapart => hapart.symm⟩
  by_contra hdiffers
  have hapart := hascend.apart_symmetric.forall hfirst hsecond hdiffers
  obtain ⟨hlow, hhigh⟩ := hholds
  obtain ⟨hlowOther, hhighOther⟩ := hother
  rcases hapart with hbelow | habove
  · omega
  · omega

theorem Ascend.ispointer_iff {memoryregion : List MemoryRegion}
    (hascend : Ascend memoryregion) (settings : Settings) (address : UInt64) :
    ispointer settings memoryregion address = true ↔
      Covers memoryregion address true ∧
        isScannablePage settings address = true := by
  have hfinds := binSearchMemRegions_finds hascend address
  rw [ispointer]
  cases hfound : binSearchMemRegions memoryregion address with
  | none =>
    rw [hfound] at hfinds
    refine iff_of_false Bool.false_ne_true ?_
    rintro ⟨⟨region, hregion, hholds, -⟩, -⟩
    exact hfinds region hregion hholds
  | some region =>
    rw [hfound] at hfinds
    obtain ⟨hregion, hholds⟩ := hfinds
    rw [Bool.and_eq_true]
    refine and_congr_left fun _ => ⟨fun hvalid => ?_, ?_⟩
    · exact ⟨region, hregion, hholds, hvalid⟩
    · rintro ⟨other, hother, hotherHolds, hvalid⟩
      rw [hascend.holds_unique hregion hother hholds hotherHolds]
      exact hvalid

/-- The array of chunks and what is looked up in it. -/
theorem memoryRegions_exact (hreported : Reported target settings) :
    Ascend (memoryRegions target settings) ∧
      (∀ region ∈ memoryRegions target settings,
        region.memorySize.toNat ≤ 512 * 1024 ∧
          region.memorySize.toNat ≤
            bufferSize (memoryRegions target settings)) ∧
      (∀ address valid,
        Covers (memoryRegions target settings) address valid ↔
          ∃ mbi ∈ eligible target settings,
            mbi.HoldsInRange settings address ∧
              isValidPointerRange settings mbi = valid) ∧
      ∀ address,
        FindsRegion (memoryRegions target settings) address
            (binSearchMemRegions (memoryRegions target settings) address) ∧
          (ispointer settings (memoryRegions target settings) address = true ↔
            Covers (memoryRegions target settings) address true ∧
              isScannablePage settings address = true) := by
  obtain ⟨hascend, hsmall, hcovers⟩ := memoryRegions_prepares hreported
  refine ⟨hascend, fun region hregion => ?_, hcovers, fun address => ?_⟩
  · exact ⟨hsmall region hregion, size_le_bufferSize hregion⟩
  · exact ⟨binSearchMemRegions_finds hascend address,
      hascend.ispointer_iff settings address⟩

end

def committedRegion (baseAddress regionSize : UInt64) :
    MemoryBasicInformation where
  baseAddress := baseAddress
  allocationProtect := 4
  regionSize := regionSize
  state := memCommit
  protect := 4
  type := memPrivate

/-- The range begins within the first of two adjacent regions, which are longer
than a chunk together, and ends within the last; the third is inaccessible. -/
def severalRegions : Target :=
  { twoWords with
    queried := [committedRegion 0xf00 0x1100,
      committedRegion 0x2000 0x90000,
      { committedRegion 0x92000 0x1000 with protect := pageNoaccess },
      committedRegion 0x93000 0x2000] }

def wideScan : Settings :=
  { alignedScan with stop := 0x947ff }

theorem reported_severalRegions : Reported severalRegions wideScan where
  answers := by
    simp [Answers, severalRegions, wideScan, alignedScan, committedRegion,
      MemoryBasicInformation.upper]
  small := by decide
  short := by
    have heligible : eligible severalRegions wideScan =
        [committedRegion 0xf00 0x1100, committedRegion 0x2000 0x90000,
          committedRegion 0x93000 0x2000] := by
      decide
    rw [heligible]
    exact ⟨by decide, by decide, by decide, trivial⟩

theorem memoryRegions_exact_severalRegions :
    Ascend (memoryRegions severalRegions wideScan) ∧
      Covers (memoryRegions severalRegions wideScan) 0x85000 true ∧
      ¬ Covers (memoryRegions severalRegions wideScan) 0x92800 true := by
  obtain ⟨hascend, -, hcovers, -⟩ :=
    memoryRegions_exact reported_severalRegions
  refine ⟨hascend, (hcovers 0x85000 true).mpr ?_, ?_⟩
  · exact ⟨committedRegion 0x2000 0x90000, by decide,
      ⟨by decide, by decide, by decide, by decide⟩, by decide⟩
  · rw [hcovers]
    rintro ⟨mbi, hmbi, ⟨hlow, hhigh, -⟩, -⟩
    have hinside : ∀ mbi ∈ eligible severalRegions wideScan,
        mbi.upper ≤ 0x92800 ∨ 0x92800 < mbi.baseAddress.toNat := by
      decide
    rcases hinside mbi hmbi with hbelow | habove
    · exact absurd hhigh (Nat.not_lt.mpr hbelow)
    · exact absurd hlow (Nat.not_le.mpr habove)

def readonlyWords : Target :=
  { twoWords with
    queried := [{ baseAddress := 0x1000
                  allocationProtect := 4
                  regionSize := 8
                  state := memCommit
                  protect := pageReadonly
                  type := memPrivate }] }

theorem readonly_chunk_holds_no_pointer :
    (∃ region ∈ memoryRegions readonlyWords
        { alignedScan with noreadonly := true }, region.Holds 0x1004) ∧
      ispointer { alignedScan with noreadonly := true }
        (memoryRegions readonlyWords { alignedScan with noreadonly := true })
        0x1004 = false := by
  have hregions : memoryRegions readonlyWords
      { alignedScan with noreadonly := true } =
        [{ twoWordsRegion with validPointerRange := false }] := by
    decide
  rw [hregions]
  exact ⟨⟨_, mem_singleton_self _, by decide, by decide⟩, by decide⟩

end CheatEngine.PointerValueList
