import CheatEngine.PointerValueListSort

/-!
# Preparing the memory regions

The region array of the constructor, followed from the answers of
`VirtualQueryEx` to the sorted chunks: what is clipped, joined and split
covers the same bytes, and the binary search finds an address in the chunk
that holds it.
-/

namespace CheatEngine.PointerValueList

open List

def MemoryRegion.upper (region : MemoryRegion) : ℕ :=
  region.baseAddress.toNat + region.memorySize.toNat

structure MemoryRegion.Fits (region : MemoryRegion) : Prop where
  positive : 0 < region.memorySize.toNat
  upper_lt : region.upper < 2 ^ 64

def MemoryRegion.Holds (region : MemoryRegion) (address : UInt64) : Prop :=
  region.baseAddress.toNat ≤ address.toNat ∧ address.toNat < region.upper

def Covers (regions : List MemoryRegion) (address : UInt64) (valid : Bool) :
    Prop :=
  ∃ region ∈ regions, region.Holds address ∧
    region.validPointerRange = valid

structure Ascend (regions : List MemoryRegion) : Prop where
  fits : ∀ region ∈ regions, region.Fits
  apart : regions.Pairwise fun first second =>
    first.upper ≤ second.baseAddress.toNat

variable {region : MemoryRegion}

theorem Ascend.tail {rest : List MemoryRegion}
    (hascend : Ascend (region :: rest)) : Ascend rest where
  fits := fun other hother =>
    hascend.fits other (mem_cons_of_mem _ hother)
  apart := (pairwise_cons.mp hascend.apart).2

theorem Ascend.cons {region : MemoryRegion} {rest : List MemoryRegion}
    (hrest : Ascend rest) (hfits : region.Fits)
    (hbelow : ∀ other ∈ rest, region.upper ≤ other.baseAddress.toNat) :
    Ascend (region :: rest) where
  fits := by
    intro other hother
    rcases mem_cons.mp hother with rfl | hmem
    · exact hfits
    · exact hrest.fits other hmem
  apart := pairwise_cons.mpr ⟨hbelow, hrest.apart⟩

theorem covers_cons {rest : List MemoryRegion} {address : UInt64}
    {valid : Bool} :
    Covers (region :: rest) address valid ↔
      (region.Holds address ∧ region.validPointerRange = valid) ∨
        Covers rest address valid := by
  simp [Covers]

theorem MemoryRegion.Fits.toNat_endAddress (hfits : region.Fits) :
    region.endAddress.toNat = region.upper := by
  have hlt := hfits.upper_lt
  rw [MemoryRegion.upper] at hlt ⊢
  rw [MemoryRegion.endAddress, UInt64.toNat_add, UInt32.toNat_toUInt64,
    Nat.mod_eq_of_lt hlt]

theorem holds_iff (hfits : region.Fits) (address : UInt64) :
    address ≥ region.baseAddress ∧ address < region.endAddress ↔
      region.Holds address := by
  rw [ge_iff_le, UInt64.le_iff_toNat_le, UInt64.lt_iff_toNat_lt,
    hfits.toNat_endAddress, MemoryRegion.Holds]

def FindsRegion (memoryregion : List MemoryRegion) (address : UInt64)
    (found : Option MemoryRegion) : Prop :=
  match found with
  | some region => region ∈ memoryregion ∧ region.Holds address
  | none => ∀ region ∈ memoryregion, ¬ region.Holds address

section

variable {memoryregion : List MemoryRegion} {address : UInt64}

theorem Ascend.holds_before (hascend : Ascend memoryregion) {k pivot : ℕ}
    (hk : k < memoryregion.length) (hpivot : pivot < memoryregion.length)
    (hholds : memoryregion[k].Holds address)
    (hgreater : memoryregion[pivot].baseAddress > address) : k < pivot := by
  rw [gt_iff_lt, UInt64.lt_iff_toNat_lt] at hgreater
  by_contra hge
  rcases Nat.lt_or_eq_of_le (Nat.le_of_not_lt hge) with hless | rfl
  · have hapart := pairwise_iff_getElem.mp hascend.apart pivot k hpivot hk
      hless
    have hlow := hholds.1
    rw [MemoryRegion.upper] at hapart
    omega
  · exact absurd hholds.1 (by omega)

theorem Ascend.holds_behind (hascend : Ascend memoryregion) {k pivot : ℕ}
    (hk : k < memoryregion.length) (hpivot : pivot < memoryregion.length)
    (hholds : memoryregion[k].Holds address)
    (hle : ¬ memoryregion[pivot].baseAddress > address)
    (hnot : ¬ memoryregion[pivot].Holds address) : pivot < k := by
  rw [gt_iff_lt, UInt64.lt_iff_toNat_lt, Nat.not_lt] at hle
  by_contra hge
  rcases Nat.lt_or_eq_of_le (Nat.le_of_not_lt hge) with hless | rfl
  · have hapart := pairwise_iff_getElem.mp hascend.apart k pivot hk hpivot
      hless
    have hhigh := hholds.2
    omega
  · exact hnot hholds

def Selected (memoryregion : List MemoryRegion) (address : UInt64)
    (first last : ℤ) : Prop :=
  ∀ (k : ℕ) (hk : k < memoryregion.length),
    memoryregion[k].Holds address → first ≤ k ∧ k ≤ last

theorem Selected.none_holds {first last : ℤ} (hcross : last < first)
    (hselected : Selected memoryregion address first last) :
    ∀ region ∈ memoryregion, ¬ region.Holds address := by
  intro region hregion hholds
  obtain ⟨k, hk, rfl⟩ := getElem_of_mem hregion
  have hbounds := hselected k hk hholds
  omega

theorem binSearchLoop_finds (hascend : Ascend memoryregion) {turns : ℕ}
    {first last : ℤ} (hfirst : 0 ≤ first) (hlast : last < memoryregion.length)
    (hturns : last - first < turns)
    (hselected : Selected memoryregion address first last) :
    FindsRegion memoryregion address
      (binSearchLoop memoryregion address turns first last) := by
  induction turns generalizing first last with
  | zero =>
    rw [Nat.cast_zero] at hturns
    exact hselected.none_holds (by omega)
  | succ turns ih =>
    rw [Nat.cast_succ] at hturns
    rw [binSearchLoop]
    by_cases hopen : first ≤ last
    · rw [if_pos hopen]
      have hlow : first ≤ (first + last) / 2 := by omega
      have hhigh : (first + last) / 2 ≤ last := by omega
      generalize (first + last) / 2 = pivot at hlow hhigh ⊢
      have hpivot : pivot.toNat < memoryregion.length := by omega
      have hget : memoryregion.getD pivot.toNat default =
          memoryregion[pivot.toNat] := by
        rw [getD_eq_getElem?_getD, getElem?_eq_getElem hpivot,
          Option.getD_some]
      have hmem := getElem_mem hpivot
      dsimp only
      rw [hget]
      split
      · rename_i hhere
        exact ⟨hmem, (holds_iff (hascend.fits _ hmem) address).mp hhere⟩
      · rename_i hhere
        rw [holds_iff (hascend.fits _ hmem)] at hhere
        split
        · rename_i hgreater
          apply ih hfirst (by omega) (by omega)
          intro k hk hholds
          have hbounds := hselected k hk hholds
          have hbefore := hascend.holds_before hk hpivot hholds hgreater
          omega
        · rename_i hle
          apply ih (by omega) hlast (by omega)
          intro k hk hholds
          have hbounds := hselected k hk hholds
          have hbehind := hascend.holds_behind hk hpivot hholds hle hhere
          omega
    · rw [if_neg hopen]
      exact hselected.none_holds (by omega)

theorem binSearchMemRegions_finds (hascend : Ascend memoryregion)
    (address : UInt64) :
    FindsRegion memoryregion address
      (binSearchMemRegions memoryregion address) := by
  apply binSearchLoop_finds hascend le_rfl (by omega) (by omega)
  intro k hk _
  omega

end

section

variable {α : Type*} (size : α → ℕ) (joins : α → α → Prop) [DecidableRel joins]

def runSize : α → List α → ℕ
  | a, [] => size a
  | a, b :: rest => size a + if joins a b then runSize b rest else 0

def RunsShort (bound : ℕ) : List α → Prop
  | [] => True
  | a :: rest => runSize size joins a rest < bound ∧ RunsShort bound rest

variable {size joins}

theorem size_le_runSize (a : α) (rest : List α) :
    size a ≤ runSize size joins a rest := by
  cases rest with
  | nil => exact le_rfl
  | cons b rest => exact Nat.le_add_right _ _

theorem runSize_map {β : Type*} {sizeβ : β → ℕ} {joinsβ : β → β → Prop}
    [DecidableRel joinsβ] {f : β → α} {regions : List β}
    (hsize : ∀ b ∈ regions, size (f b) = sizeβ b)
    (hjoins : ∀ b ∈ regions, ∀ c ∈ regions, joins (f b) (f c) ↔ joinsβ b c)
    {b : β} (hb : b ∈ regions) {rest : List β}
    (hrest : ∀ c ∈ rest, c ∈ regions) :
    runSize size joins (f b) (rest.map f) = runSize sizeβ joinsβ b rest := by
  induction rest generalizing b with
  | nil => exact hsize b hb
  | cons c rest ih =>
    have hc := hrest c (by simp)
    rw [map_cons, runSize, runSize, hsize b hb,
      ih hc fun other hother => hrest other (mem_cons_of_mem _ hother)]
    simp only [hjoins b hb c hc]

theorem RunsShort.map {β : Type*} {sizeβ : β → ℕ} {joinsβ : β → β → Prop}
    [DecidableRel joinsβ] {f : β → α} {bound : ℕ} {regions : List β}
    (hsize : ∀ b ∈ regions, size (f b) = sizeβ b)
    (hjoins : ∀ b ∈ regions, ∀ c ∈ regions, joins (f b) (f c) ↔ joinsβ b c)
    (hshort : RunsShort sizeβ joinsβ bound regions) :
    RunsShort size joins bound (regions.map f) := by
  induction regions with
  | nil => trivial
  | cons b rest ih =>
    constructor
    · rw [runSize_map hsize hjoins (by simp) fun c hc =>
        mem_cons_of_mem _ hc]
      exact hshort.1
    · apply ih _ _ hshort.2
      · exact fun c hc => hsize c (mem_cons_of_mem _ hc)
      · exact fun c hc d hd => hjoins c (mem_cons_of_mem _ hc) d
          (mem_cons_of_mem _ hd)

end

def MemoryRegion.Joins (mustbeclasspointers : Bool)
    (first second : MemoryRegion) : Prop :=
  second.baseAddress.toNat = first.upper ∧
    second.validPointerRange = first.validPointerRange ∧
    (mustbeclasspointers = false ∨ second.inModule = first.inModule)

instance (mustbeclasspointers : Bool) :
    DecidableRel (MemoryRegion.Joins mustbeclasspointers) :=
  fun _ _ => inferInstanceAs (Decidable (_ ∧ _ ∧ _))

def ShortRuns (mustbeclasspointers : Bool) (regions : List MemoryRegion) :
    Prop :=
  RunsShort (fun region => region.memorySize.toNat)
    (MemoryRegion.Joins mustbeclasspointers) (2 ^ 32) regions

/-! ## Clipping -/

theorem toNat_toUInt32_of_lt {size : UInt64} (hlt : size.toNat < 2 ^ 32) :
    size.toUInt32.toNat = size.toNat := by
  rw [UInt64.toNat_toUInt32, Nat.mod_eq_of_lt hlt]

/-- What `clipStart` does to the first region. -/
def cutBelow (start : UInt64) (region : MemoryRegion) : MemoryRegion :=
  if region.baseAddress < start then
    { region with
      memorySize := (region.memorySize.toUInt64 -
        (start - region.baseAddress)).toUInt32
      baseAddress := start }
  else
    region

def cutAbove (stop : UInt64) (region : MemoryRegion) : MemoryRegion :=
  if region.endAddress > stop then
    { region with
      memorySize :=
        region.memorySize - (region.endAddress - stop - 1).toUInt32 }
  else
    region

section

variable {start stop : UInt64} {region : MemoryRegion}

theorem toNat_size_from_start (hbefore : region.baseAddress < start)
    (hstart : start.toNat < region.upper) :
    (region.memorySize.toUInt64 - (start - region.baseAddress)).toNat =
      region.memorySize.toNat -
        (start.toNat - region.baseAddress.toNat) := by
  have hsub : (start - region.baseAddress).toNat =
      start.toNat - region.baseAddress.toNat :=
    UInt64.toNat_sub_of_le _ _ (UInt64.le_of_lt hbefore)
  have hle : start - region.baseAddress ≤ region.memorySize.toUInt64 := by
    rw [UInt64.le_iff_toNat_le, hsub, UInt32.toNat_toUInt64]
    rw [MemoryRegion.upper] at hstart
    omega
  rw [UInt64.toNat_sub_of_le _ _ hle, hsub, UInt32.toNat_toUInt64]

theorem cutBelow_flags (start : UInt64) (region : MemoryRegion) :
    (cutBelow start region).validPointerRange = region.validPointerRange ∧
      (cutBelow start region).inModule = region.inModule := by
  rw [cutBelow]
  split <;> exact ⟨rfl, rfl⟩

theorem cutBelow_baseAddress (start : UInt64) (region : MemoryRegion) :
    (cutBelow start region).baseAddress.toNat =
      max start.toNat region.baseAddress.toNat := by
  rw [cutBelow]
  split
  · rename_i hbefore
    rw [UInt64.lt_iff_toNat_lt] at hbefore
    exact (max_eq_left hbefore.le).symm
  · rename_i hbefore
    rw [UInt64.lt_iff_toNat_lt, Nat.not_lt] at hbefore
    exact (max_eq_right hbefore).symm

theorem cutBelow_upper (hstart : start.toNat < region.upper) :
    (cutBelow start region).upper = region.upper := by
  rw [cutBelow]
  split
  · rename_i hbefore
    have hsize := toNat_size_from_start hbefore hstart
    have hsize32 := region.memorySize.toNat_lt
    rw [UInt64.lt_iff_toNat_lt] at hbefore
    simp only [MemoryRegion.upper] at hstart ⊢
    rw [toNat_toUInt32_of_lt (by omega), hsize]
    omega
  · rfl

theorem cutAbove_flags (stop : UInt64) (region : MemoryRegion) :
    (cutAbove stop region).validPointerRange = region.validPointerRange ∧
      (cutAbove stop region).inModule = region.inModule ∧
        (cutAbove stop region).baseAddress = region.baseAddress := by
  rw [cutAbove]
  split <;> exact ⟨rfl, rfl, rfl⟩

theorem cutAbove_upper (hfits : region.Fits)
    (hbase : region.baseAddress.toNat ≤ stop.toNat) :
    (cutAbove stop region).upper = min region.upper (stop.toNat + 1) := by
  have hend := hfits.toNat_endAddress
  rw [cutAbove]
  split
  · rename_i hbehind
    have hnat := UInt64.lt_iff_toNat_lt.mp hbehind
    have hsub : (region.endAddress - stop).toNat =
        region.upper - stop.toNat := by
      rw [UInt64.toNat_sub_of_le _ _ (UInt64.le_of_lt hbehind), hend]
    have hone : (1 : UInt64) ≤ region.endAddress - stop := by
      rw [UInt64.le_iff_toNat_le, hsub]
      change 1 ≤ _
      omega
    have hcut : (region.endAddress - stop - 1).toNat =
        region.upper - stop.toNat - 1 := by
      rw [UInt64.toNat_sub_of_le _ _ hone, hsub]
      rfl
    have hsize32 := region.memorySize.toNat_lt
    simp only [MemoryRegion.upper] at hcut hend hnat ⊢
    have hcut32 : (region.endAddress - stop - 1).toUInt32.toNat =
        region.baseAddress.toNat + region.memorySize.toNat - stop.toNat -
          1 := by
      rw [toNat_toUInt32_of_lt (by omega), hcut]
    have hle : (region.endAddress - stop - 1).toUInt32 ≤
        region.memorySize := by
      rw [UInt32.le_iff_toNat_le, hcut32]
      omega
    rw [UInt32.toNat_sub_of_le _ _ hle, hcut32]
    omega
  · rename_i hbehind
    rw [gt_iff_lt, UInt64.lt_iff_toNat_lt, hend, Nat.not_lt] at hbehind
    exact (min_eq_left (by omega)).symm

theorem clipStart_eq_map {regions : List MemoryRegion}
    (hstart : ∀ region ∈ regions, start.toNat < region.upper)
    (htail : ∀ region ∈ regions.tail, ¬ region.baseAddress < start) :
    clipStart start regions = regions.map (cutBelow start) := by
  cases regions with
  | nil => rfl
  | cons region rest =>
    have hrest : rest.map (cutBelow start) = rest := by
      refine (map_congr_left ?_).trans (map_id rest)
      intro other hother
      exact if_neg (htail other hother)
    rw [map_cons, hrest, clipStart, cutBelow]
    by_cases hbefore : region.baseAddress < start
    · have hupper := hstart region mem_cons_self
      have hpositive : region.memorySize.toUInt64 -
          (start - region.baseAddress) > 0 := by
        rw [gt_iff_lt, UInt64.lt_iff_toNat_lt,
          toNat_size_from_start hbefore hupper]
        change 0 < _
        rw [UInt64.lt_iff_toNat_lt] at hbefore
        rw [MemoryRegion.upper] at hupper
        omega
      rw [if_pos ⟨hbefore, hpositive⟩, if_pos hbefore]
    · rw [if_neg fun hboth => hbefore hboth.1, if_neg hbefore]

theorem clipStop_eq_map {regions : List MemoryRegion}
    (hinit : ∀ region ∈ regions.dropLast, ¬ region.endAddress > stop) :
    clipStop stop regions = regions.map (cutAbove stop) := by
  induction regions with
  | nil => rfl
  | cons region rest ih =>
    cases rest with
    | nil =>
      rw [clipStop, map_singleton, cutAbove]
      split <;> rfl
    | cons next rest =>
      have hfirst := hinit region (by simp)
      rw [clipStop, map_cons, ih fun other hother => hinit other (by
        rw [dropLast_cons_cons]
        exact mem_cons_of_mem _ hother), cutAbove, if_neg hfirst]
      simp

end

/-! ## Joining -/

section

variable {mustbeclasspointers : Bool} {current region : MemoryRegion}
  {rest : List MemoryRegion}

theorem Ascend.joins_iff (hascend : Ascend (current :: region :: rest)) :
    region.baseAddress = current.endAddress ∧
        region.validPointerRange = current.validPointerRange ∧
        (mustbeclasspointers = false ∨ region.inModule = current.inModule) ↔
      current.Joins mustbeclasspointers region := by
  rw [MemoryRegion.Joins,
    ← (hascend.fits current mem_cons_self).toNat_endAddress, UInt64.toNat_inj]

def MemoryRegion.extended (current region : MemoryRegion) : MemoryRegion :=
  { current with memorySize := current.memorySize + region.memorySize }

section

variable (hjoins : current.Joins mustbeclasspointers region)
  (hsize : current.memorySize.toNat + region.memorySize.toNat < 2 ^ 32)

include hjoins hsize

theorem extended_upper : (current.extended region).upper = region.upper := by
  have hbase := hjoins.1
  simp only [MemoryRegion.extended, MemoryRegion.upper] at hbase ⊢
  rw [UInt32.toNat_add, Nat.mod_eq_of_lt hsize]
  omega

theorem extended_fits (hcurrent : current.Fits) (hregion : region.Fits) :
    (current.extended region).Fits where
  positive := by
    rw [MemoryRegion.extended, UInt32.toNat_add, Nat.mod_eq_of_lt hsize]
    exact Nat.add_pos_left hcurrent.positive _
  upper_lt := by
    rw [extended_upper hjoins hsize]
    exact hregion.upper_lt

theorem extended_holds_iff (address : UInt64) :
    (current.extended region).Holds address ↔
      current.Holds address ∨ region.Holds address := by
  have hbase := hjoins.1
  rw [MemoryRegion.Holds, extended_upper hjoins hsize]
  simp only [MemoryRegion.Holds, MemoryRegion.extended]
  rw [MemoryRegion.upper] at hbase ⊢
  simp only [MemoryRegion.upper]
  omega

theorem extended_joins_iff (next : MemoryRegion) :
    (current.extended region).Joins mustbeclasspointers next ↔
      region.Joins mustbeclasspointers next := by
  have hupper := extended_upper hjoins hsize
  obtain ⟨-, hvalid, hmodule⟩ := hjoins
  rw [MemoryRegion.Joins, MemoryRegion.Joins, hupper, hvalid]
  rcases hmodule with hfree | hsame
  · simp [hfree, MemoryRegion.extended]
  · rw [hsame]
    rfl

theorem runSize_extended :
    runSize (fun region => region.memorySize.toNat)
        (MemoryRegion.Joins mustbeclasspointers) (current.extended region)
        rest =
      current.memorySize.toNat +
        runSize (fun region => region.memorySize.toNat)
          (MemoryRegion.Joins mustbeclasspointers) region rest := by
  have hextended : (current.extended region).memorySize.toNat =
      current.memorySize.toNat + region.memorySize.toNat := by
    rw [MemoryRegion.extended, UInt32.toNat_add, Nat.mod_eq_of_lt hsize]
  cases rest with
  | nil => exact hextended
  | cons next rest =>
    rw [runSize, runSize, hextended, Nat.add_assoc]
    simp only [extended_joins_iff hjoins hsize]

end

section

variable (hjoins : current.Joins mustbeclasspointers region)

include hjoins

theorem ShortRuns.size_lt
    (hshort : ShortRuns mustbeclasspointers (current :: region :: rest)) :
    current.memorySize.toNat + region.memorySize.toNat < 2 ^ 32 := by
  have hrun := hshort.1
  rw [runSize, if_pos hjoins] at hrun
  refine lt_of_le_of_lt (Nat.add_le_add_left ?_ _) hrun
  exact @size_le_runSize _ (fun region => region.memorySize.toNat)
    (MemoryRegion.Joins mustbeclasspointers) _ region rest

theorem ShortRuns.extend
    (hshort : ShortRuns mustbeclasspointers (current :: region :: rest)) :
    ShortRuns mustbeclasspointers (current.extended region :: rest) := by
  refine ⟨?_, hshort.2.2⟩
  have hrun := hshort.1
  rw [runSize, if_pos hjoins] at hrun
  rw [runSize_extended hjoins (hshort.size_lt hjoins)]
  exact hrun

theorem Ascend.extend
    (hsize : current.memorySize.toNat + region.memorySize.toNat < 2 ^ 32)
    (hascend : Ascend (current :: region :: rest)) :
    Ascend (current.extended region :: rest) := by
  refine hascend.tail.tail.cons ?_ ?_
  · exact extended_fits hjoins hsize
      (hascend.fits current mem_cons_self)
      (hascend.fits region (by simp))
  · rw [extended_upper hjoins hsize]
    exact (pairwise_cons.mp hascend.tail.apart).1

theorem covers_extended
    (hsize : current.memorySize.toNat + region.memorySize.toNat < 2 ^ 32)
    (address : UInt64) (valid : Bool) :
    Covers (current.extended region :: rest) address valid ↔
      Covers (current :: region :: rest) address valid := by
  have hflag : (current.extended region).validPointerRange =
      current.validPointerRange := rfl
  rw [covers_cons, covers_cons, covers_cons,
    extended_holds_iff hjoins hsize, hflag, hjoins.2.1]
  tauto

end

theorem combineRegions_spec (hascend : Ascend (current :: rest))
    (hshort : ShortRuns mustbeclasspointers (current :: rest)) :
    Ascend (combineRegions mustbeclasspointers current rest) ∧
      (∀ region ∈ combineRegions mustbeclasspointers current rest,
        current.baseAddress.toNat ≤ region.baseAddress.toNat) ∧
      ∀ address valid,
        Covers (combineRegions mustbeclasspointers current rest) address
            valid ↔
          Covers (current :: rest) address valid := by
  induction rest generalizing current with
  | nil =>
    refine ⟨hascend, ?_, fun _ _ => Iff.rfl⟩
    intro region hregion
    rw [mem_singleton.mp hregion]
  | cons region rest ih =>
    rw [combineRegions]
    by_cases hjoins : current.Joins mustbeclasspointers region
    · rw [if_pos (hascend.joins_iff.mpr hjoins)]
      have hsize := hshort.size_lt hjoins
      obtain ⟨hout, hbase, hcovers⟩ :=
        ih (hascend.extend hjoins hsize) (hshort.extend hjoins)
      refine ⟨hout, hbase, fun address valid => ?_⟩
      exact (hcovers address valid).trans
        (covers_extended hjoins hsize address valid)
    · rw [if_neg fun hcode => hjoins (hascend.joins_iff.mp hcode)]
      obtain ⟨hout, hbase, hcovers⟩ := ih hascend.tail hshort.2
      have hbelow := (pairwise_cons.mp hascend.apart).1 region
        mem_cons_self
      have hcurrent := hascend.fits current mem_cons_self
      have hupper : current.baseAddress.toNat ≤ current.upper :=
        Nat.le_add_right _ _
      refine ⟨?_, ?_, fun address valid => ?_⟩
      · exact hout.cons hcurrent fun other hother =>
          hbelow.trans (hbase other hother)
      · intro other hother
        rcases mem_cons.mp hother with rfl | hmem
        · exact le_rfl
        · exact hupper.trans (hbelow.trans (hbase other hmem))
      · rw [covers_cons, covers_cons, hcovers]

end

/-! ## Splitting -/

def MemoryRegion.front (region : MemoryRegion) : MemoryRegion :=
  { region with memorySize := chunkSize }

def MemoryRegion.back (region : MemoryRegion) : MemoryRegion :=
  { region with
    baseAddress := region.baseAddress + chunkSize.toUInt64
    memorySize := region.memorySize - chunkSize }

def MemoryRegion.Inside (inner outer : MemoryRegion) : Prop :=
  outer.baseAddress.toNat ≤ inner.baseAddress.toNat ∧
    inner.upper ≤ outer.upper

def MemoryRegion.Apart (first second : MemoryRegion) : Prop :=
  first.upper ≤ second.baseAddress.toNat ∨
    second.upper ≤ first.baseAddress.toNat

theorem MemoryRegion.Apart.symm {first second : MemoryRegion}
    (hapart : first.Apart second) : second.Apart first :=
  Or.symm hapart

theorem MemoryRegion.Apart.mono {first second third : MemoryRegion}
    (hapart : first.Apart second) (hinside : third.Inside second) :
    first.Apart third := by
  obtain ⟨hbase, hupper⟩ := hinside
  rcases hapart with hbelow | habove
  · exact Or.inl (hbelow.trans hbase)
  · exact Or.inr (hupper.trans habove)

section

variable {region : MemoryRegion}

theorem toNat_chunkSize : chunkSize.toNat = 524288 := rfl

theorem back_size (hbig : region.memorySize > chunkSize) :
    region.back.memorySize.toNat = region.memorySize.toNat - 524288 := by
  rw [MemoryRegion.back, UInt32.toNat_sub_of_le _ _ (UInt32.le_of_lt hbig),
    toNat_chunkSize]

theorem back_base (hfits : region.Fits)
    (hbig : region.memorySize > chunkSize) :
    region.back.baseAddress.toNat = region.baseAddress.toNat + 524288 := by
  have hlt := hfits.upper_lt
  rw [gt_iff_lt, UInt32.lt_iff_toNat_lt, toNat_chunkSize] at hbig
  rw [MemoryRegion.upper] at hlt
  rw [MemoryRegion.back, UInt64.toNat_add, UInt32.toNat_toUInt64,
    toNat_chunkSize, Nat.mod_eq_of_lt (by omega)]

theorem back_upper (hfits : region.Fits)
    (hbig : region.memorySize > chunkSize) :
    region.back.upper = region.upper := by
  rw [MemoryRegion.upper, MemoryRegion.upper, back_size hbig,
    back_base hfits hbig]
  rw [gt_iff_lt, UInt32.lt_iff_toNat_lt, toNat_chunkSize] at hbig
  omega

theorem front_upper (region : MemoryRegion) :
    region.front.upper = region.baseAddress.toNat + 524288 := rfl

theorem front_inside (hbig : region.memorySize > chunkSize) :
    region.front.Inside region := by
  rw [gt_iff_lt, UInt32.lt_iff_toNat_lt, toNat_chunkSize] at hbig
  refine ⟨le_rfl, ?_⟩
  rw [front_upper, MemoryRegion.upper]
  omega

section

variable (hfits : region.Fits) (hbig : region.memorySize > chunkSize)

include hfits hbig

theorem back_inside : region.back.Inside region := by
  rw [MemoryRegion.Inside, back_upper hfits hbig, back_base hfits hbig]
  exact ⟨Nat.le_add_right _ _, le_rfl⟩

theorem front_apart_back : region.front.Apart region.back := by
  left
  rw [front_upper, back_base hfits hbig]

theorem front_fits : region.front.Fits where
  positive := by
    rw [MemoryRegion.front, toNat_chunkSize]
    decide
  upper_lt := lt_of_le_of_lt (front_inside hbig).2 hfits.upper_lt

theorem back_fits : region.back.Fits where
  positive := by
    rw [back_size hbig]
    rw [gt_iff_lt, UInt32.lt_iff_toNat_lt, toNat_chunkSize] at hbig
    omega
  upper_lt := by
    rw [back_upper hfits hbig]
    exact hfits.upper_lt

theorem holds_iff_front_or_back (address : UInt64) :
    region.Holds address ↔
      region.front.Holds address ∨ region.back.Holds address := by
  have hinside := front_inside hbig
  rw [MemoryRegion.Inside, front_upper] at hinside
  simp only [MemoryRegion.Holds]
  rw [back_upper hfits hbig, back_base hfits hbig, front_upper]
  have hbase : region.front.baseAddress = region.baseAddress := rfl
  rw [hbase]
  omega

end

theorem covers_append {first second : List MemoryRegion} {address : UInt64}
    {valid : Bool} :
    Covers (first ++ second) address valid ↔
      Covers first address valid ∨ Covers second address valid := by
  simp only [Covers, mem_append, or_and_right, exists_or]

theorem covers_front_back (hfits : region.Fits)
    (hbig : region.memorySize > chunkSize) (rest : List MemoryRegion)
    (address : UInt64) (valid : Bool) :
    Covers (region.front :: (rest ++ [region.back])) address valid ↔
      Covers (region :: rest) address valid := by
  have hfront : region.front.validPointerRange = region.validPointerRange :=
    rfl
  have hback : region.back.validPointerRange = region.validPointerRange := by
    rw [MemoryRegion.back]
  have hnil : ¬ Covers [] address valid := fun ⟨_, hmem, _⟩ =>
    not_mem_nil hmem
  rw [covers_cons, covers_append, covers_cons, covers_cons, hfront, hback,
    holds_iff_front_or_back hfits hbig, iff_false_intro hnil, or_false,
    or_and_right, or_assoc, @or_comm (Covers rest address valid)]

theorem numberOfChunks_cons (region : MemoryRegion)
    (rest : List MemoryRegion) :
    numberOfChunks (region :: rest) =
      region.memorySize.toNat / 524288 + 1 + numberOfChunks rest := by
  rw [numberOfChunks, map_cons, sum_cons, toNat_chunkSize]
  rfl

theorem numberOfChunks_append (rest : List MemoryRegion) :
    numberOfChunks (rest ++ [region]) =
      numberOfChunks rest + (region.memorySize.toNat / 524288 + 1) := by
  rw [numberOfChunks, map_append, sum_append, map_singleton,
    sum_singleton, toNat_chunkSize]
  rfl

theorem numberOfChunks_back (hbig : region.memorySize > chunkSize)
    (rest : List MemoryRegion) :
    numberOfChunks (rest ++ [region.back]) + 1 =
      numberOfChunks (region :: rest) := by
  rw [numberOfChunks_append, numberOfChunks_cons, back_size hbig]
  rw [gt_iff_lt, UInt32.lt_iff_toNat_lt, toNat_chunkSize] at hbig
  omega

structure Splits (regions chunks : List MemoryRegion) : Prop where
  fits : ∀ chunk ∈ chunks, chunk.Fits
  small : ∀ chunk ∈ chunks, chunk.memorySize.toNat ≤ 524288
  inside : ∀ chunk ∈ chunks, ∃ region ∈ regions, chunk.Inside region
  apart : chunks.Pairwise MemoryRegion.Apart
  covers : ∀ address valid,
    Covers chunks address valid ↔ Covers regions address valid

theorem Splits.whole {rest chunks : List MemoryRegion} (hfits : region.Fits)
    (hsmall : ¬ region.memorySize > chunkSize)
    (hapart : ∀ other ∈ rest, region.Apart other)
    (hsplits : Splits rest chunks) :
    Splits (region :: rest) (region :: chunks) where
  fits := forall_mem_cons.mpr ⟨hfits, hsplits.fits⟩
  small := by
    rw [gt_iff_lt, UInt32.lt_iff_toNat_lt, toNat_chunkSize,
      Nat.not_lt] at hsmall
    exact forall_mem_cons.mpr ⟨hsmall, hsplits.small⟩
  inside := by
    refine forall_mem_cons.mpr ⟨?_, ?_⟩
    · exact ⟨region, mem_cons_self, le_rfl, le_rfl⟩
    · intro chunk hchunk
      obtain ⟨other, hother, hinside⟩ := hsplits.inside chunk hchunk
      exact ⟨other, mem_cons_of_mem _ hother, hinside⟩
  apart := by
    refine pairwise_cons.mpr ⟨?_, hsplits.apart⟩
    intro chunk hchunk
    obtain ⟨other, hother, hinside⟩ := hsplits.inside chunk hchunk
    exact (hapart other hother).mono hinside
  covers := by
    intro address valid
    rw [covers_cons, covers_cons, hsplits.covers]

theorem Splits.cut {rest chunks : List MemoryRegion} (hfits : region.Fits)
    (hbig : region.memorySize > chunkSize)
    (hapart : ∀ other ∈ rest, region.Apart other)
    (hsplits : Splits (rest ++ [region.back]) chunks) :
    Splits (region :: rest) (region.front :: chunks) where
  fits := forall_mem_cons.mpr ⟨front_fits hfits hbig, hsplits.fits⟩
  small := forall_mem_cons.mpr ⟨le_rfl, hsplits.small⟩
  inside := by
    refine forall_mem_cons.mpr ⟨?_, ?_⟩
    · exact ⟨region, mem_cons_self, front_inside hbig⟩
    · intro chunk hchunk
      obtain ⟨other, hother, hbase, hupper⟩ := hsplits.inside chunk hchunk
      rcases mem_append.mp hother with hmem | hback
      · exact ⟨other, mem_cons_of_mem _ hmem, hbase, hupper⟩
      · rw [mem_singleton.mp hback] at hbase hupper
        obtain ⟨hbackBase, hbackUpper⟩ := back_inside hfits hbig
        exact ⟨region, mem_cons_self, hbackBase.trans hbase,
          hupper.trans hbackUpper⟩
  apart := by
    refine pairwise_cons.mpr ⟨?_, hsplits.apart⟩
    intro chunk hchunk
    obtain ⟨other, hother, hinside⟩ := hsplits.inside chunk hchunk
    rcases mem_append.mp hother with hmem | hback
    · have hfront := ((hapart other hmem).symm.mono (front_inside hbig)).symm
      exact hfront.mono hinside
    · rw [mem_singleton.mp hback] at hinside
      exact (front_apart_back hfits hbig).mono hinside
  covers := by
    intro address valid
    rw [covers_cons, hsplits.covers, ← covers_cons,
      covers_front_back hfits hbig]

theorem splitRegions_splits {turns : ℕ} {regions : List MemoryRegion}
    (hturns : numberOfChunks regions ≤ turns)
    (hfits : ∀ region ∈ regions, region.Fits)
    (hapart : regions.Pairwise MemoryRegion.Apart) :
    Splits regions (splitRegions turns regions) := by
  induction turns generalizing regions with
  | zero =>
    cases regions with
    | nil => exact ⟨by simp [splitRegions], by simp [splitRegions],
        by simp [splitRegions], by simp [splitRegions],
        fun _ _ => by rw [splitRegions]⟩
    | cons region rest =>
      rw [numberOfChunks_cons] at hturns
      omega
  | succ turns ih =>
    cases regions with
    | nil => exact ⟨by simp [splitRegions], by simp [splitRegions],
        by simp [splitRegions], by simp [splitRegions],
        fun _ _ => by rw [splitRegions]⟩
    | cons region rest =>
      obtain ⟨hregion, hrest⟩ := forall_mem_cons.mp hfits
      obtain ⟨hhead, htail⟩ := pairwise_cons.mp hapart
      rw [splitRegions]
      by_cases hbig : region.memorySize > chunkSize
      · rw [if_pos hbig]
        have hless := numberOfChunks_back hbig rest
        refine Splits.cut hregion hbig hhead (ih (by omega) ?_ ?_)
        · intro other hother
          rcases mem_append.mp hother with hmem | hback
          · exact hrest other hmem
          · rw [mem_singleton.mp hback]
            exact back_fits hregion hbig
        · refine pairwise_append.mpr ⟨htail, by simp, ?_⟩
          intro other hother back hback
          rw [mem_singleton.mp hback]
          exact (hhead other hother).symm.mono (back_inside hregion hbig)
      · rw [if_neg hbig]
        rw [numberOfChunks_cons] at hturns
        exact Splits.whole hregion hbig hhead (ih (by omega) hrest htail)

end

end CheatEngine.PointerValueList
