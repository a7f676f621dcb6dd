import Mathlib.Tactic

/-!
# Splitting a region by modules

`fillMemoryRegionsWithModuleData` walks through a region and adds one entry
for each module it meets.  Between two modules it goes on at the next one.
-/

namespace CheatEngine.ModuleRegions

open List

structure ModuleInfo where
  baseaddress : UInt64
  basesize : UInt32
  inside : baseaddress.toNat + basesize.toNat < 2 ^ 64
deriving DecidableEq

structure MemoryRegion where
  baseAddress : UInt64
  memorySize : UInt64
deriving DecidableEq, Repr

/-- What became of the loop.  `outside`: the module list is indexed with
-1. -/
inductive Outcome
  | running
  | outside
  | regions (mr : List MemoryRegion)
deriving DecidableEq

def Outcome.behind (region : MemoryRegion) : Outcome → Outcome
  | .running => .running
  | .outside => .outside
  | .regions mr => .regions (region :: mr)

variable (modulelist : List ModuleInfo)

def getmodulebyaddress (address : UInt64) : Option ModuleInfo :=
  modulelist.find? fun mi =>
    mi.baseaddress ≤ address ∧
      address < mi.baseaddress + mi.basesize.toUInt64

def closest (currentaddress : UInt64) : Option ModuleInfo :=
  (modulelist.find? fun mi => currentaddress < mi.baseaddress).map fun first =>
    modulelist.foldl
      (fun closest mi =>
        if currentaddress < mi.baseaddress ∧
            mi.baseaddress < closest.baseaddress then mi
        else closest)
      first

def memorySize (mi : ModuleInfo) (currentaddress : UInt64)
    (sizeleft : UInt32) : UInt64 :=
  let size := mi.basesize.toUInt64 - (currentaddress - mi.baseaddress)
  if sizeleft.toUInt64 < size then sizeleft.toUInt64 else size

@[grind =]
def loop : ℕ → UInt64 → UInt32 → Outcome
  | 0, _, _ => .running
  | turns + 1, currentaddress, sizeleft =>
    if sizeleft = 0 then .regions []
    else
      match getmodulebyaddress modulelist currentaddress with
      | some mi =>
        let size := memorySize mi currentaddress sizeleft
        (loop turns (currentaddress + size)
          (sizeleft - size.toUInt32)).behind ⟨currentaddress, size⟩
      | none =>
        match closest modulelist currentaddress with
        | none => .outside
        | some mi =>
          if mi.baseaddress < currentaddress then .regions []
          else
            loop turns mi.baseaddress
              (sizeleft + (mi.baseaddress - currentaddress).toUInt32)

def fillMemoryRegionsWithModuleData (turns : ℕ) (mr : List MemoryRegion)
    (startaddress : UInt64) (size : UInt32) : Outcome :=
  if modulelist = [] then .regions mr
  else
    match loop modulelist turns startaddress size with
    | .regions added => .regions (mr ++ added)
    | .outside => .outside
    | .running => .running

def ModuleInfo.Holds (mi : ModuleInfo) (address : ℕ) : Prop :=
  mi.baseaddress.toNat ≤ address ∧
    address < mi.baseaddress.toNat + mi.basesize.toNat

def MemoryRegion.start (region : MemoryRegion) : ℕ :=
  region.baseAddress.toNat

def MemoryRegion.stop (region : MemoryRegion) : ℕ :=
  region.baseAddress.toNat + region.memorySize.toNat

/-- The regions are the parts of the modules in the bytes from `start` up to
`stop`. -/
structure IsSplit (start stop : ℕ) (regions : List MemoryRegion) : Prop where
  ascending : regions.Pairwise fun first second => first.stop ≤ second.start
  covers : ∀ address,
    (∃ region ∈ regions, region.start ≤ address ∧ address < region.stop) ↔
      (start ≤ address ∧ address < stop) ∧
        ∃ mi ∈ modulelist, mi.Holds address
  within : ∀ region ∈ regions, ∃ mi ∈ modulelist,
    mi.baseaddress.toNat ≤ region.start ∧
      region.stop ≤ mi.baseaddress.toNat + mi.basesize.toNat

/-- The loop ends and adds the regions, whatever the array held before. -/
def Splits (startaddress : UInt64) (size : UInt32) : Prop :=
  ∀ mr, ∃ turns added,
    fillMemoryRegionsWithModuleData modulelist turns mr startaddress size =
        .regions (mr ++ added) ∧
      IsSplit modulelist startaddress.toNat
        (startaddress.toNat + size.toNat) added

def Covered (start stop : ℕ) : Prop :=
  ∀ address, start ≤ address → address < stop →
    ∃ mi ∈ modulelist, mi.Holds address

/-- The 32 bits of `sizeleft` hold the distance to every module behind, and
what was left. -/
def FitsSize (start size : ℕ) : Prop :=
  ∀ mi ∈ modulelist, start ≤ mi.baseaddress.toNat →
    mi.baseaddress.toNat - start + size < 2 ^ 32

/-! ## One turn -/

variable {modulelist}

theorem ModuleInfo.toNat_stop (mi : ModuleInfo) :
    (mi.baseaddress + mi.basesize.toUInt64).toNat =
      mi.baseaddress.toNat + mi.basesize.toNat := by
  rw [UInt64.toNat_add, UInt32.toNat_toUInt64]
  exact Nat.mod_eq_of_lt mi.inside

theorem ModuleInfo.holds_iff (mi : ModuleInfo) (address : UInt64) :
    mi.Holds address.toNat ↔
      mi.baseaddress ≤ address ∧
        address < mi.baseaddress + mi.basesize.toUInt64 := by
  rw [UInt64.le_iff_toNat_le, UInt64.lt_iff_toNat_lt, mi.toNat_stop]
  rfl

variable {mi : ModuleInfo} {currentaddress : UInt64} {sizeleft : UInt32}
  (turns : ℕ)

theorem getmodulebyaddress_some {address : UInt64}
    (hfound : getmodulebyaddress modulelist address = some mi) :
    mi ∈ modulelist ∧ mi.Holds address.toNat := by
  refine ⟨mem_of_find?_eq_some hfound, ?_⟩
  have htest := find?_some hfound
  exact (mi.holds_iff address).mpr (of_decide_eq_true htest)

theorem getmodulebyaddress_none {address : UInt64}
    (hnone : getmodulebyaddress modulelist address = none) :
    ∀ mi ∈ modulelist, ¬ mi.Holds address.toNat := by
  intro mi hmi hholds
  have htest := find?_eq_none.mp hnone mi hmi
  exact htest (decide_eq_true ((mi.holds_iff address).mp hholds))

theorem closest_some (hclosest : closest modulelist currentaddress = some mi) :
    mi ∈ modulelist ∧ currentaddress < mi.baseaddress := by
  obtain ⟨first, hfirst, hfold⟩ := Option.map_eq_some_iff.mp hclosest
  have hbehind := find?_some
    (p := fun mi : ModuleInfo => currentaddress < mi.baseaddress) hfirst
  rw [← hfold]
  refine List.foldlRecOn modulelist _
    (motive := fun mi => mi ∈ modulelist ∧ currentaddress < mi.baseaddress)
    ⟨mem_of_find?_eq_some hfirst, of_decide_eq_true hbehind⟩ ?_
  intro closest hkept mi hmi
  split
  case isTrue hcloser => exact ⟨hmi, hcloser.1⟩
  case isFalse => exact hkept

theorem toNat_memorySize (hholds : mi.Holds currentaddress.toNat)
    (sizeleft : UInt32) :
    (memorySize mi currentaddress sizeleft).toNat =
      min sizeleft.toNat
        (mi.baseaddress.toNat + mi.basesize.toNat - currentaddress.toNat) := by
  have hinside := mi.inside
  obtain ⟨hbase, hstop⟩ := hholds
  have hoffset : (currentaddress - mi.baseaddress).toNat =
      currentaddress.toNat - mi.baseaddress.toNat :=
    UInt64.toNat_sub_of_le _ _ (UInt64.le_iff_toNat_le.mpr hbase)
  have hsize :
      (mi.basesize.toUInt64 - (currentaddress - mi.baseaddress)).toNat =
        mi.basesize.toNat -
          (currentaddress.toNat - mi.baseaddress.toNat) := by
    rw [UInt64.toNat_sub_of_le, hoffset, UInt32.toNat_toUInt64]
    rw [UInt64.le_iff_toNat_le, hoffset, UInt32.toNat_toUInt64]
    omega
  unfold memorySize
  simp only [UInt64.lt_iff_toNat_lt, hsize, UInt32.toNat_toUInt64]
  split
  case isTrue hlt =>
    rw [UInt32.toNat_toUInt64]
    omega
  case isFalse hge =>
    rw [hsize]
    omega

/-- What one turn does in a module: `size` bytes are added. -/
structure Added (mi : ModuleInfo) (currentaddress : UInt64)
    (sizeleft : UInt32) (size : UInt64) : Prop where
  pos : 0 < size.toNat
  le : size.toNat ≤ sizeleft.toNat
  inModule : currentaddress.toNat + size.toNat ≤
    mi.baseaddress.toNat + mi.basesize.toNat
  next : (currentaddress + size).toNat =
    currentaddress.toNat + size.toNat
  left : (sizeleft - size.toUInt32).toNat = sizeleft.toNat - size.toNat

theorem added_memorySize (hholds : mi.Holds currentaddress.toNat)
    (hleft : sizeleft ≠ 0) :
    Added mi currentaddress sizeleft
      (memorySize mi currentaddress sizeleft) := by
  have hsize := toNat_memorySize hholds sizeleft
  have hinside := mi.inside
  have hpos : 0 < sizeleft.toNat :=
    Nat.pos_of_ne_zero fun h => hleft (UInt32.toNat_inj.mp h)
  have hlt := sizeleft.toNat_lt
  obtain ⟨hbase, hstop⟩ := hholds
  generalize memorySize mi currentaddress sizeleft = size at hsize ⊢
  have hsmall : size.toUInt32.toNat = size.toNat := by
    rw [UInt64.toNat_toUInt32]
    exact Nat.mod_eq_of_lt (by omega)
  refine ⟨by omega, by omega, by omega, ?_, ?_⟩
  · rw [UInt64.toNat_add]
    exact Nat.mod_eq_of_lt (by omega)
  · rw [UInt32.toNat_sub_of_le, hsmall]
    rw [UInt32.le_iff_toNat_le, hsmall]
    omega

theorem loop_zero (currentaddress : UInt64) :
    loop modulelist (turns + 1) currentaddress 0 = .regions [] := by
  rw [loop, if_pos rfl]

theorem loop_module
    (hfound : getmodulebyaddress modulelist currentaddress = some mi)
    (hleft : sizeleft ≠ 0) (turns : ℕ) :
    loop modulelist (turns + 1) currentaddress sizeleft =
      (loop modulelist turns
        (currentaddress + memorySize mi currentaddress sizeleft)
        (sizeleft - (memorySize mi currentaddress sizeleft).toUInt32)).behind
        ⟨currentaddress, memorySize mi currentaddress sizeleft⟩ := by
  rw [loop, if_neg hleft, hfound]

theorem loop_last
    (hnone : getmodulebyaddress modulelist currentaddress = none)
    (hlast : closest modulelist currentaddress = none) (hleft : sizeleft ≠ 0)
    (turns : ℕ) :
    loop modulelist (turns + 1) currentaddress sizeleft = .outside := by
  rw [loop, if_neg hleft, hnone, hlast]

theorem loop_gap
    (hnone : getmodulebyaddress modulelist currentaddress = none)
    (hnext : closest modulelist currentaddress = some mi)
    (hleft : sizeleft ≠ 0) (turns : ℕ) :
    loop modulelist (turns + 1) currentaddress sizeleft =
      loop modulelist turns mi.baseaddress
        (sizeleft + (mi.baseaddress - currentaddress).toUInt32) := by
  have hbehind := (closest_some hnext).2
  rw [loop, if_neg hleft, hnone, hnext]
  exact if_neg (UInt64.not_lt.mpr (UInt64.le_of_lt hbehind))

theorem Outcome.behind_eq_regions {region : MemoryRegion} {outcome : Outcome}
    {mr : List MemoryRegion} (heq : outcome.behind region = .regions mr) :
    ∃ rest, outcome = .regions rest ∧ mr = region :: rest := by
  cases outcome with
  | running => cases heq
  | outside => cases heq
  | regions rest => exact ⟨rest, rfl, (Outcome.regions.inj heq).symm⟩

/-! ## A region full of modules -/

theorem covered_step {start stop size : ℕ}
    (hcovered : Covered modulelist start stop) :
    Covered modulelist (start + size) stop :=
  fun address hstart hstop => hcovered address (by omega) hstop

theorem isSplit_empty (start : ℕ) : IsSplit modulelist start start [] where
  ascending := .nil
  covers address := by
    constructor
    · rintro ⟨region, hregion, _⟩
      cases hregion
    · rintro ⟨⟨hle, hlt⟩, _⟩
      omega
  within region hregion := by cases hregion

theorem IsSplit.start_le {start stop : ℕ} {regions : List MemoryRegion}
    (hsplit : IsSplit modulelist start stop regions)
    {region : MemoryRegion} (hregion : region ∈ regions)
    (hne : region.start < region.stop) : start ≤ region.start :=
  ((hsplit.covers region.start).mp ⟨region, hregion, le_rfl, hne⟩).1.1

theorem IsSplit.stop_le {start stop : ℕ} {regions : List MemoryRegion}
    (hsplit : IsSplit modulelist start stop regions)
    {region : MemoryRegion} (hregion : region ∈ regions)
    (hne : region.start < region.stop) : region.stop ≤ stop := by
  have hlast := (hsplit.covers (region.stop - 1)).mp
    ⟨region, hregion, by omega, by omega⟩
  omega

theorem IsSplit.cons {mi : ModuleInfo} (hmi : mi ∈ modulelist)
    {currentaddress : UInt64} {size : UInt64} {stop : ℕ}
    (hbase : mi.baseaddress.toNat ≤ currentaddress.toNat)
    (hinside : currentaddress.toNat + size.toNat ≤
      mi.baseaddress.toNat + mi.basesize.toNat)
    (hstop : currentaddress.toNat + size.toNat ≤ stop)
    {rest : List MemoryRegion}
    (hne : ∀ region ∈ rest, region.start < region.stop)
    (hsplit : IsSplit modulelist (currentaddress.toNat + size.toNat) stop
      rest) :
    IsSplit modulelist currentaddress.toNat stop
      (⟨currentaddress, size⟩ :: rest) where
  ascending := pairwise_cons.mpr
    ⟨fun region hregion => hsplit.start_le hregion (hne region hregion),
      hsplit.ascending⟩
  covers address := by
    rw [exists_mem_cons_iff, hsplit.covers]
    simp only [MemoryRegion.start, MemoryRegion.stop]
    constructor
    · rintro (⟨hle, hlt⟩ | ⟨⟨hle, hlt⟩, hholds⟩)
      · exact ⟨⟨hle, by omega⟩, mi, hmi, by omega, by omega⟩
      · exact ⟨⟨by omega, hlt⟩, hholds⟩
    · rintro ⟨⟨hle, hlt⟩, hholds⟩
      rcases lt_or_ge address (currentaddress.toNat + size.toNat) with
        hfirst | hlater
      · exact .inl ⟨hle, hfirst⟩
      · exact .inr ⟨⟨hlater, hlt⟩, hholds⟩
  within := by
    intro region hregion
    rcases mem_cons.mp hregion with rfl | hrest
    · exact ⟨mi, hmi, hbase, hinside⟩
    · exact hsplit.within region hrest

theorem exists_loop_split (left : ℕ) : ∀ (currentaddress : UInt64)
    (sizeleft : UInt32), sizeleft.toNat = left →
    Covered modulelist currentaddress.toNat (currentaddress.toNat + left) →
    ∃ turns added,
      loop modulelist turns currentaddress sizeleft = .regions added ∧
        (∀ region ∈ added, region.start < region.stop) ∧
        IsSplit modulelist currentaddress.toNat
          (currentaddress.toNat + left) added := by
  induction left using Nat.strong_induction_on with
  | _ left ih =>
    intro currentaddress sizeleft hleft hcovered
    by_cases hzero : sizeleft = 0
    · subst hzero
      subst hleft
      exact ⟨1, [], loop_zero 0 currentaddress, by simp,
        isSplit_empty currentaddress.toNat⟩
    · cases hfound : getmodulebyaddress modulelist currentaddress with
      | none =>
        have hpos : 0 < left := by
          rw [← hleft]
          exact Nat.pos_of_ne_zero fun h => hzero (UInt32.toNat_inj.mp h)
        obtain ⟨mi, hmi, hholds⟩ :=
          hcovered currentaddress.toNat le_rfl (by omega)
        exact absurd hholds (getmodulebyaddress_none hfound mi hmi)
      | some mi =>
        obtain ⟨hmi, hholds⟩ := getmodulebyaddress_some hfound
        have hadded := added_memorySize hholds hzero
        have hloop := loop_module hfound hzero
        generalize memorySize mi currentaddress sizeleft = size at hadded hloop
        have hpos := hadded.pos
        have hle := hadded.le
        obtain ⟨turns, rest, hrest, hne, hsplit⟩ :=
          ih (left - size.toNat) (by omega) (currentaddress + size)
            (sizeleft - size.toUInt32) (by rw [hadded.left, hleft])
            (by
              rw [hadded.next, show currentaddress.toNat + size.toNat +
                (left - size.toNat) = currentaddress.toNat + left by omega]
              exact covered_step hcovered)
        rw [hadded.next, show currentaddress.toNat + size.toNat +
          (left - size.toNat) = currentaddress.toNat + left by omega]
          at hsplit
        refine ⟨turns + 1, ⟨currentaddress, size⟩ :: rest, ?_, ?_,
          hsplit.cons hmi hholds.1 hadded.inModule (by omega) hne⟩
        · rw [hloop, hrest]
          rfl
        · intro region hregion
          rcases mem_cons.mp hregion with rfl | hlater
          · exact Nat.lt_add_of_pos_right hpos
          · exact hne region hlater

theorem splits_nil (startaddress : UInt64) (size : UInt32) :
    Splits [] startaddress size := by
  intro mr
  refine ⟨0, [], ?_, .nil, ?_, ?_⟩
  · rw [fillMemoryRegionsWithModuleData, if_pos rfl, append_nil]
  · intro address
    constructor
    · rintro ⟨region, hregion, _⟩
      cases hregion
    · rintro ⟨_, mi, hmi, _⟩
      cases hmi
  · intro region hregion
    cases hregion

theorem splits_of_covered {startaddress : UInt64} {size : UInt32}
    (hcovered : Covered modulelist startaddress.toNat
      (startaddress.toNat + size.toNat)) :
    Splits modulelist startaddress size := by
  by_cases hempty : modulelist = []
  · subst hempty
    exact splits_nil startaddress size
  · intro mr
    obtain ⟨turns, added, hloop, _, hsplit⟩ :=
      exists_loop_split size.toNat startaddress size rfl hcovered
    refine ⟨turns, added, ?_, hsplit⟩
    rw [fillMemoryRegionsWithModuleData, if_neg hempty, hloop]

/-! ## A gap -/

theorem fitsSize_module {start size left : ℕ}
    (hfits : FitsSize modulelist start left) (hle : size ≤ left) :
    FitsSize modulelist (start + size) (left - size) := by
  intro mi hmi hstart
  have hlt := hfits mi hmi (by omega)
  omega

theorem toNat_sizeleft_gap (hmi : mi ∈ modulelist)
    (hbehind : currentaddress < mi.baseaddress)
    (hfits : FitsSize modulelist currentaddress.toNat sizeleft.toNat) :
    (sizeleft + (mi.baseaddress - currentaddress).toUInt32).toNat =
      sizeleft.toNat +
        (mi.baseaddress.toNat - currentaddress.toNat) := by
  have hle := UInt64.lt_iff_toNat_lt.mp hbehind
  have hlt := hfits mi hmi hle.le
  rw [UInt32.toNat_add, UInt64.toNat_toUInt32,
    UInt64.toNat_sub_of_le _ _ (UInt64.le_of_lt hbehind)]
  omega

theorem fitsSize_gap {start size : ℕ} (hfits : FitsSize modulelist start size)
    {base : ℕ} (hbase : start ≤ base) :
    FitsSize modulelist base (size + (base - start)) := by
  intro mi hmi hle
  have hlt := hfits mi hmi (by omega)
  omega

/-- The loop ends only in a module, so its last region reaches as far as what
is left does. -/
theorem exists_region_behind {stop : ℕ} :
    ∀ {currentaddress : UInt64} {sizeleft : UInt32}
      {added : List MemoryRegion},
      FitsSize modulelist currentaddress.toNat sizeleft.toNat →
      sizeleft ≠ 0 → stop < currentaddress.toNat + sizeleft.toNat →
      loop modulelist turns currentaddress sizeleft = .regions added →
      ∃ region ∈ added, region.start < region.stop ∧ stop < region.stop := by
  induction turns with
  | zero =>
    intro currentaddress sizeleft added _ _ _ hloop
    cases hloop
  | succ turns ih =>
    intro currentaddress sizeleft added hfits hleft hstop hloop
    cases hfound : getmodulebyaddress modulelist currentaddress with
    | some mi =>
      obtain ⟨hmi, hholds⟩ := getmodulebyaddress_some hfound
      have hadded := added_memorySize hholds hleft
      rw [loop_module hfound hleft] at hloop
      generalize memorySize mi currentaddress sizeleft = size at hadded hloop
      obtain ⟨rest, hrest, rfl⟩ := Outcome.behind_eq_regions hloop
      have hpos := hadded.pos
      by_cases hdone : size.toNat = sizeleft.toNat
      · refine ⟨⟨currentaddress, size⟩, mem_cons_self,
          Nat.lt_add_of_pos_right hpos, ?_⟩
        simp only [MemoryRegion.stop]
        omega
      · have hle := hadded.le
        have hmore : sizeleft - size.toUInt32 ≠ 0 := by
          intro h
          have hzero := hadded.left
          rw [h] at hzero
          exact absurd hzero.symm (Nat.sub_ne_zero_of_lt (by omega))
        obtain ⟨region, hregion, hbehind⟩ :=
          ih (by
              rw [hadded.next, hadded.left]
              exact fitsSize_module hfits hle)
            hmore (by rw [hadded.next, hadded.left]; omega) hrest
        exact ⟨region, mem_cons_of_mem _ hregion, hbehind⟩
    | none =>
      cases hnext : closest modulelist currentaddress with
      | none =>
        rw [loop_last hfound hnext hleft] at hloop
        cases hloop
      | some mi =>
        obtain ⟨hmi, hbehind⟩ := closest_some hnext
        have hgap := toNat_sizeleft_gap hmi hbehind hfits
        have hlt := UInt64.lt_iff_toNat_lt.mp hbehind
        rw [loop_gap hfound hnext hleft] at hloop
        refine ih ?_ ?_ ?_ hloop
        · rw [hgap]
          exact fitsSize_gap hfits hlt.le
        · intro h
          rw [h] at hgap
          exact absurd hgap (by simp; omega)
        · omega

theorem covered_of_loop :
    ∀ {currentaddress : UInt64} {sizeleft : UInt32}
      {added : List MemoryRegion},
      FitsSize modulelist currentaddress.toNat sizeleft.toNat →
      loop modulelist turns currentaddress sizeleft = .regions added →
      (∀ region ∈ added, region.start < region.stop →
        region.stop ≤ currentaddress.toNat + sizeleft.toNat) →
      Covered modulelist currentaddress.toNat
        (currentaddress.toNat + sizeleft.toNat) := by
  induction turns with
  | zero =>
    intro currentaddress sizeleft added _ hloop
    cases hloop
  | succ turns ih =>
    intro currentaddress sizeleft added hfits hloop hadded address hle hlt
    have hleft : sizeleft ≠ 0 := by
      rintro rfl
      exact absurd hlt (not_lt.mpr hle)
    cases hfound : getmodulebyaddress modulelist currentaddress with
    | some mi =>
      obtain ⟨hmi, hholds⟩ := getmodulebyaddress_some hfound
      have hsize := added_memorySize hholds hleft
      rw [loop_module hfound hleft] at hloop
      generalize memorySize mi currentaddress sizeleft = size at hsize hloop
      obtain ⟨rest, hrest, rfl⟩ := Outcome.behind_eq_regions hloop
      have hsizeLe := hsize.le
      have hinModule := hsize.inModule
      rcases lt_or_ge address (currentaddress.toNat + size.toNat) with
        hfirst | hlater
      · exact ⟨mi, hmi, hholds.1.trans hle, by omega⟩
      · have hstop : (currentaddress + size).toNat +
            (sizeleft - size.toUInt32).toNat =
              currentaddress.toNat + sizeleft.toNat := by
          rw [hsize.next, hsize.left]
          omega
        refine ih ?_ hrest ?_ address ?_ ?_
        · rw [hsize.next, hsize.left]
          exact fitsSize_module hfits hsizeLe
        · intro region hregion hne
          rw [hstop]
          exact hadded region (mem_cons_of_mem _ hregion) hne
        · rwa [hsize.next]
        · rwa [hstop]
    | none =>
      cases hnext : closest modulelist currentaddress with
      | none =>
        rw [loop_last hfound hnext hleft] at hloop
        cases hloop
      | some mi =>
        obtain ⟨hmi, hbehind⟩ := closest_some hnext
        have hgap := toNat_sizeleft_gap hmi hbehind hfits
        have hbase := UInt64.lt_iff_toNat_lt.mp hbehind
        rw [loop_gap hfound hnext hleft] at hloop
        obtain ⟨region, hregion, hne, hexceeds⟩ :=
          exists_region_behind turns (by
              rw [hgap]
              exact fitsSize_gap hfits hbase.le)
            (by
              intro h
              rw [h] at hgap
              exact absurd hgap (by simp; omega))
            (show currentaddress.toNat + sizeleft.toNat < _ by
              rw [hgap]
              omega)
            hloop
        exact absurd (hadded region hregion hne) (not_le.mpr hexceeds)

theorem covered_of_splits {startaddress : UInt64} {size : UInt32}
    (hfits : FitsSize modulelist startaddress.toNat size.toNat)
    (hsplits : Splits modulelist startaddress size) :
    modulelist = [] ∨
      Covered modulelist startaddress.toNat
        (startaddress.toNat + size.toNat) := by
  by_cases hempty : modulelist = []
  · exact .inl hempty
  · right
    obtain ⟨turns, added, hfill, hsplit⟩ := hsplits []
    rw [fillMemoryRegionsWithModuleData, if_neg hempty] at hfill
    cases hloop : loop modulelist turns startaddress size with
    | running =>
      rw [hloop] at hfill
      cases hfill
    | outside =>
      rw [hloop] at hfill
      cases hfill
    | regions found =>
      rw [hloop] at hfill
      obtain rfl : found = added := Outcome.regions.inj hfill
      exact covered_of_loop turns hfits hloop
        fun region hregion hne => hsplit.stop_le hregion hne

/-- A region is split right when all its bytes lie in modules; and where the
size left cannot wrap around, only then. -/
theorem splits_iff_covered (modulelist : List ModuleInfo)
    (startaddress : UInt64) (size : UInt32) :
    (modulelist = [] ∨
        Covered modulelist startaddress.toNat
          (startaddress.toNat + size.toNat) →
      Splits modulelist startaddress size) ∧
    (FitsSize modulelist startaddress.toNat size.toNat →
      Splits modulelist startaddress size →
        modulelist = [] ∨
          Covered modulelist startaddress.toNat
            (startaddress.toNat + size.toNat)) := by
  constructor
  · rintro (rfl | hcovered)
    · exact splits_nil startaddress size
    · exact splits_of_covered hcovered
  · exact covered_of_splits

def lower : ModuleInfo := ⟨0x1000, 0x1000, by decide⟩

def upper : ModuleInfo := ⟨0x3000, 0x10000, by decide⟩

/-- A region that ends inside the upper module goes on for twice the gap. -/
example :
    fillMemoryRegionsWithModuleData [lower, upper] 4 [] 0x1000 0x2800 =
      .regions [⟨0x1000, 0x1000⟩, ⟨0x3000, 0x2800⟩] := by
  decide

/-- Behind the last module the list is indexed with -1. -/
example :
    fillMemoryRegionsWithModuleData [lower] 4 [] 0x1000 0x1800 = .outside := by
  decide

theorem not_splits_gap : ¬ Splits [lower, upper] 0x1000 0x2800 := by
  intro hsplits
  have hfits : FitsSize [lower, upper] 0x1000 0x2800 := by
    intro mi hmi _
    rcases mem_pair.mp hmi with rfl | rfl <;> decide
  rcases covered_of_splits hfits hsplits with hempty | hcovered
  · cases hempty
  · obtain ⟨mi, hmi, hholds⟩ := hcovered 0x2000 (by decide) (by decide)
    rcases mem_pair.mp hmi with rfl | rfl
    · exact absurd hholds.2 (by decide)
    · exact absurd hholds.1 (by decide)

end CheatEngine.ModuleRegions
