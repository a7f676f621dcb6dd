import CheatEngine.PointerAddressListLoad
import CheatEngine.PointerPaths

/-!
# The instant rescan

`DoRescan` follows a path that was just found through every loaded pointer
map.  Its verdict is compared with the path that begins at the module base
which the map has for the module's name, with the whole module offset.
-/

namespace CheatEngine
namespace Pointerscan
namespace Rescan

open List PointerAddressList PointerPaths
open PointerValueList (Module)

/-- The parameters are of type `integer`; `moduleindex` is -1 for an address
outside the modules. -/
def getAddressFromModuleIndexPlusOffset (handler : PointerListHandler)
    (moduleindex offset : Int32) : UInt64 :=
  if 0 ≤ moduleindex then
    ((handler.modulelist[moduleindex.toNatClampNeg]?).map Module.base).getD 0 +
      offset.toInt64.toUInt64
  else
    offset.toInt64.toUInt64

def walk (handler : PointerListHandler) (tempresults : ℕ → UInt32) :
    ℕ → UInt64 → Option UInt64
  | 0, a => some a
  | j + 1, a =>
    let pointer := handler.getPointer a
    if pointer = 0 then none
    else walk handler tempresults j (pointer + (tempresults j).toUInt64)

def doRescan (instantrescanlist : List (PointerListHandler × UInt64))
    (tempresults : ℕ → UInt32) (level : ℕ) (moduleid : Int32)
    (offset : UInt64) : Bool :=
  instantrescanlist.all fun (handler, address) =>
    walk handler tempresults (level + 1)
      (getAddressFromModuleIndexPlusOffset handler moduleid
        offset.toUInt32.toInt32) == some address

def pointerAt (handler : PointerListHandler) (address : UInt64) :
    Option UInt64 :=
  if handler.getPointer address = 0 then none
  else some (handler.getPointer address)

def addOffset (pointer : UInt64) (offset : UInt32) : UInt64 :=
  pointer + offset.toUInt64

def offsetsDown (tempresults : ℕ → UInt32) (count : ℕ) : List UInt32 :=
  ((List.range count).map tempresults).reverse

section

variable {Folded : Type*} [DecidableEq Folded] (fold : List UInt8 → Folded)

def moduleBase (modulelist : List Module) (name : List UInt8) : UInt64 :=
  ((modulelist.find? fun entry => fold entry.name = fold name).map
    Module.base).getD 0

/-- A loaded map with the address its paths have to end in; the names tell its
modules apart. -/
structure RescanMap where
  handler : PointerListHandler
  address : UInt64
  names_distinct :
    (handler.modulelist.map fun entry => fold entry.name).Nodup
  names_ne_missing : ∀ entry ∈ handler.modulelist,
    fold entry.name ≠ fold missing.name

def RescanMap.reordered {fold : List UInt8 → Folded} (map : RescanMap fold)
    (ml : List (List UInt8)) : PointerListHandler × UInt64 :=
  ({ map.handler with
     modulelist := reorderModuleIdList fold ml map.handler.modulelist },
    map.address)

/-- The base of a path; the module id counts in the list of the scan. -/
def pathBase (ml : List (List UInt8)) (modulelist : List Module)
    (moduleid : Int32) (offset : UInt64) : UInt64 :=
  if 0 ≤ moduleid then
    moduleBase fold modulelist (ml.getD moduleid.toNatClampNeg []) + offset
  else
    offset

def Reaches {fold : List UInt8 → Folded} (ml : List (List UInt8))
    (map : RescanMap fold) (tempresults : ℕ → UInt32) (level : ℕ)
    (moduleid : Int32) (offset : UInt64) : Prop :=
  Leads addOffset (pointerAt map.handler) (offsetsDown tempresults (level + 1))
    (pathBase fold ml map.handler.modulelist moduleid offset) map.address

end

/-- The offset is one that an `integer` can hold. -/
def FitsInteger (offset : UInt64) : Prop :=
  -2 ^ 31 ≤ offset.toInt64.toInt ∧ offset.toInt64.toInt < 2 ^ 31

theorem offsetsDown_succ (tempresults : ℕ → UInt32) (count : ℕ) :
    offsetsDown tempresults (count + 1) =
      tempresults count :: offsetsDown tempresults count := by
  simp [offsetsDown, range_succ]

theorem walk_eq_follow (handler : PointerListHandler)
    (tempresults : ℕ → UInt32) (count : ℕ) (base : UInt64) :
    walk handler tempresults count base =
      follow addOffset (pointerAt handler) (offsetsDown tempresults count)
        base := by
  induction count generalizing base with
  | zero => rfl
  | succ count ih =>
    rw [offsetsDown_succ, follow, walk, pointerAt]
    by_cases hzero : handler.getPointer base = 0
    · simp [hzero]
    · simp [hzero, ih, addOffset]

theorem doRescan_iff {instantrescanlist : List (PointerListHandler × UInt64)}
    {tempresults : ℕ → UInt32} {level : ℕ} {moduleid : Int32}
    {offset : UInt64} :
    doRescan instantrescanlist tempresults level moduleid offset = true ↔
      ∀ map ∈ instantrescanlist, Leads addOffset (pointerAt map.1)
        (offsetsDown tempresults (level + 1))
        (getAddressFromModuleIndexPlusOffset map.1 moduleid
          offset.toUInt32.toInt32) map.2 := by
  simp only [doRescan, all_eq_true, beq_iff_eq, walk_eq_follow,
    leads_iff_follow]

theorem toInt_toUInt32_toInt32 (offset : UInt64) :
    offset.toUInt32.toInt32.toInt = offset.toInt64.toInt.bmod (2 ^ 32) := by
  have hnarrow : offset.toUInt32.toInt32 = Int32.ofNat offset.toNat := by
    conv_lhs => rw [← UInt64.ofNat_toNat (x := offset)]
    rw [UInt64.toUInt32_ofNat', UInt32.toInt32_ofNat']
  have hwide : offset.toInt64 = Int64.ofNat offset.toNat := by
    conv_lhs => rw [← UInt64.ofNat_toNat (x := offset)]
    rw [UInt64.toInt64_ofNat']
  have hdvd : Int32.size ∣ Int64.size := by decide
  rw [hnarrow, hwide, Int32.toInt_ofNat', Int64.toInt_ofNat']
  exact (Int.bmod_bmod_of_dvd hdvd).symm

theorem toInt64_toUInt64_eq_iff (offset : UInt64) :
    offset.toUInt32.toInt32.toInt64.toUInt64 = offset ↔
      FitsInteger offset := by
  have hsigned : offset.toUInt32.toInt32.toInt64.toUInt64 = offset ↔
      offset.toUInt32.toInt32.toInt64.toInt = offset.toInt64.toInt := by
    rw [Int64.toInt_inj]
    constructor
    · intro heq
      rw [← Int64.toInt64_toUInt64 offset.toUInt32.toInt32.toInt64, heq]
    · intro heq
      rw [heq, UInt64.toUInt64_toInt64]
  rw [hsigned, Int32.toInt_toInt64, toInt_toUInt32_toInt32, FitsInteger,
    Int.bmod_eq_iff (by decide), sub_self]
  constructor
  · rintro ⟨hlow, hhigh, -⟩
    constructor
    · exact le_trans (by decide) hlow
    · exact lt_of_lt_of_le hhigh (by decide)
  · rintro ⟨hlow, hhigh⟩
    refine ⟨le_trans (by decide) hlow, lt_of_lt_of_le hhigh (by decide), ?_⟩
    exact dvd_zero _

section

variable {Folded : Type*} [DecidableEq Folded] {fold : List UInt8 → Folded}

variable {name : List UInt8} {ml : List (List UInt8)}

theorem find?_eq_of_mem {modulelist : List Module} {entry : Module}
    (hdistinct : (modulelist.map fun entry => fold entry.name).Nodup)
    (hentry : entry ∈ modulelist) (hname : fold entry.name = fold name) :
    (modulelist.find? fun other => fold other.name = fold name) =
      some entry := by
  have hsome : (modulelist.find? fun other =>
      fold other.name = fold name).isSome := by
    rw [find?_isSome]
    exact ⟨entry, hentry, by simpa using hname⟩
  obtain ⟨found, hfound⟩ := Option.isSome_iff_exists.mp hsome
  have hsame : fold found.name = fold name := by
    simpa using find?_some hfound
  have heq := inj_on_of_nodup_map hdistinct
    (mem_of_find?_eq_some hfound) hentry (hsame.trans hname.symm)
  rw [hfound, heq]

theorem moduleBase_eq_zero {modulelist : List Module}
    (habsent : ∀ entry ∈ modulelist, fold entry.name ≠ fold name) :
    moduleBase fold modulelist name = 0 := by
  have hnone : (modulelist.find? fun entry => fold entry.name = fold name) =
      none := by
    rw [find?_eq_none]
    intro entry hentry
    simpa using habsent entry hentry
  rw [moduleBase, hnone]
  rfl

theorem base_reordered (hdistinct : (ml.map fold).Nodup)
    (map : RescanMap fold) {i : ℕ} (hname : ml[i]? = some name) :
    (((reorderModuleIdList fold ml map.handler.modulelist)[i]?).map
      Module.base).getD 0 =
        moduleBase fold map.handler.modulelist name := by
  obtain ⟨entry, hentry, hsame, hsource⟩ :=
    (reorderModuleIdList_bases hdistinct map.handler.modulelist) i name hname
  rw [Option.mem_def.mp hentry, Option.map_some, Option.getD_some]
  rcases hsource with hmem | ⟨hzero, habsent | ⟨-, hmissing⟩⟩
  · rw [moduleBase, find?_eq_of_mem map.names_distinct hmem hsame]
    rfl
  · rw [moduleBase_eq_zero (indexOf_eq_none_iff.mp habsent), hzero]
  · rw [hzero, moduleBase_eq_zero]
    intro other hother
    rw [← hmissing]
    exact map.names_ne_missing other hother

/-! ## When the rescan decides exactly -/

theorem getAddress_reordered (hdistinct : (ml.map fold).Nodup)
    {moduleid : Int32} (hmodule : moduleid.toInt < ml.length)
    (offset : Int32) (map : RescanMap fold) :
    getAddressFromModuleIndexPlusOffset (map.reordered ml).1 moduleid offset =
      pathBase fold ml map.handler.modulelist moduleid
        offset.toInt64.toUInt64 := by
  rw [getAddressFromModuleIndexPlusOffset, pathBase]
  by_cases hindex : 0 ≤ moduleid
  · have hlt : moduleid.toNatClampNeg < ml.length := by
      have hpositive := Int32.le_iff_toInt_le.mp hindex
      rw [Int32.toInt_zero] at hpositive
      rw [Int32.toNatClampNeg]
      omega
    rw [if_pos hindex, if_pos hindex, getD_eq_getElem?_getD,
      getElem?_eq_getElem hlt, Option.getD_some]
    congr 1
    exact base_reordered hdistinct map (getElem?_eq_getElem hlt)
  · rw [if_neg hindex, if_neg hindex]

theorem pathBase_nil (ml : List (List UInt8)) (moduleid : Int32)
    (offset : UInt64) : pathBase fold ml [] moduleid offset = offset := by
  unfold pathBase
  split
  · exact UInt64.zero_add offset
  · rfl

def oneBlock (offset : UInt64) : PointerListHandler where
  pmap := fun base =>
    if base = blockBase offset then some fun _ => 1 else none
  modulelist := []
  is32bit := false

theorem getPointer_oneBlock (offset address : UInt64) :
    (oneBlock offset).getPointer address =
      if blockBase address = blockBase offset then 0x0101010101010101
      else 0 := by
  unfold PointerListHandler.getPointer readPointer oneBlock
  by_cases hbase : blockBase address = blockBase offset
  · have hload : ByteMemory.load (fun _ => (1 : UInt8)) (blockOffset address)
        (pointerSize false) = List.replicate 8 1 := by
      rw [ByteMemory.load, map_const', length_range]
      rfl
    simp only [hbase, if_true, hload]
    decide
  · simp only [hbase, if_false]

theorem emod_toNat_eq (value : UInt64) :
    (value.toNat : ℤ) % 65536 = value.toInt64.toInt % 65536 := by
  have hsigned : value.toInt64.toInt = (value.toNat : ℤ).bmod (2 ^ 64) := by
    conv_lhs => rw [← UInt64.ofNat_toNat (x := value)]
    rw [UInt64.toInt64_ofNat', Int64.toInt_ofNat']
    rfl
  have hdvd : (65536 : ℤ) ∣ value.toInt64.toInt - value.toNat := by
    rw [hsigned]
    exact dvd_trans (by decide) Int.dvd_bmod_sub_self
  omega

theorem blockBase_ne_of_not_fits {offset : UInt64}
    (hfits : ¬ FitsInteger offset) :
    blockBase offset.toUInt32.toInt32.toInt64.toUInt64 ≠
      blockBase offset := by
  intro hbase
  apply hfits
  rw [← toInt64_toUInt64_eq_iff, ← UInt64.toNat_inj]
  have hbases := congrArg UInt64.toNat hbase
  have hlow : (offset.toUInt32.toInt32.toInt64.toUInt64.toNat : ℤ) % 65536 =
      offset.toNat % 65536 := by
    have hdvd : (65536 : ℤ) ∣ offset.toInt64.toInt.bmod (2 ^ 32) -
        offset.toInt64.toInt := dvd_trans (by decide) Int.dvd_bmod_sub_self
    rw [emod_toNat_eq, emod_toNat_eq, Int64.toInt64_toUInt64,
      Int32.toInt_toInt64, toInt_toUInt32_toInt32]
    omega
  rw [blockBase_toNat, blockBase_toNat] at hbases
  omega

def oneBlockMap (fold : List UInt8 → Folded) (offset : UInt64) :
    RescanMap fold where
  handler := oneBlock offset
  address := 0x0101010101010101
  names_distinct := nodup_nil
  names_ne_missing := by simp [oneBlock]

theorem reaches_oneBlock (ml : List (List UInt8)) (moduleid : Int32)
    (offset : UInt64) :
    Reaches ml (oneBlockMap fold offset) (fun _ => 0) 0 moduleid offset := by
  have hpointer : pointerAt (oneBlock offset) offset =
      some 0x0101010101010101 := by
    rw [pointerAt, getPointer_oneBlock, if_pos rfl, if_neg]
    decide
  change Leads _ _ _ (pathBase fold ml [] moduleid offset) _
  rw [pathBase_nil]
  apply Leads.step hpointer
  exact .here _

theorem doRescan_oneBlock (hdistinct : (ml.map fold).Nodup)
    {moduleid : Int32} (hmodule : moduleid.toInt < ml.length)
    {offset : UInt64} (hfits : ¬ FitsInteger offset) :
    doRescan [(oneBlockMap fold offset).reordered ml] (fun _ => 0) 0 moduleid
      offset = false := by
  have hnone : ((oneBlockMap fold offset).reordered ml).1.getPointer
      offset.toUInt32.toInt32.toInt64.toUInt64 = 0 := by
    change (oneBlock offset).getPointer _ = 0
    rw [getPointer_oneBlock, if_neg (blockBase_ne_of_not_fits hfits)]
  have hbase := getAddress_reordered hdistinct hmodule
    offset.toUInt32.toInt32 (oneBlockMap fold offset)
  rw [show (oneBlockMap fold offset).handler.modulelist = [] from rfl,
    pathBase_nil] at hbase
  simp [doRescan, walk, hbase, hnone]

theorem doRescan_exact_iff {ml : List (List UInt8)}
    (hdistinct : (ml.map fold).Nodup) {moduleid : Int32}
    (hmodule : moduleid.toInt < ml.length) (offset : UInt64) :
    (∀ (maps : List (RescanMap fold)) (tempresults : ℕ → UInt32) (level : ℕ),
      doRescan (maps.map fun map => map.reordered ml) tempresults level
          moduleid offset = true ↔
        ∀ map ∈ maps, Reaches ml map tempresults level moduleid offset) ↔
      FitsInteger offset := by
  constructor
  · intro hexact
    by_contra hfits
    have haccepts := (hexact [oneBlockMap fold offset] (fun _ => 0) 0).mpr
      (forall_mem_singleton.mpr (reaches_oneBlock ml moduleid offset))
    rw [map_singleton, doRescan_oneBlock hdistinct hmodule hfits]
      at haccepts
    cases haccepts
  · intro hfits maps tempresults level
    rw [doRescan_iff]
    simp only [forall_mem_map, getAddress_reordered hdistinct hmodule,
      (toInt64_toUInt64_eq_iff offset).mpr hfits]
    rfl

theorem doRescan_exact_iff_lowOffset :
    (∀ (maps : List (RescanMap (id : List UInt8 → List UInt8)))
        (tempresults : ℕ → UInt32) (level : ℕ),
      doRescan (maps.map fun map => map.reordered [[97]]) tempresults level
          0 0x1000 = true ↔
        ∀ map ∈ maps, Reaches [[97]] map tempresults level 0 0x1000) ↔
      FitsInteger 0x1000 :=
  doRescan_exact_iff (by decide) (by decide) 0x1000

def highMap : RescanMap (id : List UInt8 → List UInt8) where
  handler :=
    { pmap := storePointer (fun _ _ => 0) true 0x2000 0x80001000 fun _ => none
      modulelist := [{ name := [97], base := 0x400000 }]
      is32bit := true }
  address := 0x2010
  names_distinct := by decide
  names_ne_missing := by decide

theorem doRescan_rejects_highAddress :
    Reaches [[97]] highMap (fun _ => 0x10) 0 (-1) 0x80001000 ∧
      doRescan [highMap.reordered [[97]]] (fun _ => 0x10) 0 (-1) 0x80001000 =
        false := by
  constructor
  · rw [Reaches, leads_iff_follow]
    decide
  · decide

end

end Rescan
end Pointerscan
end CheatEngine
