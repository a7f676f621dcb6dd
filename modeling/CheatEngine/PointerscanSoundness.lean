import CheatEngine.PointerPaths
import CheatEngine.PointerValueListNearest
import CheatEngine.PointerscanRescan
import CheatEngine.PointerscanRscan

/-!
# Stored paths lead to the target

The scan goes from the target towards the bases and a path is followed the
other way.  A branch that `rscan` goes into is led: the offsets it has
collected so far lead from its address to the target.
-/

namespace CheatEngine
namespace Pointerscan
namespace Soundness

open List PointerPaths PointerValueList Rscan
open Rescan (addOffset)

structure SnapshotMap (memory : UInt64 → Option UInt64) extends
    BuiltHandler where
  value_at : ∀ entry ∈ toHandler.linkedList, ∀ data ∈ entry.list,
    memory data.address = some entry.pointervalue
  static_at : ∀ entry ∈ toHandler.linkedList, ∀ data ∈ entry.list,
    ∀ staticdata ∈ data.staticdata,
      ∃ found ∈ modulelist[staticdata.moduleindex.toNat]?,
        data.address = found.base + staticdata.offset.toUInt64
  modulelist_lt : modulelist.length < 2 ^ 31

/-- The settings of a scan of the map; `structsize` is an `integer`, and a heap
block lies around the addresses that are found in it. -/
structure ScanConfig {memory : UInt64 → Option UInt64}
    (map : SnapshotMap memory) extends Config where
  handler_eq : pointerlisthandler = map.toHandler
  structsize_lt : structsize.toNat < 2 ^ 31
  heapBase_le : ∀ address, ∀ base ∈ heapBase address,
    base ≤ address ∧ address.toNat - base.toNat < 2 ^ 32

def OffsetAllowed (config : Config) (level : ℕ) (address : UInt64)
    (offset : UInt32) : Prop :=
  offset.toNat ≤ config.structsize.toNat ∨
    (config.mustEndWithSpecificOffset = true ∧
      config.mustendwithoffsetlist[level]? = some offset) ∨
    (config.useHeapData = true ∧ ∃ base ∈ config.heapBase address,
      address = addOffset base offset)

def pathAddress (modulelist : List Module) (path : Path) : UInt64 :=
  match modulelist[path.moduleid.toNat]? with
  | some found => found.base + path.offset
  | none => path.offset

def reachedFrom (memory : UInt64 → Option UInt64) (offsets : List UInt32)
    (base : UInt64) : List UInt64 :=
  (reached addOffset memory offsets.reverse base).reverse

/-- The offsets lead from the base to the target, each is one that the
settings allow, and with `noLoop` no address is reached twice. -/
structure LeadsTo (config : Config) (memory : UInt64 → Option UInt64)
    (target : UInt64) (offsets : List UInt32) (base : UInt64) : Prop where
  leads : Leads addOffset memory offsets.reverse base target
  allowed : ∀ level : ℕ, ∀ offset ∈ offsets[level]?,
    ∀ address ∈ (reachedFrom memory offsets base)[level]?,
      OffsetAllowed config level address offset
  distinct : config.noLoop = true → (reachedFrom memory offsets base).Nodup

/-- The calls of `rscan` in the scan of a target. -/
inductive Searched (config : Config) (target : UInt64) : UInt64 → ℕ → Prop
  | target : Searched config target target 0
  | deeper {valuetofind startvalue stopvalue : UInt64} {level : ℕ}
      {plist : PointerList} {data : PointerData}
      (hcall : Searched config target valuetofind level)
      (hrange : searchRange config valuetofind level =
        some (startvalue, stopvalue))
      (hplist : plist ∈
        config.pointerlisthandler.findPointerValue startvalue stopvalue)
      (hdata : data ∈ plist.list) :
      Searched config target data.address (level + 1)

/-- The calls of a scan find the map to have a value up to their `stopvalue`. -/
def Answered (config : Config) (target : UInt64) : Prop :=
  ∀ valuetofind level, Searched config target valuetofind level →
    ∀ startvalue stopvalue, searchRange config valuetofind level =
        some (startvalue, stopvalue) →
      ∃ entry ∈ config.pointerlisthandler.linkedList,
        entry.pointervalue ≤ stopvalue

theorem addOffset_toUInt32 {pointer address : UInt64}
    (hle : pointer ≤ address)
    (hnear : address.toNat - pointer.toNat < 2 ^ 32) :
    addOffset pointer (address - pointer).toUInt32 = address ∧
      (address - pointer).toUInt32.toNat = address.toNat - pointer.toNat := by
  have hsub : (address - pointer).toNat = address.toNat - pointer.toNat :=
    UInt64.toNat_sub_of_le _ _ hle
  have hlow : (address - pointer).toUInt32.toNat =
      address.toNat - pointer.toNat := by
    rw [UInt64.toNat_toUInt32, hsub, Nat.mod_eq_of_lt hnear]
  refine ⟨?_, hlow⟩
  rw [UInt64.le_iff_toNat_le] at hle
  have hlt := address.toNat_lt
  rw [addOffset, ← UInt64.toNat_inj, UInt64.toNat_add, UInt32.toNat_toUInt64,
    hlow, Nat.add_sub_cancel' hle, Nat.mod_eq_of_lt hlt]

section

variable {config : Config} {memory : UInt64 → Option UInt64}
  {target base pointer address : UInt64} {offsets : List UInt32}
  {offset : UInt32}

theorem reachedFrom_append (hpointer : memory address = some pointer)
    (hbase : addOffset pointer offset = base) :
    reachedFrom memory (offsets ++ [offset]) address =
      reachedFrom memory offsets base ++ [base] := by
  rw [reachedFrom, reverse_append, reverse_singleton,
    singleton_append, reached_cons hpointer, hbase, reverse_cons]
  rfl

theorem LeadsTo.length_reachedFrom
    (hleads : LeadsTo config memory target offsets base) :
    (reachedFrom memory offsets base).length = offsets.length := by
  rw [reachedFrom, length_reverse, hleads.leads.length_reached, length_reverse]

theorem leadsTo_nil : LeadsTo config memory target [] target where
  leads := .here target
  allowed := by simp
  distinct := fun _ => nodup_nil

theorem LeadsTo.append (hleads : LeadsTo config memory target offsets base)
    (hnew : config.noLoop = true → base ∉ reachedFrom memory offsets base)
    (hpointer : memory address = some pointer)
    (hbase : addOffset pointer offset = base)
    (hallowed : OffsetAllowed config offsets.length base offset) :
    LeadsTo config memory target (offsets ++ [offset]) address where
  leads := by
    rw [reverse_append, reverse_singleton, singleton_append]
    exact .step hpointer (hbase ▸ hleads.leads)
  allowed := by
    rw [reachedFrom_append hpointer hbase]
    have hlength := hleads.length_reachedFrom
    intro level other hother reachedAt hreached
    rcases Nat.lt_or_ge level offsets.length with hlevel | hlevel
    · rw [getElem?_append_left hlevel] at hother
      rw [getElem?_append_left (by omega)] at hreached
      exact hleads.allowed level other hother reachedAt hreached
    · rw [getElem?_append_right hlevel] at hother
      rw [getElem?_append_right (by omega), hlength] at hreached
      have hlast : level = offsets.length := by
        have hbound := (List.getElem?_eq_some_iff.mp hother).1
        rw [length_singleton] at hbound
        omega
      subst hlast
      simp only [Nat.sub_self, getElem?_cons_zero, Option.mem_def,
        Option.some.injEq] at hother hreached
      rw [← hother, ← hreached]
      exact hallowed
  distinct := by
    intro hnoLoop
    rw [reachedFrom_append hpointer hbase, ← concat_eq_append]
    exact (hleads.distinct hnoLoop).concat (hnew hnoLoop)

end

section

variable {memory : UInt64 → Option UInt64} {map : SnapshotMap memory}

theorem offset_of_exact {valuetofind : UInt64} (offset : UInt32) :
    (valuetofind - (valuetofind - offset.toUInt64)).toUInt32 = offset ∧
      addOffset (valuetofind - offset.toUInt64) offset = valuetofind := by
  have hcancel : valuetofind - (valuetofind - offset.toUInt64) =
      offset.toUInt64 := by
    grind
  constructor
  · rw [hcancel, UInt32.toUInt32_toUInt64]
  · rw [addOffset]
    grind

theorem offset_of_near {config : ScanConfig map} {valuetofind pointer : UInt64}
    (hstart : (if valuetofind - config.structsize > valuetofind then 0
      else valuetofind - config.structsize) ≤ pointer)
    (hstop : pointer ≤ valuetofind) (level : ℕ) :
    addOffset pointer (valuetofind - pointer).toUInt32 = valuetofind ∧
      OffsetAllowed config.toConfig level valuetofind
        (valuetofind - pointer).toUInt32 := by
  have hsize := config.structsize_lt
  have hstopNat := UInt64.le_iff_toNat_le.mp hstop
  have hnear : valuetofind.toNat - pointer.toNat ≤
      config.structsize.toNat := by
    by_cases hwrap : valuetofind - config.structsize > valuetofind
    · have hless : ¬ config.structsize ≤ valuetofind := by
        intro hle
        have hsub := UInt64.toNat_sub_of_le _ _ hle
        rw [gt_iff_lt, UInt64.lt_iff_toNat_lt, hsub] at hwrap
        omega
      rw [UInt64.le_iff_toNat_le] at hless
      omega
    · rw [if_neg hwrap, UInt64.le_iff_toNat_le] at hstart
      have hle : config.structsize ≤ valuetofind := by
        by_contra hless
        rw [UInt64.not_le, UInt64.lt_iff_toNat_lt] at hless
        apply hwrap
        rw [gt_iff_lt, UInt64.lt_iff_toNat_lt, UInt64.toNat_sub]
        omega
      rw [UInt64.toNat_sub_of_le _ _ hle] at hstart
      omega
  obtain ⟨hleads, hvalue⟩ := addOffset_toUInt32 hstop
    (lt_of_le_of_lt hnear (by omega))
  refine ⟨hleads, .inl ?_⟩
  rw [hvalue]
  exact hnear

/-- A value in the range of the search gives an offset that is allowed and
leads back to the value that is looked for. -/
theorem offset_of_searchRange {config : ScanConfig map}
    {valuetofind startvalue stopvalue : UInt64} {level : ℕ}
    (hrange : searchRange config.toConfig valuetofind level =
      some (startvalue, stopvalue)) {pointer : UInt64}
    (hstart : startvalue ≤ pointer) (hstop : pointer ≤ stopvalue) :
    addOffset pointer (valuetofind - pointer).toUInt32 = valuetofind ∧
      OffsetAllowed config.toConfig level valuetofind
        (valuetofind - pointer).toUInt32 := by
  unfold searchRange at hrange
  split at hrange
  · rename_i hexact
    cases hrange
    have hpointer := UInt64.le_antisymm hstop hstart
    subst hpointer
    obtain ⟨hoffset, hleads⟩ := @offset_of_exact valuetofind
      (config.mustendwithoffsetlist.getD level 0)
    rw [hoffset]
    refine ⟨hleads, .inr (.inl ⟨hexact.1, ?_⟩)⟩
    rw [getD_eq_getElem?_getD, getElem?_eq_getElem hexact.2, Option.getD_some]
  · dsimp only at hrange
    split at hrange
    · rename_i huseHeap
      cases hheap : config.heapBase valuetofind with
      | some base =>
        rw [hheap] at hrange
        cases hrange
        have hpointer := UInt64.le_antisymm hstop hstart
        subst hpointer
        obtain ⟨hle, hnear⟩ := config.heapBase_le valuetofind pointer hheap
        obtain ⟨hleads, -⟩ := addOffset_toUInt32 hle hnear
        exact ⟨hleads, .inr (.inr ⟨huseHeap, pointer, hheap, hleads.symm⟩)⟩
      | none =>
        simp only [hheap] at hrange
        split at hrange
        · cases hrange
        · cases hrange
          exact offset_of_near hstart hstop level
    · cases hrange
      exact offset_of_near hstart hstop level

end

/-! ## Stored paths -/

section

variable {config : Config}

theorem mem_entriesPaths {branch : UInt64 → Multiset Path} {level : ℕ}
    {offsets : List UInt32} {dontGoDeeper : Bool} {list : List PointerData}
    {path : Path} (hpath : path ∈
      entriesPaths config branch level offsets dontGoDeeper list) :
    ∃ data ∈ list, path ∈ branch data.address ∨
      path = { level, moduleid := -1, offset := data.address, offsets } ∨
      ∃ staticdata ∈ data.staticdata,
        path = { level
                 moduleid := staticdata.moduleindex
                 offset := staticdata.offset.toUInt64
                 offsets } := by
  induction list generalizing dontGoDeeper with
  | nil => simp [entriesPaths] at hpath
  | cons data rest ih =>
    rw [entriesPaths] at hpath
    cases hstatic : data.staticdata with
    | none =>
      simp only [hstatic, Multiset.mem_add] at hpath
      rcases hpath with hhere | hrest
      · refine ⟨data, by simp, ?_⟩
        split at hhere
        · simp at hhere
        · rcases Multiset.mem_add.mp hhere with hbranch | hplain
          · exact .inl hbranch
          · unfold plainPath at hplain
            split at hplain
            · simp at hplain
            · exact .inr (.inl (Multiset.mem_singleton.mp hplain))
      · obtain ⟨other, hother, hcases⟩ := ih hrest
        exact ⟨other, mem_cons_of_mem _ hother, hcases⟩
    | some staticdata =>
      simp only [hstatic, Multiset.mem_add, Multiset.mem_singleton] at hpath
      rcases hpath with hhere | hrest
      · exact ⟨data, by simp, .inr (.inr ⟨staticdata, hstatic, hhere⟩)⟩
      · obtain ⟨other, hother, hcases⟩ := ih hrest
        exact ⟨other, mem_cons_of_mem _ hother, hcases⟩

theorem mem_nodesPaths {branch : List UInt32 → UInt64 → Multiset Path}
    {valuetofind startvalue : UInt64} {level count : ℕ}
    {before : List UInt32} {dontGoDeeper : Bool} {plists : List PointerList}
    {path : Path}
    (hpath : path ∈ nodesPaths config branch valuetofind level before
      startvalue dontGoDeeper count plists) :
    ∃ plist ∈ plists, startvalue ≤ plist.pointervalue ∧ ∃ dontGoDeeper,
      path ∈ entriesPaths config
        (branch (before ++ [(valuetofind - plist.pointervalue).toUInt32]))
        level (before ++ [(valuetofind - plist.pointervalue).toUInt32])
        dontGoDeeper plist.list := by
  induction plists generalizing dontGoDeeper count with
  | nil => simp [nodesPaths] at hpath
  | cons plist previous ih =>
    rw [nodesPaths] at hpath
    split at hpath
    · rename_i hstart
      rcases Multiset.mem_add.mp hpath with hhere | hrest
      · exact ⟨plist, by simp, hstart, dontGoDeeper, hhere⟩
      · split at hrest
        · simp at hrest
        · obtain ⟨other, hother, hcases⟩ := ih hrest
          exact ⟨other, mem_cons_of_mem _ hother, hcases⟩
    · simp at hpath

end

section

variable {memory : UInt64 → Option UInt64} {map : SnapshotMap memory}

/-- A stored path: its offsets lead to the target, and there are at most
`maxlevel` of them. -/
structure SoundPath (config : ScanConfig map) (target : UInt64)
    (path : Path) : Prop where
  leads : LeadsTo config.toConfig memory target path.offsets
    (pathAddress map.modulelist path)
  length_eq : path.offsets.length = path.level + 1
  level_lt : path.level < config.maxlevel

variable {offsets : List UInt32}

theorem pathAddress_plain {address : UInt64} {level : ℕ} :
    pathAddress map.modulelist
      { level, moduleid := -1, offset := address, offsets } = address := by
  have hnone : map.modulelist[(-1 : UInt32).toNat]? = none := by
    rw [getElem?_eq_none]
    exact le_trans map.modulelist_lt.le (by decide)
  rw [pathAddress]
  dsimp only
  rw [hnone]

theorem pathAddress_static {entry : PointerList}
    (hentry : entry ∈ map.toHandler.linkedList) {data : PointerData}
    (hdata : data ∈ entry.list) {staticdata : StaticData}
    (hstatic : staticdata ∈ data.staticdata) {level : ℕ} :
    pathAddress map.modulelist
        { level, moduleid := staticdata.moduleindex
          offset := staticdata.offset.toUInt64, offsets } =
      data.address := by
  obtain ⟨found, hfound, haddress⟩ :=
    map.static_at entry hentry data hdata staticdata hstatic
  rw [pathAddress]
  dsimp only
  rw [Option.mem_def.mp hfound, haddress]

theorem branchPaths_sound {config : ScanConfig map} {target : UInt64}
    (hanswered : Answered config.toConfig target) {depth : ℕ}
    {values : List UInt64} {valuetofind : UInt64}
    (hdepth : depth + offsets.length = config.maxlevel)
    (hcall : Searched config.toConfig target valuetofind offsets.length)
    (hleads : LeadsTo config.toConfig memory target offsets valuetofind)
    (hvalues : config.noLoop = true →
      values = reachedFrom memory offsets valuetofind) {path : Path}
    (hpath : path ∈
      branchPaths config.toConfig depth offsets values valuetofind) :
    SoundPath config target path := by
  induction depth generalizing offsets values valuetofind with
  | zero => simp [branchPaths] at hpath
  | succ depth ih =>
    rw [branchPaths] at hpath
    split at hpath
    · simp at hpath
    · rename_i startvalue stopvalue hrange
      split at hpath
      · simp at hpath
      · rename_i hloop
        obtain ⟨plist, hplist, hstart, dontGoDeeper, hentries⟩ :=
          mem_nodesPaths hpath
        obtain ⟨data, hdata, hcases⟩ := mem_entriesPaths hentries
        have hbelow := hanswered valuetofind offsets.length hcall
          startvalue stopvalue hrange
        have hchain := hplist
        rw [config.handler_eq] at hbelow hchain
        obtain ⟨hmem, hstop⟩ :=
          map.toBuiltHandler.findPointerValue_le hbelow hchain
        obtain ⟨hoffset, hallowed⟩ :=
          offset_of_searchRange hrange hstart hstop
        have hnew : config.noLoop = true →
            valuetofind ∉ reachedFrom memory offsets valuetofind := by
          intro hnoLoop hseen
          exact hloop ⟨hnoLoop, hvalues hnoLoop ▸ hseen⟩
        have hpointer := map.value_at plist hmem data hdata
        have hnext := hleads.append hnew hpointer hoffset hallowed
        have hlength : ∀ offset : UInt32,
            (offsets ++ [offset]).length = offsets.length + 1 := by simp
        rcases hcases with hbranch | rfl | ⟨staticdata, hstatic, rfl⟩
        · apply ih _ _ hnext _ hbranch
          · rw [hlength]
            omega
          · rw [hlength]
            exact .deeper hcall hrange hplist hdata
          · intro hnoLoop
            rw [reachedFrom_append hpointer hoffset, valuesAfter,
              if_pos hnoLoop, hvalues hnoLoop]
        · exact { leads := pathAddress_plain.symm ▸ hnext
                  length_eq := hlength _
                  level_lt := by dsimp only; omega }
        · exact { leads := (pathAddress_static hmem hdata hstatic).symm ▸ hnext
                  length_eq := hlength _
                  level_lt := by dsimp only; omega }

theorem rscan_sound (config : ScanConfig map) {target : UInt64}
    (hanswered : Answered config.toConfig target) (tempresults : ℕ → UInt32)
    (valuelist : ℕ → UInt64) :
    ∀ path ∈ (rscan config.toConfig config.maxlevel
        { tempresults, valuelist, stored := [] } target 0).stored,
      SoundPath config target path := by
  intro path hpath
  have hstored := (rscan_spec config.toConfig config.maxlevel
    (Nat.sub_zero _).symm { tempresults, valuelist, stored := [] } target).1
  rw [← Multiset.mem_coe, hstored, Multiset.coe_nil, zero_add] at hpath
  apply branchPaths_sound hanswered _ .target leadsTo_nil _ hpath
  · rfl
  · intro hnoLoop
    simp [Arrays.values, hnoLoop, firstEntries, reachedFrom, reached]

end

def onePointer : PointerList :=
  { newPointerList 0x1000 with
    list := [{ address := 0x5000, staticdata := none }] }

def onePointerTable : RadixTree.Table PointerList 7 :=
  findoraddpointervalue 0x1000
    (fun entry => { entry with list := onePointer.list }) .nil

theorem toList_onePointerTable :
    RadixTree.toList 7 onePointerTable = [onePointer] := by
  decide

def onePointerMap : SnapshotMap fun address =>
    if address = 0x5000 then some 0x1000 else none where
  maxlevel := 7
  level0list := onePointerTable
  count := 1
  modulelist := []
  specificBaseAsStaticOnly := false
  basestart := 0
  basestop := 0
  built := .add .nil (by decide) fun _ => rfl
  nonempty := by
    change RadixTree.toList 7 onePointerTable ≠ []
    rw [toList_onePointerTable]
    simp
  value_at := by
    change ∀ entry ∈ RadixTree.toList 7 onePointerTable, _
    rw [toList_onePointerTable]
    decide
  static_at := by
    change ∀ entry ∈ RadixTree.toList 7 onePointerTable, _
    rw [toList_onePointerTable]
    simp [onePointer]
  modulelist_lt := by decide

def heapScan : ScanConfig onePointerMap where
  pointerlisthandler := onePointerMap.toHandler
  maxlevel := 1
  structsize := 0x10
  mustEndWithSpecificOffset := false
  mustendwithoffsetlist := []
  useHeapData := true
  useOnlyHeapData := false
  heapBase := fun address => if address = 0x2000 then some 0x1000 else none
  onlyOneStaticInPath := false
  staticonly := false
  noLoop := true
  limitToMaxOffsetsPerNode := false
  maxOffsetsPerNode := 0
  handler_eq := rfl
  structsize_lt := by decide
  heapBase_le := by
    intro address base hbase
    rw [Option.mem_def] at hbase
    split at hbase
    · rename_i haddress
      cases hbase
      rw [haddress]
      decide
    · cases hbase

theorem heapScan_answered : Answered heapScan.toConfig 0x2000 := by
  have hlinked : heapScan.pointerlisthandler.linkedList = [onePointer] :=
    toList_onePointerTable
  intro valuetofind level hcall startvalue stopvalue hrange
  have hsearched : valuetofind = 0x2000 ∨ valuetofind = 0x5000 := by
    rcases hcall with _ | ⟨-, -, hplist, hdata⟩
    · exact .inl rfl
    · have hmem := mem_findPointerValue hplist
      rw [hlinked, mem_singleton] at hmem
      subst hmem
      rw [mem_singleton.mp hdata]
      exact .inr rfl
  refine ⟨onePointer, by rw [hlinked]; simp, ?_⟩
  rcases hsearched with rfl | rfl
  · have hvalue : searchRange heapScan.toConfig 0x2000 level =
        some (0x1000, 0x1000) := by
      simp [searchRange, heapScan]
    rw [hvalue] at hrange
    cases hrange
    decide
  · have hvalue : searchRange heapScan.toConfig 0x5000 level =
        some (0x4ff0, 0x5000) := by
      simp [searchRange, heapScan]
    rw [hvalue] at hrange
    cases hrange
    decide

def heapPath : Path where
  level := 0
  moduleid := -1
  offset := 0x5000
  offsets := [0x1000]

theorem rscan_sound_heapScan : SoundPath heapScan 0x2000 heapPath := by
  have hstored : heapPath ∈ (rscan heapScan.toConfig 1
      { tempresults := fun _ => 0, valuelist := fun _ => 0
        stored := [] } 0x2000 0).stored := by
    decide
  exact rscan_sound heapScan heapScan_answered _ _ heapPath hstored

theorem rscan_stores_heap_offset :
    (rscan heapScan.toConfig 1
        { tempresults := fun _ => 0, valuelist := fun _ => 0
          stored := [] } 0x2000 0).stored =
      [{ level := 0, moduleid := -1, offset := 0x5000
         offsets := [0x1000] }] ∧
      heapScan.structsize < 0x1000 ∧
      0x1000 ∉ heapScan.mustendwithoffsetlist := by
  refine ⟨?_, ?_, ?_⟩
  · decide
  · decide
  · decide

end Soundness
end Pointerscan
end CheatEngine
