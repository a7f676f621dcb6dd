import CheatEngine.PointerValueListSearch

/-!
# The recursive pointer scan

`rscan` looks for addresses that point below the value it is asked for, stores
the paths that end in them and goes on from these addresses one level deeper.
It works on the two arrays of its worker: `tempresults` holds the offsets of
the path and `valuelist` the values on it.

The paths below a branch are also given here without the arrays, as a function
of the offsets and values that lead to the branch.  `rscan` stores exactly
these paths and leaves the part of the arrays that leads to the branch alone.
-/

namespace CheatEngine
namespace Pointerscan
namespace Rscan

open PointerValueList

/-- The settings of a scanner.  `heapBase` is the block that
`frmMemoryAllocHandler` knows at an address. -/
structure Config where
  pointerlisthandler : Handler
  maxlevel : ℕ
  structsize : UInt64
  mustEndWithSpecificOffset : Bool
  mustendwithoffsetlist : List UInt32
  useHeapData : Bool
  useOnlyHeapData : Bool
  heapBase : UInt64 → Option UInt64
  onlyOneStaticInPath : Bool
  staticonly : Bool
  noLoop : Bool
  limitToMaxOffsetsPerNode : Bool
  maxOffsetsPerNode : ℤ

structure Path where
  level : ℕ
  moduleid : UInt32
  offset : UInt64
  offsets : List UInt32
deriving DecidableEq, Repr

structure Arrays where
  tempresults : ℕ → UInt32
  valuelist : ℕ → UInt64
  stored : List Path

def firstEntries {α : Type} (entries : ℕ → α) (size : ℕ) : List α :=
  (List.range size).map entries

def Arrays.storePath (arrays : Arrays) (level : ℕ) (moduleid : UInt32)
    (offset : UInt64) : Arrays :=
  { arrays with
    stored := arrays.stored ++
      [{ level, moduleid, offset
         offsets := firstEntries arrays.tempresults (level + 1) }] }

def Arrays.setOffset (arrays : Arrays) (level : ℕ) (offset : UInt32) :
    Arrays :=
  { arrays with
    tempresults := Function.update arrays.tempresults level offset }

def Arrays.setValue (arrays : Arrays) (level : ℕ) (value : UInt64) : Arrays :=
  { arrays with valuelist := Function.update arrays.valuelist level value }

/-- `startvalue` and `stopvalue`, unless the value is outside the heap and only
heap data is used. -/
def searchRange (config : Config) (valuetofind : UInt64) (level : ℕ) :
    Option (UInt64 × UInt64) :=
  if config.mustEndWithSpecificOffset = true ∧
      level < config.mustendwithoffsetlist.length then
    let startvalue :=
      valuetofind - (config.mustendwithoffsetlist.getD level 0).toUInt64
    some (startvalue, startvalue)
  else
    let low := valuetofind - config.structsize
    let startvalue := if low > valuetofind then 0 else low
    if config.useHeapData then
      match config.heapBase valuetofind with
      | some base => some (base, base)
      | none =>
        if config.useOnlyHeapData then none
        else some (startvalue, valuetofind)
    else
      some (startvalue, valuetofind)

/-- Everything before the `while` loop, with the entries it will go through. -/
def enter (config : Config) (arrays : Arrays) (valuetofind : UInt64)
    (level : ℕ) : Option (UInt64 × List PointerList × Arrays) :=
  match searchRange config valuetofind level with
  | none => none
  | some (startvalue, stopvalue) =>
    if config.noLoop = true ∧
        valuetofind ∈ firstEntries arrays.valuelist level then
      none
    else
      some (startvalue,
        config.pointerlisthandler.findPointerValue startvalue stopvalue,
        if config.noLoop then arrays.setValue level valuetofind else arrays)

/-- `DifferentOffsetsInThisNode` after one more entry. -/
def Config.countOffset (config : Config) (level count : ℕ) : ℕ :=
  if config.limitToMaxOffsetsPerNode = true ∧ 0 < level then count + 1
  else count

def Config.limitReached (config : Config) (count : ℕ) : Bool :=
  config.limitToMaxOffsetsPerNode && decide (config.maxOffsetsPerNode ≤ count)

/-- The loop over the addresses of one value, and `DontGoDeeper` after it. -/
def scanEntries (config : Config) (branch : Arrays → UInt64 → Arrays)
    (level : ℕ) : Arrays → Bool → List PointerData → Arrays × Bool
  | arrays, dontGoDeeper, [] => (arrays, dontGoDeeper)
  | arrays, dontGoDeeper, entry :: rest =>
    match entry.staticdata with
    | none =>
      if dontGoDeeper then
        scanEntries config branch level arrays dontGoDeeper rest
      else
        let deeper :=
          if level + 1 < config.maxlevel then branch arrays entry.address
          else arrays
        let stored :=
          if config.staticonly then deeper
          else deeper.storePath level (-1) entry.address
        scanEntries config branch level stored dontGoDeeper rest
    | some staticdata =>
      scanEntries config branch level
        (arrays.storePath level staticdata.moduleindex
          staticdata.offset.toUInt64)
        (dontGoDeeper || config.onlyOneStaticInPath) rest

def scanNodes (config : Config) (branch : Arrays → UInt64 → Arrays)
    (valuetofind : UInt64) (level : ℕ) (startvalue : UInt64) :
    Arrays → Bool → ℕ → List PointerList → Arrays
  | arrays, _, _, [] => arrays
  | arrays, dontGoDeeper, count, plist :: previous =>
    if startvalue ≤ plist.pointervalue then
      let (arrays, dontGoDeeper) := scanEntries config branch level
        (arrays.setOffset level (valuetofind - plist.pointervalue).toUInt32)
        dontGoDeeper plist.list
      let count := config.countOffset level count
      if config.limitReached count then
        arrays
      else
        scanNodes config branch valuetofind level startvalue arrays
          dontGoDeeper count previous
    else
      arrays

/-- `rscan` of a worker that never queues; the depth is `maxlevel - level`. -/
def rscan (config : Config) : ℕ → Arrays → UInt64 → ℕ → Arrays
  | 0, arrays, _, _ => arrays
  | depth + 1, arrays, valuetofind, level =>
    match enter config arrays valuetofind level with
    | none => arrays
    | some (startvalue, plists, arrays) =>
      scanNodes config
        (fun arrays address => rscan config depth arrays address (level + 1))
        valuetofind level startvalue arrays false 0 plists

def plainPath (config : Config) (level : ℕ) (offsets : List UInt32)
    (address : UInt64) : Multiset Path :=
  if config.staticonly then 0
  else {{ level, moduleid := -1, offset := address, offsets }}

def entriesPaths (config : Config) (branch : UInt64 → Multiset Path)
    (level : ℕ) (offsets : List UInt32) :
    Bool → List PointerData → Multiset Path
  | _, [] => 0
  | dontGoDeeper, entry :: rest =>
    match entry.staticdata with
    | none =>
      (if dontGoDeeper then 0
        else branch entry.address +
          plainPath config level offsets entry.address) +
      entriesPaths config branch level offsets dontGoDeeper rest
    | some staticdata =>
      {{ level
         moduleid := staticdata.moduleindex
         offset := staticdata.offset.toUInt64
         offsets }} +
      entriesPaths config branch level offsets
        (dontGoDeeper || config.onlyOneStaticInPath) rest

def deeperAfter (config : Config) (dontGoDeeper : Bool)
    (entries : List PointerData) : Bool :=
  dontGoDeeper || (config.onlyOneStaticInPath &&
    entries.any fun entry => entry.staticdata.isSome)

def nodesPaths (config : Config)
    (branch : List UInt32 → UInt64 → Multiset Path) (valuetofind : UInt64)
    (level : ℕ) (before : List UInt32) (startvalue : UInt64) :
    Bool → ℕ → List PointerList → Multiset Path
  | _, _, [] => 0
  | dontGoDeeper, count, plist :: previous =>
    if startvalue ≤ plist.pointervalue then
      let offsets :=
        before ++ [(valuetofind - plist.pointervalue).toUInt32]
      entriesPaths config (branch offsets) level offsets dontGoDeeper
          plist.list +
        if config.limitReached (config.countOffset level count) then 0
        else nodesPaths config branch valuetofind level before startvalue
          (deeperAfter config dontGoDeeper plist.list)
          (config.countOffset level count) previous
    else
      0

def valuesAfter (config : Config) (values : List UInt64)
    (valuetofind : UInt64) : List UInt64 :=
  if config.noLoop then values ++ [valuetofind] else []

def branchPaths (config : Config) :
    ℕ → List UInt32 → List UInt64 → UInt64 → Multiset Path
  | 0, _, _, _ => 0
  | depth + 1, offsets, values, valuetofind =>
    match searchRange config valuetofind offsets.length with
    | none => 0
    | some (startvalue, stopvalue) =>
      if config.noLoop = true ∧ valuetofind ∈ values then
        0
      else
        nodesPaths config
          (fun offsets address => branchPaths config depth offsets
            (valuesAfter config values valuetofind) address)
          valuetofind offsets.length offsets startvalue false 0
          (config.pointerlisthandler.findPointerValue startvalue stopvalue)

/-- The arrays agree on the levels before the given one. -/
structure SameBefore (level : ℕ) (first second : Arrays) : Prop where
  tempresults : ∀ i < level, first.tempresults i = second.tempresults i
  valuelist : ∀ i < level, first.valuelist i = second.valuelist i

theorem SameBefore.refl (level : ℕ) (arrays : Arrays) :
    SameBefore level arrays arrays :=
  ⟨fun _ _ => rfl, fun _ _ => rfl⟩

variable {level : ℕ} {first second : Arrays} {α : Type} {config : Config}

theorem SameBefore.trans {third : Arrays}
    (hfirst : SameBefore level first second)
    (hsecond : SameBefore level second third) :
    SameBefore level first third where
  tempresults := fun i hi =>
    (hfirst.tempresults i hi).trans (hsecond.tempresults i hi)
  valuelist := fun i hi =>
    (hfirst.valuelist i hi).trans (hsecond.valuelist i hi)

theorem SameBefore.mono {lower : ℕ} (hsame : SameBefore level first second)
    (hle : lower ≤ level) :
    SameBefore lower first second where
  tempresults := fun i hi => hsame.tempresults i (lt_of_lt_of_le hi hle)
  valuelist := fun i hi => hsame.valuelist i (lt_of_lt_of_le hi hle)

theorem sameBefore_storePath (level at_level : ℕ) (arrays : Arrays)
    (moduleid : UInt32) (offset : UInt64) :
    SameBefore level (arrays.storePath at_level moduleid offset) arrays :=
  ⟨fun _ _ => rfl, fun _ _ => rfl⟩

theorem sameBefore_setOffset (level : ℕ) (arrays : Arrays) (offset : UInt32) :
    SameBefore level (arrays.setOffset level offset) arrays where
  tempresults := fun _ hi => Function.update_of_ne (Nat.ne_of_lt hi) _ _
  valuelist := fun _ _ => rfl

theorem sameBefore_setValue (level : ℕ) (arrays : Arrays) (value : UInt64) :
    SameBefore level (arrays.setValue level value) arrays where
  tempresults := fun _ _ => rfl
  valuelist := fun _ hi => Function.update_of_ne (Nat.ne_of_lt hi) _ _

theorem firstEntries_congr {first second : ℕ → α} {size : ℕ}
    (hsame : ∀ i < size, first i = second i) :
    firstEntries first size = firstEntries second size := by
  apply List.map_congr_left
  intro i hi
  exact hsame i (List.mem_range.mp hi)

theorem firstEntries_succ (entries : ℕ → α) (size : ℕ) :
    firstEntries entries (size + 1) =
      firstEntries entries size ++ [entries size] := by
  simp [firstEntries, List.range_succ]

@[simp] theorem firstEntries_length (entries : ℕ → α) (size : ℕ) :
    (firstEntries entries size).length = size := by
  simp [firstEntries]

def Arrays.offsets (arrays : Arrays) (level : ℕ) : List UInt32 :=
  firstEntries arrays.tempresults level

def Arrays.values (config : Config) (arrays : Arrays) (level : ℕ) :
    List UInt64 :=
  if config.noLoop then firstEntries arrays.valuelist level else []

theorem SameBefore.offsets_eq (hsame : SameBefore level first second) :
    first.offsets level = second.offsets level :=
  firstEntries_congr hsame.tempresults

theorem SameBefore.values_eq (hsame : SameBefore level first second) :
    first.values config level = second.values config level := by
  unfold Arrays.values
  split
  · exact firstEntries_congr hsame.valuelist
  · rfl

theorem offsets_setOffset (arrays : Arrays) (level : ℕ) (offset : UInt32) :
    (arrays.setOffset level offset).offsets (level + 1) =
      arrays.offsets level ++ [offset] := by
  rw [Arrays.offsets, firstEntries_succ]
  congr 1
  · exact (sameBefore_setOffset level arrays offset).offsets_eq
  · simp [Arrays.setOffset]

def branchOf (config : Config) (arrays : Arrays) (level : ℕ)
    (valuetofind : UInt64) : Multiset Path :=
  branchPaths config (config.maxlevel - level) (arrays.offsets level)
    (arrays.values config level) valuetofind

theorem SameBefore.branchOf_eq (hsame : SameBefore level first second)
    (valuetofind : UInt64) :
    branchOf config first level valuetofind =
      branchOf config second level valuetofind := by
  rw [branchOf, branchOf, hsame.offsets_eq, hsame.values_eq]

/-! ## `rscan` stores the paths below its branch -/

/-- Going into a branch stores its paths and keeps what leads to it. -/
def Explores (config : Config) (level : ℕ)
    (branch : Arrays → UInt64 → Arrays) : Prop :=
  ∀ arrays address,
    ((branch arrays address).stored : Multiset Path) =
        arrays.stored + branchOf config arrays level address ∧
      SameBefore level (branch arrays address) arrays

theorem branchOf_eq_zero (hlevel : config.maxlevel ≤ level) (arrays : Arrays)
    (valuetofind : UInt64) : branchOf config arrays level valuetofind = 0 := by
  rw [branchOf, Nat.sub_eq_zero_of_le hlevel]
  rfl

theorem stored_storePath (arrays : Arrays) (level : ℕ) (moduleid : UInt32)
    (offset : UInt64) :
    ((arrays.storePath level moduleid offset).stored : Multiset Path) =
      arrays.stored + {{ level, moduleid, offset
                         offsets := arrays.offsets (level + 1) }} := by
  simp only [Arrays.storePath, Arrays.offsets, ← Multiset.coe_add,
    Multiset.coe_singleton]

def entriesOf (config : Config) (arrays : Arrays) (level : ℕ)
    (dontGoDeeper : Bool) (entries : List PointerData) : Multiset Path :=
  entriesPaths config (branchOf config arrays (level + 1)) level
    (arrays.offsets (level + 1)) dontGoDeeper entries

theorem SameBefore.entriesOf_eq (hsame : SameBefore (level + 1) first second)
    (dontGoDeeper : Bool) (entries : List PointerData) :
    entriesOf config first level dontGoDeeper entries =
      entriesOf config second level dontGoDeeper entries := by
  have hbranch : branchOf config first (level + 1) =
      branchOf config second (level + 1) :=
    funext fun address => hsame.branchOf_eq address
  rw [entriesOf, entriesOf, hbranch, hsame.offsets_eq]

theorem stored_plainPath (config : Config) (arrays : Arrays) (level : ℕ)
    (address : UInt64) :
    ((if config.staticonly then arrays
        else arrays.storePath level (-1) address).stored : Multiset Path) =
      arrays.stored +
        plainPath config level (arrays.offsets (level + 1)) address := by
  unfold plainPath
  split
  · simp
  · exact stored_storePath arrays level (-1) address

theorem sameBefore_plainPath (config : Config) (bound level : ℕ)
    (arrays : Arrays) (address : UInt64) :
    SameBefore bound (if config.staticonly then arrays
      else arrays.storePath level (-1) address) arrays := by
  split
  · exact SameBefore.refl _ _
  · exact sameBefore_storePath _ _ _ _ _

theorem deeperAfter_cons_some {entry : PointerData} {staticdata : StaticData}
    (hstatic : entry.staticdata = some staticdata) (dontGoDeeper : Bool)
    (rest : List PointerData) :
    deeperAfter config dontGoDeeper (entry :: rest) =
      deeperAfter config (dontGoDeeper || config.onlyOneStaticInPath) rest := by
  unfold deeperAfter
  cases dontGoDeeper <;> cases config.onlyOneStaticInPath <;> simp [hstatic]

theorem deeperAfter_cons_none {entry : PointerData}
    (hstatic : entry.staticdata = none) (dontGoDeeper : Bool)
    (rest : List PointerData) :
    deeperAfter config dontGoDeeper (entry :: rest) =
      deeperAfter config dontGoDeeper rest := by
  simp [deeperAfter, hstatic]

theorem scanEntries_spec {branch : Arrays → UInt64 → Arrays}
    (hbranch : Explores config (level + 1) branch) (arrays : Arrays)
    (dontGoDeeper : Bool) (entries : List PointerData) :
    ((scanEntries config branch level arrays dontGoDeeper entries).1.stored :
        Multiset Path) =
      arrays.stored + entriesOf config arrays level dontGoDeeper entries ∧
    (scanEntries config branch level arrays dontGoDeeper entries).2 =
      deeperAfter config dontGoDeeper entries ∧
    SameBefore (level + 1)
      (scanEntries config branch level arrays dontGoDeeper entries).1
      arrays := by
  induction entries generalizing arrays dontGoDeeper with
  | nil =>
    refine ⟨?_, ?_, SameBefore.refl _ _⟩
    · simp [scanEntries, entriesOf, entriesPaths]
    · simp [scanEntries, deeperAfter]
  | cons entry rest ih =>
    cases hstatic : entry.staticdata with
    | some staticdata =>
      obtain ⟨hstored, hdeeper, hsame⟩ := ih
        (arrays.storePath level staticdata.moduleindex
          staticdata.offset.toUInt64)
        (dontGoDeeper || config.onlyOneStaticInPath)
      have hkept := sameBefore_storePath (level + 1) level arrays
        staticdata.moduleindex staticdata.offset.toUInt64
      simp only [scanEntries, hstatic]
      refine ⟨?_, ?_, hsame.trans hkept⟩
      · rw [hstored, hkept.entriesOf_eq, stored_storePath, add_assoc]
        simp only [entriesOf, entriesPaths, hstatic]
      · rw [hdeeper, deeperAfter_cons_some hstatic]
    | none =>
      cases dontGoDeeper with
      | true =>
        obtain ⟨hstored, hdeeper, hsame⟩ := ih arrays true
        simp only [scanEntries, hstatic, if_true]
        refine ⟨?_, ?_, hsame⟩
        · rw [hstored]
          simp [entriesOf, entriesPaths, hstatic]
        · rw [hdeeper, deeperAfter_cons_none hstatic]
      | false =>
        let deeper := if level + 1 < config.maxlevel then
          branch arrays entry.address else arrays
        have hdeep : (deeper.stored : Multiset Path) = arrays.stored +
              branchOf config arrays (level + 1) entry.address ∧
            SameBefore (level + 1) deeper arrays := by
          by_cases hlevel : level + 1 < config.maxlevel
          · simp only [deeper, if_pos hlevel]
            exact hbranch arrays entry.address
          · simp only [deeper, if_neg hlevel,
              branchOf_eq_zero (Nat.le_of_not_lt hlevel), add_zero]
            exact ⟨trivial, SameBefore.refl _ _⟩
        have hkept := (sameBefore_plainPath config (level + 1) level
          deeper entry.address).trans hdeep.2
        obtain ⟨hstored, hafter, hsame⟩ := ih
          (if config.staticonly then deeper
            else deeper.storePath level (-1) entry.address) false
        simp only [scanEntries, hstatic, Bool.false_eq_true, if_false]
        refine ⟨?_, ?_, hsame.trans hkept⟩
        · rw [hstored, stored_plainPath, hdeep.1, hdeep.2.offsets_eq,
            hkept.entriesOf_eq]
          simp only [entriesOf, entriesPaths, hstatic,
            Bool.false_eq_true, if_false, add_assoc]
        · rw [hafter, deeperAfter_cons_none hstatic]

def nodesOf (config : Config) (arrays : Arrays) (level : ℕ)
    (valuetofind startvalue : UInt64) (dontGoDeeper : Bool) (count : ℕ)
    (previous : List PointerList) : Multiset Path :=
  nodesPaths config
    (fun offsets address => branchPaths config (config.maxlevel - (level + 1))
      offsets (arrays.values config (level + 1)) address)
    valuetofind level (arrays.offsets level) startvalue dontGoDeeper count
    previous

theorem SameBefore.nodesOf_eq (hsame : SameBefore level first second)
    (hvalues : first.values config (level + 1) =
      second.values config (level + 1)) (valuetofind startvalue : UInt64)
    (dontGoDeeper : Bool) (count : ℕ) (previous : List PointerList) :
    nodesOf config first level valuetofind startvalue dontGoDeeper count
        previous =
      nodesOf config second level valuetofind startvalue dontGoDeeper count
        previous := by
  rw [nodesOf, nodesOf, hvalues, hsame.offsets_eq]

theorem nodesOf_cons (config : Config) (arrays : Arrays) (level : ℕ)
    {valuetofind startvalue : UInt64} (dontGoDeeper : Bool) (count : ℕ)
    {plist : PointerList} (hplist : startvalue ≤ plist.pointervalue)
    (previous : List PointerList) :
    nodesOf config arrays level valuetofind startvalue dontGoDeeper count
        (plist :: previous) =
      entriesOf config (arrays.setOffset level
          (valuetofind - plist.pointervalue).toUInt32) level dontGoDeeper
          plist.list +
        if config.limitReached (config.countOffset level count) then 0
        else nodesOf config arrays level valuetofind startvalue
          (deeperAfter config dontGoDeeper plist.list)
          (config.countOffset level count) previous := by
  have hvalues : (arrays.setOffset level
      (valuetofind - plist.pointervalue).toUInt32).values config (level + 1) =
        arrays.values config (level + 1) := rfl
  have hbranch : branchOf config (arrays.setOffset level
      (valuetofind - plist.pointervalue).toUInt32) (level + 1) =
        branchPaths config (config.maxlevel - (level + 1))
          (arrays.offsets level ++
            [(valuetofind - plist.pointervalue).toUInt32])
          (arrays.values config (level + 1)) := by
    funext address
    rw [branchOf, offsets_setOffset, hvalues]
  rw [nodesOf, nodesPaths, if_pos hplist, entriesOf, hbranch,
    offsets_setOffset]
  rfl

theorem scanNodes_spec {branch : Arrays → UInt64 → Arrays}
    (hbranch : Explores config (level + 1) branch)
    (valuetofind startvalue : UInt64) (arrays : Arrays) (dontGoDeeper : Bool)
    (count : ℕ) (plists : List PointerList) :
    ((scanNodes config branch valuetofind level startvalue arrays dontGoDeeper
        count plists).stored : Multiset Path) =
      arrays.stored + nodesOf config arrays level valuetofind startvalue
        dontGoDeeper count plists ∧
    SameBefore level (scanNodes config branch valuetofind level startvalue
      arrays dontGoDeeper count plists) arrays := by
  induction plists generalizing arrays dontGoDeeper count with
  | nil =>
    refine ⟨?_, SameBefore.refl _ _⟩
    simp [scanNodes, nodesOf, nodesPaths]
  | cons plist previous ih =>
    by_cases hplist : startvalue ≤ plist.pointervalue
    · let opened := arrays.setOffset level
        (valuetofind - plist.pointervalue).toUInt32
      have hopened : SameBefore level opened arrays :=
        sameBefore_setOffset level arrays _
      obtain ⟨hstored, hdeeper, hsame⟩ :=
        scanEntries_spec hbranch opened dontGoDeeper plist.list
      have hkept : SameBefore level (scanEntries config branch level opened
          dontGoDeeper plist.list).1 arrays :=
        (hsame.mono (Nat.le_succ level)).trans hopened
      have hvalues : (scanEntries config branch level opened dontGoDeeper
          plist.list).1.values config (level + 1) =
            arrays.values config (level + 1) := hsame.values_eq
      rw [nodesOf_cons config arrays level dontGoDeeper count hplist]
      simp only [scanNodes, if_pos hplist]
      by_cases hlimit : config.limitReached (config.countOffset level count) =
          true
      · simp only [if_pos hlimit, add_zero]
        exact ⟨hstored, hkept⟩
      · obtain ⟨hrest, hlast⟩ := ih
          (scanEntries config branch level opened dontGoDeeper plist.list).1
          (scanEntries config branch level opened dontGoDeeper plist.list).2
          (config.countOffset level count)
        simp only [if_neg hlimit]
        refine ⟨?_, hlast.trans hkept⟩
        rw [hrest, hstored, hdeeper, hkept.nodesOf_eq hvalues, add_assoc]
        rfl
    · refine ⟨?_, ?_⟩
      · simp only [scanNodes, if_neg hplist, nodesOf, nodesPaths, add_zero]
      · simp only [scanNodes, if_neg hplist]
        exact SameBefore.refl _ _

theorem branchOf_enter (config : Config) (arrays : Arrays)
    (valuetofind : UInt64) (hlevel : level < config.maxlevel) :
    (enter config arrays valuetofind level = none ∧
      branchOf config arrays level valuetofind = 0) ∨
    ∃ startvalue plists entered,
      enter config arrays valuetofind level =
        some (startvalue, plists, entered) ∧
      entered.stored = arrays.stored ∧ SameBefore level entered arrays ∧
      branchOf config arrays level valuetofind =
        nodesOf config entered level valuetofind startvalue false 0 plists := by
  have hdepth : config.maxlevel - level =
      config.maxlevel - (level + 1) + 1 := by
    omega
  have hmem : (config.noLoop = true ∧
      valuetofind ∈ arrays.values config level) ↔
        (config.noLoop = true ∧
          valuetofind ∈ firstEntries arrays.valuelist level) := by
    unfold Arrays.values
    constructor
    · rintro ⟨hnoLoop, hseen⟩
      simp only [hnoLoop, if_true] at hseen
      exact ⟨hnoLoop, hseen⟩
    · rintro ⟨hnoLoop, hseen⟩
      simp only [hnoLoop, if_true]
      exact ⟨trivial, hseen⟩
  rw [branchOf, hdepth, branchPaths, Arrays.offsets, firstEntries_length]
  unfold enter
  cases hrange : searchRange config valuetofind level with
  | none => exact .inl ⟨rfl, rfl⟩
  | some range =>
    obtain ⟨startvalue, stopvalue⟩ := range
    dsimp only
    by_cases hloop : config.noLoop = true ∧
        valuetofind ∈ firstEntries arrays.valuelist level
    · rw [if_pos hloop, if_pos (hmem.mpr hloop)]
      exact .inl ⟨rfl, rfl⟩
    · rw [if_neg hloop, if_neg (mt hmem.mp hloop)]
      right
      refine ⟨startvalue, _, _, rfl, ?_, ?_, ?_⟩
      · split <;> rfl
      · split
        · exact sameBefore_setValue level arrays valuetofind
        · exact SameBefore.refl _ _
      · unfold nodesOf valuesAfter Arrays.values
        cases hnoLoop : config.noLoop with
        | false => rfl
        | true =>
          simp only [if_true, firstEntries_succ]
          have hkept : firstEntries
              (arrays.setValue level valuetofind).valuelist level =
                firstEntries arrays.valuelist level :=
            firstEntries_congr
              (sameBefore_setValue level arrays valuetofind).valuelist
          rw [hkept]
          simp [Arrays.setValue, Arrays.offsets]

theorem rscan_spec (config : Config) (depth : ℕ)
    (hdepth : depth = config.maxlevel - level) (arrays : Arrays)
    (valuetofind : UInt64) :
    ((rscan config depth arrays valuetofind level).stored : Multiset Path) =
        arrays.stored + branchOf config arrays level valuetofind ∧
      SameBefore level (rscan config depth arrays valuetofind level)
        arrays := by
  induction depth generalizing level arrays valuetofind with
  | zero =>
    rw [branchOf_eq_zero (by omega), add_zero]
    exact ⟨rfl, SameBefore.refl _ _⟩
  | succ depth ih =>
    have hbranch : Explores config (level + 1) fun arrays address =>
        rscan config depth arrays address (level + 1) := by
      intro arrays address
      exact ih (by omega) arrays address
    rw [rscan]
    rcases branchOf_enter config arrays valuetofind
        (by omega : level < config.maxlevel) with
      ⟨henter, hpaths⟩ |
      ⟨startvalue, plists, entered, henter, hstored, hsame, hpaths⟩
    · rw [henter, hpaths, add_zero]
      exact ⟨rfl, SameBefore.refl _ _⟩
    · obtain ⟨hnodes, hlast⟩ := scanNodes_spec hbranch valuetofind
        startvalue entered false 0 plists
      rw [henter, hpaths, ← hstored]
      exact ⟨hnodes, hlast.trans hsame⟩

end Rscan
end Pointerscan
end CheatEngine
