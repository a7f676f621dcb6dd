import CheatEngine.ExtentPacking
import CheatEngine.TransitionSystem

/-!
# The memory manager of DBVM

The heap is a list of regions, each described by an item that itself lies in
the heap.  `malloc` first takes the room for a new item from a free region,
then looks for a region to take the block from.

The list is given by its items in the order of the `next` links.  An item
whose block was asked for and not yet given back is marked `live`; the mark
is not in the program.
-/

namespace CheatEngine
namespace Dbvm
namespace Malloc

open List ExtentPacking

def add32 (first second : ℕ) : ℕ :=
  (first + second) % 2 ^ 32

def sub32 (first second : ℕ) : ℕ :=
  (first + 2 ^ 32 - second) % 2 ^ 32

inductive RegionType
  | free
  | used
deriving DecidableEq, Repr

structure MemlistItem where
  descriptor : ℕ
  base : ℕ
  size : ℕ
  type : RegionType
  live : Bool
deriving DecidableEq, Repr

def sizeofMemlistItem : ℕ := 32

def difference (base : ℕ) : ℕ :=
  (4096 - base % 4096) % 4096

def suits (size : ℕ) (temp : MemlistItem) : Bool :=
  decide (temp.type = .free) && decide (temp.size ≥ size) &&
    (decide (size < 4096) ||
      !decide
        (sub32 temp.size
          (if difference temp.base < sizeofMemlistItem + 16 then
            difference temp.base + 4096
          else
            difference temp.base) < size))

def findFreeRegion (size : ℕ) (memorylist : List MemlistItem) :
    Option MemlistItem :=
  memorylist.find? (suits size)

def insertBefore (descriptor : ℕ) (new : MemlistItem) :
    List MemlistItem → List MemlistItem
  | [] => []
  | item :: next =>
    if item.descriptor = descriptor then
      new :: item :: next
    else
      item :: insertBefore descriptor new next

def previousOf (descriptor : ℕ) : List MemlistItem → Option MemlistItem
  | first :: second :: next =>
    if second.descriptor = descriptor then
      some first
    else
      previousOf descriptor (second :: next)
  | _ => none

def writeItem (descriptor : ℕ) (write : MemlistItem → MemlistItem)
    (memorylist : List MemlistItem) : List MemlistItem :=
  memorylist.map fun item =>
    if item.descriptor = descriptor then write item else item

/-- What the memory of a new item holds before it is filled in. -/
structure Stale where
  base : ℕ
  size : ℕ
deriving DecidableEq, Repr

def freshItem (descriptor : ℕ) (stale : Stale) : MemlistItem where
  descriptor := descriptor
  base := stale.base
  size := stale.size % 2 ^ 32
  type := .used
  live := false

/-- The new item goes to the beginning of the free region, before that
region in the list. -/
def placeDescriptor (memorylist : List MemlistItem)
    (freememory : MemlistItem) (stale : Stale) : List MemlistItem :=
  writeItem freememory.descriptor
    (fun item =>
      { item with
        base := item.base + sizeofMemlistItem
        size := sub32 item.size sizeofMemlistItem })
    (insertBefore freememory.descriptor
      (freshItem freememory.base stale) memorylist)

def roundSize (size : ℕ) : ℕ :=
  let size := add32 size ((4 - size % 4) % 4)
  if size = 0 then 4 else size

/-- The writes of the second half of `malloc`: the new item gets its block,
the item before it the skipped bytes, and the region begins after the
block. -/
def fillIn (base size : ℕ) (item : MemlistItem) : MemlistItem :=
  { item with base := base, size := size, type := .used, live := true }

def enlarge (skipped : ℕ) (item : MemlistItem) : MemlistItem :=
  { item with size := add32 item.size skipped }

def shrink (base totalsize : ℕ) (item : MemlistItem) : MemlistItem :=
  { item with
    base := base
    size := sub32 item.size totalsize
    type := .free }

/-- The block is taken from the beginning of a free region, or from its first
page boundary on. -/
def takeBlock (memorylist : List MemlistItem) (newdescriptor : ℕ)
    (freememory : MemlistItem) (size : ℕ) : List MemlistItem × ℕ :=
  let skipped := if size ≥ 4096 then difference freememory.base else 0
  let base := freememory.base + skipped
  let memorylist := writeItem newdescriptor (fillIn base size) memorylist
  let spare := decide (skipped ≥ 4 + sizeofMemlistItem)
  let memorylist :=
    if size < 4096 then
      memorylist
    else if spare then
      insertBefore newdescriptor
        { descriptor := freememory.base
          base := freememory.base + sizeofMemlistItem
          size := skipped - sizeofMemlistItem
          type := .free
          live := false }
        memorylist
    else
      match previousOf newdescriptor memorylist with
      | none => memorylist
      | some previous =>
        writeItem previous.descriptor (enlarge skipped) memorylist
  let totalsize := if spare then size else add32 size skipped
  (writeItem freememory.descriptor (shrink (base + size) totalsize)
    memorylist, base)

def malloc (memorylist : List MemlistItem) (size : ℕ) (stale : Stale) :
    List MemlistItem × Option ℕ :=
  match findFreeRegion sizeofMemlistItem memorylist with
  | none => (memorylist, none)
  | some freememory =>
    let memorylist := placeDescriptor memorylist freememory stale
    match findFreeRegion (roundSize size) memorylist with
    | none => (memorylist, none)
    | some region =>
      let (memorylist, pointer) :=
        takeBlock memorylist freememory.base region (roundSize size)
      (memorylist, some pointer)

def getRegion (memorylist : List MemlistItem) (pointer : ℕ) :
    Option MemlistItem :=
  memorylist.find? fun region => region.base = pointer

def forget (pointer : ℕ) (memorylist : List MemlistItem) :
    List MemlistItem :=
  memorylist.map fun item =>
    if item.base = pointer then { item with live := false } else item

def free (memorylist : List MemlistItem) (pointer : ℕ) :
    List MemlistItem :=
  match getRegion memorylist pointer with
  | none => forget pointer memorylist
  | some region =>
    forget pointer
      (writeItem region.descriptor
        (fun item => { item with type := .free }) memorylist)

/-- The address space that `InitializeMM` is given. -/
structure Heap where
  memorylist : ℕ
  BaseVirtualAddress : ℕ
  cpucount : ℕ
  descriptor_le : memorylist ≤ BaseVirtualAddress
  room : BaseVirtualAddress + sizeofMemlistItem + cpucount * 65536 ≤ 8388607

namespace Heap

def limit (heap : Heap) : ℕ :=
  8388607 - heap.cpucount * 65536

def range (heap : Heap) : Extent :=
  ⟨heap.memorylist, heap.limit - heap.memorylist⟩

def InitializeMM (heap : Heap) : List MemlistItem :=
  [{ descriptor := heap.memorylist
     base := heap.BaseVirtualAddress + sizeofMemlistItem
     size := heap.limit - (heap.BaseVirtualAddress + sizeofMemlistItem)
     type := .free
     live := false }]

end Heap

inductive Move
  | malloc (size : ℕ) (stale : Stale)
  | free (pointer : ℕ)
deriving DecidableEq, Repr

/-- `malloc` is given an `unsigned int`, and `free` a block that is still
live. -/
def step (memorylist : List MemlistItem) : Move →
    Option (List MemlistItem)
  | .malloc size stale =>
    if size < 2 ^ 32 then
      some (malloc memorylist size stale).1
    else
      none
  | .free pointer =>
    if memorylist.any fun item => item.live && item.base = pointer then
      some (free memorylist pointer)
    else
      none

/-! ## What the list describes -/

namespace MemlistItem

/-- The bytes of an item: the item itself, and its block when that is free
or live. -/
def extents (item : MemlistItem) : List Extent :=
  ⟨item.descriptor, sizeofMemlistItem⟩ ::
    if item.type = .free ∨ item.live then
      [⟨item.base, item.size⟩]
    else
      []

theorem extents_of_block {item : MemlistItem}
    (hblock : item.type = .free ∨ item.live) :
    item.extents =
      [⟨item.descriptor, sizeofMemlistItem⟩, ⟨item.base, item.size⟩] := by
  unfold extents
  rw [if_pos hblock]

theorem extents_of_stale {item : MemlistItem} (hused : item.type = .used)
    (hlive : item.live = false) :
    item.extents = [⟨item.descriptor, sizeofMemlistItem⟩] := by
  unfold extents
  rw [if_neg]
  simp [hused, hlive]

theorem extents_forget_sublist (item : MemlistItem) :
    ({ item with live := false } : MemlistItem).extents.Sublist
      item.extents := by
  unfold extents
  apply List.Sublist.cons_cons
  by_cases hfree : item.type = .free
  · simp [hfree]
  · simp [hfree]

end MemlistItem

open MemlistItem

structure Sound (heap : Heap) (memorylist : List MemlistItem) : Prop where
  packed : Packed heap.range (memorylist.flatMap extents)
  size_lt : ∀ item ∈ memorylist, item.size < 2 ^ 32
  used : ∀ item ∈ memorylist, item.live = true → item.type = .used

theorem sound_InitializeMM (heap : Heap) :
    Sound heap heap.InitializeMM where
  packed := by
    have hroom := heap.room
    have hle := heap.descriptor_le
    unfold Heap.InitializeMM
    rw [flatMap_singleton, extents_of_block (Or.inl rfl)]
    constructor
    · refine pairwise_pair.mpr (Extent.disjoint_of_le ?_)
      exact Nat.add_le_add_right hle _
    · intro extent hextent
      rcases mem_pair.mp hextent with rfl | rfl
      · apply Extent.bytes_subset
        · exact le_rfl
        · simp only [Heap.range, Heap.limit]
          omega
      · apply Extent.bytes_subset
        · simp only [Heap.range]
          omega
        · simp only [Heap.range, Heap.limit]
          omega
  size_lt := by
    intro item hitem
    rw [mem_singleton.mp hitem]
    simp only [Heap.limit]
    omega
  used := by
    intro item hitem hlive
    rw [mem_singleton.mp hitem] at hlive
    cases hlive

namespace Sound

variable {heap : Heap} {memorylist others : List MemlistItem}
  {item : MemlistItem}

theorem perm (hsound : Sound heap memorylist)
    (hperm : memorylist.Perm others) : Sound heap others where
  packed := hsound.packed.perm (hperm.flatMap_right extents)
  size_lt := fun item hitem =>
    hsound.size_lt item (hperm.mem_iff.mpr hitem)
  used := fun item hitem => hsound.used item (hperm.mem_iff.mpr hitem)

theorem descriptor_ne (hsound : Sound heap (item :: others))
    {other : MemlistItem} (hother : other ∈ others) :
    other.descriptor ≠ item.descriptor := by
  intro hequal
  have happart := hsound.packed.apart
  rw [flatMap_cons] at happart
  have hcross := (pairwise_append.mp happart).2.2
    ⟨item.descriptor, sizeofMemlistItem⟩ mem_cons_self
    ⟨other.descriptor, sizeofMemlistItem⟩
    (mem_flatMap.mpr ⟨other, hother, mem_cons_self⟩)
  rw [hequal] at hcross
  have hstart : (⟨item.descriptor, sizeofMemlistItem⟩ : Extent).start ∈
      (⟨item.descriptor, sizeofMemlistItem⟩ : Extent).bytes :=
    Extent.start_mem_bytes (Nat.zero_lt_succ 31)
  exact Finset.disjoint_left.mp hcross hstart hstart

end Sound

variable {descriptor : ℕ} {write : MemlistItem → MemlistItem}
  {memorylist : List MemlistItem} {size : ℕ} {region : MemlistItem}

theorem writeItem_of_forall_ne
    (hne : ∀ item ∈ memorylist, item.descriptor ≠ descriptor) :
    writeItem descriptor write memorylist = memorylist := by
  unfold writeItem
  rw [map_congr_left (g := id)]
  · exact map_id memorylist
  · intro item hitem
    exact if_neg (hne item hitem)

theorem writeItem_perm {others : List MemlistItem} {item : MemlistItem}
    (hperm : memorylist.Perm (item :: others))
    (hne : ∀ other ∈ others, other.descriptor ≠ item.descriptor) :
    (writeItem item.descriptor write memorylist).Perm
      (write item :: others) := by
  have hmap : (writeItem item.descriptor write memorylist).Perm
      (writeItem item.descriptor write (item :: others)) := hperm.map _
  have hcons : writeItem item.descriptor write (item :: others) =
      write item :: writeItem item.descriptor write others := by
    simp [writeItem]
  rw [hcons, writeItem_of_forall_ne hne] at hmap
  exact hmap

theorem insertBefore_perm {new : MemlistItem}
    (hmem : ∃ item ∈ memorylist, item.descriptor = descriptor) :
    (insertBefore descriptor new memorylist).Perm (new :: memorylist) := by
  induction memorylist with
  | nil =>
    obtain ⟨item, hitem, -⟩ := hmem
    cases hitem
  | cons first rest ih =>
    unfold insertBefore
    split
    · exact List.Perm.refl _
    · rename_i hne
      have hrest : ∃ item ∈ rest, item.descriptor = descriptor := by
        obtain ⟨item, hitem, hequal⟩ := hmem
        rcases mem_cons.mp hitem with rfl | hlater
        · exact absurd hequal hne
        · exact ⟨item, hlater, hequal⟩
      exact ((ih hrest).cons first).trans (List.Perm.swap new first rest)

/-! ## Taking room from a free region -/

theorem suits_spec (hsuits : suits size region = true) :
    region.type = .free ∧ size ≤ region.size := by
  unfold suits at hsuits
  obtain ⟨hfirst, -⟩ := (Bool.and_eq_true _ _).mp hsuits
  obtain ⟨htype, hsize⟩ := (Bool.and_eq_true _ _).mp hfirst
  exact ⟨of_decide_eq_true htype, of_decide_eq_true hsize⟩

theorem findFreeRegion_spec
    (hfind : findFreeRegion size memorylist = some region) :
    region ∈ memorylist ∧ region.type = .free ∧ size ≤ region.size :=
  ⟨mem_of_find?_eq_some hfind, suits_spec (find?_some hfind)⟩

theorem sub32_of_le {first second : ℕ} (hle : second ≤ first)
    (hlt : first < 2 ^ 32) : sub32 first second = first - second := by
  unfold sub32
  have hshift : first + 2 ^ 32 - second = first - second + 2 ^ 32 := by
    omega
  rw [hshift, Nat.add_mod_right]
  exact Nat.mod_eq_of_lt (by omega)

theorem add32_zero {first : ℕ} (hlt : first < 2 ^ 32) :
    add32 first 0 = first :=
  Nat.mod_eq_of_lt hlt

theorem perm_front_last (first second third fourth : Extent)
    (rest : List Extent) :
    (first :: second :: third :: fourth :: rest).Perm
      (third :: second :: fourth :: first :: rest) := by
  have hlast : ([first] ++ [second, third, fourth]).Perm
      ([second, third, fourth] ++ [first]) := perm_append_comm
  exact (hlast.append_right rest).trans (List.Perm.swap third second _)

/-- The first bytes of a free region become the block of another item, or a
new item. -/
theorem Packed.take {range : Extent} {base taken : ℕ} {rest : List Extent}
    (htaken : taken ≤ size) (hpacked : Packed range (⟨base, size⟩ :: rest)) :
    Packed range
      (⟨base, taken⟩ :: ⟨base + taken, size - taken⟩ :: rest) := by
  have hinside : ∀ piece ∈ ([⟨base, taken⟩, ⟨base + taken, size - taken⟩] :
      List Extent), piece.bytes ⊆ (⟨base, size⟩ : Extent).bytes := by
    intro piece hpiece
    rcases mem_pair.mp hpiece with rfl | rfl
    · exact Extent.bytes_subset le_rfl (Nat.add_le_add_left htaken base)
    · apply Extent.bytes_subset
      · exact Nat.le_add_right base taken
      · simp only
        omega
  exact hpacked.cut hinside
    (pairwise_pair.mpr (Extent.disjoint_of_le le_rfl))

namespace Sound

variable {heap : Heap} {memorylist : List MemlistItem}
  (hsound : Sound heap memorylist)
include hsound

theorem base_ne_descriptor {region : MemlistItem}
    (hmem : region ∈ memorylist) (htype : region.type = .free)
    (hsize : 0 < region.size) : region.base ≠ region.descriptor := by
  intro hequal
  have hfront := hsound.perm (perm_cons_erase hmem)
  have happart := hfront.packed.apart
  rw [flatMap_cons, extents_of_block (Or.inl htype)] at happart
  have hblock := rel_of_pairwise_cons happart mem_cons_self
  rw [hequal] at hblock
  have hitem : region.descriptor ∈
      (⟨region.descriptor, sizeofMemlistItem⟩ : Extent).bytes :=
    Extent.start_mem_bytes (Nat.zero_lt_succ 31)
  have hregion : region.descriptor ∈
      (⟨region.descriptor, region.size⟩ : Extent).bytes :=
    Extent.start_mem_bytes hsize
  exact Finset.disjoint_left.mp hblock hitem hregion

theorem placeDescriptor_perm {freememory : MemlistItem} (stale : Stale)
    (hmem : freememory ∈ memorylist) (htype : freememory.type = .free)
    (hsize : sizeofMemlistItem ≤ freememory.size) :
    ∃ others, memorylist.Perm (freememory :: others) ∧
      (placeDescriptor memorylist freememory stale).Perm
        ({ freememory with
            base := freememory.base + sizeofMemlistItem
            size := freememory.size - sizeofMemlistItem } ::
          freshItem freememory.base stale :: others) := by
  have hperm := perm_cons_erase hmem
  have hfront := hsound.perm hperm
  have hsizeLt := hsound.size_lt freememory hmem
  have hpos : 0 < freememory.size :=
    Nat.lt_of_lt_of_le (Nat.zero_lt_succ 31) hsize
  refine ⟨memorylist.erase freememory, hperm, ?_⟩
  have hinsert : (insertBefore freememory.descriptor
      (freshItem freememory.base stale) memorylist).Perm
      (freememory :: freshItem freememory.base stale ::
        memorylist.erase freememory) :=
    (insertBefore_perm ⟨freememory, hmem, rfl⟩).trans
      ((hperm.cons _).trans (List.Perm.swap freememory _ _))
  have hne : ∀ other ∈ freshItem freememory.base stale ::
      memorylist.erase freememory,
      other.descriptor ≠ freememory.descriptor := by
    intro other hother
    rcases mem_cons.mp hother with rfl | hlater
    · exact hsound.base_ne_descriptor hmem htype hpos
    · exact hfront.descriptor_ne hlater
  rw [← sub32_of_le hsize hsizeLt]
  exact writeItem_perm hinsert hne

theorem placeDescriptor {freememory : MemlistItem} (stale : Stale)
    (hmem : freememory ∈ memorylist) (htype : freememory.type = .free)
    (hsize : sizeofMemlistItem ≤ freememory.size) :
    Sound heap (placeDescriptor memorylist freememory stale) := by
  obtain ⟨others, hbefore, hafter⟩ :=
    hsound.placeDescriptor_perm stale hmem htype hsize
  have hfront := hsound.perm hbefore
  refine Sound.perm ⟨?_, ?_, ?_⟩ hafter.symm
  · have hpacked := hfront.packed
    rw [flatMap_cons, extents_of_block (Or.inl htype)] at hpacked
    have htaken := Packed.take hsize (hpacked.perm (List.Perm.swap _ _ _))
    have hshrunk : ({ freememory with
        base := freememory.base + sizeofMemlistItem
        size := freememory.size - sizeofMemlistItem } :
          MemlistItem).extents =
        [⟨freememory.descriptor, sizeofMemlistItem⟩,
          ⟨freememory.base + sizeofMemlistItem,
            freememory.size - sizeofMemlistItem⟩] :=
      extents_of_block (Or.inl htype)
    have hfresh : (freshItem freememory.base stale).extents =
        [⟨freememory.base, sizeofMemlistItem⟩] :=
      extents_of_stale rfl rfl
    rw [flatMap_cons, flatMap_cons, hshrunk, hfresh]
    exact htaken.perm
      ((reverse_perm [_, _, _]).symm.append_right
        (others.flatMap extents))
  · intro item hitem
    rcases mem_cons.mp hitem with rfl | hlater
    · have hlt := hfront.size_lt freememory mem_cons_self
      exact Nat.lt_of_le_of_lt (Nat.sub_le _ _) hlt
    · rcases mem_cons.mp hlater with rfl | hother
      · exact Nat.mod_lt _ (by norm_num)
      · exact hfront.size_lt item (mem_cons_of_mem _ hother)
  · intro item hitem hlive
    rcases mem_cons.mp hitem with rfl | hlater
    · exact hfront.used freememory mem_cons_self hlive
    · rcases mem_cons.mp hlater with rfl | hother
      · rfl
      · exact hfront.used item (mem_cons_of_mem _ hother) hlive

end Sound

theorem writeItem_of_forall_eq
    (hequal : ∀ item ∈ memorylist, write item = item) :
    writeItem descriptor write memorylist = memorylist := by
  unfold writeItem
  rw [map_congr_left (g := id)]
  · exact map_id memorylist
  · intro item hitem
    simp [hequal item hitem]

def blockItem (newdescriptor base size : ℕ) : MemlistItem :=
  ⟨newdescriptor, base, size, .used, true⟩

def restItem (region : MemlistItem) (size : ℕ) : MemlistItem :=
  { region with
    base := region.base + size
    size := region.size - size
    type := .free }

theorem takeBlock_of_aligned {newdescriptor : ℕ}
    (hsizes : ∀ item ∈ memorylist, item.size < 2 ^ 32)
    (hsize : size < 2 ^ 32) (haligned : 4096 ≤ size → region.base % 4096 = 0) :
    takeBlock memorylist newdescriptor region size =
      (writeItem region.descriptor (shrink (region.base + size) size)
        (writeItem newdescriptor (fillIn region.base size) memorylist),
        region.base) := by
  have hskipped : (if size ≥ 4096 then difference region.base else 0) =
      0 := by
    split
    · rename_i hlarge
      unfold difference
      rw [haligned hlarge]
    · rfl
  have hspare : decide ((0 : ℕ) ≥ 4 + sizeofMemlistItem) = false := rfl
  have henlarge : ∀ item ∈ writeItem newdescriptor
      (fillIn region.base size) memorylist, enlarge 0 item = item := by
    intro item hitem
    obtain ⟨before, hbefore, rfl⟩ := mem_map.mp hitem
    unfold enlarge
    rw [add32_zero]
    split
    · exact hsize
    · exact hsizes before hbefore
  unfold takeBlock
  simp only [hskipped, hspare, Nat.add_zero, add32_zero hsize,
    Bool.false_eq_true, if_false]
  split
  · rfl
  · split
    · rfl
    · rw [writeItem_of_forall_eq henlarge]

namespace Sound

variable {heap : Heap} {memorylist : List MemlistItem}
  (hsound : Sound heap memorylist)
include hsound

theorem takeBlock_perm {fresh region : MemlistItem} {size : ℕ}
    (hfresh : fresh ∈ memorylist) (hused : fresh.type = .used)
    (hregion : region ∈ memorylist) (hfree : region.type = .free)
    (hle : size ≤ region.size)
    (haligned : 4096 ≤ size → region.base % 4096 = 0) :
    ∃ others, memorylist.Perm (fresh :: region :: others) ∧
      (takeBlock memorylist fresh.descriptor region size).1.Perm
        (restItem region size ::
          blockItem fresh.descriptor region.base size :: others) := by
  have hdistinct : region ≠ fresh := by
    rintro rfl
    rw [hused] at hfree
    cases hfree
  have hregionLt := hsound.size_lt region hregion
  have hfirst := perm_cons_erase hfresh
  have hsecond := perm_cons_erase
    ((mem_erase_of_ne hdistinct).mpr hregion)
  have hperm := hfirst.trans (hsecond.cons fresh)
  have hfront := hsound.perm hperm
  have hswapped := hsound.perm (hperm.trans (List.Perm.swap _ _ _))
  refine ⟨_, hperm, ?_⟩
  rw [takeBlock_of_aligned hsound.size_lt (Nat.lt_of_le_of_lt hle hregionLt)
    haligned]
  have hblock : (writeItem fresh.descriptor (fillIn region.base size)
      memorylist).Perm (region ::
        blockItem fresh.descriptor region.base size ::
          (memorylist.erase fresh).erase region) :=
    (writeItem_perm hperm fun other hother =>
      hfront.descriptor_ne hother).trans (List.Perm.swap _ _ _)
  have hne : ∀ other ∈ blockItem fresh.descriptor region.base size ::
      (memorylist.erase fresh).erase region,
      other.descriptor ≠ region.descriptor := by
    intro other hother
    rcases mem_cons.mp hother with rfl | hlater
    · exact (hfront.descriptor_ne mem_cons_self).symm
    · exact hswapped.descriptor_ne (mem_cons_of_mem _ hlater)
  have hrest : shrink (region.base + size) size region =
      restItem region size := by
    unfold shrink restItem
    rw [sub32_of_le hle hregionLt]
  rw [← hrest]
  exact writeItem_perm hblock hne

theorem takeBlock {fresh region : MemlistItem} {size : ℕ}
    (hfresh : fresh ∈ memorylist) (hused : fresh.type = .used)
    (hlive : fresh.live = false) (hregion : region ∈ memorylist)
    (hfree : region.type = .free) (hle : size ≤ region.size)
    (haligned : 4096 ≤ size → region.base % 4096 = 0) :
    Sound heap (takeBlock memorylist fresh.descriptor region size).1 := by
  obtain ⟨others, hbefore, hafter⟩ :=
    hsound.takeBlock_perm hfresh hused hregion hfree hle haligned
  have hfront := hsound.perm hbefore
  have hregionLt := hsound.size_lt region hregion
  have hregionLive : region.live = false := by
    by_contra hnot
    have husedRegion := hsound.used region hregion (by simpa using hnot)
    rw [hfree] at husedRegion
    cases husedRegion
  refine Sound.perm ⟨?_, ?_, ?_⟩ hafter.symm
  · have hpacked := hfront.packed
    rw [flatMap_cons, flatMap_cons, extents_of_stale hused hlive,
      extents_of_block (Or.inl hfree)] at hpacked
    have hreversed := hpacked.perm
      ((reverse_perm [_, _, _]).symm.append_right
        (others.flatMap extents))
    have htaken := Packed.take hle hreversed
    have hrest : (restItem region size).extents =
        [⟨region.descriptor, sizeofMemlistItem⟩,
          ⟨region.base + size, region.size - size⟩] :=
      extents_of_block (Or.inl rfl)
    have hblock : (blockItem fresh.descriptor region.base size).extents =
        [⟨fresh.descriptor, sizeofMemlistItem⟩, ⟨region.base, size⟩] :=
      extents_of_block (Or.inr rfl)
    rw [flatMap_cons, flatMap_cons, hrest, hblock]
    exact htaken.perm (perm_front_last _ _ _ _ _)
  · intro item hitem
    rcases mem_cons.mp hitem with rfl | hlater
    · exact Nat.lt_of_le_of_lt (Nat.sub_le _ _) hregionLt
    · rcases mem_cons.mp hlater with rfl | hother
      · exact Nat.lt_of_le_of_lt hle hregionLt
      · exact hfront.size_lt item
          (mem_cons_of_mem _ (mem_cons_of_mem _ hother))
  · intro item hitem hitemLive
    rcases mem_cons.mp hitem with rfl | hlater
    · rw [restItem, hregionLive] at hitemLive
      cases hitemLive
    · rcases mem_cons.mp hlater with rfl | hother
      · rfl
      · exact hfront.used item
          (mem_cons_of_mem _ (mem_cons_of_mem _ hother)) hitemLive

end Sound

/-! ## The operations -/

theorem roundSize_lt (size : ℕ) : roundSize size < 2 ^ 32 := by
  have hmod : add32 size ((4 - size % 4) % 4) < 2 ^ 32 :=
    Nat.mod_lt _ (by norm_num)
  unfold roundSize
  simp only
  split
  · norm_num
  · exact hmod

theorem le_roundSize (hsize : size + 3 < 2 ^ 32) : size ≤ roundSize size := by
  have hround : add32 size ((4 - size % 4) % 4) =
      size + (4 - size % 4) % 4 := by
    apply Nat.mod_eq_of_lt
    omega
  unfold roundSize
  simp only [hround]
  split
  · omega
  · omega

/-- What keeps the heap in order: a request is not one of the last three
numbers, and a request for a page or more is served from a region that begins
at a page boundary; what is freed is not mistaken for an item that a failed
request left behind. -/
def Orderly (memorylist : List MemlistItem) : Move → Prop
  | .malloc size stale =>
    size + 3 < 2 ^ 32 ∧
      (4096 ≤ roundSize size →
        ∀ freememory region,
          findFreeRegion sizeofMemlistItem memorylist = some freememory →
          findFreeRegion (roundSize size)
            (placeDescriptor memorylist freememory stale) = some region →
          region.base % 4096 = 0)
  | .free pointer =>
    ∀ region, getRegion memorylist pointer = some region →
      region.type = .free ∨ region.live = true

/-- A block that `malloc` returned: it is live, large enough, and begins at a
page boundary when it has a page. -/
def Serves (memorylist : List MemlistItem) (size pointer : ℕ) : Prop :=
  (∃ item ∈ memorylist, item.live = true ∧ item.base = pointer ∧
    size ≤ item.size) ∧
    (4096 ≤ size → pointer % 4096 = 0)

namespace Sound

variable {heap : Heap} {memorylist : List MemlistItem}
  (hsound : Sound heap memorylist)
include hsound

theorem freshItem_mem {freememory : MemlistItem} (stale : Stale)
    (hmem : freememory ∈ memorylist) (htype : freememory.type = .free)
    (hsize : sizeofMemlistItem ≤ freememory.size) :
    freshItem freememory.base stale ∈
      Malloc.placeDescriptor memorylist freememory stale := by
  obtain ⟨others, -, hafter⟩ :=
    hsound.placeDescriptor_perm stale hmem htype hsize
  exact hafter.mem_iff.mpr (mem_cons_of_mem _ mem_cons_self)

theorem malloc {size : ℕ} {stale : Stale}
    (horderly : Orderly memorylist (.malloc size stale)) :
    Sound heap (malloc memorylist size stale).1 ∧
      ∀ pointer, (malloc memorylist size stale).2 = some pointer →
        Serves (malloc memorylist size stale).1 size pointer := by
  obtain ⟨hnowrap, haligned⟩ := horderly
  unfold Malloc.malloc
  cases hfree : findFreeRegion sizeofMemlistItem memorylist with
  | none => exact ⟨hsound, by simp⟩
  | some freememory =>
    obtain ⟨hmem, htype, hsize⟩ := findFreeRegion_spec hfree
    have hplaced := hsound.placeDescriptor stale hmem htype hsize
    have hfresh := hsound.freshItem_mem stale hmem htype hsize
    cases hfind : findFreeRegion (roundSize size)
        (Malloc.placeDescriptor memorylist freememory stale) with
    | none =>
      simp only [hfind]
      exact ⟨hplaced, by simp⟩
    | some region =>
      obtain ⟨hregion, hregionFree, hle⟩ := findFreeRegion_spec hfind
      have hpage : 4096 ≤ roundSize size → region.base % 4096 = 0 :=
        fun hlarge => haligned hlarge freememory region hfree hfind
      have htaken := hplaced.takeBlock hfresh rfl rfl hregion
        hregionFree hle hpage
      obtain ⟨others, -, hafter⟩ := hplaced.takeBlock_perm hfresh rfl
        hregion hregionFree hle hpage
      have hpointer : (Malloc.takeBlock
          (Malloc.placeDescriptor memorylist freememory stale)
          freememory.base region (roundSize size)).2 = region.base := by
        rw [takeBlock_of_aligned hplaced.size_lt (roundSize_lt size) hpage]
      simp only [hfind]
      refine ⟨htaken, ?_⟩
      intro pointer hequal
      rw [Option.some.inj hequal.symm, hpointer]
      refine ⟨⟨blockItem freememory.base region.base (roundSize size),
        ?_, rfl, rfl, le_roundSize hnowrap⟩, ?_⟩
      · exact hafter.mem_iff.mpr (mem_cons_of_mem _ mem_cons_self)
      · intro hlarge
        exact hpage (hlarge.trans (le_roundSize hnowrap))

omit hsound in
theorem flatMap_map_sublist {write : MemlistItem → MemlistItem}
    (hwrite : ∀ item ∈ memorylist, (write item).extents.Sublist item.extents) :
    ((memorylist.map write).flatMap extents).Sublist
      (memorylist.flatMap extents) := by
  induction memorylist with
  | nil => exact List.Sublist.refl []
  | cons item rest ih =>
    rw [map_cons, flatMap_cons, flatMap_cons]
    apply List.Sublist.append
    · exact hwrite item mem_cons_self
    · apply ih
      intro other hother
      exact hwrite other (mem_cons_of_mem item hother)

theorem map_write {write : MemlistItem → MemlistItem}
    (hextents : ∀ item ∈ memorylist, (write item).extents.Sublist item.extents)
    (hsize : ∀ item ∈ memorylist, (write item).size = item.size)
    (hused : ∀ item ∈ memorylist, (write item).live = true →
      (write item).type = .used) :
    Sound heap (memorylist.map write) where
  packed := hsound.packed.sublist (flatMap_map_sublist hextents)
  size_lt := by
    intro item hitem
    obtain ⟨before, hbefore, rfl⟩ := mem_map.mp hitem
    rw [hsize before hbefore]
    exact hsound.size_lt before hbefore
  used := by
    intro item hitem hlive
    obtain ⟨before, hbefore, rfl⟩ := mem_map.mp hitem
    exact hused before hbefore hlive

theorem forget (pointer : ℕ) :
    Sound heap (Malloc.forget pointer memorylist) := by
  refine hsound.map_write ?_ ?_ ?_
  · intro item hitem
    split
    · exact item.extents_forget_sublist
    · exact List.Sublist.refl _
  · intro item hitem
    split
    · rfl
    · rfl
  · intro item hitem
    split
    · intro hlive
      cases hlive
    · exact hsound.used item hitem

theorem free {pointer : ℕ} (horderly : Orderly memorylist (.free pointer)) :
    Sound heap (free memorylist pointer) := by
  unfold Malloc.free
  cases hregion : getRegion memorylist pointer with
  | none => exact hsound.forget pointer
  | some region =>
    have hcase := horderly region hregion
    have hmem : region ∈ memorylist := mem_of_find?_eq_some hregion
    have hbase : region.base = pointer := by
      simpa using find?_some hregion
    have honly : ∀ item ∈ memorylist,
        item.descriptor = region.descriptor → item = region := by
      intro item hitem hequal
      by_contra hne
      have hfront := hsound.perm (perm_cons_erase hmem)
      exact hfront.descriptor_ne ((mem_erase_of_ne hne).mpr hitem) hequal
    have hcompose : Malloc.forget pointer
        (writeItem region.descriptor
          (fun item => { item with type := .free }) memorylist) =
        memorylist.map fun item =>
          if item = region then
            { item with type := .free, live := false }
          else if item.base = pointer then
            { item with live := false }
          else
            item := by
      unfold Malloc.forget writeItem
      rw [map_map]
      apply map_congr_left
      intro item hitem
      by_cases hitself : item = region
      · subst hitself
        simp [hbase]
      · have hother : item.descriptor ≠ region.descriptor :=
          fun hequal => hitself (honly item hitem hequal)
        simp [hitself, hother]
    simp only [hcompose]
    refine hsound.map_write ?_ ?_ ?_
    · intro item hitem
      split
      · rename_i hitself
        subst hitself
        rw [extents_of_block hcase, extents_of_block (Or.inl rfl)]
      · split
        · exact item.extents_forget_sublist
        · exact List.Sublist.refl _
    · intro item hitem
      split
      · rfl
      · split
        · rfl
        · rfl
    · intro item hitem
      split
      · intro hlive
        cases hlive
      · split
        · intro hlive
          cases hlive
        · exact hsound.used item hitem

theorem step {move : Move} {after : List MemlistItem}
    (horderly : Orderly memorylist move)
    (hstep : step memorylist move = some after) : Sound heap after := by
  cases move with
  | malloc size stale =>
    simp only [Malloc.step] at hstep
    split_ifs at hstep
    rw [← Option.some.inj hstep]
    exact (hsound.malloc horderly).1
  | free pointer =>
    simp only [Malloc.step] at hstep
    split_ifs at hstep
    rw [← Option.some.inj hstep]
    exact hsound.free horderly

end Sound

/-- In every orderly run the blocks, the free regions and the items share no
byte and stay inside the heap, so that they do not add up to more than the
heap, and every block that is returned is as large as asked for. -/
theorem sound_of_reaches (heap : Heap) {memorylist : List MemlistItem}
    (hrun : TransitionSystem.Reaches step Orderly heap.InitializeMM
      memorylist) :
    Packed heap.range (memorylist.flatMap extents) ∧
      ((memorylist.flatMap extents).map Extent.length).sum ≤
        heap.range.length ∧
      ∀ size stale pointer, Orderly memorylist (.malloc size stale) →
        (malloc memorylist size stale).2 = some pointer →
        Serves (malloc memorylist size stale).1 size pointer := by
  have hsound : Sound heap memorylist :=
    hrun.invariant
      (fun _ _ _ hbefore horderly hstep => hbefore.step horderly hstep)
      (sound_InitializeMM heap)
  refine ⟨hsound.packed, hsound.packed.total_le, ?_⟩
  intro size stale pointer horderly hpointer
  exact (hsound.malloc horderly).2 pointer hpointer

def megabyte : Heap :=
  ⟨4194304, 4194304, 48, le_rfl, by decide⟩

/-- A request that leaves the free region 32 bytes before a page boundary,
then one for a page. -/
def pageRun : List Move :=
  [.malloc 4000 ⟨0, 0⟩, .malloc 4096 ⟨0, 0⟩, .free 4194368]

def orderly (memorylist : List MemlistItem) : Move → Bool
  | .malloc size stale =>
    decide (size + 3 < 2 ^ 32) &&
      (decide (roundSize size < 4096) ||
        match findFreeRegion sizeofMemlistItem memorylist with
        | none => true
        | some freememory =>
          match findFreeRegion (roundSize size)
              (placeDescriptor memorylist freememory stale) with
          | none => true
          | some region => decide (region.base % 4096 = 0))
  | .free pointer =>
    match getRegion memorylist pointer with
    | none => true
    | some region => decide (region.type = .free) || region.live

theorem orderly_sound (memorylist : List MemlistItem) (move : Move)
    (htest : orderly memorylist move = true) : Orderly memorylist move := by
  cases move with
  | malloc size stale =>
    unfold orderly at htest
    obtain ⟨hnowrap, hcase⟩ := (Bool.and_eq_true _ _).mp htest
    refine ⟨of_decide_eq_true hnowrap, ?_⟩
    intro hlarge freememory region hfree hfind
    have hsmall : decide (roundSize size < 4096) = false :=
      decide_eq_false (Nat.not_lt.mpr hlarge)
    rw [hsmall, Bool.false_or] at hcase
    simp only [hfree, hfind] at hcase
    exact of_decide_eq_true hcase
  | free pointer =>
    unfold orderly at htest
    intro region hregion
    simp only [hregion] at htest
    rcases (Bool.or_eq_true _ _).mp htest with hfree | hlive
    · exact Or.inl (of_decide_eq_true hfree)
    · exact Or.inr hlive

def after (heap : Heap) (moves : List Move) : List MemlistItem :=
  (TransitionSystem.runLabels step moves heap.InitializeMM).getD []

theorem runLabels_eq_after {heap : Heap} {moves : List Move}
    (hsome : (TransitionSystem.runLabels step moves
      heap.InitializeMM).isSome = true) :
    TransitionSystem.runLabels step moves heap.InitializeMM =
      some (after heap moves) := by
  obtain ⟨final, hfinal⟩ := Option.isSome_iff_exists.mp hsome
  unfold after
  rw [hfinal]
  rfl

theorem pageRun_packed :
    Packed megabyte.range ((after megabyte pageRun).flatMap extents) :=
  (sound_of_reaches megabyte
    (TransitionSystem.reaches_of_allowedLabels orderly_sound
      (by decide : TransitionSystem.allowedLabels step orderly pageRun
        megabyte.InitializeMM = true)
      (runLabels_eq_after (by decide)))).1

/-- After a request for a page as the first one, the free region is as long
as before less the page, although it begins later. -/
theorem first_page_not_packed :
    TransitionSystem.Reaches step (fun _ _ => True) megabyte.InitializeMM
        (after megabyte [.malloc 4096 ⟨0, 0⟩]) ∧
      ¬Packed megabyte.range
        ((after megabyte [.malloc 4096 ⟨0, 0⟩]).flatMap extents) := by
  constructor
  · exact TransitionSystem.reaches_of_runLabels (fun _ _ _ => trivial)
      (runLabels_eq_after (by decide))
  · intro hpacked
    have htotal := hpacked.total_le
    revert htotal
    decide

def freeRegions (memorylist : List MemlistItem) : List (ℕ × ℕ) :=
  (memorylist.filter fun item => item.type = .free).map fun item =>
    (item.base, item.size)

def liveBlocks (memorylist : List MemlistItem) : List (ℕ × ℕ) :=
  (memorylist.filter fun item => item.live).map fun item =>
    (item.base, item.size)

structure Unchanged (before after : List MemlistItem) : Prop where
  freeRegions_eq : freeRegions after = freeRegions before
  liveBlocks_eq : liveBlocks after = liveBlocks before

theorem freeRegions_insertBefore {descriptor : ℕ} {new : MemlistItem}
    (hused : new.type = .used) (memorylist : List MemlistItem) :
    freeRegions (insertBefore descriptor new memorylist) =
      freeRegions memorylist := by
  unfold freeRegions
  congr 1
  induction memorylist with
  | nil => rfl
  | cons item next ih =>
    unfold insertBefore
    split
    · exact filter_cons_of_neg (by simp [hused])
    · rw [filter_cons, filter_cons, ih]

theorem mem_insertBefore {new item : MemlistItem} (hmem : item ∈ memorylist) :
    item ∈ insertBefore descriptor new memorylist := by
  induction memorylist with
  | nil => cases hmem
  | cons first next ih =>
    unfold insertBefore
    split
    · exact mem_cons_of_mem new hmem
    · rcases mem_cons.mp hmem with rfl | hnext
      · exact mem_cons_self
      · exact mem_cons_of_mem first (ih hnext)

theorem freeRegions_placeDescriptor_ne {freememory : MemlistItem}
    (stale : Stale) (hmem : freememory ∈ memorylist)
    (htype : freememory.type = .free) :
    freeRegions (placeDescriptor memorylist freememory stale) ≠
      freeRegions memorylist := by
  intro hequal
  rw [← @freeRegions_insertBefore freememory.descriptor
    (freshItem freememory.base stale) rfl memorylist] at hequal
  unfold placeDescriptor writeItem freeRegions at hequal
  rw [filter_map, map_map] at hequal
  have hkind : ((fun item : MemlistItem => decide (item.type = .free)) ∘
      fun item => if item.descriptor = freememory.descriptor then
        { item with
          base := item.base + sizeofMemlistItem
          size := sub32 item.size sizeofMemlistItem }
      else item) = fun item => decide (item.type = .free) := by
    funext item
    simp only [Function.comp_apply]
    split <;> rfl
  rw [hkind] at hequal
  have hsame := map_inj_left.mp hequal freememory
    (mem_filter.mpr ⟨mem_insertBefore hmem, by simp [htype]⟩)
  simp [sizeofMemlistItem] at hsame

/-- A request that returns nothing leaves the heap as it was exactly when not
even the new item had room. -/
theorem malloc_unchanged_iff {memorylist : List MemlistItem} {size : ℕ}
    {stale : Stale} (hfails : (malloc memorylist size stale).2 = none) :
    Unchanged memorylist (malloc memorylist size stale).1 ↔
      ∀ item ∈ memorylist, item.type = .free →
        item.size < sizeofMemlistItem := by
  have hsuits (item : MemlistItem) :
      suits sizeofMemlistItem item = false ↔
        (item.type = .free → item.size < sizeofMemlistItem) := by
    simp [suits, sizeofMemlistItem]
  have hfind : findFreeRegion sizeofMemlistItem memorylist = none ↔
      ∀ item ∈ memorylist, item.type = .free →
        item.size < sizeofMemlistItem := by
    unfold findFreeRegion
    rw [find?_eq_none]
    simp only [Bool.not_eq_true, hsuits]
  rw [← hfind]
  unfold malloc at hfails ⊢
  cases hfree : findFreeRegion sizeofMemlistItem memorylist with
  | none => exact ⟨fun _ => rfl, fun _ => ⟨rfl, rfl⟩⟩
  | some freememory =>
    obtain ⟨hmem, htype, -⟩ := findFreeRegion_spec hfree
    simp only [hfree] at hfails ⊢
    split at hfails
    · refine ⟨fun hkept => absurd hkept.freeRegions_eq ?_, by simp⟩
      exact freeRegions_placeDescriptor_ne stale hmem htype
    · simp at hfails

/-- A block in use and 16 free bytes. -/
def crampedHeap : List MemlistItem :=
  [⟨0x400000, 0x400020, 64, .used, true⟩,
    ⟨0x400060, 0x400080, 16, .free, false⟩]

theorem malloc_unchanged_nothing :
    Unchanged crampedHeap (malloc crampedHeap 8 ⟨0, 0⟩).1 :=
  (malloc_unchanged_iff (by decide)).mpr (by decide)

theorem large_request_changes :
    TransitionSystem.Reaches step (fun _ _ => True) megabyte.InitializeMM
        (after megabyte []) ∧
      (malloc (after megabyte []) 8388608 ⟨0, 0⟩).2 = none ∧
      ¬Unchanged (after megabyte [])
        (malloc (after megabyte []) 8388608 ⟨0, 0⟩).1 := by
  refine ⟨?_, by decide, ?_⟩
  · exact TransitionSystem.reaches_of_runLabels (fun _ _ _ => trivial)
      (runLabels_eq_after (by decide))
  · intro hkept
    have hfree := hkept.freeRegions_eq
    revert hfree
    decide

end Malloc
end Dbvm
end CheatEngine
