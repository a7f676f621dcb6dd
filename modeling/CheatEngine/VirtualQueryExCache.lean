import CheatEngine.BitField

/-!
# The cache of memory regions

`TVirtualQueryExCache` keeps the regions of a process in an array and answers
`VirtualQueryEx` from it.  A lookup goes on from the region of the previous
one.
-/

namespace CheatEngine
namespace VirtualQueryExCache

open List

structure MemoryBasicInformation where
  baseAddress : UInt64
  allocationBase : UInt64
  allocationProtect : UInt32
  regionSize : UInt64
  state : UInt32
  protect : UInt32
  type : UInt32
deriving DecidableEq, Repr

def memFree : UInt32 := 0x10000

/-- The index of the last answer is `-1` before there is one. -/
structure Cache where
  lastAccessed : ℤ
  regions : List MemoryBasicInformation
deriving DecidableEq, Repr

def page (baseAddress : UInt64) : UInt64 :=
  baseAddress &&& 0xfffffffffffff000

namespace Cache

def create : Cache where
  lastAccessed := -1
  regions := []

/-- The loop that looks for the place of a region compares it with the last
region each time. -/
def addRegion (cache : Cache) (mbi : MemoryBasicInformation) : Cache :=
  match cache.regions.getLast? with
  | none => { cache with regions := cache.regions ++ [mbi] }
  | some last =>
    if mbi.baseAddress < last.baseAddress then
      match (List.range cache.regions.length).find?
          (fun _ => mbi.baseAddress < last.baseAddress) with
      | some i => { cache with regions := cache.regions.insertIdx i mbi }
      | none => cache
    else
      { cache with regions := cache.regions ++ [mbi] }

def forward (baseAddress : UInt64) (i : ℕ) :
    List MemoryBasicInformation → Option ℕ
  | [] => none
  | region :: rest =>
    if baseAddress < region.baseAddress then none
    else if baseAddress < region.baseAddress + region.regionSize then some i
    else forward baseAddress (i + 1) rest

def backward (baseAddress : UInt64) :
    List MemoryBasicInformation → Option ℕ
  | [] => none
  | region :: below =>
    if region.baseAddress + region.regionSize < baseAddress then none
    else if region.baseAddress ≤ baseAddress ∧
        baseAddress < region.baseAddress + region.regionSize then
      some below.length
    else backward baseAddress below

def closest (baseAddress : UInt64) :
    List MemoryBasicInformation → Option (ℕ × MemoryBasicInformation)
  | [] => none
  | region :: below =>
    if region.baseAddress < baseAddress then some (below.length, region)
    else closest baseAddress below

variable (cache : Cache) (baseAddress : UInt64)

def search : Option ℕ :=
  (forward baseAddress (cache.lastAccessed + 1).toNat
      (cache.regions.drop (cache.lastAccessed + 1).toNat)).or
    (backward baseAddress
      (cache.regions.take (cache.lastAccessed + 1).toNat).reverse)

def answer (region : MemoryBasicInformation) : MemoryBasicInformation :=
  { region with baseAddress := page baseAddress }

def gapAnswer (i : ℕ) (region : MemoryBasicInformation) :
    MemoryBasicInformation :=
  { region with
    baseAddress := page baseAddress
    allocationBase :=
      if 0 < i then
        (cache.regions[i - 1]?).elim 0 fun below =>
          below.baseAddress + below.regionSize
      else 0
    regionSize := region.baseAddress - page baseAddress }

def fallback : Cache × Option MemoryBasicInformation :=
  match closest baseAddress cache.regions.reverse with
  | none => (cache, none)
  | some (i, region) =>
    if region.baseAddress + region.regionSize < baseAddress then
      if i + 1 = cache.regions.length then (cache, none)
      else (cache, some (gapAnswer cache baseAddress i region))
    else
      ({ cache with lastAccessed := i }, some (answer baseAddress region))

def getRegion : Cache × Option MemoryBasicInformation :=
  match search cache baseAddress with
  | some i =>
    ({ cache with lastAccessed := i },
      (cache.regions[i]?).map (answer baseAddress))
  | none => fallback cache baseAddress

def load (regions : List MemoryBasicInformation) : Cache :=
  regions.foldl addRegion create

def afterQueries (queries : List UInt64) : Cache :=
  queries.foldl (fun cache query => (cache.getRegion query).1) cache

end Cache

namespace MemoryBasicInformation

variable (region : MemoryBasicInformation)

def start : ℕ := region.baseAddress.toNat

def stop : ℕ := region.baseAddress.toNat + region.regionSize.toNat

def Contains (address : UInt64) : Prop :=
  region.start ≤ address.toNat ∧ address.toNat < region.stop

/-- Whole pages that end before the end of the address space. -/
structure Sound : Prop where
  aligned : region.baseAddress.toNat % 4096 = 0
  sized : 0 < region.regionSize.toNat ∧ region.regionSize.toNat % 4096 = 0
  inside : region.baseAddress.toNat + region.regionSize.toNat < 2 ^ 64

end MemoryBasicInformation

open MemoryBasicInformation

def IsNext (regions : List MemoryBasicInformation) (address : UInt64)
    (next : MemoryBasicInformation) : Prop :=
  next ∈ regions ∧ address.toNat < next.start ∧
    ∀ region ∈ regions, address.toNat < region.start →
      next.start ≤ region.start

structure Reports (mbi : Option MemoryBasicInformation) (address : UInt64)
    (stop : ℕ) (state : UInt32) : Prop where
  answered : mbi.isSome = true
  base : ∀ info ∈ mbi, info.baseAddress = page address
  size : ∀ info ∈ mbi, info.regionSize.toNat = stop - (page address).toNat
  state : ∀ info ∈ mbi, info.state = state

/-- The answer for the page of an address: the rest of its region, or the
unmapped pages up to the next region.  Above all regions there may be no
answer. -/
structure IsVirtualQuery (regions : List MemoryBasicInformation)
    (address : UInt64) (mbi : Option MemoryBasicInformation) : Prop where
  mapped : ∀ region ∈ regions, region.Contains address →
    Reports mbi address region.stop region.state ∧
      ∀ info ∈ mbi, info.protect = region.protect
  gap : (∀ region ∈ regions, ¬ region.Contains address) →
    ∀ next, IsNext regions address next →
      Reports mbi address next.start memFree
  above : (∀ region ∈ regions, ¬ region.Contains address) →
    (∀ region ∈ regions, region.start ≤ address.toNat) →
      ∀ info ∈ mbi, info.state = memFree

/-- The addresses that are answered rightly: those in the first page of a
region, those above all regions, and the end of a region that is itself free
and happens to be as long as the gap. -/
def Served (regions : List MemoryBasicInformation) (address : UInt64) :
    Prop :=
  (∃ region ∈ regions, region.Contains address ∧
    (page address).toNat = region.start) ∨
  (∀ region ∈ regions, region.stop < address.toNat) ∨
  ∃ region ∈ regions, region.stop = address.toNat ∧ region.state = memFree ∧
    (∀ other ∈ regions, ¬ other.Contains address) ∧
    ∀ next, IsNext regions address next →
      next.start = address.toNat + region.regionSize.toNat

def ArrivesInOrder (regions : List MemoryBasicInformation) : Prop :=
  ∀ earlier region later, regions = earlier ++ region :: later →
    (∀ other ∈ earlier, other.start < region.start) ∨
      ∀ other ∈ earlier, region.start < other.start

def Apart (first second : MemoryBasicInformation) : Prop :=
  first.stop ≤ second.start ∨ second.stop ≤ first.start

theorem page_toNat (address : UInt64) :
    (page address).toNat = address.toNat - address.toNat % 4096 := by
  have hlt := address.toNat_lt
  have hmask : (0xfffffffffffff000 : UInt64).toNat =
      (2 ^ 52 - 1) * 2 ^ 12 := by decide
  rw [page, UInt64.toNat_and, hmask, BitField.and_high_mask]
  omega

theorem page_le (address : UInt64) : (page address).toNat ≤ address.toNat := by
  rw [page_toNat]
  omega

theorem le_page {bound : ℕ} {address : UInt64} (haligned : bound % 4096 = 0)
    (hle : bound ≤ address.toNat) : bound ≤ (page address).toNat := by
  rw [page_toNat]
  omega

variable {region : MemoryBasicInformation}
  {regions : List MemoryBasicInformation}

theorem stop_toNat (hsound : region.Sound) :
    (region.baseAddress + region.regionSize).toNat = region.stop := by
  rw [UInt64.toNat_add]
  exact Nat.mod_eq_of_lt hsound.inside

theorem start_lt_stop (hsound : region.Sound) : region.start < region.stop :=
  Nat.lt_add_of_pos_right hsound.sized.1

theorem stop_aligned (hsound : region.Sound) : region.stop % 4096 = 0 := by
  have haligned := hsound.aligned
  have hsized := hsound.sized.2
  unfold stop
  omega

def Sorted (regions : List MemoryBasicInformation) : Prop :=
  regions.Pairwise fun first second => first.stop ≤ second.start

theorem Apart.stop_le {first second : MemoryBasicInformation}
    (hapart : Apart first second) (hsecond : second.Sound)
    (hlt : first.start < second.start) : first.stop ≤ second.start := by
  rcases hapart with hle | hle
  · exact hle
  · have hstop := start_lt_stop hsecond
    omega

theorem addRegion_above {cache : Cache}
    (habove : ∀ other ∈ cache.regions, other.start < region.start) :
    cache.addRegion region =
      { cache with regions := cache.regions ++ [region] } := by
  unfold Cache.addRegion
  cases hlast : cache.regions.getLast? with
  | none => rfl
  | some last =>
    have hlt := habove last (mem_of_getLast? hlast)
    have hnot : ¬ region.baseAddress < last.baseAddress := by
      rw [UInt64.lt_iff_toNat_lt]
      exact Nat.not_lt.mpr (Nat.le_of_lt hlt)
    simp only [hnot, if_false]

theorem addRegion_below {cache : Cache} (hne : cache.regions ≠ [])
    (hbelow : ∀ other ∈ cache.regions, region.start < other.start) :
    cache.addRegion region =
      { cache with regions := region :: cache.regions } := by
  obtain ⟨initial, last, heq⟩ := (eq_nil_or_concat _).resolve_left hne
  rw [concat_eq_append] at heq
  have hlast : cache.regions.getLast? = some last := by simp [heq]
  have hlt : region.baseAddress < last.baseAddress := by
    rw [UInt64.lt_iff_toNat_lt]
    exact hbelow last (mem_of_getLast? hlast)
  have hfind : (List.range cache.regions.length).find?
      (fun _ => decide (region.baseAddress < last.baseAddress)) = some 0 := by
    rw [heq, length_append, length_singleton, range_succ_eq_map]
    simp [hlt]
  unfold Cache.addRegion
  simp only [hlast]
  rw [if_pos hlt, hfind]
  simp

theorem load_sorted (hsound : ∀ region ∈ regions, region.Sound)
    (hapart : regions.Pairwise Apart) (horder : ArrivesInOrder regions) :
    (Cache.load regions).lastAccessed = -1 ∧
      (Cache.load regions).regions.Perm regions ∧
      Sorted (Cache.load regions).regions := by
  induction regions using List.reverseRecOn with
  | nil => exact ⟨rfl, List.Perm.refl _, List.Pairwise.nil⟩
  | append_singleton earlier region ih =>
    rw [pairwise_append] at hapart
    obtain ⟨hlast, hperm, hsorted⟩ := ih
      (fun other hother => hsound other (mem_append_left _ hother))
      hapart.1 (by
        intro before other after heq
        exact horder before other (after ++ [region]) (by simp [heq]))
    have happend : Cache.load (earlier ++ [region]) =
        (Cache.load earlier).addRegion region := by
      simp [Cache.load]
    have hnew : region.Sound := hsound region (by simp)
    have hother (other : MemoryBasicInformation)
        (hmem : other ∈ (Cache.load earlier).regions) :
        other.Sound ∧ Apart other region := by
      have hearlier := hperm.mem_iff.mp hmem
      exact ⟨hsound other (mem_append_left _ hearlier),
        hapart.2.2 other hearlier region (by simp)⟩
    rw [happend]
    by_cases hempty : (Cache.load earlier).regions = []
    · rw [addRegion_above (by simp [hempty])]
      refine ⟨hlast, hperm.append_right _, ?_⟩
      simp [hempty, Sorted]
    · rcases horder earlier region [] rfl with habove | hbelow
      · rw [addRegion_above (fun other hmem =>
          habove other (hperm.mem_iff.mp hmem))]
        refine ⟨hlast, hperm.append_right _, ?_⟩
        refine pairwise_append.mpr
          ⟨hsorted, pairwise_singleton _ _, ?_⟩
        intro other hmem new hmemNew
        rw [mem_singleton.mp hmemNew]
        exact (hother other hmem).2.stop_le hnew
          (habove other (hperm.mem_iff.mp hmem))
      · rw [addRegion_below hempty (fun other hmem =>
          hbelow other (hperm.mem_iff.mp hmem))]
        refine ⟨hlast, ?_, ?_⟩
        · exact (hperm.cons region).trans
            (perm_append_singleton region earlier).symm
        · refine pairwise_cons.mpr ⟨?_, hsorted⟩
          intro other hmem
          obtain ⟨hothersound, hapartOther⟩ := hother other hmem
          have hswap : Apart region other := Or.symm hapartOther
          exact hswap.stop_le hothersound
            (hbelow other (hperm.mem_iff.mp hmem))

/-! ## The loops of a lookup -/

section

variable {address : UInt64} {regions : List MemoryBasicInformation}

theorem forward_spec (hsound : ∀ region ∈ regions, region.Sound) {i k : ℕ}
    (hfound : Cache.forward address i regions = some k) :
    ∃ region, i ≤ k ∧ regions[k - i]? = some region ∧
      region.Contains address := by
  induction regions generalizing i with
  | nil => simp [Cache.forward] at hfound
  | cons first rest ih =>
    unfold Cache.forward at hfound
    split at hfound
    · simp at hfound
    · next hlow =>
        split at hfound
        · next hhigh =>
            rw [UInt64.lt_iff_toNat_lt] at hlow hhigh
            rw [stop_toNat (hsound first mem_cons_self)] at hhigh
            rw [Option.some.injEq] at hfound
            refine ⟨first, hfound.le, ?_, Nat.not_lt.mp hlow, hhigh⟩
            rw [hfound, Nat.sub_self]
            rfl
        · obtain ⟨region, hle, hget, hcontains⟩ := ih
            (fun other hother =>
              hsound other (mem_cons_of_mem first hother)) hfound
          refine ⟨region, Nat.le_of_succ_le hle, ?_, hcontains⟩
          have hindex : k - i = k - (i + 1) + 1 := by omega
          rw [hindex, getElem?_cons_succ]
          exact hget

variable {region : MemoryBasicInformation}

section

variable (hsound : ∀ region ∈ regions, region.Sound)

include hsound

theorem forward_finds (hsorted : Sorted regions) (hmem : region ∈ regions)
    (hcontains : region.Contains address) (i : ℕ) :
    (Cache.forward address i regions).isSome = true := by
  induction regions generalizing i with
  | nil => cases hmem
  | cons first rest ih =>
    have hfirst := hsound first mem_cons_self
    obtain ⟨hbefore, hrest⟩ := pairwise_cons.mp hsorted
    unfold Cache.forward
    have hlow : ¬ address < first.baseAddress := by
      rw [UInt64.lt_iff_toNat_lt, Nat.not_lt]
      have hcontainsLow := hcontains.1
      rcases mem_cons.mp hmem with rfl | hlater
      · exact hcontainsLow
      · have hle := hbefore region hlater
        have hstop := start_lt_stop hfirst
        unfold MemoryBasicInformation.start at *
        omega
    rw [if_neg hlow]
    split
    · rfl
    · next hhigh =>
        rcases mem_cons.mp hmem with rfl | hlater
        · exfalso
          apply hhigh
          rw [UInt64.lt_iff_toNat_lt, stop_toNat hfirst]
          exact hcontains.2
        · exact ih (fun other hother =>
            hsound other (mem_cons_of_mem first hother)) hrest
            hlater (i + 1)

theorem backward_spec {k : ℕ}
    (hfound : Cache.backward address regions.reverse = some k) :
    ∃ region, regions[k]? = some region ∧ region.Contains address := by
  induction regions using List.reverseRecOn with
  | nil => simp [Cache.backward] at hfound
  | append_singleton below last ih =>
    have hlast := hsound last (by simp)
    rw [reverse_append, reverse_singleton, singleton_append] at hfound
    unfold Cache.backward at hfound
    split at hfound
    · simp at hfound
    · split at hfound
      · next hinside =>
          rw [UInt64.le_iff_toNat_le, UInt64.lt_iff_toNat_lt,
            stop_toNat hlast] at hinside
          rw [Option.some.injEq, length_reverse] at hfound
          refine ⟨last, ?_, hinside⟩
          rw [← hfound, getElem?_concat_length]
      · obtain ⟨region, hget, hcontains⟩ := ih
          (fun other hother =>
            hsound other (mem_append_left _ hother)) hfound
        refine ⟨region, ?_, hcontains⟩
        have hlt := (List.getElem?_eq_some_iff.mp hget).1
        rw [getElem?_append_left hlt]
        exact hget

theorem backward_finds (hsorted : Sorted regions) (hmem : region ∈ regions)
    (hcontains : region.Contains address) :
    (Cache.backward address regions.reverse).isSome = true := by
  induction regions using List.reverseRecOn with
  | nil => cases hmem
  | append_singleton below last ih =>
    have hlast := hsound last (by simp)
    obtain ⟨hbelow, -, hbefore⟩ := pairwise_append.mp hsorted
    rw [reverse_append, reverse_singleton, singleton_append]
    unfold Cache.backward
    have hhigh : ¬ last.baseAddress + last.regionSize < address := by
      rw [UInt64.lt_iff_toNat_lt, stop_toNat hlast, Nat.not_lt]
      have hcontainsHigh := hcontains.2
      rcases mem_append.mp hmem with hearlier | hlater
      · have hle := hbefore region hearlier last (by simp)
        have hstop := start_lt_stop hlast
        omega
      · rw [← mem_singleton.mp hlater]
        exact hcontainsHigh.le
    rw [if_neg hhigh]
    split
    · rfl
    · next houtside =>
        rcases mem_append.mp hmem with hearlier | hlater
        · exact ih (fun other hother =>
            hsound other (mem_append_left _ hother)) hbelow hearlier
        · exfalso
          apply houtside
          rw [UInt64.le_iff_toNat_le, UInt64.lt_iff_toNat_lt,
            stop_toNat hlast, ← mem_singleton.mp hlater]
          exact hcontains

end

theorem closest_of_split {left right : List MemoryBasicInformation}
    (hstart : region.start < address.toNat)
    (hright : ∀ other ∈ right, address.toNat ≤ other.start) :
    Cache.closest address (left ++ region :: right).reverse =
      some (left.length, region) := by
  induction right using List.reverseRecOn with
  | nil =>
    rw [reverse_append, reverse_singleton, singleton_append]
    unfold Cache.closest
    rw [if_pos (UInt64.lt_iff_toNat_lt.mpr hstart), length_reverse]
  | append_singleton right last ih =>
    have hsplit : (left ++ region :: (right ++ [last])).reverse =
        last :: (left ++ region :: right).reverse := by simp
    have hnot : ¬ last.baseAddress < address := by
      rw [UInt64.lt_iff_toNat_lt, Nat.not_lt]
      exact hright last (by simp)
    rw [hsplit]
    unfold Cache.closest
    rw [if_neg hnot]
    exact ih (fun other hother =>
      hright other (mem_append_left _ hother))

theorem closest_of_above
    (habove : ∀ other ∈ regions, address.toNat ≤ other.start) :
    Cache.closest address regions.reverse = none := by
  induction regions using List.reverseRecOn with
  | nil => rfl
  | append_singleton below last ih =>
    have hnot : ¬ last.baseAddress < address := by
      rw [UInt64.lt_iff_toNat_lt, Nat.not_lt]
      exact habove last (by simp)
    rw [reverse_append, reverse_singleton, singleton_append]
    unfold Cache.closest
    rw [if_neg hnot]
    exact ih (fun other hother =>
      habove other (mem_append_left _ hother))

end

/-! ## Answers -/

section

variable {cache : Cache} {address : UInt64}

theorem Sorted.unique {regions : List MemoryBasicInformation}
    (hsorted : Sorted regions) {first second : MemoryBasicInformation}
    (hfirst : first ∈ regions) (hsecond : second ∈ regions)
    (hin : first.Contains address) (hin' : second.Contains address) :
    first = second := by
  induction regions with
  | nil => cases hfirst
  | cons region rest ih =>
    obtain ⟨hbefore, hrest⟩ := pairwise_cons.mp hsorted
    unfold MemoryBasicInformation.Contains at hin hin'
    rcases mem_cons.mp hfirst with rfl | hfirstRest
    · rcases mem_cons.mp hsecond with rfl | hsecondRest
      · rfl
      · have hle := hbefore second hsecondRest
        omega
    · rcases mem_cons.mp hsecond with rfl | hsecondRest
      · have hle := hbefore first hfirstRest
        omega
      · exact ih hrest hfirstRest hsecondRest

theorem search_spec (hsound : ∀ region ∈ cache.regions, region.Sound) {k : ℕ}
    (hfound : cache.search address = some k) :
    ∃ region, cache.regions[k]? = some region ∧ region.Contains address := by
  unfold Cache.search at hfound
  rcases Option.or_eq_some_iff.mp hfound with hforward | ⟨-, hbackward⟩
  · obtain ⟨region, hle, hget, hcontains⟩ := forward_spec
      (fun other hother => hsound other (mem_of_mem_drop hother)) hforward
    refine ⟨region, ?_, hcontains⟩
    rw [getElem?_drop, Nat.add_sub_cancel' hle] at hget
    exact hget
  · obtain ⟨region, hget, hcontains⟩ := backward_spec
      (fun other hother => hsound other (mem_of_mem_take hother))
      hbackward
    refine ⟨region, ?_, hcontains⟩
    have hlt := (List.getElem?_eq_some_iff.mp hget).1
    rw [length_take] at hlt
    rw [getElem?_take_of_lt (by omega)] at hget
    exact hget

variable {region : MemoryBasicInformation}

section

variable (hsound : ∀ region ∈ cache.regions, region.Sound)
  (hsorted : Sorted cache.regions) (hmem : region ∈ cache.regions)
  (hcontains : region.Contains address)

include hsound hsorted hmem hcontains

theorem search_finds : (cache.search address).isSome = true := by
  have hparts := take_append_drop (cache.lastAccessed + 1).toNat
    cache.regions
  unfold Cache.search
  rw [Option.isSome_or]
  rw [← hparts] at hmem
  rcases mem_append.mp hmem with hbelow | habove
  · have hfinds := backward_finds
      (fun other hother => hsound other (mem_of_mem_take hother))
      (hsorted.sublist (take_sublist _ _)) hbelow hcontains
    rw [hfinds, Bool.or_true]
  · have hfinds := forward_finds
      (fun other hother => hsound other (mem_of_mem_drop hother))
      (hsorted.sublist (drop_sublist _ _)) habove hcontains
      (cache.lastAccessed + 1).toNat
    rw [hfinds, Bool.true_or]

theorem getRegion_mapped :
    (cache.getRegion address).2 = some (Cache.answer address region) := by
  obtain ⟨k, hk⟩ := Option.isSome_iff_exists.mp
    (search_finds hsound hsorted hmem hcontains)
  obtain ⟨found, hget, hfound⟩ := search_spec hsound hk
  have hsame := hsorted.unique (mem_of_getElem? hget) hmem hfound
    hcontains
  unfold Cache.getRegion
  rw [hk]
  simp only [hget, Option.map_some, hsame]

end

theorem getRegion_unmapped (hsound : ∀ region ∈ cache.regions, region.Sound)
    (hnone : ∀ region ∈ cache.regions, ¬ region.Contains address) :
    cache.getRegion address = cache.fallback address := by
  unfold Cache.getRegion
  cases hsearch : cache.search address with
  | none => rfl
  | some k =>
    obtain ⟨region, hget, hcontains⟩ := search_spec hsound hsearch
    exact absurd hcontains (hnone region (mem_of_getElem? hget))

/-- The regions around an address outside of all of them: none below it, or
the closest one below it with those above. -/
theorem below_or_split {regions : List MemoryBasicInformation}
    (hsorted : Sorted regions) (hsound : ∀ region ∈ regions, region.Sound)
    (hnone : ∀ region ∈ regions, ¬ region.Contains address) :
    (∀ region ∈ regions, address.toNat < region.start) ∨
      ∃ left region right, regions = left ++ region :: right ∧
        (∀ other ∈ left, other.stop ≤ region.start) ∧
        region.start < address.toNat ∧ region.stop ≤ address.toNat ∧
        ∀ other ∈ right, address.toNat < other.start := by
  induction regions with
  | nil => exact Or.inl (by simp)
  | cons first rest ih =>
    obtain ⟨hbefore, hrest⟩ := pairwise_cons.mp hsorted
    have hfirst := hsound first mem_cons_self
    have hstop := start_lt_stop hfirst
    have hout := hnone first mem_cons_self
    unfold MemoryBasicInformation.Contains at hout
    rcases ih hrest
      (fun other hother => hsound other (mem_cons_of_mem _ hother))
      (fun other hother => hnone other (mem_cons_of_mem _ hother))
      with habove | ⟨left, region, right, heq, hleft, hsplit⟩
    · rcases Nat.lt_or_ge address.toNat first.start with hlt | hge
      · left
        intro other hother
        rcases mem_cons.mp hother with rfl | hlater
        · exact hlt
        · exact habove other hlater
      · right
        exact ⟨[], first, rest, rfl, by simp, by omega, by omega, habove⟩
    · right
      refine ⟨first :: left, region, right, by rw [heq]; rfl, ?_, hsplit⟩
      intro other hother
      rcases mem_cons.mp hother with rfl | hlater
      · exact hbefore region (by simp [heq])
      · exact hleft other hlater

theorem mapped_iff (hsound : ∀ region ∈ cache.regions, region.Sound)
    (hsorted : Sorted cache.regions) (hmem : region ∈ cache.regions)
    (hcontains : region.Contains address) :
    IsVirtualQuery cache.regions address (cache.getRegion address).2 ↔
      Served cache.regions address := by
  have hregion := hsound region hmem
  have hpage := le_page hregion.aligned hcontains.1
  have hpageLe := page_le address
  have hsize : region.stop = region.start + region.regionSize.toNat := rfl
  rw [getRegion_mapped hsound hsorted hmem hcontains]
  constructor
  · intro hright
    have hreport := (hright.mapped region hmem hcontains).1.size _ rfl
    have hcontainsHigh := hcontains.2
    refine Or.inl ⟨region, hmem, hcontains, ?_⟩
    simp only [Cache.answer] at hreport
    unfold MemoryBasicInformation.start at *
    omega
  · intro hserved
    have hstart : (page address).toNat = region.start := by
      rcases hserved with ⟨other, hother, hin, hstart⟩ | hbeyond |
        ⟨-, -, -, -, hnone, -⟩
      · rw [hsorted.unique hmem hother hcontains hin]
        exact hstart
      · have hstop := hbeyond region hmem
        have hcontainsHigh := hcontains.2
        omega
      · exact absurd hcontains (hnone region hmem)
    have hexact : ∀ other ∈ cache.regions, other.Contains address →
        other = region := fun other hother hin =>
      hsorted.unique hother hmem hin hcontains
    constructor
    · intro other hother hin
      rw [hexact other hother hin]
      refine ⟨⟨rfl, ?_, ?_, ?_⟩, ?_⟩
      · intro info hinfo
        rw [← Option.mem_some_iff.mp hinfo]
        rfl
      · intro info hinfo
        rw [← Option.mem_some_iff.mp hinfo, hstart, hsize,
          Nat.add_sub_cancel_left]
        rfl
      · intro info hinfo
        rw [← Option.mem_some_iff.mp hinfo]
        rfl
      · intro info hinfo
        rw [← Option.mem_some_iff.mp hinfo]
        rfl
    · intro hnone
      exact absurd hcontains (hnone region hmem)
    · intro hnone
      exact absurd hcontains (hnone region hmem)

theorem below_iff (hsound : ∀ region ∈ cache.regions, region.Sound)
    (hbelow : ∀ region ∈ cache.regions, address.toNat < region.start)
    (hsorted : Sorted cache.regions) :
    IsVirtualQuery cache.regions address (cache.getRegion address).2 ↔
      Served cache.regions address := by
  have hnone : ∀ region ∈ cache.regions, ¬ region.Contains address :=
    fun region hmem hin => absurd hin.1 (Nat.not_le.mpr (hbelow region hmem))
  have hanswer : (cache.getRegion address).2 = none := by
    rw [getRegion_unmapped hsound hnone]
    unfold Cache.fallback
    rw [closest_of_above fun other hmem => (hbelow other hmem).le]
  rw [hanswer]
  cases hregions : cache.regions with
  | nil =>
    refine iff_of_true ⟨by simp, ?_, by simp⟩ (Or.inr (Or.inl (by simp)))
    intro _ next hnext
    exact absurd hnext.1 (by simp)
  | cons first rest =>
    rw [hregions] at hbelow hsound hsorted hnone
    have hfirst := hbelow first mem_cons_self
    have hstop := start_lt_stop (hsound first mem_cons_self)
    have hnext : IsNext (first :: rest) address first := by
      refine ⟨mem_cons_self, hfirst, ?_⟩
      intro other hother _
      rcases mem_cons.mp hother with rfl | hlater
      · exact le_rfl
      · have hle := (pairwise_cons.mp hsorted).1 other hlater
        omega
    apply iff_of_false
    · intro hright
      have hsome := (hright.gap hnone first hnext).answered
      simp at hsome
    · rintro (⟨region, hmem, hin, -⟩ | hbeyond | ⟨region, hmem, hend, -⟩)
      · exact hnone region hmem hin
      · have hlt := hbeyond first mem_cons_self
        omega
      · have hlt := hbelow region hmem
        have hregion := start_lt_stop (hsound region hmem)
        omega

section

variable {left right : List MemoryBasicInformation}
  {region : MemoryBasicInformation}

theorem fallback_of_split
    (hregions : cache.regions = left ++ region :: right)
    (hsound : region.Sound) (hstart : region.start < address.toNat)
    (hright : ∀ other ∈ right, address.toNat < other.start) :
    (cache.fallback address).2 =
      if region.stop < address.toNat then
        if right = [] then none
        else some (cache.gapAnswer address left.length region)
      else some (Cache.answer address region) := by
  have hend : (region.baseAddress + region.regionSize < address) ↔
      region.stop < address.toNat := by
    rw [UInt64.lt_iff_toNat_lt, stop_toNat hsound]
  have hlast : left.length + 1 = cache.regions.length ↔ right = [] := by
    rw [hregions, length_append, length_cons, ← length_eq_zero_iff]
    omega
  have hclosest : Cache.closest address cache.regions.reverse =
      some (left.length, region) := by
    rw [hregions]
    exact closest_of_split hstart fun other hother => (hright other hother).le
  unfold Cache.fallback
  rw [hclosest]
  simp only [hend, hlast]
  split
  · split <;> rfl
  · rfl

/-- The closest region ends at the address or below it. -/
structure Between (regions left : List MemoryBasicInformation)
    (region : MemoryBasicInformation) (right : List MemoryBasicInformation)
    (address : UInt64) : Prop where
  split : regions = left ++ region :: right
  left_le : ∀ other ∈ left, other.stop ≤ region.start
  starts : region.start < address.toNat
  ends : region.stop ≤ address.toNat
  right_lt : ∀ other ∈ right, address.toNat < other.start

variable {regions : List MemoryBasicInformation}

theorem Between.isNext (hbetween : Between regions left region right address)
    (hsorted : Sorted regions) (hsound : ∀ other ∈ regions, other.Sound)
    {next : MemoryBasicInformation} {rest : List MemoryBasicInformation}
    (hright : right = next :: rest) : IsNext regions address next := by
  have hsplit := hbetween.split
  rw [hright] at hsplit
  refine ⟨by simp [hsplit], hbetween.right_lt next (by simp [hright]), ?_⟩
  intro other hother habove
  rw [hsplit] at hother hsorted
  have hrest := (pairwise_append.mp hsorted).2.1
  have hafter := (pairwise_cons.mp (pairwise_cons.mp hrest).2).1
  have hnext := start_lt_stop (hsound next (by simp [hsplit]))
  have hstarts := hbetween.starts
  rcases mem_append.mp hother with hleft | hlater
  · have hle := hbetween.left_le other hleft
    have hstop := start_lt_stop (hsound other (by simp [hsplit, hleft]))
    omega
  · rcases mem_cons.mp hlater with rfl | hlater
    · omega
    · rcases mem_cons.mp hlater with rfl | hlater
      · exact le_rfl
      · have hle := hafter other hlater
        omega

theorem Between.eq_of_stop
    (hbetween : Between regions left region right address)
    (hsound : ∀ other ∈ regions, other.Sound)
    {other : MemoryBasicInformation} (hother : other ∈ regions)
    (hstop : other.stop = address.toNat) : other = region := by
  have hmem := hother
  have hstarts := hbetween.starts
  rw [hbetween.split] at hmem
  rcases mem_append.mp hmem with hleft | hlater
  · have hle := hbetween.left_le other hleft
    omega
  · rcases mem_cons.mp hlater with rfl | hlater
    · rfl
    · have hlt := hbetween.right_lt other hlater
      have hsize := start_lt_stop (hsound other hother)
      omega

section

variable (hsound : ∀ other ∈ cache.regions, other.Sound)
  (hsorted : Sorted cache.regions)
  (hnone : ∀ other ∈ cache.regions, ¬ other.Contains address)
  (hbetween : Between cache.regions left region right address)

include hsound hsorted hnone hbetween

theorem gap_iff (hstop : region.stop < address.toNat) :
    IsVirtualQuery cache.regions address (cache.getRegion address).2 ↔
      Served cache.regions address := by
  have hmem : region ∈ cache.regions := by simp [hbetween.split]
  rw [getRegion_unmapped hsound hnone, fallback_of_split hbetween.split
    (hsound region hmem) hbetween.starts hbetween.right_lt, if_pos hstop]
  cases hright : right with
  | nil =>
    rw [if_pos rfl]
    have hsplit := hbetween.split
    rw [hright] at hsplit
    have hbeyond : ∀ other ∈ cache.regions,
        other.stop < address.toNat := by
      intro other hother
      have hsize := start_lt_stop (hsound other hother)
      rw [hsplit] at hother
      rcases mem_append.mp hother with hleft | hlast
      · have hle := hbetween.left_le other hleft
        have hstarts := hbetween.starts
        omega
      · rw [mem_singleton.mp hlast]
        exact hstop
    refine iff_of_true ⟨?_, ?_, by simp⟩ (Or.inr (Or.inl hbeyond))
    · intro other hother hin
      exact absurd hin (hnone other hother)
    · intro _ next hnext
      have hlt := hbeyond next hnext.1
      have hsize := start_lt_stop (hsound next hnext.1)
      have habove := hnext.2.1
      omega
  | cons next rest =>
    rw [if_neg (cons_ne_nil next rest)]
    have hnext := hbetween.isNext hsorted hsound hright
    apply iff_of_false
    · intro hserved
      have hsize := (hserved.gap hnone next hnext).size _ rfl
      have hpage := le_page (stop_aligned (hsound region hmem)) hstop.le
      have hpageLe := page_le address
      have hstart := start_lt_stop (hsound region hmem)
      have habove := hnext.2.1
      have hbase := region.baseAddress.toNat_lt
      have hnextBase := next.baseAddress.toNat_lt
      have hpageLt := (page address).toNat_lt
      simp only [Cache.gapAnswer, UInt64.toNat_sub] at hsize
      unfold MemoryBasicInformation.start at *
      omega
    · rintro (⟨other, hother, hin, -⟩ | hbeyond | ⟨other, hother, hend, -⟩)
      · exact hnone other hother hin
      · have hlt := hbeyond next hnext.1
        have hsize := start_lt_stop (hsound next hnext.1)
        have habove := hnext.2.1
        omega
      · rw [hbetween.eq_of_stop hsound hother hend] at hend
        omega

theorem end_iff (hstop : region.stop = address.toNat) :
    IsVirtualQuery cache.regions address (cache.getRegion address).2 ↔
      Served cache.regions address := by
  have hmem : region ∈ cache.regions := by simp [hbetween.split]
  have hpage : (page address).toNat = address.toNat := by
    have haligned := stop_aligned (hsound region hmem)
    rw [page_toNat, ← hstop, haligned, Nat.sub_zero]
  rw [getRegion_unmapped hsound hnone, fallback_of_split hbetween.split
    (hsound region hmem) hbetween.starts hbetween.right_lt,
    if_neg (by omega)]
  constructor
  · intro hright
    refine Or.inr (Or.inr ⟨region, hmem, hstop, ?_, hnone, ?_⟩)
    · cases hrest : right with
      | nil =>
        refine hright.above hnone ?_ (Cache.answer address region) rfl
        intro other hother
        have hsplit := hbetween.split
        rw [hrest] at hsplit
        have hsize := start_lt_stop (hsound other hother)
        rw [hsplit] at hother
        have hstarts := hbetween.starts
        rcases mem_append.mp hother with hleft | hlast
        · have hle := hbetween.left_le other hleft
          omega
        · rw [mem_singleton.mp hlast]
          exact hstarts.le
      | cons next rest =>
        exact (hright.gap hnone next
          (hbetween.isNext hsorted hsound hrest)).state
            (Cache.answer address region) rfl
    · intro next hnext
      have hsize := (hright.gap hnone next hnext).size _ rfl
      have habove := hnext.2.1
      simp only [Cache.answer] at hsize
      omega
  · rintro (⟨other, hother, hin, -⟩ | hbeyond | hcoincidence)
    · exact absurd hin (hnone other hother)
    · have hlt := hbeyond region hmem
      omega
    · obtain ⟨other, hother, hend, hfree, -, hlength⟩ := hcoincidence
      rw [hbetween.eq_of_stop hsound hother hend] at hfree hlength
      constructor
      · intro found hfound hin
        exact absurd hin (hnone found hfound)
      · intro _ next hnext
        refine ⟨rfl, ?_, ?_, ?_⟩
        · intro info hinfo
          rw [← Option.mem_some_iff.mp hinfo]
          rfl
        · intro info hinfo
          rw [← Option.mem_some_iff.mp hinfo, hlength next hnext, hpage,
            Nat.add_sub_cancel_left]
          rfl
        · intro info hinfo
          rw [← Option.mem_some_iff.mp hinfo]
          exact hfree
      · intro _ _ info hinfo
        rw [← Option.mem_some_iff.mp hinfo]
        exact hfree

end

end

theorem sorted_iff (hsound : ∀ other ∈ cache.regions, other.Sound)
    (hsorted : Sorted cache.regions) (address : UInt64) :
    IsVirtualQuery cache.regions address (cache.getRegion address).2 ↔
      Served cache.regions address := by
  by_cases hmapped : ∃ region ∈ cache.regions, region.Contains address
  · obtain ⟨region, hmem, hcontains⟩ := hmapped
    exact mapped_iff hsound hsorted hmem hcontains
  · have hnone : ∀ region ∈ cache.regions, ¬ region.Contains address :=
      fun region hmem hin => hmapped ⟨region, hmem, hin⟩
    rcases below_or_split hsorted hsound hnone with hbelow |
      ⟨left, region, right, hsplit, hleft, hstarts, hends, hright⟩
    · exact below_iff hsound hbelow hsorted
    · have hbetween : Between cache.regions left region right address :=
        ⟨hsplit, hleft, hstarts, hends, hright⟩
      rcases Nat.lt_or_eq_of_le hends with hlt | heq
      · exact gap_iff hsound hsorted hnone hbetween hlt
      · exact end_iff hsound hsorted hnone hbetween heq

end

theorem regions_getRegion (cache : Cache) (address : UInt64) :
    (cache.getRegion address).1.regions = cache.regions := by
  unfold Cache.getRegion Cache.fallback
  split
  · rfl
  · split
    · rfl
    · split
      · split <;> rfl
      · rfl

theorem regions_afterQueries (cache : Cache) (queries : List UInt64) :
    (cache.afterQueries queries).regions = cache.regions := by
  unfold Cache.afterQueries
  induction queries generalizing cache with
  | nil => rfl
  | cons query queries ih =>
    rw [foldl_cons, ih, regions_getRegion]

theorem isVirtualQuery_perm {others : List MemoryBasicInformation}
    (hperm : regions.Perm others) {address : UInt64}
    {mbi : Option MemoryBasicInformation}
    (hright : IsVirtualQuery regions address mbi) :
    IsVirtualQuery others address mbi := by
  have hnext (next : MemoryBasicInformation) :
      IsNext regions address next ↔ IsNext others address next := by
    simp only [IsNext, hperm.mem_iff]
  constructor
  · intro region hmem
    exact hright.mapped region (hperm.mem_iff.mpr hmem)
  · intro hnone next hisNext
    exact hright.gap
      (fun region hmem => hnone region (hperm.mem_iff.mp hmem)) next
      ((hnext next).mpr hisNext)
  · intro hnone hbelow
    exact hright.above
      (fun region hmem => hnone region (hperm.mem_iff.mp hmem))
      (fun region hmem => hbelow region (hperm.mem_iff.mp hmem))

theorem served_perm {others : List MemoryBasicInformation}
    (hperm : regions.Perm others) (address : UInt64) :
    Served regions address ↔ Served others address := by
  simp only [Served, IsNext, hperm.mem_iff]

/-- With regions that came in order, after any queries, an address is
answered rightly exactly when it is `Served`. -/
theorem getRegion_isVirtualQuery_iff {regions : List MemoryBasicInformation}
    (hsound : ∀ region ∈ regions, region.Sound)
    (hapart : regions.Pairwise Apart) (horder : ArrivesInOrder regions)
    (queries : List UInt64) (address : UInt64) :
    IsVirtualQuery regions address
        (((Cache.load regions).afterQueries queries).getRegion address).2 ↔
      Served regions address := by
  obtain ⟨-, hperm, hsorted⟩ := load_sorted hsound hapart horder
  have hregions := regions_afterQueries (Cache.load regions) queries
  rw [← hregions] at hperm hsorted
  have hiff := sorted_iff
    (fun region hmem => hsound region (hperm.mem_iff.mp hmem)) hsorted address
  rw [served_perm hperm] at hiff
  rw [← hiff]
  exact ⟨isVirtualQuery_perm hperm.symm, isVirtualQuery_perm hperm⟩

def pages (baseAddress regionSize : UInt64) : MemoryBasicInformation where
  baseAddress
  allocationBase := baseAddress
  allocationProtect := 0x40
  regionSize
  state := 0x1000
  protect := 0x04
  type := 0x20000

def twoRegions : List MemoryBasicInformation :=
  [pages 0x1000 0x2000, pages 0x4000 0x1000]

/-- The query before has gone past the region that is asked for. -/
theorem getRegion_isVirtualQuery_page :
    IsVirtualQuery twoRegions 0x1004
      (((Cache.load twoRegions).afterQueries [0x4010]).getRegion 0x1004).2 :=
  (getRegion_isVirtualQuery_iff
    (forall_mem_cons.mpr ⟨⟨by decide, by decide, by decide⟩,
      forall_mem_singleton.mpr ⟨by decide, by decide, by decide⟩⟩)
    (pairwise_pair.mpr (Or.inl (by decide)))
    (by
      intro earlier region later heq
      rcases earlier with _ | ⟨first, _ | ⟨second, rest⟩⟩
      · exact Or.inl (by simp)
      · obtain ⟨rfl, rfl, rfl⟩ : first = pages 0x1000 0x2000 ∧
            region = pages 0x4000 0x1000 ∧ later = [] := by
          simpa [twoRegions, eq_comm] using heq
        exact Or.inl (forall_mem_singleton.mpr (by decide))
      · simp at heq)
    [0x4010] 0x1004).mpr
    (Or.inl ⟨pages 0x1000 0x2000, mem_cons_self,
      ⟨by decide, by decide⟩, by decide⟩)

/-- The second page of a region, and the lowest region when it came first and
the middle one last. -/
theorem not_getRegion_isVirtualQuery :
    ¬ IsVirtualQuery [pages 0x1000 0x2000] 0x2000
        ((Cache.load [pages 0x1000 0x2000]).getRegion 0x2000).2 ∧
      ¬ IsVirtualQuery
        [pages 0x1000 0x1000, pages 0x3000 0x1000, pages 0x2000 0x1000]
        0x1000
        ((Cache.load [pages 0x1000 0x1000, pages 0x3000 0x1000,
          pages 0x2000 0x1000]).getRegion 0x1000).2 := by
  constructor
  · intro hright
    have hsize := (hright.mapped (pages 0x1000 0x2000) (by simp)
      ⟨by decide, by decide⟩).1.size
        { pages 0x1000 0x2000 with baseAddress := 0x2000 } (by decide)
    revert hsize
    decide
  · intro hright
    have hsome := (hright.mapped (pages 0x1000 0x1000) (by simp)
      ⟨by decide, by decide⟩).1.answered
    revert hsome
    decide

end VirtualQueryExCache
end CheatEngine
