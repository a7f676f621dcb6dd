import CheatEngine.ArrayRange
import CheatEngine.PointerValueListCreate

/-!
# Sorting the memory regions

`quicksortmemoryregions` rearranges a range of the region array so that its
base addresses ascend.  The partition loop is followed by an invariant that
bounds the entries it has passed and knows where its two scans stop.
-/

namespace CheatEngine.PointerValueList

open ArrayRange

theorem baseAt_eq (regions : Array MemoryRegion) (k : ℤ) :
    baseAt regions k = (entryAt regions k).baseAddress :=
  rfl

section

variable {regions : Array MemoryRegion} {x : UInt64}

theorem skipSmaller_spec {turns : ℕ} {i k : ℤ} (hle : i ≤ k)
    (hstop : x ≤ baseAt regions k) (hturns : k - i ≤ turns) :
    i ≤ skipSmaller regions x turns i ∧ skipSmaller regions x turns i ≤ k ∧
      x ≤ baseAt regions (skipSmaller regions x turns i) ∧
      ∀ m, i ≤ m → m < skipSmaller regions x turns i →
        baseAt regions m < x := by
  induction turns generalizing i with
  | zero =>
    have heq : i = k := by
      rw [Nat.cast_zero] at hturns
      omega
    subst heq
    exact ⟨le_rfl, le_rfl, hstop, fun m _ _ => by
      rw [skipSmaller] at *
      omega⟩
  | succ turns ih =>
    rw [skipSmaller]
    split
    · rename_i hless
      have hne : i ≠ k := by
        rintro rfl
        exact UInt64.not_lt.mpr hstop hless
      rw [Nat.cast_succ] at hturns
      obtain ⟨hfrom, hto, hend, hpassed⟩ :=
        ih (by omega : i + 1 ≤ k) (by omega)
      refine ⟨by omega, hto, hend, ?_⟩
      intro m hm hlt
      rcases eq_or_lt_of_le hm with rfl | hgreater
      · exact hless
      · exact hpassed m hgreater hlt
    · rename_i hnot
      exact ⟨le_rfl, hle, UInt64.not_lt.mp hnot, fun m _ _ => by omega⟩

theorem skipBigger_spec {turns : ℕ} {j k : ℤ} (hle : k ≤ j)
    (hstop : baseAt regions k ≤ x) (hturns : j - k ≤ turns) :
    skipBigger regions x turns j ≤ j ∧ k ≤ skipBigger regions x turns j ∧
      baseAt regions (skipBigger regions x turns j) ≤ x ∧
      ∀ m, skipBigger regions x turns j < m → m ≤ j →
        x < baseAt regions m := by
  induction turns generalizing j with
  | zero =>
    have heq : j = k := by
      rw [Nat.cast_zero] at hturns
      omega
    subst heq
    exact ⟨le_rfl, le_rfl, hstop, fun m _ _ => by
      rw [skipBigger] at *
      omega⟩
  | succ turns ih =>
    rw [skipBigger]
    split
    · rename_i hgreater
      have hne : j ≠ k := by
        rintro rfl
        exact UInt64.not_lt.mpr hstop hgreater
      rw [Nat.cast_succ] at hturns
      obtain ⟨hfrom, hto, hend, hpassed⟩ :=
        ih (by omega : k ≤ j - 1) (by omega)
      refine ⟨by omega, hto, hend, ?_⟩
      intro m hlt hm
      rcases eq_or_lt_of_le hm with rfl | hless
      · exact hgreater
      · exact hpassed m hlt (by omega)
    · rename_i hnot
      exact ⟨le_rfl, hle, UInt64.not_lt.mp hnot, fun m _ _ => by omega⟩

end

/-! ## The partition -/

/-- The entries before `i` and those behind `j` are on their sides of `x`, and
both scans will meet an entry that stops them. -/
structure PartitionState (x : UInt64) (lo hi : ℤ)
    (regions : Array MemoryRegion) (i j : ℤ) : Prop where
  lo_le : lo ≤ i
  le_hi : j ≤ hi
  low : ∀ k, lo ≤ k → k < i → baseAt regions k ≤ x
  high : ∀ k, j < k → k ≤ hi → x ≤ baseAt regions k
  stop_left : ∃ k, i ≤ k ∧ k ≤ hi ∧ x ≤ baseAt regions k
  stop_right : ∃ k, lo ≤ k ∧ k ≤ j ∧ baseAt regions k ≤ x

/-- The loop has ended with the bounds `i` and `j`. -/
structure Partitioned (x : UInt64) (lo hi : ℤ)
    (before after : Array MemoryRegion) (i j : ℤ) : Prop where
  rearranges : Rearranges lo hi before after
  crossed : j < i
  le_hi : i ≤ hi + 1
  lo_le : lo - 1 ≤ j
  low : ∀ k, lo ≤ k → k < i → baseAt after k ≤ x
  high : ∀ k, j < k → k ≤ hi → x ≤ baseAt after k

variable {x : UInt64} {lo hi : ℤ} {regions : Array MemoryRegion}

theorem PartitionState.swap {i j : ℤ} (hlo : 0 ≤ lo)
    (hsize : hi < regions.size) (hstate : PartitionState x lo hi regions i j)
    {left right : ℤ} (hleft : i ≤ left ∧ left ≤ hi)
    (hright : lo ≤ right ∧ right ≤ j) (hleftBase : x ≤ baseAt regions left)
    (hrightBase : baseAt regions right ≤ x)
    (hbefore : ∀ m, i ≤ m → m < left → baseAt regions m < x)
    (hbehind : ∀ m, right < m → m ≤ j → x < baseAt regions m)
    (hopen : left ≤ right) :
    Rearranges lo hi regions (regions.swapIfInBounds left.toNat right.toNat) ∧
      (∀ k, lo ≤ k → k < left + 1 → baseAt
        (regions.swapIfInBounds left.toNat right.toNat) k ≤ x) ∧
      (∀ k, right - 1 < k → k ≤ hi → x ≤ baseAt
        (regions.swapIfInBounds left.toNat right.toNat) k) := by
  have hlow := hstate.lo_le
  have hhigh := hstate.le_hi
  have hbase : ∀ k, 0 ≤ k → baseAt
      (regions.swapIfInBounds left.toNat right.toNat) k =
        if k = left then baseAt regions right
        else if k = right then baseAt regions left
        else baseAt regions k := by
    intro k hk
    simp only [baseAt_eq]
    rw [entryAt_swap (by omega) (by omega) hk (by omega) (by omega)]
    split
    · rfl
    · split <;> rfl
  refine ⟨rearranges_swap hlo (by omega) (by omega) hsize, ?_, ?_⟩
  · intro k hklo hk
    rw [hbase k (by omega)]
    split
    · exact hrightBase
    · rw [if_neg (by omega)]
      rcases lt_or_ge k i with hless | hge
      · exact hstate.low k hklo hless
      · exact UInt64.le_of_lt (hbefore k hge (by omega))
  · intro k hk hkhi
    rw [hbase k (by omega)]
    split
    · rename_i hsame
      have hequal : left = right := by omega
      rw [← hequal]
      exact hleftBase
    · split
      · exact hleftBase
      · rcases lt_or_ge j k with hless | hge
        · exact hstate.high k hless hkhi
        · exact UInt64.le_of_lt (hbehind k (by omega) hge)

theorem partitionRegions_spec (hlo : 0 ≤ lo) {turns : ℕ}
    (hsize : hi < regions.size) {i j : ℤ}
    (hstate : PartitionState x lo hi regions i j) (hturns : j - i < turns)
    (hopen : i ≤ j) :
    ∃ after last first,
      partitionRegions x turns regions i j = (after, last, first) ∧
      Partitioned x lo hi regions after last first ∧ i ≤ last ∧ first ≤ j ∧
      ((∃ p, i ≤ p ∧ p ≤ j ∧ baseAt regions p = x) →
        i < last ∧ first < j) := by
  induction turns generalizing regions i j with
  | zero =>
    rw [Nat.cast_zero] at hturns
    omega
  | succ turns ih =>
    have hlow := hstate.lo_le
    have hhigh := hstate.le_hi
    obtain ⟨k, hik, hkhi, hkBase⟩ := hstate.stop_left
    obtain ⟨l, hllo, hlj, hlBase⟩ := hstate.stop_right
    obtain ⟨hleftFrom, hleftTo, hleftBase, hbefore⟩ :=
      skipSmaller_spec hik hkBase (by omega : k - i ≤ regions.size)
    obtain ⟨hrightFrom, hrightTo, hrightBase, hbehind⟩ :=
      skipBigger_spec hlj hlBase (by omega : j - l ≤ regions.size)
    rw [partitionRegions]
    dsimp only
    generalize skipSmaller regions x regions.size i = left at *
    generalize skipBigger regions x regions.size j = right at *
    by_cases hcross : left ≤ right
    · rw [if_pos hcross]
      obtain ⟨hswap, hlowSwap, hhighSwap⟩ := hstate.swap hlo hsize
        ⟨hleftFrom, by omega⟩ ⟨by omega, hrightFrom⟩ hleftBase hrightBase
        hbefore hbehind hcross
      by_cases hdone : left + 1 > right - 1
      · rw [if_pos hdone]
        refine ⟨_, _, _, rfl, ⟨hswap, hdone, by omega, by omega, hlowSwap,
          hhighSwap⟩, by omega, by omega, ?_⟩
        intro _
        omega
      · rw [if_neg hdone]
        have hnext : PartitionState x lo hi
            (regions.swapIfInBounds left.toNat right.toNat)
            (left + 1) (right - 1) :=
          { lo_le := by omega
            le_hi := by omega
            low := hlowSwap
            high := hhighSwap
            stop_left := ⟨right, by omega, by omega,
              hhighSwap right (by omega) (by omega)⟩
            stop_right := ⟨left, by omega, by omega,
              hlowSwap left (by omega) (by omega)⟩ }
        rw [Nat.cast_succ] at hturns
        obtain ⟨after, last, first, hresult, hparted, hlast, hfirst, -⟩ :=
          ih (by simpa using hsize) hnext (by omega) (by omega)
        refine ⟨after, last, first, hresult,
          { hparted with
            rearranges := hswap.trans hparted.rearranges },
          by omega, by omega, ?_⟩
        intro _
        omega
    · rw [if_neg hcross]
      refine ⟨_, _, _, rfl, ⟨.refl lo hi regions, by omega, by omega,
        by omega, ?_, ?_⟩, hleftFrom, hrightFrom, ?_⟩
      · intro m hm hlt
        rcases lt_or_ge m i with hless | hge
        · exact hstate.low m hm hless
        · exact UInt64.le_of_lt (hbefore m hge hlt)
      · intro m hm hle
        rcases lt_or_ge j m with hless | hge
        · exact hstate.high m hless hle
        · exact UInt64.le_of_lt (hbehind m hm hge)
      · rintro ⟨p, hip, hpj, hpBase⟩
        have hleftPivot : left ≤ p := by
          by_contra hless
          have hlt := hbefore p hip (by omega)
          rw [hpBase] at hlt
          exact UInt64.lt_irrefl x hlt
        have hrightPivot : p ≤ right := by
          by_contra hgreater
          have hlt := hbehind p (by omega) hpj
          rw [hpBase] at hlt
          exact UInt64.lt_irrefl x hlt
        omega

/-! ## The recursion -/

def SortedOn (regions : Array MemoryRegion) (lo hi : ℤ) : Prop :=
  ∀ a b, lo ≤ a → a ≤ b → b ≤ hi → baseAt regions a ≤ baseAt regions b

theorem sortedOn_of_parts {i j : ℤ} (hlo : 0 ≤ lo) (hcross : j < i)
    (hbound : lo - 1 ≤ j) {parted left sorted : Array MemoryRegion}
    (hlow : ∀ k, lo ≤ k → k < i → baseAt parted k ≤ x)
    (hhigh : ∀ k, j < k → k ≤ hi → x ≤ baseAt parted k)
    (hleft : Rearranges lo j parted left) (hleftSorted : SortedOn left lo j)
    (hright : Rearranges i hi left sorted)
    (hrightSorted : SortedOn sorted i hi) : SortedOn sorted lo hi := by
  have hlowSorted : ∀ k, lo ≤ k → k < i → baseAt sorted k ≤ x := by
    intro k hk hlt
    rw [baseAt_eq, hright.outside k (by omega) (by omega)]
    by_cases hin : k ≤ j
    · exact hleft.forall_inside (fun region => region.baseAddress ≤ x)
        (fun m hm hmj => hlow m hm (by omega)) k hk hin
    · rw [hleft.outside k (by omega) (by omega)]
      exact hlow k hk hlt
  have hhighSorted : ∀ k, j < k → k ≤ hi → x ≤ baseAt sorted k := by
    have hmiddle : ∀ k, j < k → k ≤ hi → x ≤ baseAt left k := by
      intro k hk hle
      rw [baseAt_eq, hleft.outside k (by omega) (by omega)]
      exact hhigh k hk hle
    intro k hk hle
    by_cases hin : i ≤ k
    · exact hright.forall_inside (fun region => x ≤ region.baseAddress)
        (fun m hm hmhi => hmiddle m (by omega) hmhi) k hin hle
    · rw [baseAt_eq, hright.outside k (by omega) (by omega)]
      exact hmiddle k hk hle
  intro a b ha hab hb
  rcases lt_or_ge j b with hbHigh | hbLow
  · rcases lt_or_ge a i with haLow | haHigh
    · exact UInt64.le_trans (hlowSorted a ha haLow) (hhighSorted b hbHigh hb)
    · exact hrightSorted a b haHigh hab hb
  · rw [baseAt_eq, baseAt_eq, hright.outside a (by omega) (by omega),
      hright.outside b (by omega) (by omega)]
    exact hleftSorted a b ha hab hbLow

theorem sortedOn_of_le (hshort : hi ≤ lo) : SortedOn regions lo hi := by
  intro a b ha hab hb
  have heq : a = b := by omega
  rw [heq]
  exact UInt64.le_refl _

theorem pivot_bounds (hrange : lo ≤ hi) :
    lo ≤ (lo + hi) / 2 ∧ (lo + hi) / 2 ≤ hi := by
  omega

theorem partitionState_start {regions : Array MemoryRegion} {lo hi p : ℤ}
    (hlo : lo ≤ p) (hhi : p ≤ hi) :
    PartitionState (baseAt regions p) lo hi regions lo hi where
  lo_le := le_rfl
  le_hi := le_rfl
  low := fun k hk hlt => by omega
  high := fun k hk hle => by omega
  stop_left := ⟨p, hlo, hhi, UInt64.le_refl _⟩
  stop_right := ⟨p, hlo, hhi, UInt64.le_refl _⟩

theorem quicksortmemoryregions_spec {depth : ℕ} (hlo : 0 ≤ lo)
    (hrange : lo ≤ hi) (hsize : hi < regions.size) (hdepth : hi - lo < depth) :
    Rearranges lo hi regions (quicksortmemoryregions depth regions lo hi) ∧
      SortedOn (quicksortmemoryregions depth regions lo hi) lo hi := by
  induction depth generalizing regions lo hi with
  | zero =>
    rw [Nat.cast_zero] at hdepth
    omega
  | succ depth ih =>
    rw [Nat.cast_succ] at hdepth
    obtain ⟨hpivotLo, hpivotHi⟩ := pivot_bounds hrange
    obtain ⟨parted, i, j, hparted, hspec, -, -, hprogress⟩ :=
      partitionRegions_spec hlo hsize
        (@partitionState_start regions lo hi _ hpivotLo hpivotHi)
        (by omega : hi - lo < regions.size) hrange
    obtain ⟨hfirst, hlast⟩ := hprogress ⟨_, hpivotLo, hpivotHi, rfl⟩
    rw [quicksortmemoryregions]
    simp only [hparted]
    have hleft : ∃ left, (if lo < j then
          quicksortmemoryregions depth parted lo j else parted) = left ∧
        Rearranges lo j parted left ∧ SortedOn left lo j := by
      have hpartedSize := hspec.rearranges.size_eq
      split
      · rename_i hmore
        have hpartedBound : j < parted.size := by omega
        obtain ⟨hrearranges, hsorted⟩ :=
          ih hlo hmore.le hpartedBound (by omega)
        exact ⟨_, rfl, hrearranges, hsorted⟩
      · exact ⟨_, rfl, .refl lo j parted, sortedOn_of_le (by omega)⟩
    obtain ⟨left, hleftEq, hleftRearranges, hleftSorted⟩ := hleft
    have hleftSize := (hspec.rearranges.trans
      (hleftRearranges.mono le_rfl (by omega) hlo)).size_eq
    have hright : ∃ sorted, (if i < hi then
          quicksortmemoryregions depth left i hi else left) = sorted ∧
        Rearranges i hi left sorted ∧ SortedOn sorted i hi := by
      split
      · rename_i hmore
        have hleftBound : hi < left.size := by omega
        obtain ⟨hrearranges, hsorted⟩ :=
          ih (by omega : 0 ≤ i) hmore.le hleftBound (by omega)
        exact ⟨_, rfl, hrearranges, hsorted⟩
      · exact ⟨_, rfl, .refl i hi left, sortedOn_of_le (by omega)⟩
    obtain ⟨sorted, hsortedEq, hrightRearranges, hrightSorted⟩ := hright
    rw [hleftEq, hsortedEq]
    constructor
    · exact (hspec.rearranges.trans
        (hleftRearranges.mono le_rfl (by omega) hlo)).trans
          (hrightRearranges.mono (by omega) le_rfl hlo)
    · exact sortedOn_of_parts hlo hspec.crossed hspec.lo_le hspec.low
        hspec.high hleftRearranges hleftSorted hrightRearranges hrightSorted

theorem quicksort_chunks (chunks : List MemoryRegion) :
    (quicksortmemoryregions chunks.length chunks.toArray 0
        (chunks.length - 1)).toList.Perm chunks ∧
      (quicksortmemoryregions chunks.length chunks.toArray 0
        (chunks.length - 1)).toList.Pairwise fun first second =>
          first.baseAddress ≤ second.baseAddress := by
  rcases Nat.eq_zero_or_pos chunks.length with hempty | hpositive
  · rw [List.length_eq_zero_iff.mp hempty]
    exact ⟨.refl _, .nil⟩
  · have hspec := quicksortmemoryregions_spec le_rfl
      (by omega : (0 : ℤ) ≤ chunks.length - 1)
      (by simp : (chunks.length : ℤ) - 1 < chunks.toArray.size)
      (by omega : (chunks.length : ℤ) - 1 - 0 < chunks.length)
    generalize quicksortmemoryregions chunks.length chunks.toArray 0
      (chunks.length - 1) = sorted at hspec
    obtain ⟨hrearranges, hsorted⟩ := hspec
    have hsize : sorted.size = chunks.length := by
      simpa using hrearranges.size_eq
    refine ⟨Array.perm_iff_toList_perm.mp hrearranges.perm, ?_⟩
    rw [List.pairwise_iff_getElem]
    intro a b ha hb hab
    rw [Array.length_toList] at ha hb
    have hle := hsorted a b (by omega) (by omega) (by omega)
    rw [baseAt_eq, baseAt_eq, entryAt_of_lt (by omega) (by omega),
      entryAt_of_lt (by omega) (by omega)] at hle
    simpa using hle

end CheatEngine.PointerValueList
