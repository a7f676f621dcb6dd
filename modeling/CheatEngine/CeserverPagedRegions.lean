import CheatEngine.CeserverRegions

/-!
# The pages that ceserver lists

With `VQE_PAGEDONLY` the list of `VirtualQueryExFull` has the present pages of
the mappings only.  Their entries are read from `pagemap` into a buffer for
512 of them, and a read may fail or give fewer entries than asked for.
-/

namespace CheatEngine
namespace CeserverRegions

open List

structure MappedBlock where
  start : UInt64
  stop : UInt64
  protectionstring : List Char
  isdirty : Bool
deriving DecidableEq

/-- The file, and how many entries each `pread` of it gives; none where it
fails. -/
structure Pagemap where
  entry : ℕ → UInt64
  results : ℕ → Option ℕ

/-- The entries of some pages are asked for, and so many are read. -/
structure Turn where
  current : UInt64
  pagecount : ℕ
  read : ℕ
deriving DecidableEq, Repr

/-- `pagemap_entries`, the number of calls of `pread`, and those that did not
fail. -/
structure Reader where
  entries : ℕ → UInt64
  calls : ℕ
  turns : List Turn

section

variable (flags : QueryFlags) (pagemap : Pagemap)

def Reader.read (reader : Reader) (current : UInt64) (pagecount k : ℕ) :
    Reader where
  entries i :=
    if i < min k pagecount then
      pagemap.entry (current.toNat / pagesize + i)
    else reader.entries i
  calls := reader.calls + 1
  turns := reader.turns ++ [⟨current, pagecount, min k pagecount⟩]

/-- `while (current<stop)`; after a call that fails the turn is made again. -/
@[grind =]
def pagedLoop (stop : UInt64) (type protection : UInt32) :
    ℕ → UInt64 → Reader × RegionList → Option (Reader × RegionList)
  | 0, _, _ => none
  | turns + 1, current, (reader, r) =>
    if current < stop then
      let pagecount := min ((stop - current).toNat / pagesize) 512
      match pagemap.results reader.calls with
      | none =>
        pagedLoop stop type protection turns current
          ({ reader with calls := reader.calls + 1 }, r)
      | some k =>
        let reader := reader.read pagemap current pagecount k
        pagedLoop stop type protection turns
          (current + UInt64.ofNat (pagecount * pagesize))
          (reader, addPresentPages current type protection
            ((List.range pagecount).map reader.entries) 0 none r)
    else some (reader, r)

def MappedBlock.Passes (block : MappedBlock) : Bool :=
  !(flags.noshared &&
      protectionStringToType block.protectionstring = memMapped) &&
    !(flags.dirtyonly && !block.isdirty)

def finishPagedBlock (turns : ℕ) (block : MappedBlock)
    (state : Reader × RegionList) : Option (Reader × RegionList) :=
  if block.start ≠ 0 ∧ block.Passes flags = true then
    pagedLoop pagemap block.stop
      (protectionStringToType block.protectionstring)
      (protectionStringToProtection block.protectionstring) turns block.start
      state
  else some state

@[grind =]
def listBlocks (turns : ℕ) : List MappedBlock → Reader × RegionList →
    Option (Reader × RegionList)
  | [], state => some state
  | block :: rest, state =>
    (finishPagedBlock flags pagemap turns block state).bind
      (listBlocks turns rest)

/-- `VirtualQueryExFull` with `VQE_PAGEDONLY`; `uninitialised` is what the
buffer holds when it has been allocated.  No result: so many turns are not
enough for a block. -/
def pagedRegions (uninitialised : ℕ → UInt64) (turns : ℕ)
    (blocks : List MappedBlock) : Option (Reader × RegionList) :=
  listBlocks flags pagemap turns blocks
    (⟨uninitialised, 0, []⟩, emptyList flags)

end

def RegionInfo.low (region : RegionInfo) : ℕ :=
  region.baseaddress.toNat

def RegionInfo.high (region : RegionInfo) : ℕ :=
  region.baseaddress.toNat + region.size.toNat

def Listed (regions : List RegionInfo) (address : ℕ) : Prop :=
  ∃ region ∈ regions, region.low ≤ address ∧ address < region.high

def present (entry : UInt64) : Prop :=
  entry >>> 63 ≠ 0

instance (entry : UInt64) : Decidable (present entry) :=
  inferInstanceAs (Decidable (_ ≠ _))

def MappedBlock.Holds (block : MappedBlock) (address : ℕ) : Prop :=
  block.start.toNat ≤ address ∧ address < block.stop.toNat

def Turn.HasRead (turn : Turn) (address : ℕ) : Prop :=
  turn.current.toNat ≤ address ∧
    address < turn.current.toNat + turn.read * pagesize

/-- The mappings of a process: whole pages, one behind the other. -/
structure PageMappings where
  blocks : List MappedBlock
  aligned : ∀ block ∈ blocks, block.start.toNat % pagesize = 0 ∧
    block.stop.toNat % pagesize = 0 ∧ block.start < block.stop
  ascending : blocks.Pairwise fun first second => first.stop ≤ second.start

def ReadInFull (turns : List Turn) (block : MappedBlock) : Prop :=
  ∀ turn ∈ turns, block.Holds turn.current.toNat →
    turn.read = turn.pagecount

/-- The listing ends.  Its regions are disjoint and ascending, no page is in
it whose entry was not read, and of the mappings that pass and are read in
full it has the present pages. -/
def ListsPages (flags : QueryFlags) (pagemap : Pagemap)
    (uninitialised : ℕ → UInt64) (space : PageMappings) : Prop :=
  ∃ turns reader r,
    pagedRegions flags pagemap uninitialised turns space.blocks =
        some (reader, r) ∧
      (r.entries.Pairwise fun first second => first.high ≤ second.low) ∧
      (∀ address, Listed r.entries address →
        ∃ turn ∈ reader.turns, turn.HasRead address) ∧
      ∀ block ∈ space.blocks, ReadInFull reader.turns block →
        ∀ address, block.Holds address →
          (Listed r.entries address ↔ block.Passes flags = true ∧
            present (pagemap.entry (address / pagesize)))

/-! ## The runs of one turn -/

/-- The regions are disjoint and ascending between two addresses, and cover
what is held. -/
structure Covering (low high : ℕ) (Held : ℕ → Prop)
    (regions : List RegionInfo) : Prop where
  ascending : regions.Pairwise fun first second => first.high ≤ second.low
  inside : ∀ region ∈ regions, low ≤ region.low ∧ region.high ≤ high
  covers : ∀ address, Listed regions address ↔ Held address

theorem listed_nil (address : ℕ) : ¬ Listed [] address := by
  rintro ⟨region, hregion, _⟩
  cases hregion

variable {address low : ℕ} {Held : ℕ → Prop} {base : ℕ} {stop : UInt64}
  {chunk : Chunk} {state : Reader × RegionList} {reader : Reader}

theorem listed_append {left right : List RegionInfo} :
    Listed (left ++ right) address ↔
      Listed left address ∨ Listed right address := by
  simp only [Listed, mem_append, or_and_right, exists_or]

theorem listed_singleton {region : RegionInfo} :
    Listed [region] address ↔
      region.low ≤ address ∧ address < region.high := by
  simp [Listed]

theorem covering_nil {high : ℕ} : Covering low high (fun _ => False) []
    where
  ascending := .nil
  inside region hregion := by cases hregion
  covers address := iff_of_false (listed_nil address) id

theorem covering_singleton {high : ℕ} {region : RegionInfo}
    (hlow : low ≤ region.low) (hhigh : region.high ≤ high) :
    Covering low high
      (fun address => region.low ≤ address ∧ address < region.high)
      [region] where
  ascending := pairwise_singleton _ _
  inside other hother := by
    rw [mem_singleton.mp hother]
    exact ⟨hlow, hhigh⟩
  covers _ := listed_singleton

theorem Covering.append {middle high : ℕ} {Later : ℕ → Prop}
    {left right : List RegionInfo} (hleft : Covering low middle Held left)
    (hright : Covering middle high Later right) (hlow : low ≤ middle)
    (hhigh : middle ≤ high) :
    Covering low high (fun address => Held address ∨ Later address)
      (left ++ right) where
  ascending := pairwise_append.mpr ⟨hleft.ascending, hright.ascending,
    fun first hfirst second hsecond =>
      ((hleft.inside first hfirst).2).trans (hright.inside second hsecond).1⟩
  inside region hregion := by
    rcases mem_append.mp hregion with hfirst | hsecond
    · exact ⟨(hleft.inside region hfirst).1,
        (hleft.inside region hfirst).2.trans hhigh⟩
    · exact ⟨hlow.trans (hright.inside region hsecond).1,
        (hright.inside region hsecond).2⟩
  covers address := by
    rw [listed_append, hleft.covers, hright.covers]

theorem Covering.congr {high : ℕ} {Other : ℕ → Prop}
    {regions : List RegionInfo} (hcovering : Covering low high Held regions)
    (hsame : ∀ address, Held address ↔ Other address) :
    Covering low high Other regions where
  ascending := hcovering.ascending
  inside := hcovering.inside
  covers address := (hcovering.covers address).trans (hsame address)

theorem Covering.mono {lower high higher : ℕ} {regions : List RegionInfo}
    (hcovering : Covering low high Held regions) (hlow : lower ≤ low)
    (hhigh : high ≤ higher) :
    Covering lower higher Held regions where
  ascending := hcovering.ascending
  inside region hregion :=
    ⟨hlow.trans (hcovering.inside region hregion).1,
      (hcovering.inside region hregion).2.trans hhigh⟩
  covers := hcovering.covers

def InPages (base i : ℕ) (entries : List UInt64) (address : ℕ) : Prop :=
  ∃ j entry, entries[j]? = some entry ∧ present entry ∧
    base + (i + j) * pagesize ≤ address ∧
    address < base + (i + j + 1) * pagesize

def InRun (base i : ℕ) (currentstart : Option ℕ) (address : ℕ) : Prop :=
  ∃ first ∈ currentstart, base + first * pagesize ≤ address ∧
    address < base + i * pagesize

theorem inPages_nil {i : ℕ} : ¬ InPages base i [] address := by
  rintro ⟨j, entry, hentry, _⟩
  cases hentry

theorem inPages_cons {i : ℕ} {entry : UInt64} {entries : List UInt64} :
    InPages base i (entry :: entries) address ↔
      (present entry ∧ base + i * pagesize ≤ address ∧
        address < base + (i + 1) * pagesize) ∨
      InPages base (i + 1) entries address := by
  constructor
  · rintro ⟨j, other, hother, hpresent, hle, hlt⟩
    cases j with
    | zero =>
      obtain rfl := Option.some.inj hother
      exact .inl ⟨hpresent, hle, hlt⟩
    | succ j =>
      refine .inr ⟨j, other, hother, hpresent, ?_, ?_⟩
      · rwa [Nat.add_assoc, Nat.add_comm 1]
      · rwa [Nat.add_assoc i, Nat.add_comm 1]
  · rintro (⟨hpresent, hle, hlt⟩ | ⟨j, other, hother, hpresent, hle, hlt⟩)
    · exact ⟨0, entry, rfl, hpresent, hle, hlt⟩
    · refine ⟨j + 1, other, hother, hpresent, ?_, ?_⟩
      · rwa [Nat.add_assoc, Nat.add_comm 1] at hle
      · rwa [Nat.add_assoc i, Nat.add_comm 1] at hlt

theorem inRun_none {i : ℕ} : ¬ InRun base i none address := by
  rintro ⟨first, hfirst, _⟩
  cases hfirst

theorem inRun_some {i first : ℕ} :
    InRun base i (some first) address ↔
      base + first * pagesize ≤ address ∧ address < base + i * pagesize := by
  constructor
  · rintro ⟨other, hother, hrun⟩
    obtain rfl := Option.some.inj hother
    exact hrun
  · exact fun hrun => ⟨first, rfl, hrun⟩

theorem inRun_extend {i : ℕ} {currentstart : Option ℕ}
    (hfirst : ∀ first ∈ currentstart, first ≤ i) :
    InRun base (i + 1) (some (currentstart.getD i)) address ↔
      InRun base i currentstart address ∨
        (base + i * pagesize ≤ address ∧
          address < base + (i + 1) * pagesize) := by
  rw [inRun_some]
  cases currentstart with
  | none => simp [inRun_none]
  | some first =>
    have hle := hfirst first rfl
    rw [inRun_some]
    simp only [Option.getD_some, pagesize]
    omega

section

variable {current : UInt64}

/-- The region of the pages from `first` on, up to `i`. -/
def runRegion (current : UInt64) (type protection : UInt32) (first i : ℕ) :
    RegionInfo where
  baseaddress := current + UInt64.ofNat (first * pagesize)
  size := UInt64.ofNat ((i - first) * pagesize)
  protection
  type

theorem runRegion_low {first i : ℕ} (hle : first ≤ i)
    (hfits : current.toNat + i * pagesize < 2 ^ 64)
    (type protection : UInt32) :
    (runRegion current type protection first i).low =
      current.toNat + first * pagesize := by
  have hless := Nat.mul_le_mul_right pagesize hle
  have hlt : first * pagesize < 2 ^ 64 := by omega
  have hofNat := UInt64.toNat_ofNat_of_lt' hlt
  rw [RegionInfo.low, runRegion, UInt64.toNat_add, hofNat]
  exact Nat.mod_eq_of_lt (by omega)

theorem runRegion_high {first i : ℕ} (hle : first ≤ i)
    (hfits : current.toNat + i * pagesize < 2 ^ 64)
    (type protection : UInt32) :
    (runRegion current type protection first i).high =
      current.toNat + i * pagesize := by
  have hlow := runRegion_low hle hfits type protection
  have hless := Nat.mul_le_mul_right pagesize hle
  have hlt : (i - first) * pagesize < 2 ^ 64 := by
    rw [Nat.sub_mul]
    omega
  have hofNat := UInt64.toNat_ofNat_of_lt' hlt
  rw [RegionInfo.low] at hlow
  rw [RegionInfo.high, hlow]
  simp only [runRegion]
  rw [hofNat, Nat.sub_mul]
  omega

section

variable {type protection : UInt32} {entry : UInt64} {entries : List UInt64}
  {i : ℕ} {r : RegionList}

theorem addPresentPages_present (hpresent : present entry)
    (currentstart : Option ℕ) :
    addPresentPages current type protection (entry :: entries) i currentstart
        r =
      addPresentPages current type protection entries (i + 1)
        (some (currentstart.getD i)) r := by
  cases currentstart <;> exact if_pos hpresent

theorem addPresentPages_none (habsent : ¬ present entry) :
    addPresentPages current type protection (entry :: entries) i none r =
      addPresentPages current type protection entries (i + 1) none r :=
  if_neg habsent

theorem addPresentPages_some (habsent : ¬ present entry) (first : ℕ) :
    addPresentPages current type protection (entry :: entries) i (some first)
        r =
      addPresentPages current type protection entries (i + 1) none
        (addToRegionList (runRegion current type protection first i) r) :=
  if_neg habsent

end

theorem addPresentPages_covering (type protection : UInt32)
    (entries : List UInt64) : ∀ {i : ℕ} {currentstart : Option ℕ}
    {r : RegionList},
    (∀ first ∈ currentstart, first ≤ i) →
    current.toNat + (i + entries.length) * pagesize < 2 ^ 64 →
    ∃ added,
      (addPresentPages current type protection entries i currentstart
        r).entries = r.entries ++ added ∧
      Covering (current.toNat + currentstart.getD i * pagesize)
        (current.toNat + (i + entries.length) * pagesize)
        (fun address => InRun current.toNat i currentstart address ∨
          InPages current.toNat i entries address) added := by
  induction entries with
  | nil =>
    intro i currentstart r hfirst hfits
    cases currentstart with
    | none =>
      refine ⟨[], (append_nil _).symm, covering_nil.congr ?_⟩
      intro address
      exact (iff_of_false (by simp [inRun_none, inPages_nil]) id).symm
    | some first =>
      have hle := hfirst first rfl
      refine ⟨[runRegion current type protection first i], rfl, ?_⟩
      rw [length_nil, Nat.add_zero] at hfits ⊢
      have hlow := runRegion_low hle hfits type protection
      have hhigh := runRegion_high hle hfits type protection
      refine (covering_singleton hlow.ge hhigh.le).congr ?_
      intro address
      rw [hlow, hhigh, inRun_some]
      simp [inPages_nil]
  | cons entry entries ih =>
    intro i currentstart r hfirst hfits
    rw [length_cons, ← Nat.add_assoc, Nat.add_right_comm] at hfits ⊢
    by_cases hpresent : present entry
    · have hstart : currentstart.getD i ≤ i := by
        cases currentstart with
        | none => exact le_rfl
        | some first => exact hfirst first rfl
      rw [addPresentPages_present hpresent]
      obtain ⟨added, hadded, hcovering⟩ := @ih (i + 1)
        (some (currentstart.getD i)) r
        (by rintro first ⟨⟩; omega) hfits
      refine ⟨added, hadded, hcovering.congr fun address => ?_⟩
      rw [inPages_cons, inRun_extend hfirst]
      simp only [hpresent, true_and, or_assoc]
    · have hnext : ∀ address, InPages current.toNat i (entry :: entries)
          address ↔ InPages current.toNat (i + 1) entries address := by
        intro address
        rw [inPages_cons]
        simp [hpresent]
      have hless : current.toNat + i * pagesize ≤
          current.toNat + (i + 1) * pagesize := by
        simp only [pagesize]
        omega
      have hlast : current.toNat + (i + 1) * pagesize ≤
          current.toNat + (i + 1 + entries.length) * pagesize := by
        simp only [pagesize]
        omega
      cases currentstart with
      | none =>
        rw [addPresentPages_none hpresent]
        obtain ⟨added, hadded, hcovering⟩ := @ih (i + 1) none r
          (fun first hmem => by cases hmem) hfits
        refine ⟨added, hadded,
          (hcovering.mono hless le_rfl).congr fun address => ?_⟩
        rw [hnext]
        simp [inRun_none]
      | some first =>
        have hle := hfirst first rfl
        have hfitsRun : current.toNat + i * pagesize < 2 ^ 64 :=
          lt_of_le_of_lt (hless.trans hlast) hfits
        have hlow := runRegion_low hle hfitsRun type protection
        have hhigh := runRegion_high hle hfitsRun type protection
        rw [addPresentPages_some hpresent]
        obtain ⟨added, hadded, hcovering⟩ := @ih (i + 1) none
          (addToRegionList (runRegion current type protection first i) r)
          (fun first hmem => by cases hmem) hfits
        refine ⟨runRegion current type protection first i :: added, ?_, ?_⟩
        · rw [hadded]
          exact append_assoc _ [_] added
        · have hfirstRun := covering_singleton hlow.ge (hhigh.le.trans hless)
          have hboth := hfirstRun.append hcovering
            ((Nat.add_le_add_left (Nat.mul_le_mul_right _ hle) _).trans
              hless) hlast
          refine hboth.congr fun address => ?_
          rw [hlow, hhigh, hnext, inRun_some]
          simp [inRun_none]

end

/-! ## The chunks of the mappings -/

structure Chunk where
  current : UInt64
  pagecount : ℕ
  type : UInt32
  protection : UInt32

def Chunk.high (chunk : Chunk) : ℕ :=
  chunk.current.toNat + chunk.pagecount * pagesize

def chunkAt (current stop : UInt64) (type protection : UInt32) : Chunk :=
  ⟨current, min ((stop - current).toNat / pagesize) 512, type, protection⟩

def Chunk.next (chunk : Chunk) : UInt64 :=
  chunk.current + UInt64.ofNat (chunk.pagecount * pagesize)

@[grind =]
def chunksFrom (stop : UInt64) (type protection : UInt32) :
    ℕ → UInt64 → List Chunk
  | 0, _ => []
  | pages + 1, current =>
    if current < stop then
      chunkAt current stop type protection ::
        chunksFrom stop type protection pages
          (chunkAt current stop type protection).next
    else []

def MappedBlock.chunks (block : MappedBlock) : List Chunk :=
  chunksFrom block.stop (protectionStringToType block.protectionstring)
    (protectionStringToProtection block.protectionstring)
    ((block.stop.toNat - block.start.toNat) / pagesize) block.start

def allChunks (flags : QueryFlags) (blocks : List MappedBlock) :
    List Chunk :=
  blocks.flatMap fun block =>
    if block.start ≠ 0 ∧ block.Passes flags = true then block.chunks else []

structure Pages (current stop : UInt64) : Prop where
  startAligned : current.toNat % pagesize = 0
  stopAligned : stop.toNat % pagesize = 0
  le : current.toNat ≤ stop.toNat

/-- A turn takes at least one page and not more than there are. -/
structure ChunkFits (chunk : Chunk) (stop : UInt64) : Prop where
  start : chunk.current.toNat % pagesize = 0
  pos : 0 < chunk.pagecount
  le : chunk.high ≤ stop.toNat
  next : chunk.next.toNat = chunk.high

theorem chunkAt_fits {current : UInt64} (hpages : Pages current stop)
    (hlt : current < stop) (type protection : UInt32) :
    ChunkFits (chunkAt current stop type protection) stop := by
  obtain ⟨hstart, hstop, hle⟩ := hpages
  have hltNat := UInt64.lt_iff_toNat_lt.mp hlt
  have hbound := stop.toNat_lt
  have hsub : (stop - current).toNat = stop.toNat - current.toNat :=
    UInt64.toNat_sub_of_le _ _ (UInt64.le_of_lt hlt)
  have hpos : 0 < (chunkAt current stop type protection).pagecount := by
    simp only [chunkAt, hsub, pagesize] at hstart hstop ⊢
    omega
  have hhigh : (chunkAt current stop type protection).high ≤ stop.toNat := by
    simp only [Chunk.high, chunkAt, hsub, pagesize] at hstart hstop ⊢
    omega
  refine ⟨hstart, hpos, hhigh, ?_⟩
  have hcount : (chunkAt current stop type protection).pagecount * pagesize <
      2 ^ 64 := by
    rw [Chunk.high] at hhigh
    omega
  rw [Chunk.next, UInt64.toNat_add, UInt64.toNat_ofNat_of_lt' hcount]
  exact Nat.mod_eq_of_lt (lt_of_le_of_lt hhigh hbound)

theorem ChunkFits.pages (hfits : ChunkFits chunk stop)
    (hstop : stop.toNat % pagesize = 0) :
    Pages chunk.next stop := by
  refine ⟨?_, hstop, ?_⟩
  · rw [hfits.next, Chunk.high, Nat.add_mul_mod_self_right, hfits.start]
  · rw [hfits.next]
    exact hfits.le

/-- Chunks one behind the other between two addresses. -/
structure Tiling (low high : ℕ) (chunks : List Chunk) : Prop where
  ascending : chunks.Pairwise fun first second =>
    first.high ≤ second.current.toNat
  inside : ∀ chunk ∈ chunks, low ≤ chunk.current.toNat ∧ chunk.high ≤ high
  aligned : ∀ chunk ∈ chunks, chunk.current.toNat % pagesize = 0
  pos : ∀ chunk ∈ chunks, 0 < chunk.pagecount

theorem tiling_nil {high : ℕ} : Tiling low high [] where
  ascending := .nil
  inside chunk hchunk := by cases hchunk
  aligned chunk hchunk := by cases hchunk
  pos chunk hchunk := by cases hchunk

theorem chunksFrom_tiling (type protection : UInt32) (pages : ℕ) :
    ∀ {current : UInt64}, Pages current stop →
    Tiling current.toNat stop.toNat
      (chunksFrom stop type protection pages current) := by
  induction pages with
  | zero =>
    intro current _
    exact tiling_nil
  | succ pages ih =>
    intro current hpages
    rw [chunksFrom]
    split
    case isTrue hlt =>
      have hfits := chunkAt_fits hpages hlt type protection
      have hrest := ih (hfits.pages hpages.stopAligned)
      rw [hfits.next] at hrest
      have hless : current.toNat ≤
          (chunkAt current stop type protection).high :=
        Nat.le_add_right _ _
      refine ⟨pairwise_cons.mpr ⟨fun chunk hchunk =>
        (hrest.inside chunk hchunk).1, hrest.ascending⟩, ?_, ?_, ?_⟩
      · intro chunk hchunk
        rcases mem_cons.mp hchunk with rfl | hlater
        · exact ⟨le_rfl, hfits.le⟩
        · exact ⟨hless.trans (hrest.inside chunk hlater).1,
            (hrest.inside chunk hlater).2⟩
      · intro chunk hchunk
        rcases mem_cons.mp hchunk with rfl | hlater
        · exact hfits.start
        · exact hrest.aligned chunk hlater
      · intro chunk hchunk
        rcases mem_cons.mp hchunk with rfl | hlater
        · exact hfits.pos
        · exact hrest.pos chunk hlater
    case isFalse => exact tiling_nil

theorem exists_chunk (type protection : UInt32) (pages : ℕ) :
    ∀ {current : UInt64}, Pages current stop →
    (stop.toNat - current.toNat) / pagesize ≤ pages →
    ∀ {address : ℕ}, current.toNat ≤ address → address < stop.toNat →
    ∃ chunk ∈ chunksFrom stop type protection pages current,
      chunk.current.toNat ≤ address ∧ address < chunk.high := by
  induction pages with
  | zero =>
    intro current hpages hcount address hle hlt
    obtain ⟨hstart, hstop, _⟩ := hpages
    simp only [pagesize] at hstart hstop hcount
    omega
  | succ pages ih =>
    intro current hpages hcount address hle hlt
    have hless : current < stop := UInt64.lt_iff_toNat_lt.mpr (by omega)
    have hfits := chunkAt_fits hpages hless type protection
    rw [chunksFrom, if_pos hless]
    rcases lt_or_ge address (chunkAt current stop type protection).high with
      hfirst | hlater
    · exact ⟨_, mem_cons_self, hle, hfirst⟩
    · have hless :
          (stop.toNat - (chunkAt current stop type protection).next.toNat) /
            pagesize ≤ pages := by
        have hpos := hfits.pos
        have hhigh := hfits.le
        rw [hfits.next]
        simp only [Chunk.high, chunkAt, pagesize] at hpos hhigh hcount ⊢
        omega
      obtain ⟨chunk, hchunk, hholds⟩ :=
        ih (hfits.pages hpages.stopAligned) hless (by rwa [hfits.next]) hlt
      exact ⟨chunk, mem_cons_of_mem _ hchunk, hholds⟩

/-! ## Serving the chunks -/

variable {pagemap : Pagemap}

def Reader.failed (reader : Reader) : Reader :=
  { reader with calls := reader.calls + 1 }

def Chunk.read (pagemap : Pagemap) (chunk : Chunk) (k : ℕ)
    (reader : Reader) : Reader :=
  reader.read pagemap chunk.current chunk.pagecount k

def Chunk.entries (pagemap : Pagemap) (chunk : Chunk) (k : ℕ)
    (reader : Reader) : List UInt64 :=
  (List.range chunk.pagecount).map (chunk.read pagemap k reader).entries

def Chunk.take (pagemap : Pagemap) (chunk : Chunk) (k : ℕ)
    (state : Reader × RegionList) : Reader × RegionList :=
  (chunk.read pagemap k state.1,
    addPresentPages chunk.current chunk.type chunk.protection
      (chunk.entries pagemap k state.1) 0 none state.2)

/-- All chunks are read, each after some calls that fail. -/
inductive Serves (pagemap : Pagemap) :
    List Chunk → Reader × RegionList → Reader × RegionList → Prop
  | done (state : Reader × RegionList) : Serves pagemap [] state state
  | failed {chunk : Chunk} {rest : List Chunk}
      {state out : Reader × RegionList}
      (hfailed : pagemap.results state.1.calls = none)
      (hserves : Serves pagemap (chunk :: rest) (state.1.failed, state.2)
        out) :
      Serves pagemap (chunk :: rest) state out
  | read {chunk : Chunk} {rest : List Chunk}
      {state out : Reader × RegionList} {k : ℕ}
      (hread : pagemap.results state.1.calls = some k)
      (hserves : Serves pagemap rest (chunk.take pagemap k state) out) :
      Serves pagemap (chunk :: rest) state out

/-- Every chunk is read after finitely many calls that fail, and behind a
short read the buffer holds no entry of a present page. -/
inductive Served (pagemap : Pagemap) : List Chunk → Reader → Prop
  | done (reader : Reader) : Served pagemap [] reader
  | failed {chunk : Chunk} {rest : List Chunk} {reader : Reader}
      (hfailed : pagemap.results reader.calls = none)
      (hserved : Served pagemap (chunk :: rest) reader.failed) :
      Served pagemap (chunk :: rest) reader
  | read {chunk : Chunk} {rest : List Chunk} {reader : Reader} {k : ℕ}
      (hread : pagemap.results reader.calls = some k)
      (hbehind : ∀ i, k ≤ i → i < chunk.pagecount →
        ¬ present (reader.entries i))
      (hserved : Served pagemap rest (chunk.read pagemap k reader)) :
      Served pagemap (chunk :: rest) reader

theorem Serves.append {first second : List Chunk}
    {start middle final : Reader × RegionList}
    (hfirst : Serves pagemap first start middle)
    (hsecond : Serves pagemap second middle final) :
    Serves pagemap (first ++ second) start final := by
  induction hfirst with
  | done => exact hsecond
  | failed hfailed _ ih => exact .failed hfailed (ih hsecond)
  | read hread _ ih => exact .read hread (ih hsecond)

theorem Serves.split {first second chunks : List Chunk}
    {start final : Reader × RegionList}
    (hserves : Serves pagemap chunks start final)
    (hchunks : chunks = first ++ second) :
    ∃ middle, Serves pagemap first start middle ∧
      Serves pagemap second middle final := by
  induction hserves generalizing first with
  | done state =>
    obtain ⟨rfl, rfl⟩ := append_eq_nil_iff.mp hchunks.symm
    exact ⟨state, .done state, .done state⟩
  | failed hfailed hserves ih =>
    cases first with
    | nil =>
      rw [nil_append] at hchunks
      subst hchunks
      exact ⟨_, .done _, .failed hfailed hserves⟩
    | cons chunk more =>
      obtain ⟨middle, hfirst, hsecond⟩ := ih hchunks
      obtain ⟨rfl, rfl⟩ := cons_eq_cons.mp hchunks
      exact ⟨middle, .failed hfailed hfirst, hsecond⟩
  | read hread hserves ih =>
    cases first with
    | nil =>
      rw [nil_append] at hchunks
      subst hchunks
      exact ⟨_, .done _, .read hread hserves⟩
    | cons chunk more =>
      obtain ⟨rfl, hrest⟩ := cons_eq_cons.mp hchunks
      obtain ⟨middle, hfirst, hsecond⟩ := ih hrest
      exact ⟨middle, .read hread hfirst, hsecond⟩

section

variable {stop : UInt64} {type protection : UInt32}

variable {current : UInt64} {state : Reader × RegionList}

theorem pagedLoop_done (hnot : ¬ current < stop) (turns : ℕ)
    (state : Reader × RegionList) :
    pagedLoop pagemap stop type protection (turns + 1) current state =
      some state := by
  obtain ⟨reader, r⟩ := state
  rw [pagedLoop, if_neg hnot]

theorem pagedLoop_failed (hlt : current < stop)
    (hfailed : pagemap.results state.1.calls = none) (turns : ℕ) :
    pagedLoop pagemap stop type protection (turns + 1) current state =
      pagedLoop pagemap stop type protection turns current
        (state.1.failed, state.2) := by
  obtain ⟨reader, r⟩ := state
  rw [pagedLoop, if_pos hlt]
  simp only
  rw [hfailed]
  rfl

theorem pagedLoop_read (hlt : current < stop) {k : ℕ}
    (hread : pagemap.results state.1.calls = some k) (turns : ℕ) :
    pagedLoop pagemap stop type protection (turns + 1) current state =
      pagedLoop pagemap stop type protection turns
        (chunkAt current stop type protection).next
        ((chunkAt current stop type protection).take pagemap k state) := by
  obtain ⟨reader, r⟩ := state
  rw [pagedLoop, if_pos hlt]
  simp only
  rw [hread]
  rfl

theorem pagedLoop_mono {turns more : ℕ} (hle : turns ≤ more) :
    ∀ {current : UInt64} {state out : Reader × RegionList},
    pagedLoop pagemap stop type protection turns current state = some out →
      pagedLoop pagemap stop type protection more current state =
        some out := by
  induction turns generalizing more with
  | zero =>
    intro current state out hloop
    obtain ⟨reader, r⟩ := state
    cases hloop
  | succ turns ih =>
    intro current state out hloop
    obtain ⟨more, rfl⟩ := Nat.exists_eq_add_of_le' hle
    rw [← Nat.add_assoc] at hle ⊢
    have hless : turns ≤ more + turns := by omega
    by_cases hlt : current < stop
    · cases hresult : pagemap.results state.1.calls with
      | none =>
        rw [pagedLoop_failed hlt hresult] at hloop ⊢
        exact ih hless hloop
      | some k =>
        rw [pagedLoop_read hlt hresult] at hloop ⊢
        exact ih hless hloop
    · rw [pagedLoop_done hlt] at hloop ⊢
      exact hloop

theorem serves_of_pagedLoop (turns : ℕ) : ∀ {pages : ℕ} {current : UInt64}
    {state out : Reader × RegionList}, Pages current stop →
    (stop.toNat - current.toNat) / pagesize ≤ pages →
    pagedLoop pagemap stop type protection turns current state = some out →
    Serves pagemap (chunksFrom stop type protection pages current) state
      out := by
  induction turns with
  | zero =>
    intro pages current state out _ _ hloop
    obtain ⟨reader, r⟩ := state
    cases hloop
  | succ turns ih =>
    intro pages current state out hpages hcount hloop
    by_cases hlt : current < stop
    · have hfits := chunkAt_fits hpages hlt type protection
      obtain ⟨more, rfl⟩ : ∃ more, pages = more + 1 := by
        have hpos := hfits.pos
        have hhigh := hfits.le
        simp only [Chunk.high, chunkAt, pagesize] at hpos hhigh hcount
        exact ⟨pages - 1, by omega⟩
      rw [chunksFrom, if_pos hlt]
      cases hresult : pagemap.results state.1.calls with
      | none =>
        rw [pagedLoop_failed hlt hresult] at hloop
        have hrest := ih hpages hcount hloop
        rw [chunksFrom, if_pos hlt] at hrest
        exact .failed hresult hrest
      | some k =>
        rw [pagedLoop_read hlt hresult] at hloop
        refine .read hresult (ih (hfits.pages hpages.stopAligned) ?_ hloop)
        have hpos := hfits.pos
        have hhigh := hfits.le
        rw [hfits.next]
        simp only [Chunk.high, chunkAt, pagesize] at hpos hhigh hcount ⊢
        omega
    · rw [pagedLoop_done hlt] at hloop
      obtain rfl := Option.some.inj hloop
      cases pages with
      | zero => exact .done state
      | succ pages =>
        rw [chunksFrom, if_neg hlt]
        exact .done state

theorem exists_pagedLoop {chunks : List Chunk} {out : Reader × RegionList}
    (hserves : Serves pagemap chunks state out) :
    ∀ {pages : ℕ} {current : UInt64}, Pages current stop →
    (stop.toNat - current.toNat) / pagesize ≤ pages →
    chunks = chunksFrom stop type protection pages current →
    ∃ turns, pagedLoop pagemap stop type protection turns current state =
      some out := by
  induction hserves with
  | done state =>
    intro pages current hpages hcount hchunks
    refine ⟨1, pagedLoop_done (fun hlt => ?_) 0 state⟩
    cases pages with
    | zero =>
      have hless := UInt64.lt_iff_toNat_lt.mp hlt
      obtain ⟨hstart, hstop, _⟩ := hpages
      simp only [pagesize] at hstart hstop hcount
      omega
    | succ pages =>
      rw [chunksFrom, if_pos hlt] at hchunks
      cases hchunks
  | failed hfailed hserves ih =>
    intro pages current hpages hcount hchunks
    have hlt : current < stop := by
      cases pages with
      | zero => cases hchunks
      | succ pages =>
        rw [chunksFrom] at hchunks
        split at hchunks
        · assumption
        · cases hchunks
    obtain ⟨turns, hturns⟩ := ih hpages hcount hchunks
    exact ⟨turns + 1, by rw [pagedLoop_failed hlt hfailed, hturns]⟩
  | read hread hserves ih =>
    intro pages current hpages hcount hchunks
    cases pages with
    | zero => cases hchunks
    | succ pages =>
      rw [chunksFrom] at hchunks
      split at hchunks
      case isTrue hlt =>
        obtain ⟨rfl, hrest⟩ := cons_eq_cons.mp hchunks
        have hfits := chunkAt_fits hpages hlt type protection
        obtain ⟨turns, hturns⟩ := ih (hfits.pages hpages.stopAligned)
          (by
            have hpos := hfits.pos
            have hhigh := hfits.le
            rw [hfits.next]
            simp only [Chunk.high, chunkAt, pagesize] at hpos hhigh hcount ⊢
            omega) hrest
        exact ⟨turns + 1, by rw [pagedLoop_read hlt hread, hturns]⟩
      case isFalse => cases hchunks

end

/-! ## The blocks are served chunk by chunk -/

section

variable {flags : QueryFlags} {blocks : List MappedBlock}

def MappedBlock.wanted (flags : QueryFlags) (block : MappedBlock) :
    List Chunk :=
  if block.start ≠ 0 ∧ block.Passes flags = true then block.chunks else []

theorem allChunks_cons (block : MappedBlock) (rest : List MappedBlock) :
    allChunks flags (block :: rest) =
      block.wanted flags ++ allChunks flags rest :=
  flatMap_cons

variable {block : MappedBlock} {turns : ℕ} {state : Reader × RegionList}

theorem serves_of_finish (hpages : Pages block.start block.stop)
    {out : Reader × RegionList}
    (hfinish : finishPagedBlock flags pagemap turns block state = some out) :
    Serves pagemap (block.wanted flags) state out := by
  rw [finishPagedBlock] at hfinish
  rw [MappedBlock.wanted]
  split at hfinish
  case isTrue hread =>
    rw [if_pos hread]
    exact serves_of_pagedLoop turns hpages le_rfl hfinish
  case isFalse hread =>
    rw [if_neg hread]
    obtain rfl := Option.some.inj hfinish
    exact .done state

theorem exists_finish (hpages : Pages block.start block.stop)
    {out : Reader × RegionList}
    (hserves : Serves pagemap (block.wanted flags) state out) :
    ∃ turns, finishPagedBlock flags pagemap turns block state = some out := by
  rw [MappedBlock.wanted] at hserves
  simp only [finishPagedBlock]
  split at hserves
  case isTrue hread =>
    simp only [if_pos hread]
    exact exists_pagedLoop hserves hpages le_rfl rfl
  case isFalse hread =>
    simp only [if_neg hread]
    cases hserves with
    | done => exact ⟨0, rfl⟩

theorem finishPagedBlock_mono {more : ℕ} (hle : turns ≤ more)
    {out : Reader × RegionList}
    (hfinish : finishPagedBlock flags pagemap turns block state = some out) :
    finishPagedBlock flags pagemap more block state = some out := by
  rw [finishPagedBlock] at hfinish ⊢
  split at hfinish
  case isTrue hread =>
    rw [if_pos hread]
    exact pagedLoop_mono hle hfinish
  case isFalse hread =>
    rw [if_neg hread]
    exact hfinish

theorem listBlocks_mono {more : ℕ} (hle : turns ≤ more) :
    ∀ {state out : Reader × RegionList},
    listBlocks flags pagemap turns blocks state = some out →
      listBlocks flags pagemap more blocks state = some out := by
  induction blocks with
  | nil => exact fun hlist => hlist
  | cons block rest ih =>
    intro state out hlist
    rw [listBlocks] at hlist ⊢
    obtain ⟨middle, hfirst, hrest⟩ := Option.bind_eq_some_iff.mp hlist
    rw [finishPagedBlock_mono hle hfirst, Option.bind_some]
    exact ih hrest

theorem serves_of_listBlocks :
    ∀ {state out : Reader × RegionList},
    (∀ block ∈ blocks, Pages block.start block.stop) →
    listBlocks flags pagemap turns blocks state = some out →
      Serves pagemap (allChunks flags blocks) state out := by
  induction blocks with
  | nil =>
    intro state out _ hlist
    obtain rfl := Option.some.inj hlist
    exact .done state
  | cons block rest ih =>
    intro state out hpages hlist
    rw [listBlocks] at hlist
    obtain ⟨middle, hfirst, hrest⟩ := Option.bind_eq_some_iff.mp hlist
    rw [allChunks_cons]
    exact (serves_of_finish (hpages block mem_cons_self) hfirst).append
      (ih (fun other hother => hpages other (mem_cons_of_mem _ hother))
        hrest)

theorem exists_listBlocks : ∀ {state out : Reader × RegionList},
    (∀ block ∈ blocks, Pages block.start block.stop) →
    Serves pagemap (allChunks flags blocks) state out →
      ∃ turns, listBlocks flags pagemap turns blocks state = some out := by
  induction blocks with
  | nil =>
    intro state out _ hserves
    cases hserves with
    | done => exact ⟨0, rfl⟩
  | cons block rest ih =>
    intro state out hpages hserves
    obtain ⟨middle, hfirst, hrest⟩ :=
      hserves.split (allChunks_cons block rest)
    obtain ⟨turns, hturns⟩ :=
      exists_finish (hpages block mem_cons_self) hfirst
    obtain ⟨more, hmore⟩ := ih
      (fun other hother => hpages other (mem_cons_of_mem _ hother))
      hrest
    refine ⟨max turns more, ?_⟩
    rw [listBlocks, finishPagedBlock_mono (le_max_left _ _) hturns,
      Option.bind_some]
    exact listBlocks_mono (le_max_right _ _) hmore

theorem mem_wanted {chunk : Chunk} (hchunk : chunk ∈ block.wanted flags) :
    (block.start ≠ 0 ∧ block.Passes flags = true) ∧
      chunk ∈ block.chunks := by
  rw [MappedBlock.wanted] at hchunk
  split at hchunk
  case isTrue hread => exact ⟨hread, hchunk⟩
  case isFalse => cases hchunk

theorem MappedBlock.wanted_tiling (hpages : Pages block.start block.stop) :
    Tiling block.start.toNat block.stop.toNat (block.wanted flags) := by
  rw [MappedBlock.wanted]
  split
  · exact chunksFrom_tiling _ _ _ hpages
  · exact tiling_nil

theorem allChunks_tiling : ∀ {low : ℕ},
    (∀ block ∈ blocks, Pages block.start block.stop) →
    (blocks.Pairwise fun first second => first.stop ≤ second.start) →
    (∀ block ∈ blocks, low ≤ block.start.toNat) →
    Tiling low (2 ^ 64 - 1) (allChunks flags blocks) := by
  induction blocks with
  | nil => exact fun _ _ _ => tiling_nil
  | cons block rest ih =>
    intro low hpages hascending hlow
    obtain ⟨hbehind, hrestAscending⟩ := pairwise_cons.mp hascending
    have hblock := hpages block mem_cons_self
    have hfirst : Tiling block.start.toNat block.stop.toNat
        (block.wanted flags) :=
      block.wanted_tiling hblock
    have hrest := ih
      (fun other hother => hpages other (mem_cons_of_mem _ hother))
      hrestAscending
      (fun other hother => UInt64.le_iff_toNat_le.mp (hbehind other hother))
    have hbound := block.stop.toNat_lt
    have hless := hlow block mem_cons_self
    have hle := hblock.le
    rw [allChunks_cons]
    refine ⟨pairwise_append.mpr ⟨hfirst.ascending, hrest.ascending,
      fun chunk hchunk other hother => ?_⟩, ?_, ?_, ?_⟩
    · exact (hfirst.inside chunk hchunk).2.trans (hrest.inside other hother).1
    · intro chunk hchunk
      rcases mem_append.mp hchunk with hmem | hmem
      · exact ⟨hless.trans (hfirst.inside chunk hmem).1,
          (hfirst.inside chunk hmem).2.trans (by omega)⟩
      · exact ⟨(hless.trans hle).trans (hrest.inside chunk hmem).1,
          (hrest.inside chunk hmem).2⟩
    · intro chunk hchunk
      rcases mem_append.mp hchunk with hmem | hmem
      · exact hfirst.aligned chunk hmem
      · exact hrest.aligned chunk hmem
    · intro chunk hchunk
      rcases mem_append.mp hchunk with hmem | hmem
      · exact hfirst.pos chunk hmem
      · exact hrest.pos chunk hmem

end

structure TakenFor (chunk : Chunk) (turn : Turn) : Prop where
  current : turn.current = chunk.current
  pagecount : turn.pagecount = chunk.pagecount
  read : turn.read ≤ chunk.pagecount

theorem TakenFor.le_high {turn : Turn} (htaken : TakenFor chunk turn) :
    turn.current.toNat + turn.read * pagesize ≤ chunk.high := by
  rw [htaken.current, Chunk.high]
  exact Nat.add_le_add_left (Nat.mul_le_mul_right _ htaken.read) _

theorem Serves.turns {chunks : List Chunk} {out : Reader × RegionList}
    (hserves : Serves pagemap chunks state out) :
    ∃ log, out.1.turns = state.1.turns ++ log ∧
      List.Forall₂ TakenFor chunks log := by
  induction hserves with
  | done => exact ⟨[], (append_nil _).symm, .nil⟩
  | failed _ _ ih => exact ih
  | read hread _ ih =>
    obtain ⟨log, hlog, htaken⟩ := ih
    exact ⟨_ :: log, hlog.trans (append_assoc _ _ _),
      .cons ⟨rfl, rfl, min_le_right _ _⟩ htaken⟩

theorem exists_turn {chunks : List Chunk} {log : List Turn}
    (htaken : List.Forall₂ TakenFor chunks log) (hchunk : chunk ∈ chunks) :
    ∃ turn ∈ log, TakenFor chunk turn := by
  induction htaken with
  | nil => cases hchunk
  | cons hfirst _ ih =>
    rcases mem_cons.mp hchunk with rfl | hlater
    · exact ⟨_, mem_cons_self, hfirst⟩
    · obtain ⟨turn, hturn, hmatch⟩ := ih hlater
      exact ⟨turn, mem_cons_of_mem _ hturn, hmatch⟩

theorem exists_chunk_of_turn {chunks : List Chunk} {log : List Turn}
    (htaken : List.Forall₂ TakenFor chunks log) {turn : Turn}
    (hturn : turn ∈ log) : ∃ chunk ∈ chunks, TakenFor chunk turn := by
  induction htaken with
  | nil => cases hturn
  | cons hfirst _ ih =>
    rcases mem_cons.mp hturn with rfl | hlater
    · exact ⟨_, mem_cons_self, hfirst⟩
    · obtain ⟨chunk, hchunk, hmatch⟩ := ih hlater
      exact ⟨chunk, mem_cons_of_mem _ hchunk, hmatch⟩

theorem Tiling.tail {high : ℕ} {rest : List Chunk}
    (htiling : Tiling low high (chunk :: rest)) :
    Tiling chunk.high high rest where
  ascending := htiling.ascending.of_cons
  inside other hother :=
    ⟨rel_of_pairwise_cons htiling.ascending hother,
      (htiling.inside other (mem_cons_of_mem _ hother)).2⟩
  aligned other hother :=
    htiling.aligned other (mem_cons_of_mem _ hother)
  pos other hother := htiling.pos other (mem_cons_of_mem _ hother)

theorem Chunk.getElem?_entries {k : ℕ} {j : ℕ} {entry : UInt64} :
    (chunk.entries pagemap k reader)[j]? = some entry ↔
      j < chunk.pagecount ∧
        (chunk.read pagemap k reader).entries j = entry := by
  rw [Chunk.entries, getElem?_map, Option.map_eq_some_iff]
  constructor
  · rintro ⟨i, hi, hentry⟩
    obtain ⟨hlt, rfl⟩ := List.getElem?_eq_some_iff.mp hi
    rw [length_range] at hlt
    rw [getElem_range] at hentry
    exact ⟨hlt, hentry⟩
  · rintro ⟨hlt, hentry⟩
    exact ⟨j, getElem?_range hlt, hentry⟩

theorem page_eq {j : ℕ} (haligned : base % pagesize = 0)
    (hle : base + j * pagesize ≤ address)
    (hlt : address < base + (j + 1) * pagesize) :
    address / pagesize = base / pagesize + j := by
  simp only [pagesize] at haligned hle hlt ⊢
  omega

theorem inPages_entries {k : ℕ}
    (haligned : chunk.current.toNat % pagesize = 0)
    (hbehind : ∀ i, k ≤ i → i < chunk.pagecount →
      ¬ present (reader.entries i)) :
    InPages chunk.current.toNat 0 (chunk.entries pagemap k reader) address ↔
      Turn.HasRead ⟨chunk.current, chunk.pagecount, min k chunk.pagecount⟩
          address ∧
        present (pagemap.entry (address / pagesize)) := by
  constructor
  · rintro ⟨j, entry, hentry, hpresent, hle, hlt⟩
    obtain ⟨hcount, hread⟩ := Chunk.getElem?_entries.mp hentry
    rw [Nat.zero_add] at hle hlt
    by_cases hless : j < min k chunk.pagecount
    · have hpage := page_eq haligned hle hlt
      have hsame : pagemap.entry (chunk.current.toNat / pagesize + j) =
          entry :=
        (if_pos hless).symm.trans hread
      refine ⟨⟨(Nat.le_add_right _ _).trans hle, ?_⟩, ?_⟩
      · exact lt_of_lt_of_le hlt
          (Nat.add_le_add_left (Nat.mul_le_mul_right _ hless) _)
      · rwa [hpage, hsame]
    · have hold : reader.entries j = entry := (if_neg hless).symm.trans hread
      have hkept : k ≤ j := by omega
      exact absurd (hold ▸ hpresent) (hbehind j hkept hcount)
  · rintro ⟨⟨hle, hlt⟩, hpresent⟩
    have hpage : ∃ j < min k chunk.pagecount,
        chunk.current.toNat + j * pagesize ≤ address ∧
          address < chunk.current.toNat + (j + 1) * pagesize := by
      refine ⟨(address - chunk.current.toNat) / pagesize, ?_⟩
      simp only [pagesize] at hle hlt ⊢
      omega
    obtain ⟨j, hless, hlow, hhigh⟩ := hpage
    refine ⟨j, pagemap.entry (address / pagesize),
      Chunk.getElem?_entries.mpr ⟨lt_of_lt_of_le hless (min_le_right _ _),
        ?_⟩, hpresent, ?_, ?_⟩
    · rw [page_eq haligned hlow hhigh]
      exact if_pos hless
    · rwa [Nat.zero_add]
    · rwa [Nat.zero_add]

theorem Chunk.length_entries {k : ℕ} :
    (chunk.entries pagemap k reader).length = chunk.pagecount := by
  rw [Chunk.entries, length_map, length_range]

theorem Chunk.take_covering (hhigh : chunk.high < 2 ^ 64) (k : ℕ)
    (state : Reader × RegionList) :
    ∃ added,
      (chunk.take pagemap k state).2.entries = state.2.entries ++ added ∧
      Covering chunk.current.toNat chunk.high
        (InPages chunk.current.toNat 0
          (chunk.entries pagemap k state.1)) added := by
  have hfits : chunk.current.toNat +
      (0 + (chunk.entries pagemap k state.1).length) * pagesize <
        2 ^ 64 := by
    rw [Chunk.length_entries, Nat.zero_add]
    exact hhigh
  obtain ⟨added, hadded, hcovering⟩ := @addPresentPages_covering
    chunk.current chunk.type chunk.protection
    (chunk.entries pagemap k state.1) 0 none state.2
    (fun first hmem => by cases hmem) hfits
  rw [Chunk.length_entries, Nat.zero_add] at hcovering
  refine ⟨added, hadded, (hcovering.mono ?_ le_rfl).congr fun address => ?_⟩
  · exact Nat.le_add_right _ _
  · simp [inRun_none]

theorem Serves.listed {chunks : List Chunk} {out : Reader × RegionList}
    (hserves : Serves pagemap chunks state out) :
    ∀ {low : ℕ}, Tiling low (2 ^ 64 - 1) chunks → ∀ {address : ℕ},
    Listed state.2.entries address → Listed out.2.entries address := by
  induction hserves with
  | done => exact fun _ _ hlisted => hlisted
  | failed _ _ ih => exact fun htiling _ hlisted => ih htiling hlisted
  | @read chunk rest state out k hread _ ih =>
    intro low htiling address hlisted
    have hhigh := (htiling.inside chunk mem_cons_self).2
    obtain ⟨added, hadded, _⟩ := @Chunk.take_covering
      chunk pagemap (by omega) k state
    refine ih htiling.tail ?_
    rw [hadded]
    exact listed_append.mpr (.inl hlisted)

/-! ## Served readers -/

theorem Served.exists_serves {chunks : List Chunk}
    (hserved : Served pagemap chunks reader) :
    ∀ r : RegionList, ∃ out, Serves pagemap chunks (reader, r) out := by
  induction hserved with
  | done reader => exact fun r => ⟨_, .done _⟩
  | failed hfailed _ ih =>
    intro r
    obtain ⟨out, hserves⟩ := ih r
    exact ⟨out, .failed hfailed hserves⟩
  | @read chunk rest reader k hread _ _ ih =>
    intro r
    obtain ⟨out, hserves⟩ := ih (chunk.take pagemap k (reader, r)).2
    exact ⟨out, .read hread hserves⟩

theorem Served.covering {chunks : List Chunk}
    (hserved : Served pagemap chunks reader) :
    ∀ {low : ℕ} {r : RegionList} {out : Reader × RegionList},
    Tiling low (2 ^ 64 - 1) chunks → low ≤ 2 ^ 64 - 1 →
    Serves pagemap chunks (reader, r) out →
    ∃ log added, out.1.turns = reader.turns ++ log ∧
      out.2.entries = r.entries ++ added ∧
      Covering low (2 ^ 64 - 1)
        (fun address => ∃ turn ∈ log, turn.HasRead address ∧
          present (pagemap.entry (address / pagesize))) added := by
  induction hserved with
  | done reader =>
    intro low r out _ _ hserves
    cases hserves with
    | done =>
      refine ⟨[], [], (append_nil _).symm, (append_nil _).symm,
        covering_nil.congr fun address => ?_⟩
      simp
  | failed hfailed _ ih =>
    intro low r out htiling hle hserves
    cases hserves with
    | failed _ hserves => exact ih htiling hle hserves
    | read hread _ =>
      rw [hfailed] at hread
      cases hread
  | @read chunk rest reader k hread hbehind _ ih =>
    intro low r out htiling hle hserves
    cases hserves with
    | failed hfailed _ =>
      rw [hfailed] at hread
      cases hread
    | read hother hserves =>
      obtain rfl := Option.some.inj (hread.symm.trans hother)
      obtain ⟨hlow, hhigh⟩ := htiling.inside chunk mem_cons_self
      obtain ⟨first, hfirst, hcovers⟩ := @Chunk.take_covering
        chunk pagemap (by omega) k (reader, r)
      obtain ⟨log, added, hlog, hadded, hrest⟩ :=
        ih htiling.tail hhigh hserves
      refine ⟨⟨chunk.current, chunk.pagecount,
          min k chunk.pagecount⟩ :: log, first ++ added,
        hlog.trans (append_assoc _ _ _), ?_, ?_⟩
      · have hsum : out.2.entries =
            (chunk.take pagemap k (reader, r)).2.entries ++ added :=
          hadded
        rw [hsum, hfirst, append_assoc]
      · have hless : chunk.current.toNat ≤ chunk.high :=
          Nat.le_add_right _ _
        have hboth := (hcovers.mono hlow le_rfl).append hrest
          (hlow.trans hless) hhigh
        refine hboth.congr fun address => ?_
        rw [inPages_entries (htiling.aligned chunk mem_cons_self) hbehind]
        simp only [mem_cons, or_and_right, exists_or, exists_eq_left]

theorem served_of_serves {chunks : List Chunk} {out : Reader × RegionList}
    (hserves : Serves pagemap chunks state out) : ∀ {low : ℕ},
    Tiling low (2 ^ 64 - 1) chunks →
    (∀ turn ∈ state.1.turns, turn.current.toNat + turn.read * pagesize ≤ low) →
    (∀ address, Listed out.2.entries address →
      ∃ turn ∈ out.1.turns, turn.HasRead address) →
    Served pagemap chunks state.1 := by
  induction hserves with
  | done state => exact fun _ _ _ => .done state.1
  | failed hfailed _ ih =>
    exact fun htiling hearlier hlisted =>
      .failed hfailed (ih htiling hearlier hlisted)
  | @read chunk rest state out k hread hserves ih =>
    intro low htiling hearlier hlisted
    obtain ⟨hlow, hhigh⟩ := htiling.inside chunk mem_cons_self
    obtain ⟨log, hlog, htaken⟩ := hserves.turns
    have hown : TakenFor chunk
        ⟨chunk.current, chunk.pagecount, min k chunk.pagecount⟩ :=
      ⟨rfl, rfl, min_le_right _ _⟩
    refine .read hread (fun i hkept hcount hpresent => ?_)
      (ih htiling.tail ?_ hlisted)
    · have hless : chunk.current.toNat + i * pagesize < chunk.high :=
        Nat.add_lt_add_left (Nat.mul_lt_mul_of_pos_right hcount (by decide)) _
      have hin : InPages chunk.current.toNat 0
          (chunk.entries pagemap k state.1)
          (chunk.current.toNat + i * pagesize) := by
        refine ⟨i, state.1.entries i, Chunk.getElem?_entries.mpr
          ⟨hcount, if_neg (by omega)⟩, hpresent, ?_, ?_⟩
        · rw [Nat.zero_add]
        · rw [Nat.zero_add]
          exact Nat.add_lt_add_left
            (Nat.mul_lt_mul_of_pos_right (Nat.lt_succ_self i) (by decide))
            _
      obtain ⟨added, hadded, hcovers⟩ := @Chunk.take_covering
        chunk pagemap (by omega) k state
      have hmiddle : Listed (chunk.take pagemap k state).2.entries
          (chunk.current.toNat + i * pagesize) := by
        rw [hadded]
        exact listed_append.mpr (.inr ((hcovers.covers _).mpr hin))
      obtain ⟨turn, hturn, hle, hlt⟩ :=
        hlisted _ (hserves.listed htiling.tail hmiddle)
      rw [hlog] at hturn
      rcases mem_append.mp hturn with hbefore | hafter
      · rcases mem_append.mp hbefore with hold | hnew
        · have hend := hearlier turn hold
          omega
        · obtain rfl := mem_singleton.mp hnew
          have hread : min k chunk.pagecount * pagesize ≤ i * pagesize :=
            Nat.mul_le_mul_right _ (by omega)
          simp only at hlt
          omega
      · obtain ⟨later, hlater, hmatch⟩ :=
          exists_chunk_of_turn htaken hafter
        have hbehind := (htiling.tail.inside later hlater).1
        rw [hmatch.current] at hle
        omega
    · intro turn hturn
      rcases mem_append.mp hturn with hold | hnew
      · have hless : chunk.current.toNat ≤ chunk.high :=
          Nat.le_add_right _ _
        exact (hearlier turn hold).trans (hlow.trans hless)
      · obtain rfl := mem_singleton.mp hnew
        exact hown.le_high

/-! ## The listing -/

namespace PageMappings

theorem pages (space : PageMappings) {block : MappedBlock}
    (hblock : block ∈ space.blocks) : Pages block.start block.stop := by
  obtain ⟨hstart, hstop, hlt⟩ := space.aligned block hblock
  exact ⟨hstart, hstop, (UInt64.lt_iff_toNat_lt.mp hlt).le⟩

theorem tiling (space : PageMappings) (flags : QueryFlags) :
    Tiling 0 (2 ^ 64 - 1) (allChunks flags space.blocks) :=
  allChunks_tiling (fun _ hblock => space.pages hblock) space.ascending
    fun _ _ => Nat.zero_le _

end PageMappings

theorem holds_unique {blocks : List MappedBlock}
    (hascending : blocks.Pairwise fun first second =>
      first.stop ≤ second.start) :
    ∀ {first second : MappedBlock}, first ∈ blocks → second ∈ blocks →
    first.Holds address → second.Holds address → first = second := by
  induction hascending with
  | nil => exact fun hfirst => by cases hfirst
  | cons hbehind _ ih =>
    intro first second hfirst hsecond hin hother
    have hin' := hin.2
    have hother' := hother.2
    rcases mem_cons.mp hfirst with rfl | hlater
    · rcases mem_cons.mp hsecond with rfl | hbeyond
      · rfl
      · have hle := UInt64.le_iff_toNat_le.mp (hbehind second hbeyond)
        have hlow := hother.1
        omega
    · rcases mem_cons.mp hsecond with rfl | hbeyond
      · have hle := UInt64.le_iff_toNat_le.mp (hbehind first hlater)
        have hlow := hin.1
        omega
      · exact ih hlater hbeyond hin hother

/-- Every read succeeds at last and leaves no present entry behind, and no
mapping that passes has a present page when it begins at address 0. -/
structure PagesClean (flags : QueryFlags) (pagemap : Pagemap)
    (uninitialised : ℕ → UInt64) (space : PageMappings) : Prop where
  served : Served pagemap (allChunks flags space.blocks)
    ⟨uninitialised, 0, []⟩
  noneAtZero : ∀ block ∈ space.blocks, block.Passes flags = true →
    block.start = 0 → ∀ address, block.Holds address →
      ¬ present (pagemap.entry (address / pagesize))

section

variable {flags : QueryFlags} {space : PageMappings}

theorem mem_allChunks {blocks : List MappedBlock} {chunk : Chunk} :
    chunk ∈ allChunks flags blocks ↔
      ∃ block ∈ blocks, chunk ∈ block.wanted flags :=
  mem_flatMap

variable {address : ℕ} {uninitialised : ℕ → UInt64}

theorem holds_of_chunk {block : MappedBlock} (hblock : block ∈ space.blocks)
    {chunk : Chunk} (hchunk : chunk ∈ block.wanted flags)
    (hle : chunk.current.toNat ≤ address) (hlt : address < chunk.high) :
    block.Holds address := by
  obtain ⟨hlow, hhigh⟩ :=
    (block.wanted_tiling (space.pages hblock)).inside chunk hchunk
  exact ⟨hlow.trans hle, lt_of_lt_of_le hlt hhigh⟩

theorem passes_of_hasRead {log : List Turn}
    (htaken : List.Forall₂ TakenFor (allChunks flags space.blocks) log)
    {turn : Turn} (hturn : turn ∈ log) (hread : turn.HasRead address) :
    ∃ block ∈ space.blocks,
      (block.start ≠ 0 ∧ block.Passes flags = true) ∧
        block.Holds address := by
  obtain ⟨chunk, hchunk, hmatch⟩ := exists_chunk_of_turn htaken hturn
  obtain ⟨block, hblock, hwanted⟩ := mem_allChunks.mp hchunk
  obtain ⟨hle, hlt⟩ := hread
  have hend := hmatch.le_high
  rw [hmatch.current] at hle
  exact ⟨block, hblock, (mem_wanted hwanted).1,
    holds_of_chunk hblock hwanted hle (lt_of_lt_of_le hlt hend)⟩

theorem hasRead_of_readInFull {log : List Turn}
    (htaken : List.Forall₂ TakenFor (allChunks flags space.blocks) log)
    {block : MappedBlock} (hblock : block ∈ space.blocks)
    (hnot : block.start ≠ 0) (hpasses : block.Passes flags = true)
    (hfull : ReadInFull log block) (hholds : block.Holds address) :
    ∃ turn ∈ log, turn.HasRead address := by
  have hwanted : block.wanted flags = block.chunks := if_pos ⟨hnot, hpasses⟩
  obtain ⟨chunk, hchunk, hle, hlt⟩ := exists_chunk
    (protectionStringToType block.protectionstring)
    (protectionStringToProtection block.protectionstring) _
    (space.pages hblock) le_rfl hholds.1 hholds.2
  rw [← MappedBlock.chunks, ← hwanted] at hchunk
  obtain ⟨turn, hturn, hmatch⟩ := exists_turn htaken
    (mem_allChunks.mpr ⟨block, hblock, hchunk⟩)
  have hfirst : block.Holds turn.current.toNat := by
    rw [hmatch.current]
    exact holds_of_chunk hblock hchunk le_rfl (lt_of_le_of_lt hle hlt)
  have hcount := hfull turn hturn hfirst
  refine ⟨turn, hturn, ?_, ?_⟩
  · rwa [hmatch.current]
  · rwa [hcount, hmatch.current, hmatch.pagecount]

theorem served_of_listsPages
    (hlists : ListsPages flags pagemap uninitialised space) :
    Served pagemap (allChunks flags space.blocks)
      ⟨uninitialised, 0, []⟩ := by
  obtain ⟨turns, reader, r, hregions, _, hlisted, _⟩ := hlists
  have hserves := serves_of_listBlocks (fun _ hblock => space.pages hblock)
    hregions
  exact served_of_serves hserves (space.tiling flags)
    (fun turn hturn => by cases hturn) hlisted

theorem noneAtZero_of_listsPages
    (hlists : ListsPages flags pagemap uninitialised space) :
    ∀ block ∈ space.blocks, block.Passes flags = true →
      block.start = 0 → ∀ address, block.Holds address →
        ¬ present (pagemap.entry (address / pagesize)) := by
  obtain ⟨turns, reader, r, hregions, _, hlisted, hexact⟩ := hlists
  have hserves := serves_of_listBlocks (fun _ hblock => space.pages hblock)
    hregions
  obtain ⟨log, hlog, htaken⟩ := hserves.turns
  rw [nil_append] at hlog
  rw [hlog] at hlisted hexact
  intro block hblock hpasses hzero address hholds hpresent
  have hunread : ∀ turn ∈ log, ∀ place, block.Holds place →
      ¬ turn.HasRead place := by
    intro turn hturn place hplace hread
    obtain ⟨other, hother, ⟨hnot, _⟩, hin⟩ :=
      passes_of_hasRead htaken hturn hread
    obtain rfl := holds_unique space.ascending hblock hother hplace hin
    exact hnot hzero
  have hfull : ReadInFull log block := by
    intro turn hturn hcurrent
    obtain ⟨chunk, hchunk, hmatch⟩ := exists_chunk_of_turn htaken hturn
    obtain ⟨other, hother, hwanted⟩ := mem_allChunks.mp hchunk
    have hpos := (space.tiling flags).pos chunk hchunk
    rw [hmatch.current] at hcurrent
    have hin := holds_of_chunk hother hwanted le_rfl
      (Nat.lt_add_of_pos_right (Nat.mul_pos hpos (by decide)))
    obtain rfl := holds_unique space.ascending hblock hother hcurrent hin
    exact absurd hzero (mem_wanted hwanted).1.1
  obtain ⟨turn, hturn, hread⟩ :=
    hlisted address ((hexact block hblock hfull address hholds).mpr
      ⟨hpasses, hpresent⟩)
  exact hunread turn hturn address hholds hread

theorem listsPages_of_clean
    (hclean : PagesClean flags pagemap uninitialised space) :
    ListsPages flags pagemap uninitialised space := by
  obtain ⟨out, hserves⟩ := hclean.served.exists_serves (emptyList flags)
  obtain ⟨turns, hturns⟩ := exists_listBlocks
    (fun _ hblock => space.pages hblock) hserves
  obtain ⟨log, added, hlog, hadded, hcovering⟩ := hclean.served.covering
    (space.tiling flags) (Nat.zero_le _) hserves
  obtain ⟨others, hothers, htaken⟩ := hserves.turns
  rw [hlog, nil_append] at hothers
  obtain rfl : log = others := hothers
  have hentries : out.2.entries = added := hadded
  refine ⟨turns, out.1, out.2, hturns, ?_, ?_, ?_⟩
  · rw [hentries]
    exact hcovering.ascending
  · intro address hlisted
    rw [hentries, hcovering.covers] at hlisted
    obtain ⟨turn, hturn, hread, _⟩ := hlisted
    rw [hlog]
    exact ⟨turn, hturn, hread⟩
  · intro block hblock hfull address hholds
    rw [hlog] at hfull
    rw [hentries, hcovering.covers]
    constructor
    · rintro ⟨turn, hturn, hread, hpresent⟩
      obtain ⟨other, hother, ⟨_, hpasses⟩, hin⟩ :=
        passes_of_hasRead htaken hturn hread
      obtain rfl := holds_unique space.ascending hblock hother hholds hin
      exact ⟨hpasses, hpresent⟩
    · rintro ⟨hpasses, hpresent⟩
      have hnot : block.start ≠ 0 := fun hzero =>
        hclean.noneAtZero block hblock hpasses hzero address hholds hpresent
      obtain ⟨turn, hturn, hread⟩ := hasRead_of_readInFull htaken hblock hnot
        hpasses hfull hholds
      exact ⟨turn, hturn, hread, hpresent⟩

/-- The listing is right for these results of the reads and no others. -/
theorem listsPages_iff (flags : QueryFlags) (pagemap : Pagemap)
    (uninitialised : ℕ → UInt64) (space : PageMappings) :
    ListsPages flags pagemap uninitialised space ↔
      PagesClean flags pagemap uninitialised space :=
  ⟨fun hlists => ⟨served_of_listsPages hlists,
      noneAtZero_of_listsPages hlists⟩,
    listsPages_of_clean⟩

end

def onePage : PageMappings where
  blocks := [⟨0x1000, 0x2000, "r--p".toList, false⟩]
  aligned := by simp [pagesize]
  ascending := pairwise_singleton _ _

/-- No entry is read, and the page is listed because of what the buffer
held. -/
theorem not_listsPages_oldEntry :
    ¬ ∀ flags pagemap uninitialised space,
      ListsPages flags pagemap uninitialised space := by
  intro hlists
  have hserved := served_of_listsPages (hlists ⟨true, false, false⟩
    ⟨fun _ => 0, fun _ => some 0⟩ (fun _ => 0x8000000000000000) onePage)
  have hchunks : allChunks ⟨true, false, false⟩ onePage.blocks =
      [⟨0x1000, 1, protectionStringToType "r--p".toList,
        protectionStringToProtection "r--p".toList⟩] := by
    rfl
  rw [hchunks] at hserved
  cases hserved with
  | failed hfailed _ => cases hfailed
  | read hread hbehind _ =>
    obtain rfl := Option.some.inj hread
    exact hbehind 0 le_rfl Nat.one_pos (by decide)

end CeserverRegions
end CheatEngine
