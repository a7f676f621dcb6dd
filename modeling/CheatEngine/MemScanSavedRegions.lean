import CheatEngine.MemScanFirstScan

/-!
# Saved regions

A first scan for an unknown initial value copies chunks of memory to one
buffer, and notes for each of them where it was saved.  Afterwards the notes
that follow each other in memory become one region.
-/

namespace CheatEngine
namespace MemScan

open List

/-- A chunk and the place in the buffer that it is read to. -/
structure Placed where
  base : ℕ
  size : ℕ
  memorybuffer : ℤ
deriving DecidableEq, Repr

/-- `TMemoryRegion` with the place of its bytes in the buffer. -/
structure SavedRegion where
  BaseAddress : ℕ
  MemorySize : ℕ
  startaddress : ℤ
deriving DecidableEq, Repr

def SavedRegion.stop (region : SavedRegion) : ℕ :=
  region.BaseAddress + region.MemorySize

def place : ℤ → List Chunk → List Placed
  | _, [] => []
  | memorybuffer, chunk :: rest =>
    { base := chunk.base, size := chunk.size, memorybuffer } ::
      place (memorybuffer + chunk.size) rest

def save (target : Target) (placed : Placed) : SavedRegion where
  BaseAddress := placed.base
  MemorySize := target.actualread placed.base placed.size
  startaddress := placed.memorybuffer

/-- A region is appended to the last one when it starts where that ends. -/
def appendRegion (memregion : List SavedRegion) (new : SavedRegion) :
    List SavedRegion :=
  match memregion.getLast? with
  | some last =>
    if last.BaseAddress + last.MemorySize = new.BaseAddress then
      memregion.dropLast ++
        [{ last with MemorySize := last.MemorySize + new.MemorySize }]
    else
      memregion ++ [new]
  | none => memregion ++ [new]

def mergeRegions (saved : List SavedRegion) : List SavedRegion :=
  saved.foldl appendRegion []

def SavedRegion.Covers (saved : SavedRegion) (p : ℤ) : Prop :=
  saved.startaddress ≤ p ∧ p < saved.startaddress + saved.MemorySize

instance (saved : SavedRegion) (p : ℤ) : Decidable (saved.Covers p) :=
  inferInstanceAs (Decidable (_ ∧ _))

def writeRegion (memory : ℕ → UInt8) (image : ℤ → UInt8)
    (saved : SavedRegion) : ℤ → UInt8 :=
  fun p =>
    if saved.Covers p then
      memory (saved.BaseAddress + (p - saved.startaddress).toNat)
    else
      image p

def savedImage (memory : ℕ → UInt8) (order : List SavedRegion) :
    ℤ → UInt8 :=
  order.foldl (writeRegion memory) fun _ => 0

/-- Whatever is read, and in whatever order the threads read it: each region
of the list has its bytes in the buffer, and no address is in two regions. -/
def SnapshotExact (placed : List Placed) : Prop :=
  ∀ (target : Target) (order : List SavedRegion),
    order.Perm (placed.map (save target)) →
      (∀ region ∈ mergeRegions (placed.map (save target)),
        ∀ k < region.MemorySize,
          savedImage target.memory order (region.startaddress + k) =
            target.memory (region.BaseAddress + k)) ∧
      (mergeRegions (placed.map (save target))).Pairwise
        fun first second => ∀ address,
          ¬ ((first.BaseAddress ≤ address ∧ address < first.stop) ∧
            second.BaseAddress ≤ address ∧ address < second.stop)

/-- Later chunks lie behind earlier ones, in memory and in the buffer. -/
def Ascending (first second : Placed) : Prop :=
  first.base + first.size ≤ second.base ∧
    first.memorybuffer + first.size ≤ second.memorybuffer

def Joined (first second : Placed) : Prop :=
  0 < second.size → first.base + first.size = second.base →
    first.memorybuffer + first.size = second.memorybuffer

section

variable {memory : ℕ → UInt8}

theorem foldl_writeRegion {order : List SavedRegion} {image : ℤ → UInt8}
    {p : ℤ} {value : UInt8} (hall : ∀ saved ∈ order, saved.Covers p →
      memory (saved.BaseAddress + (p - saved.startaddress).toNat) = value)
    (hsome : image p = value ∨ ∃ saved ∈ order, saved.Covers p) :
    order.foldl (writeRegion memory) image p = value := by
  induction order generalizing image with
  | nil =>
    rcases hsome with himage | ⟨saved, hsaved, -⟩
    · exact himage
    · cases hsaved
  | cons saved rest ih =>
    obtain ⟨hfirst, hrest⟩ := forall_mem_cons.mp hall
    rw [foldl_cons]
    apply ih hrest
    by_cases hcovers : saved.Covers p
    · left
      rw [writeRegion, if_pos hcovers]
      exact hfirst hcovers
    · rcases hsome with himage | ⟨other, hother, hin⟩
      · left
        rw [writeRegion, if_neg hcovers]
        exact himage
      · rcases mem_cons.mp hother with rfl | hmem
        · exact absurd hin hcovers
        · exact .inr ⟨other, hmem, hin⟩

end

/-! ## Merging -/

theorem appendRegion_nil (new : SavedRegion) :
    appendRegion [] new = [new] := rfl

theorem appendRegion_concat (front : List SavedRegion)
    (last new : SavedRegion) :
    appendRegion (front ++ [last]) new =
      if last.stop = new.BaseAddress then
        front ++ [{ last with
          MemorySize := last.MemorySize + new.MemorySize }]
      else
        front ++ [last] ++ [new] := by
  unfold appendRegion SavedRegion.stop
  rw [getLast?_concat, dropLast_concat]

theorem mergeRegions_concat (saved : List SavedRegion) (new : SavedRegion) :
    mergeRegions (saved ++ [new]) = appendRegion (mergeRegions saved) new := by
  rw [mergeRegions, foldl_append]
  rfl

structure Merged (target : Target) (before : List Placed)
    (regions : List SavedRegion) : Prop where
  covers : ∀ region ∈ regions, ∀ k < region.MemorySize,
    ∃ placed ∈ before, placed.base ≤ region.BaseAddress + k ∧
      region.BaseAddress + k < (save target placed).stop ∧
      region.startaddress + k + placed.base =
        placed.memorybuffer + (region.BaseAddress + k)
  starts : ∀ region ∈ regions, ∃ placed ∈ before,
    placed.base = region.BaseAddress ∧
      placed.memorybuffer = region.startaddress
  ends : ∀ region ∈ regions, ∃ placed ∈ before,
    region.stop ≤ placed.base + placed.size
  ordered : regions.Pairwise fun first second =>
    first.stop ≤ second.BaseAddress

section

variable {target : Target} {before : List Placed} {new : Placed}

theorem save_stop_le (target : Target) (placed : Placed) :
    (save target placed).stop ≤ placed.base + placed.size :=
  Nat.add_le_add_left (target.actualread_le _ _) _

theorem merged_nil : Merged target [] [] where
  covers := fun _ hregion => nomatch hregion
  starts := fun _ hregion => nomatch hregion
  ends := fun _ hregion => nomatch hregion
  ordered := List.Pairwise.nil

theorem Merged.weaken {regions : List SavedRegion}
    (hmerged : Merged target before regions) :
    Merged target (before ++ [new]) regions := by
  refine ⟨?_, ?_, ?_, hmerged.ordered⟩
  · intro region hregion k hk
    obtain ⟨placed, hplaced, hrest⟩ := hmerged.covers region hregion k hk
    exact ⟨placed, mem_append_left _ hplaced, hrest⟩
  · intro region hregion
    obtain ⟨placed, hplaced, hrest⟩ := hmerged.starts region hregion
    exact ⟨placed, mem_append_left _ hplaced, hrest⟩
  · intro region hregion
    obtain ⟨placed, hplaced, hrest⟩ := hmerged.ends region hregion
    exact ⟨placed, mem_append_left _ hplaced, hrest⟩

theorem Merged.push {regions : List SavedRegion}
    (hmerged : Merged target before regions)
    (hascending : ∀ placed ∈ before, Ascending placed new) :
    Merged target (before ++ [new]) (regions ++ [save target new]) := by
  have hweak := @Merged.weaken target before new regions hmerged
  have hnew : new ∈ before ++ [new] :=
    mem_append_right _ (mem_singleton_self new)
  refine ⟨?_, ?_, ?_, ?_⟩
  · rw [forall_mem_append, forall_mem_singleton]
    refine ⟨hweak.covers, fun k hk => ⟨new, hnew, ?_, ?_, ?_⟩⟩
    · exact Nat.le_add_right _ _
    · exact Nat.add_lt_add_left hk _
    · unfold save
      dsimp only
      omega
  · rw [forall_mem_append, forall_mem_singleton]
    exact ⟨hweak.starts, new, hnew, rfl, rfl⟩
  · rw [forall_mem_append, forall_mem_singleton]
    exact ⟨hweak.ends, new, hnew, save_stop_le target new⟩
  · rw [pairwise_append]
    refine ⟨hmerged.ordered, pairwise_singleton _ _, ?_⟩
    intro region hregion other hother
    rw [mem_singleton.mp hother]
    obtain ⟨placed, hplaced, hstop⟩ := hmerged.ends region hregion
    exact hstop.trans (hascending placed hplaced).1

theorem Merged.joined {front : List SavedRegion} {last : SavedRegion}
    (hmerged : Merged target before (front ++ [last]))
    (hascending : ∀ placed ∈ before, Ascending placed new)
    (hjoined : ∀ placed ∈ before, Joined placed new)
    (hsize : 0 < new.size) (hstop : last.stop = new.base) :
    last.startaddress + last.MemorySize = new.memorybuffer := by
  have hlast : last ∈ front ++ [last] :=
    mem_append_right _ (mem_singleton_self last)
  unfold SavedRegion.stop at hstop
  rcases Nat.eq_zero_or_pos last.MemorySize with hzero | hpos
  · obtain ⟨placed, hplaced, hbase, hbuffer⟩ := hmerged.starts last hlast
    have hbefore := (hascending placed hplaced).1
    have hjoin := hjoined placed hplaced hsize (by omega)
    omega
  · obtain ⟨placed, hplaced, hge, hlt, hplace⟩ :=
      hmerged.covers last hlast (last.MemorySize - 1) (by omega)
    have hbefore := (hascending placed hplaced).1
    have hread := save_stop_le target placed
    have hjoin := hjoined placed hplaced hsize (by omega)
    omega

theorem Merged.grow {front : List SavedRegion} {last : SavedRegion}
    (hmerged : Merged target before (front ++ [last]))
    (hascending : ∀ placed ∈ before, Ascending placed new)
    (hjoined : ∀ placed ∈ before, Joined placed new)
    (hstop : last.stop = new.base) :
    Merged target (before ++ [new]) (front ++ [{ last with
      MemorySize := last.MemorySize + (save target new).MemorySize }]) := by
  have hweak := @Merged.weaken target before new _ hmerged
  have hnew : new ∈ before ++ [new] :=
    mem_append_right _ (mem_singleton_self new)
  obtain ⟨hcoversFront, hcoversLast⟩ :=
    forall_mem_append.mp hweak.covers
  obtain ⟨hstartsFront, hstartsLast⟩ :=
    forall_mem_append.mp hweak.starts
  obtain ⟨hendsFront, -⟩ := forall_mem_append.mp hweak.ends
  obtain ⟨horderedFront, -, horderedLast⟩ :=
    pairwise_append.mp hmerged.ordered
  have hreadLe : (save target new).MemorySize ≤ new.size :=
    target.actualread_le _ _
  refine ⟨?_, ?_, ?_, ?_⟩
  · rw [forall_mem_append, forall_mem_singleton]
    refine ⟨hcoversFront, fun k hk => ?_⟩
    dsimp only at hk ⊢
    by_cases hold : k < last.MemorySize
    · exact hcoversLast last (mem_singleton_self last) k hold
    · have hsize : 0 < new.size := by omega
      have hplace := hmerged.joined hascending hjoined hsize hstop
      unfold SavedRegion.stop at hstop
      refine ⟨new, hnew, by omega, ?_, by omega⟩
      change last.BaseAddress + k < new.base + (save target new).MemorySize
      omega
  · rw [forall_mem_append, forall_mem_singleton]
    exact ⟨hstartsFront, hstartsLast last (mem_singleton_self last)⟩
  · rw [forall_mem_append, forall_mem_singleton]
    refine ⟨hendsFront, new, hnew, ?_⟩
    unfold SavedRegion.stop at hstop ⊢
    dsimp only
    omega
  · rw [pairwise_append]
    refine ⟨horderedFront, pairwise_singleton _ _, ?_⟩
    intro region hregion other hother
    rw [mem_singleton.mp hother]
    exact horderedLast region hregion last (mem_singleton_self last)

theorem merged_all {placed : List Placed}
    (hascending : placed.Pairwise Ascending)
    (hjoined : placed.Pairwise Joined) :
    Merged target placed (mergeRegions (placed.map (save target))) := by
  induction placed using List.reverseRecOn with
  | nil => exact merged_nil
  | append_singleton before new ih =>
    obtain ⟨hascendingBefore, -, hascendingNew⟩ :=
      pairwise_append.mp hascending
    obtain ⟨hjoinedBefore, -, hjoinedNew⟩ :=
      pairwise_append.mp hjoined
    have hbefore := ih hascendingBefore hjoinedBefore
    have hnewAscending : ∀ placed ∈ before, Ascending placed new :=
      fun placed hplaced => hascendingNew placed hplaced new
        (mem_singleton_self new)
    have hnewJoined : ∀ placed ∈ before, Joined placed new :=
      fun placed hplaced => hjoinedNew placed hplaced new
        (mem_singleton_self new)
    rw [map_append, map_singleton, mergeRegions_concat]
    rcases eq_nil_or_concat
      (mergeRegions (before.map (save target))) with hnil |
        ⟨front, last, hconcat⟩
    · rw [hnil] at hbefore ⊢
      exact hbefore.push hnewAscending
    · rw [concat_eq_append] at hconcat
      rw [hconcat] at hbefore ⊢
      rw [appendRegion_concat]
      split
      · rename_i hstop
        exact hbefore.grow hnewAscending hnewJoined hstop
      · exact hbefore.push hnewAscending

end

variable {placed : List Placed}

theorem placed_unique (hascending : placed.Pairwise Ascending)
    {target : Target} {first second : Placed} {p : ℤ}
    (hfirst : first ∈ placed) (hsecond : second ∈ placed)
    (hcoversFirst : (save target first).Covers p)
    (hcoversSecond : (save target second).Covers p) : first = second := by
  by_contra hne
  have hsymm : Std.Symm fun first second : Placed =>
      Ascending first second ∨ Ascending second first :=
    ⟨fun _ _ => Or.symm⟩
  have heither : placed.Pairwise fun first second =>
      Ascending first second ∨ Ascending second first :=
    hascending.imp Or.inl
  have hreadFirst := save_stop_le target first
  have hreadSecond := save_stop_le target second
  unfold SavedRegion.Covers SavedRegion.stop save at *
  dsimp only at *
  rcases heither.forall hfirst hsecond hne with ⟨-, hle⟩ | ⟨-, hle⟩ <;>
    omega

theorem snapshotExact_of_joined (hascending : placed.Pairwise Ascending)
    (hjoined : placed.Pairwise Joined) : SnapshotExact placed := by
  intro target order horder
  have hmerged := @merged_all target placed hascending hjoined
  refine ⟨fun region hregion k hk => ?_, ?_⟩
  · obtain ⟨source, hsource, hge, hlt, hplace⟩ :=
      hmerged.covers region hregion k hk
    unfold SavedRegion.stop save at hlt
    dsimp only at hlt
    have hcovered : (save target source).Covers
        (region.startaddress + k) := by
      unfold SavedRegion.Covers save
      dsimp only
      omega
    apply foldl_writeRegion
    · intro saved hsaved hcovers
      obtain ⟨other, hother, rfl⟩ :=
        mem_map.mp (horder.mem_iff.mp hsaved)
      have hsame : other = source :=
        placed_unique hascending hother hsource hcovers hcovered
      rw [hsame]
      congr 1
      unfold save
      dsimp only
      omega
    · exact .inr ⟨_, horder.mem_iff.mpr
        (mem_map_of_mem hsource), hcovered⟩
  · apply hmerged.ordered.imp
    intro first second hle address hboth
    omega

/-! ## Chunks that do not join -/

section

variable {first second : Placed}

def readsTwo (first second : Placed) : Target where
  memory := fun address => if address = second.base then 1 else 0
  previous := fun _ _ => 0
  actualread := fun address size =>
    if (address = first.base ∧ size = first.size) ∨
        (address = second.base ∧ size = second.size) then size
    else 0
  actualread_le := by
    intro address size
    split
    · exact le_rfl
    · exact Nat.zero_le _

theorem save_first : save (readsTwo first second) first =
    ⟨first.base, first.size, first.memorybuffer⟩ := by
  simp [save, readsTwo]

theorem save_second : save (readsTwo first second) second =
    ⟨second.base, second.size, second.memorybuffer⟩ := by
  simp [save, readsTwo]

theorem save_size_zero {other : Placed}
    (hfirst : other.base = first.base → other.size = first.size →
      other.size = 0)
    (hsecond : other.base = second.base → other.size = second.size →
      other.size = 0) :
    (save (readsTwo first second) other).MemorySize = 0 := by
  unfold save readsTwo
  dsimp only
  split
  · rename_i hsame
    rcases hsame with ⟨hbase, hsize⟩ | ⟨hbase, hsize⟩
    · exact hfirst hbase hsize
    · exact hsecond hbase hsize
  · rfl

theorem merge_of_empty {target : Target} {placed : List Placed}
    (hempty : ∀ other ∈ placed, (save target other).MemorySize = 0) :
    ∀ region ∈ mergeRegions (placed.map (save target)),
      region.MemorySize = 0 ∧ ∃ other ∈ placed,
        other.base = region.BaseAddress ∧
          other.memorybuffer = region.startaddress := by
  induction placed using List.reverseRecOn with
  | nil => exact fun _ hregion => nomatch hregion
  | append_singleton before new ih =>
    obtain ⟨hbefore, hnew⟩ := forall_mem_append.mp hempty
    rw [forall_mem_singleton] at hnew
    have hweak : ∀ region ∈ mergeRegions (before.map (save target)),
        region.MemorySize = 0 ∧ ∃ other ∈ before ++ [new],
          other.base = region.BaseAddress ∧
            other.memorybuffer = region.startaddress := by
      intro region hregion
      obtain ⟨hzero, other, hother, hsame⟩ := ih hbefore region hregion
      exact ⟨hzero, other, mem_append_left _ hother, hsame⟩
    have hself : ∃ other ∈ before ++ [new],
        other.base = (save target new).BaseAddress ∧
          other.memorybuffer = (save target new).startaddress :=
      ⟨new, mem_append_right _ (mem_singleton_self new), rfl, rfl⟩
    rw [map_append, map_singleton, mergeRegions_concat]
    rcases eq_nil_or_concat
      (mergeRegions (before.map (save target))) with hnil |
        ⟨front, last, hconcat⟩
    · rw [hnil, appendRegion_nil, forall_mem_singleton]
      exact ⟨hnew, hself⟩
    · rw [concat_eq_append] at hconcat
      rw [hconcat] at hweak ⊢
      obtain ⟨hfront, hlast⟩ := forall_mem_append.mp hweak
      rw [forall_mem_singleton] at hlast
      rw [appendRegion_concat]
      split
      · rw [forall_mem_append, forall_mem_singleton]
        refine ⟨hfront, ?_, hlast.2⟩
        dsimp only
        rw [hlast.1, hnew]
      · rw [forall_mem_append, forall_mem_singleton]
        exact ⟨hweak, hnew, hself⟩

theorem foldl_append_empty {target : Target} {placed : List Placed}
    {front : List SavedRegion} {last : SavedRegion}
    (hempty : ∀ other ∈ placed, (save target other).MemorySize = 0 ∧
      other.base = last.stop) :
    (placed.map (save target)).foldl appendRegion (front ++ [last]) =
      front ++ [last] := by
  induction placed with
  | nil => rfl
  | cons other rest ih =>
    obtain ⟨⟨hzero, hbase⟩, hrest⟩ := forall_mem_cons.mp hempty
    rw [map_cons, foldl_cons, appendRegion_concat,
      if_pos (by rw [← hbase]; rfl), hzero, Nat.add_zero]
    exact ih hrest

theorem exists_grown {saved regions : List SavedRegion}
    {region : SavedRegion} (hregion : region ∈ regions) :
    ∃ grown ∈ saved.foldl appendRegion regions,
      grown.BaseAddress = region.BaseAddress ∧
        grown.startaddress = region.startaddress ∧
        region.MemorySize ≤ grown.MemorySize := by
  induction saved generalizing regions region with
  | nil => exact ⟨region, hregion, rfl, rfl, le_rfl⟩
  | cons new rest ih =>
    rw [foldl_cons]
    have hstep : ∃ grown ∈ appendRegion regions new,
        grown.BaseAddress = region.BaseAddress ∧
          grown.startaddress = region.startaddress ∧
          region.MemorySize ≤ grown.MemorySize := by
      rcases eq_nil_or_concat regions with hnil | ⟨front, last, hconcat⟩
      · rw [hnil] at hregion
        cases hregion
      · rw [concat_eq_append] at hconcat
        rw [hconcat] at hregion ⊢
        rw [appendRegion_concat]
        split
        · rcases mem_append.mp hregion with hfront | hlast
          · exact ⟨region, mem_append_left _ hfront, rfl, rfl, le_rfl⟩
          · rw [mem_singleton.mp hlast]
            exact ⟨_, mem_append_right _ (mem_singleton_self _),
              rfl, rfl, Nat.le_add_right _ _⟩
        · exact ⟨region, mem_append_left _ hregion, rfl, rfl, le_rfl⟩
    obtain ⟨grown, hgrown, hbase, hstart, hsize⟩ := hstep
    obtain ⟨final, hfinal, hbase', hstart', hsize'⟩ := ih hgrown
    exact ⟨final, hfinal, hbase'.trans hbase, hstart'.trans hstart,
      hsize.trans hsize'⟩

/-- After the first of the two chunks: the last region ends with it, and does
not start behind it in the buffer. -/
theorem merge_first {before : List Placed} (hempty : ∀ other ∈ before,
      (save (readsTwo first second) other).MemorySize = 0)
    (hascending : ∀ other ∈ before, Ascending other first) :
    ∃ front startaddress,
      mergeRegions ((before ++ [first]).map (save (readsTwo first second))) =
        front ++ [⟨first.base, first.size, startaddress⟩] ∧
        startaddress ≤ first.memorybuffer := by
  have hregions := merge_of_empty hempty
  rw [map_append, map_singleton, mergeRegions_concat, save_first]
  rcases eq_nil_or_concat
    (mergeRegions (before.map (save (readsTwo first second)))) with hnil |
      ⟨front, last, hconcat⟩
  · rw [hnil]
    exact ⟨[], _, rfl, le_rfl⟩
  · rw [concat_eq_append] at hconcat
    rw [hconcat] at hregions ⊢
    rw [appendRegion_concat]
    obtain ⟨hzero, other, hother, hbase, hbuffer⟩ := hregions last
      (mem_append_right _ (mem_singleton_self last))
    split
    · rename_i hstop
      unfold SavedRegion.stop at hstop
      dsimp only at hstop
      rw [hzero, Nat.add_zero] at hstop
      refine ⟨front, last.startaddress, ?_, ?_⟩
      · rw [hzero, Nat.zero_add, hstop]
      · have hle := (hascending other hother).2
        omega
    · exact ⟨front ++ [last], _, rfl, le_rfl⟩

structure Around (first second : Placed)
    (before between after : List Placed) : Prop where
  ascending : (before ++ first :: (between ++ second :: after)).Pairwise
    Ascending
  size_pos : 0 < second.size
  base_eq : first.base + first.size = second.base

namespace Around

variable {before between after : List Placed}

section

variable (haround : Around first second before between after)

include haround

theorem first_second : Ascending first second :=
  (pairwise_cons.mp (pairwise_append.mp haround.ascending).2.1).1
    second (mem_append_right _ (mem_cons_self ..))

theorem before_first : ∀ other ∈ before, Ascending other first :=
  fun other hother => (pairwise_append.mp haround.ascending).2.2 other
    hother first (mem_cons_self ..)

theorem before_empty :
    ∀ other ∈ before,
      (save (readsTwo first second) other).MemorySize = 0 := by
  intro other hother
  have hle := (haround.before_first other hother).1
  have hbase := haround.base_eq
  apply save_size_zero <;> intros <;> omega

theorem between_empty :
    ∀ other ∈ between,
      (save (readsTwo first second) other).MemorySize = 0 ∧
        other.base = second.base := by
  intro other hother
  obtain ⟨hfirst, htail⟩ := pairwise_cons.mp
    (pairwise_append.mp haround.ascending).2.1
  have hafter := (hfirst other (mem_append_left _ hother)).1
  have hbefore := ((pairwise_append.mp htail).2.2 other hother second
    (mem_cons_self ..)).1
  have hbase := haround.base_eq
  have hzero : other.size = 0 := by omega
  exact ⟨save_size_zero (fun _ _ => hzero) (fun _ _ => hzero), by omega⟩

theorem after_empty :
    ∀ other ∈ after,
      (save (readsTwo first second) other).MemorySize = 0 := by
  intro other hother
  have htail := (pairwise_cons.mp
    (pairwise_append.mp haround.ascending).2.1).2
  have hle := ((pairwise_cons.mp
    (pairwise_append.mp htail).2.1).1 other hother).1
  have hbase := haround.base_eq
  have hsize := haround.size_pos
  apply save_size_zero <;> intros <;> omega

theorem exists_region :
    ∃ region ∈ mergeRegions
        ((before ++ first :: (between ++ second :: after)).map
          (save (readsTwo first second))),
      region.BaseAddress = first.base ∧
        region.startaddress ≤ first.memorybuffer ∧
        first.size < region.MemorySize := by
  obtain ⟨front, startaddress, hmerge, hstart⟩ :=
    merge_first haround.before_empty haround.before_first
  have hlist : before ++ first :: (between ++ second :: after) =
      (before ++ [first]) ++ (between ++ ([second] ++ after)) := by
    simp
  have hbetween := @foldl_append_empty (readsTwo first second) between front
    ⟨first.base, first.size, startaddress⟩ (fun other hother =>
      ⟨(haround.between_empty other hother).1,
        (haround.between_empty other hother).2.trans haround.base_eq.symm⟩)
  have hstop : (⟨first.base, first.size, startaddress⟩ : SavedRegion).stop =
      (⟨second.base, second.size, second.memorybuffer⟩ :
        SavedRegion).BaseAddress :=
    haround.base_eq
  rw [hlist, map_append, mergeRegions, foldl_append]
  change ∃ region ∈ List.foldl appendRegion
    (mergeRegions ((before ++ [first]).map
      (save (readsTwo first second)))) _, _
  rw [hmerge, map_append, foldl_append, hbetween, map_append,
    foldl_append, map_singleton, foldl_cons, foldl_nil,
    appendRegion_concat, save_second, if_pos hstop]
  obtain ⟨grown, hgrown, hbase, hstartEq, hsize⟩ :=
    exists_grown (mem_append_right front (mem_singleton_self
      ⟨first.base, first.size + second.size, startaddress⟩))
  have hpos := haround.size_pos
  refine ⟨grown, hgrown, hbase, ?_, ?_⟩
  · rw [hstartEq]
    exact hstart
  · dsimp only at hsize
    omega

theorem image_eq_zero {p : ℤ} (hp : p < second.memorybuffer) :
    savedImage (readsTwo first second).memory
      ((before ++ first :: (between ++ second :: after)).map
        (save (readsTwo first second))) p = 0 := by
  have hnone : ∀ other : Placed,
      (save (readsTwo first second) other).MemorySize = 0 →
        ¬ (save (readsTwo first second) other).Covers p := by
    intro other hzero hcovers
    unfold SavedRegion.Covers at hcovers
    rw [hzero] at hcovers
    omega
  apply foldl_writeRegion ?_ (.inl rfl)
  intro saved hsaved hcovers
  obtain ⟨other, hother, rfl⟩ := mem_map.mp hsaved
  rcases mem_append.mp hother with hbefore | htail
  · exact absurd hcovers (hnone other (haround.before_empty other hbefore))
  rcases mem_cons.mp htail with rfl | htail
  · rw [save_first] at hcovers ⊢
    unfold SavedRegion.Covers at hcovers
    have hbase := haround.base_eq
    apply if_neg
    dsimp only at hcovers ⊢
    omega
  rcases mem_append.mp htail with hbetween | htail
  · exact absurd hcovers (hnone other (haround.between_empty other hbetween).1)
  rcases mem_cons.mp htail with rfl | hafter
  · rw [save_second] at hcovers
    unfold SavedRegion.Covers at hcovers
    dsimp only at hcovers
    omega
  · exact absurd hcovers (hnone other (haround.after_empty other hafter))

theorem joined
    (hexact : SnapshotExact (before ++ first :: (between ++ second :: after))) :
    first.memorybuffer + first.size = second.memorybuffer := by
  by_contra hjump
  have hle := haround.first_second.2
  obtain ⟨region, hregion, hbase, hstart, hsize⟩ := haround.exists_region
  have hbyte := (hexact (readsTwo first second) _ (List.Perm.refl _)).1 region
    hregion first.size hsize
  rw [haround.image_eq_zero (by omega), hbase, haround.base_eq] at hbyte
  have hone : (readsTwo first second).memory second.base = 1 := if_pos rfl
  rw [hone] at hbyte
  exact absurd hbyte (by decide)

end

end Around

end

/-- The snapshot is exact when the chunks that follow each other in memory do
so in the buffer. -/
theorem snapshotExact_iff_joined (hascending : placed.Pairwise Ascending) :
    SnapshotExact placed ↔ placed.Pairwise Joined := by
  refine ⟨fun hexact => ?_, snapshotExact_of_joined hascending⟩
  rw [pairwise_iff_forall_sublist]
  intro first second hsublist hsize hbase
  obtain ⟨left, right, rfl, hleft, hright⟩ := cons_sublist_iff.mp hsublist
  obtain ⟨before, middle, rfl⟩ := append_of_mem hleft
  obtain ⟨start, after, rfl⟩ :=
    append_of_mem (singleton_sublist.mp hright)
  have hlist : before ++ first :: middle ++ (start ++ second :: after) =
      before ++ first :: ((middle ++ start) ++ second :: after) := by
    simp
  rw [hlist] at hexact hascending
  exact Around.joined ⟨hascending, hsize, hbase⟩ hexact

end MemScan
end CheatEngine
