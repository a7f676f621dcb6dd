import CheatEngine.PointerscanStructures

/-!
# Pointer scans that start from a value

When a pointer scan looks for a value instead of an address, the controller
goes through the memory with a value finder and makes a path of level 0 for
each address that holds the value.  Such a path is put in the path queue while
there is room, and in a buffer of 128 elements that is added to the overflow
queue when it is full and after the last hit.

The workers empty the path queue meanwhile, so every look at its length is an
input.  `addedToQueue` is a local variable that nothing is ever assigned to.
-/

namespace CheatEngine
namespace PointerscanValueSeeding

open List

open Pointerscan (MAXQUEUESIZE)

structure MemoryRegion where
  baseaddress : ℕ
  memorysize : ℕ
deriving DecidableEq, Repr

/-- A value finder over a snapshot.  `memregions` is in ascending order and
has been cut into small regions. -/
structure ValueFinder where
  memregions : List MemoryRegion
  readregion : MemoryRegion → Option (List UInt8)
  stopaddress : ℕ
  valuesize : ℕ
  ismatchtovalue : List UInt8 → Bool
  alligned : Bool
  pointersize : ℕ

structure Loaded where
  memregionofbuffer : ℕ
  buffer : List UInt8
deriving DecidableEq, Repr

namespace ValueFinder

variable (finder : ValueFinder)

def loadFrom (i : ℕ) : Option (Loaded × MemoryRegion) :=
  (((finder.memregions.zipIdx).drop i).findSome? fun entry =>
    (finder.readregion entry.1).map fun buffer => (⟨entry.2, buffer⟩, entry.1))

def matchesAt (loaded : Loaded) (region : MemoryRegion)
    (currentaddress : ℕ) : Bool :=
  let offset := (currentaddress - region.baseaddress) % 2 ^ 32
  offset + finder.valuesize < region.memorysize &&
    finder.ismatchtovalue ((loaded.buffer.drop offset).take finder.valuesize)

def increment (currentaddress : ℕ) : ℕ :=
  (currentaddress + if finder.alligned then finder.pointersize else 1) % 2 ^ 64

/-- `FindValue`, when `fuel` turns of its loop are enough; 0 is nothing
found. -/
def findValue : ℕ → ℕ → Loaded → Option (ℕ × Loaded)
  | 0, _, _ => none
  | fuel + 1, startaddress, loaded =>
    if startaddress < finder.stopaddress then
      match finder.memregions[loaded.memregionofbuffer]? with
      | none => some (0, loaded)
      | some region =>
        let currentaddress := max startaddress region.baseaddress
        if currentaddress > region.baseaddress + region.memorysize then
          match finder.loadFrom (loaded.memregionofbuffer + 1) with
          | none => some (0, loaded)
          | some (next, nextregion) =>
            if finder.matchesAt next nextregion nextregion.baseaddress
            then some (nextregion.baseaddress, next)
            else findValue fuel
              (finder.increment nextregion.baseaddress) next
        else if finder.matchesAt loaded region currentaddress then
          some (currentaddress, loaded)
        else
          findValue fuel (finder.increment currentaddress) loaded
    else
      some (0, loaded)

/-- The results of the calls of `FindValue` from an address on, up to the one
that finds nothing. -/
def findFrom : ℕ → ℕ → Loaded → Option (List ℕ)
  | 0, _, _ => none
  | fuel + 1, address, loaded =>
    match finder.findValue fuel address loaded with
    | none => none
    | some (found, next) =>
      if found > 0 then
        (findFrom fuel
          ((found + if finder.alligned then 4 else 1) % 2 ^ 64) next).map
          fun rest => found :: rest
      else
        some []

def hits (fuel startaddress : ℕ) : Option (List ℕ) :=
  match finder.loadFrom 0 with
  | none => some []
  | some (loaded, _) => finder.findFrom fuel startaddress loaded

theorem zero_notMem_findFrom {fuel address : ℕ} {loaded : Loaded}
    {found : List ℕ} (hfound : finder.findFrom fuel address loaded =
      some found) : 0 ∉ found := by
  induction fuel generalizing address loaded found with
  | zero => cases hfound
  | succ fuel ih =>
    rw [findFrom] at hfound
    cases hvalue : finder.findValue fuel address loaded with
    | none =>
      rw [hvalue] at hfound
      cases hfound
    | some result =>
      rw [hvalue] at hfound
      dsimp only at hfound
      split at hfound
      · next hpos =>
        obtain ⟨rest, hrest, rfl⟩ := Option.map_eq_some_iff.mp hfound
        rw [mem_cons, not_or]
        exact ⟨(Nat.ne_of_gt hpos).symm, ih hrest⟩
      · cases hfound
        exact not_mem_nil

theorem zero_notMem_hits {fuel startaddress : ℕ} {found : List ℕ}
    (hfound : finder.hits fuel startaddress = some found) : 0 ∉ found := by
  unfold hits at hfound
  split at hfound
  · cases hfound
    exact not_mem_nil
  · exact finder.zero_notMem_findFrom hfound

end ValueFinder

structure SeedPath where
  startlevel : Int32
  valuetofind : ℕ
deriving DecidableEq, Repr

structure Seeding where
  pathqueue : List SeedPath
  overflowqueue : List SeedPath
  overflowqueuebuffer : List SeedPath
  overfloqeueuebufferpos : ℕ
deriving DecidableEq, Repr

def initial : Seeding where
  pathqueue := []
  overflowqueue := []
  overflowqueuebuffer := List.replicate 128 ⟨0, 0⟩
  overfloqeueuebufferpos := 0

/-- The length of the path queue before its lock is taken and after. -/
structure Observed where
  unlocked : ℕ
  locked : ℕ

def Observed.hasRoom (observed : Observed) : Bool :=
  observed.unlocked < MAXQUEUESIZE - 1 && observed.locked < MAXQUEUESIZE - 1

def addToPathQueue (observed : Observed) (currentaddress : ℕ)
    (seeding : Seeding) : Seeding :=
  if observed.hasRoom then
    { seeding with pathqueue := seeding.pathqueue ++ [⟨0, currentaddress⟩] }
  else
    seeding

/-- The element at the fill position is set and the position moved on; an
index beyond the buffer is an error. -/
def addToBuffer (currentaddress : ℕ) (seeding : Seeding) : Option Seeding :=
  if seeding.overfloqeueuebufferpos < seeding.overflowqueuebuffer.length then
    let buffer := seeding.overflowqueuebuffer.modify
      seeding.overfloqeueuebufferpos
      fun path => { path with valuetofind := currentaddress }
    some
      { seeding with
        overflowqueuebuffer := buffer
        overfloqeueuebufferpos := seeding.overfloqeueuebufferpos + 1
        overflowqueue :=
          if seeding.overfloqeueuebufferpos + 1 ≥ 128 then
            seeding.overflowqueue ++ buffer
          else
            seeding.overflowqueue }
  else
    none

def seedHit (addedToQueue : Bool) (observed : Observed)
    (currentaddress : ℕ) (seeding : Seeding) : Option Seeding :=
  let queued := addToPathQueue observed currentaddress seeding
  if addedToQueue then some queued else addToBuffer currentaddress queued

def seedHits (addedToQueue : Bool) (observed : ℕ → Observed) :
    ℕ → List ℕ → Seeding → Option Seeding
  | _, [], seeding => some seeding
  | number, currentaddress :: rest, seeding =>
    (seedHit addedToQueue (observed number) currentaddress seeding).bind
      (seedHits addedToQueue observed (number + 1) rest)

def addBuffer (seeding : Seeding) : Seeding :=
  { seeding with
    overflowqueue := seeding.overflowqueue ++ seeding.overflowqueuebuffer }

def seed (addedToQueue : Bool) (observed : ℕ → Observed) (hits : List ℕ) :
    Option Seeding :=
  (seedHits addedToQueue observed 0 hits initial).map addBuffer

def Seeding.put (seeding : Seeding) : List SeedPath :=
  seeding.pathqueue ++ seeding.overflowqueue

/-- Each hit is put in one of the queues once, and nothing else is. -/
def SeedsOnce (hits : List ℕ) (seeding : Seeding) : Prop :=
  (seeding.put.map SeedPath.valuetofind).Perm hits.dedup

def SeedsExactly (finder : ValueFinder) (startaddress : ℕ)
    (addedToQueue : Bool) (observed : ℕ → Observed) : Prop :=
  ∃ fuel found seeding, finder.hits fuel startaddress = some found ∧
    seed addedToQueue observed found = some seeding ∧ SeedsOnce found seeding

/-! ## What the buffer holds -/

def seedOf (address : ℕ) : SeedPath :=
  ⟨0, address⟩

def filledBuffer (found : List ℕ) : List SeedPath :=
  found.map seedOf ++ List.replicate (128 - found.length) ⟨0, 0⟩

structure Filled (found : List ℕ) (seeding : Seeding) : Prop where
  length_le : found.length ≤ 128
  buffer : seeding.overflowqueuebuffer = filledBuffer found
  position : seeding.overfloqeueuebufferpos = found.length
  overflow : seeding.overflowqueue =
    if found.length = 128 then filledBuffer found else []

variable {found : List ℕ} {seeding : Seeding} {observed : ℕ → Observed}

theorem length_filledBuffer (hle : found.length ≤ 128) :
    (filledBuffer found).length = 128 := by
  simp [filledBuffer, hle]

theorem modify_append_cons {Entry : Type} (change : Entry → Entry)
    (front : List Entry) (entry : Entry) (back : List Entry) :
    (front ++ entry :: back).modify front.length change =
      front ++ change entry :: back := by
  induction front with
  | nil => rfl
  | cons first front ih =>
    rw [cons_append, length_cons, modify_succ_cons, ih, cons_append]

theorem modify_filledBuffer (hlt : found.length < 128) (address : ℕ) :
    (filledBuffer found).modify found.length
        (fun path => { path with valuetofind := address }) =
      filledBuffer (found ++ [address]) := by
  have hsize : 128 - found.length = 127 - found.length + 1 := by omega
  have hrest : 128 - (found ++ [address]).length = 127 - found.length := by
    rw [length_append, length_singleton]
    omega
  have hmodify := modify_append_cons
    (fun path : SeedPath => { path with valuetofind := address })
    (found.map seedOf) ⟨0, 0⟩ (List.replicate (127 - found.length) ⟨0, 0⟩)
  rw [length_map] at hmodify
  rw [filledBuffer, filledBuffer, hrest, hsize, replicate_succ, hmodify,
    map_append, append_assoc]
  rfl

theorem filled_initial : Filled [] initial where
  length_le := Nat.zero_le _
  buffer := rfl
  position := rfl
  overflow := rfl

/-- The 129th hit is beyond the buffer, since the position is never set back. -/
theorem seedHit_filled {observed : Observed} {address : ℕ} {after : Seeding}
    (hfilled : Filled found seeding)
    (hafter : seedHit false observed address seeding = some after) :
    Filled (found ++ [address]) after := by
  have hqueued : Filled found (addToPathQueue observed address seeding) := by
    unfold addToPathQueue
    split
    · exact ⟨hfilled.length_le, hfilled.buffer, hfilled.position,
        hfilled.overflow⟩
    · exact hfilled
  generalize hseeding : addToPathQueue observed address seeding = queued
    at hqueued
  simp only [seedHit, hseeding, Bool.false_eq_true, if_false, addToBuffer,
    hqueued.position, hqueued.buffer, length_filledBuffer hqueued.length_le,
    Option.ite_none_right_eq_some, Option.some.injEq] at hafter
  obtain ⟨hlt, rfl⟩ := hafter
  have hlength : (found ++ [address]).length = found.length + 1 := by simp
  have hnone : found.length ≠ 128 := by omega
  exact
    { length_le := by omega
      buffer := modify_filledBuffer hlt address
      position := hlength.symm
      overflow := by
        have hempty := hqueued.overflow
        rw [if_neg hnone] at hempty
        rw [modify_filledBuffer hlt, hempty, hlength]
        by_cases hfull : found.length + 1 = 128
        · rw [if_pos hfull, if_pos (by omega), nil_append]
        · rw [if_neg hfull, if_neg (by omega)] }

theorem seedHits_filled {number : ℕ} {rest : List ℕ} {final : Seeding}
    (hfilled : Filled found seeding)
    (hfinal : seedHits false observed number rest seeding = some final) :
    Filled (found ++ rest) final := by
  induction rest generalizing number found seeding with
  | nil =>
    cases hfinal
    rwa [append_nil]
  | cons address rest ih =>
    obtain ⟨after, hafter, hrest⟩ := Option.bind_eq_some_iff.mp hfinal
    have hnext := ih (seedHit_filled hfilled hafter) hrest
    rwa [append_assoc] at hnext

theorem seedHits_unfilled {number : ℕ} {rest : List ℕ} {final : Seeding}
    (hfinal : seedHits true observed number rest seeding = some final) :
    final.overflowqueuebuffer = seeding.overflowqueuebuffer := by
  induction rest generalizing number seeding with
  | nil =>
    cases hfinal
    rfl
  | cons address rest ih =>
    obtain ⟨after, hafter, hrest⟩ := Option.bind_eq_some_iff.mp hfinal
    rw [ih hrest]
    cases hafter
    unfold addToPathQueue
    split <;> rfl

theorem mem_put_of_mem_buffer {path : SeedPath}
    (hpath : path ∈ seeding.overflowqueuebuffer) :
    path.valuetofind ∈ (addBuffer seeding).put.map SeedPath.valuetofind := by
  apply mem_map_of_mem
  simp [addBuffer, Seeding.put, hpath]

theorem not_nodup_of_full (hfilled : Filled found seeding)
    (hfull : found.length = 128) :
    ¬ ((addBuffer seeding).put.map SeedPath.valuetofind).Nodup := by
  intro hnodup
  obtain ⟨first, rest, rfl⟩ : ∃ first rest, found = first :: rest :=
    exists_cons_of_ne_nil fun hnil => by simp [hnil] at hfull
  simp only [addBuffer, Seeding.put, hfilled.overflow, hfilled.buffer,
    if_pos hfull, map_append, nodup_append] at hnodup
  have hmem : first ∈ (filledBuffer (first :: rest)).map
      SeedPath.valuetofind := by
    simp [filledBuffer, seedOf]
  exact hnodup.2.1.2.2 first hmem first hmem rfl

/-- The paths in the queues are never those of the hits: the buffer has
elements that were not used, or it is added twice. -/
theorem not_seedsOnce {addedToQueue : Bool} (hzero : 0 ∉ found)
    (hseed : seed addedToQueue observed found = some seeding) :
    ¬ SeedsOnce found seeding := by
  intro honce
  obtain ⟨final, hfinal, rfl⟩ := Option.map_eq_some_iff.mp hseed
  have hunused : (⟨0, 0⟩ : SeedPath) ∉ final.overflowqueuebuffer := by
    intro hmem
    have hput := honce.subset (mem_put_of_mem_buffer hmem)
    exact hzero (mem_dedup.mp hput)
  cases addedToQueue with
  | true =>
    rw [seedHits_unfilled hfinal] at hunused
    exact hunused (by simp [initial])
  | false =>
    have hfilled := seedHits_filled filled_initial hfinal
    rw [nil_append] at hfilled
    by_cases hfull : found.length = 128
    · exact not_nodup_of_full hfilled hfull
        (honce.nodup_iff.mpr (nodup_dedup found))
    · have hle := hfilled.length_le
      apply hunused
      rw [hfilled.buffer, filledBuffer, mem_append]
      exact Or.inr (mem_replicate.mpr ⟨by omega, rfl⟩)

/-- Whatever the memory, the search and the workers do, the queues don't get
each address of the value once and nothing else. -/
theorem never_seedsExactly (finder : ValueFinder) (startaddress : ℕ)
    (addedToQueue : Bool) (observed : ℕ → Observed) :
    ¬ SeedsExactly finder startaddress addedToQueue observed := by
  rintro ⟨fuel, found, seeding, hfound, hseed, honce⟩
  exact not_seedsOnce (finder.zero_notMem_hits hfound) hseed honce

def oneHit : ValueFinder where
  memregions := [⟨0x1000, 16⟩]
  readregion := fun _ => some (1 :: List.replicate 15 0)
  stopaddress := 0x1010
  valuesize := 4
  ismatchtovalue := fun bytes => bytes = [1, 0, 0, 0]
  alligned := true
  pointersize := 8

/-- With one hit and an empty path queue the path is put in both queues, with
127 elements that look for address 0. -/
theorem oneHit_not_seedsOnce :
    oneHit.hits 9 0x1000 = some [0x1000] ∧
      (seed false (fun _ => ⟨0, 0⟩) [0x1000]).map Seeding.put =
        some (⟨0, 0x1000⟩ :: ⟨0, 0x1000⟩ :: List.replicate 127 ⟨0, 0⟩) ∧
      ¬ SeedsExactly oneHit 0x1000 false fun _ => ⟨0, 0⟩ := by
  refine ⟨by decide, by decide +kernel, ?_⟩
  rintro ⟨fuel, found, seeding, hfound, hseed, honce⟩
  exact not_seedsOnce (oneHit.zero_notMem_hits hfound) hseed honce

end PointerscanValueSeeding
end CheatEngine
