import CheatEngine.AutoAssemblerDeclarations

/-!
# The memory of the ALLOC lines

Neighbouring requests that do not ask for different addresses share a block.
The sizes of a group are summed while the requests are read, and when the
group ends one block of that size is allocated and handed out.
-/

namespace CheatEngine.AutoAssembler

open List

/-- One call of VirtualAllocEx; the address is zero where it failed. -/
structure AllocCall where
  region : UInt64
  size : ℕ
  address : UInt64
deriving DecidableEq

/-- What the calls answer, one after the other, and the search for a free
block, which sees what the calls before it have changed. -/
structure TargetProcess where
  outcomes : ℕ → UInt64
  findFreeBlockForRegion : List AllocCall → UInt64 → ℕ → UInt64

structure Allocated where
  request : AllocRequest
  address : UInt64
deriving DecidableEq

section

variable (process : TargetProcess)

def virtualAllocEx (calls : List AllocCall) (region : UInt64) (size : ℕ) :
    List AllocCall :=
  calls ++ [⟨region, size, process.outcomes calls.length⟩]

/-- Tries to allocate until a region has been found.  For the final block the
next try starts behind the region of the last one. -/
def tryAllocating (final : Bool) (x : ℕ) :
    ℕ → UInt64 → List AllocCall → UInt64 × List AllocCall
  | 0, _, calls => (0, calls)
  | k + 1, prefered, calls =>
    let region := process.findFreeBlockForRegion calls prefered x
    let address := process.outcomes calls.length
    let calls := virtualAllocEx process calls region x
    if address = 0 then
      tryAllocating final x k
        ((if final then region else prefered) + 65536) calls
    else
      (address, calls)

def allocateBlock (final : Bool) (prefered : UInt64) (x : ℕ)
    (calls : List AllocCall) : UInt64 × List AllocCall :=
  match tryAllocating process final x 10 prefered calls with
  | (0, calls) =>
    (process.outcomes calls.length, virtualAllocEx process calls 0 x)
  | found => found

/-- Gives every entry of a block the address behind the one before it. -/
def handOut (address : UInt64) : List AllocRequest → List Allocated
  | [] => []
  | request :: rest =>
    ⟨request, address⟩ :: handOut (address + request.size.toUInt64) rest

def differs (prefered : UInt64) (request : AllocRequest) : Bool :=
  request.prefered ≠ 0 && prefered ≠ 0 && prefered ≠ request.prefered

/-- The first address that is preferred counts for the whole group. -/
def adopt (prefered : UInt64) (request : AllocRequest) : UInt64 :=
  if prefered = 0 then request.prefered else prefered

/-- The loop over the entries; `placed` holds those before the group, which
has the entries since `j` and the size `x`. -/
def allocateFrom (placed : List Allocated) (group : List AllocRequest)
    (prefered : UInt64) (x : ℕ) (calls : List AllocCall) :
    List AllocRequest → Option (List Allocated) × List AllocCall
  | [] =>
    if 0 < x then
      let (address, calls) := allocateBlock process true prefered x calls
      if address = 0 then
        (none, calls)
      else
        (some (placed ++ handOut address group), calls)
    else
      (some (placed ++ group.map fun request => ⟨request, 0⟩), calls)
  | request :: rest =>
    if differs prefered request then
      if 0 < x then
        let (address, calls) :=
          allocateBlock process false prefered x calls
        allocateFrom (placed ++ handOut address group) [request]
          request.prefered request.size.toNat calls rest
      else
        allocateFrom (placed ++ group.map fun request => ⟨request, 0⟩)
          [request] request.prefered (x + request.size.toNat) calls rest
    else
      allocateFrom placed (group ++ [request]) (adopt prefered request)
        (x + request.size.toNat) calls rest

/-- `none` where the pass raises because of the final block. -/
def allocate : List AllocRequest →
    Option (List Allocated) × List AllocCall
  | [] => (some [], [])
  | first :: rest =>
    allocateFrom process [] [first] first.prefered first.size.toNat []
      rest

end

def groupsFrom (prefered : UInt64) (group : List AllocRequest) :
    List AllocRequest → List (List AllocRequest)
  | [] => [group]
  | request :: rest =>
    if differs prefered request then
      group :: groupsFrom request.prefered [request] rest
    else
      groupsFrom (adopt prefered request) (group ++ [request]) rest

def groups : List AllocRequest → List (List AllocRequest)
  | [] => []
  | first :: rest => groupsFrom first.prefered [first] rest

def totalSize (group : List AllocRequest) : ℕ :=
  (group.map fun request => request.size.toNat).sum

/-- The first address among so many outcomes, or zero, and the outcome that
comes next. -/
def answer (outcomes : ℕ → UInt64) : ℕ → ℕ → UInt64 × ℕ
  | 0, start => (0, start)
  | tries + 1, start =>
    if outcomes start = 0 then
      answer outcomes tries (start + 1)
    else
      (outcomes start, start + 1)

def answers (outcomes : ℕ → UInt64) : ℕ → ℕ → List UInt64
  | 0, _ => []
  | count + 1, start =>
    (answer outcomes 11 start).1 ::
      answers outcomes count (answer outcomes 11 start).2

def blocks (calls : List AllocCall) : List (UInt64 × ℕ) :=
  (calls.filter fun call => call.address ≠ 0).map fun call =>
    (call.address, call.size)

def Apart (first second : UInt64 × ℕ) : Prop :=
  first.1.toNat + first.2 ≤ second.1.toNat ∨
    second.1.toNat + second.2 ≤ first.1.toNat

/-- What the system promises about the blocks it returns. -/
structure Granted (calls : List AllocCall) : Prop where
  fits : ∀ block ∈ blocks calls, block.1.toNat + block.2 ≤ 2 ^ 64
  disjoint : (blocks calls).Pairwise Apart

def Allocated.range (entry : Allocated) : UInt64 × ℕ :=
  (entry.address, entry.request.size.toNat)

def Inside (range block : UInt64 × ℕ) : Prop :=
  block.1.toNat ≤ range.1.toNat ∧
    range.1.toNat + range.2 ≤ block.1.toNat + block.2

/-- Every entry is inside a block, and no two overlap. -/
structure LaidOut (allocs : List AllocRequest) (allocated : List Allocated)
    (calls : List AllocCall) : Prop where
  entries : allocated.map Allocated.request = allocs
  inside : ∀ entry ∈ allocated, ∃ block ∈ blocks calls,
    Inside entry.range block
  disjoint : (allocated.map Allocated.range).Pairwise Apart

def LaysOut (process : TargetProcess) (allocs : List AllocRequest) : Prop :=
  ∀ allocated, (allocate process allocs).1 = some allocated →
    LaidOut allocs allocated (allocate process allocs).2

theorem blocks_append (before after : List AllocCall) :
    blocks (before ++ after) = blocks before ++ blocks after := by
  rw [blocks, filter_append, map_append]
  rfl

theorem ne_zero_of_mem_blocks {calls : List AllocCall}
    {block : UInt64 × ℕ} (hblock : block ∈ blocks calls) :
    block.1 ≠ 0 := by
  obtain ⟨call, hcall, rfl⟩ := mem_map.mp hblock
  simpa using (mem_filter.mp hcall).2

theorem answer_succ (outcomes : ℕ → UInt64) (tries start : ℕ) :
    answer outcomes (tries + 1) start =
      match answer outcomes tries start with
      | (0, next) => (outcomes next, next + 1)
      | found => found := by
  induction tries generalizing start with
  | zero =>
    rw [answer, answer, answer]
    split_ifs with hzero
    · exact Prod.ext hzero.symm rfl
    · rfl
  | succ tries ih =>
    rw [answer, ih, answer]
    split_ifs with hzero
    · rfl
    · split
      · next heq => exact absurd (Prod.mk.inj heq).1 hzero
      · rfl

def newBlock (address : UInt64) (x : ℕ) : List (UInt64 × ℕ) :=
  if address = 0 then [] else [(address, x)]

variable {addresses : List UInt64} (process : TargetProcess)

theorem blocks_virtualAllocEx (calls : List AllocCall) (region : UInt64)
    (x : ℕ) :
    blocks (virtualAllocEx process calls region x) =
      blocks calls ++ newBlock (process.outcomes calls.length) x := by
  rw [virtualAllocEx, blocks_append, newBlock]
  by_cases hzero : process.outcomes calls.length = 0
  · simp [blocks, hzero]
  · simp [blocks, hzero]

theorem length_virtualAllocEx (calls : List AllocCall) (region : UInt64)
    (x : ℕ) :
    (virtualAllocEx process calls region x).length = calls.length + 1 := by
  rw [virtualAllocEx, length_append]
  rfl

/-- The tries find the first address among the outcomes. -/
structure Answers (outcome : UInt64 × ℕ) (x : ℕ)
    (calls : List AllocCall) (found : UInt64 × List AllocCall) : Prop where
  answered : (found.1, found.2.length) = outcome
  blocks : blocks found.2 = blocks calls ++ newBlock found.1 x

theorem tryAllocating_answers (final : Bool) (x tries : ℕ)
    (prefered : UInt64) (calls : List AllocCall) :
    Answers (answer process.outcomes tries calls.length) x calls
      (tryAllocating process final x tries prefered calls) := by
  induction tries generalizing prefered calls with
  | zero => exact ⟨rfl, (append_nil _).symm⟩
  | succ tries ih =>
    rw [tryAllocating]
    have hlength := length_virtualAllocEx process calls
      (process.findFreeBlockForRegion calls prefered x) x
    have hblocks := blocks_virtualAllocEx process calls
      (process.findFreeBlockForRegion calls prefered x) x
    rw [answer]
    by_cases hzero : process.outcomes calls.length = 0
    · rw [newBlock, if_pos hzero, append_nil] at hblocks
      rw [if_pos hzero, if_pos hzero, ← hlength]
      have hrest := ih ((if final then
          process.findFreeBlockForRegion calls prefered x
        else prefered) + 65536) (virtualAllocEx process calls
          (process.findFreeBlockForRegion calls prefered x) x)
      exact ⟨hrest.answered, hblocks ▸ hrest.blocks⟩
    · rw [if_neg hzero, if_neg hzero]
      exact ⟨congrArg _ hlength, hblocks⟩

theorem allocateBlock_answers (final : Bool) (prefered : UInt64) (x : ℕ)
    (calls : List AllocCall) :
    Answers (answer process.outcomes 11 calls.length) x calls
      (allocateBlock process final prefered x calls) := by
  have htries := tryAllocating_answers process final x 10 prefered calls
  rw [allocateBlock]
  rcases hfound : tryAllocating process final x 10 prefered calls with
    ⟨address, next⟩
  rw [hfound] at htries
  have hsucc := answer_succ process.outcomes 10 calls.length
  rw [← htries.answered] at hsucc
  rw [hsucc]
  by_cases hzero : address = 0
  · subst hzero
    have hblocks := htries.blocks
    rw [newBlock, if_pos rfl, append_nil] at hblocks
    refine ⟨?_, ?_⟩
    · exact Prod.ext rfl (length_virtualAllocEx process next 0 x)
    · rw [← hblocks]
      exact blocks_virtualAllocEx process next 0 x
  · split
    · next heq => exact absurd (Prod.mk.inj heq).1 hzero
    · split
      · next heq => exact absurd (Prod.mk.inj heq).1 hzero
      · exact ⟨rfl, htries.blocks⟩

theorem answers_succ {outcomes : ℕ → UInt64} {x : ℕ}
    {calls : List AllocCall} {address : UInt64} {next : List AllocCall}
    (hanswers : Answers (answer outcomes 11 calls.length) x calls
      (address, next)) (count : ℕ) :
    answers outcomes (count + 1) calls.length =
      address :: answers outcomes count next.length := by
  rw [answers, ← hanswers.answered]

theorem groupsFrom_ne_nil (prefered : UInt64) (group : List AllocRequest)
    (rest : List AllocRequest) : groupsFrom prefered group rest ≠ [] := by
  induction rest generalizing prefered group with
  | nil => exact cons_ne_nil _ _
  | cons request rest ih =>
    rw [groupsFrom]
    split_ifs
    · exact cons_ne_nil _ _
    · exact ih _ _

theorem groupsFrom_flatten (prefered : UInt64) (group : List AllocRequest)
    (rest : List AllocRequest) :
    (groupsFrom prefered group rest).flatten = group ++ rest := by
  induction rest generalizing prefered group with
  | nil => simp [groupsFrom]
  | cons request rest ih =>
    rw [groupsFrom]
    split_ifs
    · rw [flatten_cons, ih]
      rfl
    · rw [ih, List.append_assoc]
      rfl

theorem groupsFrom_nonempty {prefered : UInt64} {group : List AllocRequest}
    (hgroup : group ≠ []) (rest : List AllocRequest) :
    ∀ other ∈ groupsFrom prefered group rest, other ≠ [] := by
  induction rest generalizing prefered group with
  | nil =>
    intro other hother
    rwa [mem_singleton.mp hother]
  | cons request rest ih =>
    rw [groupsFrom]
    split_ifs
    · rw [forall_mem_cons]
      exact ⟨hgroup, ih (cons_ne_nil _ _)⟩
    · exact ih (by simp)

theorem answers_length (outcomes : ℕ → UInt64) (count start : ℕ) :
    (answers outcomes count start).length = count := by
  induction count generalizing start with
  | zero => rfl
  | succ count ih => rw [answers, length_cons, ih]

theorem totalSize_append (first second : List AllocRequest) :
    totalSize (first ++ second) = totalSize first + totalSize second := by
  rw [totalSize, map_append, sum_append]
  rfl

theorem totalSize_singleton (request : AllocRequest) :
    totalSize [request] = request.size.toNat :=
  sum_singleton

def servedBlocks (addresses : List UInt64)
    (groups : List (List AllocRequest)) : List (UInt64 × ℕ) :=
  (List.zipWith (fun address group => newBlock address (totalSize group))
    addresses groups).flatten

def servedEntries (addresses : List UInt64)
    (groups : List (List AllocRequest)) : List Allocated :=
  (List.zipWith handOut addresses groups).flatten

theorem allocateFrom_spec (placed : List Allocated)
    {group : List AllocRequest} (prefered : UInt64) (calls : List AllocCall)
    {rest : List AllocRequest} (hgroup : 0 < totalSize group)
    (hrest : ∀ request ∈ rest, 0 < request.size) :
    let groups := groupsFrom prefered group rest
    let addresses := answers process.outcomes groups.length calls.length
    let result := allocateFrom process placed group prefered
      (totalSize group) calls rest
    result.1 = (if addresses.getLast? = some 0 then none
      else some (placed ++ servedEntries addresses groups)) ∧
    blocks result.2 = blocks calls ++ servedBlocks addresses groups := by
  induction rest generalizing placed group prefered calls with
  | nil =>
    have hanswers := allocateBlock_answers process true prefered
      (totalSize group) calls
    rw [groupsFrom, allocateFrom, if_pos hgroup]
    generalize allocateBlock process true prefered (totalSize group) calls =
      found at hanswers ⊢
    rcases found with ⟨address, next⟩
    have hblocks := hanswers.blocks
    dsimp only
    rw [length_singleton, answers_succ hanswers, answers]
    by_cases hzero : address = 0
    · subst hzero
      exact ⟨rfl, hblocks⟩
    · rw [if_neg hzero, if_neg (by simpa using hzero)]
      refine ⟨?_, ?_⟩
      · simp [servedEntries]
      · simpa [servedBlocks] using hblocks
  | cons request rest ih =>
    rw [forall_mem_cons] at hrest
    have hrequest : 0 < totalSize [request] := by
      rw [totalSize_singleton]
      exact hrest.1
    rw [groupsFrom, allocateFrom]
    by_cases hdiffers : differs prefered request = true
    · rw [if_pos hdiffers, if_pos hdiffers, if_pos hgroup]
      have hanswers := allocateBlock_answers process false prefered
        (totalSize group) calls
      generalize allocateBlock process false prefered (totalSize group)
        calls = found at hanswers ⊢
      rcases found with ⟨address, next⟩
      have hnext := ih (placed ++ handOut address group) request.prefered
        next hrequest hrest.2
      rw [totalSize_singleton] at hnext
      dsimp only at hnext ⊢
      have hblocks := hanswers.blocks
      rw [length_cons, answers_succ hanswers, hnext.1, hnext.2, hblocks]
      have hlast : answers process.outcomes
          (groupsFrom request.prefered [request] rest).length
          next.length ≠ [] := by
        rw [← length_pos_iff, answers_length, length_pos_iff]
        exact groupsFrom_ne_nil _ _ _
      rw [getLast?_cons_of_ne_nil hlast]
      refine ⟨?_, ?_⟩
      · simp [servedEntries]
      · simp [servedBlocks]
    · rw [if_neg hdiffers, if_neg hdiffers]
      have hlonger : 0 < totalSize (group ++ [request]) := by
        rw [totalSize_append]
        exact Nat.add_pos_left hgroup _
      have hnext := ih placed (adopt prefered request) calls hlonger hrest.2
      rw [totalSize_append, totalSize_singleton] at hnext
      exact hnext

theorem handOut_entries (address : UInt64) (group : List AllocRequest) :
    (handOut address group).map Allocated.request = group := by
  induction group generalizing address with
  | nil => rfl
  | cons request rest ih => rw [handOut, map_cons, ih]

theorem totalSize_cons (request : AllocRequest) (rest : List AllocRequest) :
    totalSize (request :: rest) = request.size.toNat + totalSize rest :=
  sum_cons

theorem handOut_spec {address : UInt64} {group : List AllocRequest}
    (hsizes : ∀ request ∈ group, 0 < request.size)
    (hfits : address.toNat + totalSize group ≤ 2 ^ 64) :
    (∀ entry ∈ handOut address group,
        Inside entry.range (address, totalSize group)) ∧
      (handOut address group).Pairwise fun first second =>
        Apart first.range second.range := by
  induction group generalizing address with
  | nil => exact ⟨fun _ hmem => absurd hmem not_mem_nil, .nil⟩
  | cons request rest ih =>
    rw [forall_mem_cons] at hsizes
    rw [totalSize_cons] at hfits ⊢
    have hfirst : Inside (Allocated.range ⟨request, address⟩)
        (address, request.size.toNat + totalSize rest) := by
      simp only [Inside, Allocated.range]
      omega
    rw [handOut, pairwise_cons, forall_mem_cons]
    rcases rest with _ | ⟨next, rest⟩
    · exact ⟨⟨hfirst, fun _ hmem => absurd hmem not_mem_nil⟩,
        fun _ hmem => absurd hmem not_mem_nil, .nil⟩
    · have hnext : 0 < next.size.toNat :=
        hsizes.2 next mem_cons_self
      have haddress : (address + request.size.toUInt64).toNat =
          address.toNat + request.size.toNat := by
        rw [UInt64.toNat_add, UInt32.toNat_toUInt64]
        rw [totalSize_cons] at hfits
        exact Nat.mod_eq_of_lt (by omega)
      have hrest := @ih (address + request.size.toUInt64) hsizes.2
        (by rw [haddress]; omega)
      refine ⟨⟨hfirst, fun entry hentry => ?_⟩, fun entry hentry => ?_,
        hrest.2⟩
      · have hinside := hrest.1 entry hentry
        simp only [Inside, haddress] at hinside ⊢
        omega
      · left
        have hinside := hrest.1 entry hentry
        simp only [Inside, haddress] at hinside
        exact hinside.1

theorem servedEntries_entries {groups : List (List AllocRequest)}
    (hlength : addresses.length = groups.length) :
    (servedEntries addresses groups).map Allocated.request =
      groups.flatten := by
  induction groups generalizing addresses with
  | nil => rw [length_eq_zero_iff.mp hlength]; rfl
  | cons group groups ih =>
    rcases addresses with _ | ⟨address, addresses⟩
    · cases hlength
    · have hrest := ih (Nat.succ.inj hlength)
      rw [servedEntries] at hrest ⊢
      rw [zipWith_cons_cons, flatten_cons, map_append,
        hrest, handOut_entries, flatten_cons]

theorem zero_not_inside {calls : List AllocCall} {entry : Allocated}
    (hentry : entry.address = 0) :
    ¬ ∃ block ∈ blocks calls, Inside entry.range block := by
  rintro ⟨block, hblock, hinside⟩
  have hle := hinside.1
  rw [Allocated.range, hentry] at hle
  exact ne_zero_of_mem_blocks hblock (UInt64.toNat_inj.mp (Nat.le_zero.mp hle))

theorem exists_zero {groups : List (List AllocRequest)}
    (hlength : addresses.length = groups.length)
    (hnonempty : ∀ group ∈ groups, group ≠ []) (hzero : 0 ∈ addresses) :
    ∃ entry ∈ servedEntries addresses groups, entry.address = 0 := by
  induction groups generalizing addresses with
  | nil =>
    rw [length_eq_zero_iff.mp hlength] at hzero
    exact absurd hzero not_mem_nil
  | cons group groups ih =>
    rcases addresses with _ | ⟨address, addresses⟩
    · cases hlength
    · rw [forall_mem_cons] at hnonempty
      rw [servedEntries, zipWith_cons_cons, flatten_cons]
      rcases mem_cons.mp hzero with rfl | hzero
      · rcases group with _ | ⟨request, rest⟩
        · exact absurd rfl hnonempty.1
        · exact ⟨⟨request, 0⟩, mem_append_left _ mem_cons_self,
            rfl⟩
      · obtain ⟨entry, hentry, haddress⟩ :=
          ih (Nat.succ.inj hlength) hnonempty.2 hzero
        exact ⟨entry, mem_append_right _ hentry, haddress⟩

theorem servedEntries_spec {groups : List (List AllocRequest)}
    (hserved : ∀ address ∈ addresses, address ≠ 0)
    (hlength : addresses.length = groups.length)
    (hsizes : ∀ group ∈ groups, ∀ request ∈ group, 0 < request.size)
    (hfits : ∀ block ∈ servedBlocks addresses groups,
      block.1.toNat + block.2 ≤ 2 ^ 64)
    (hdisjoint : (servedBlocks addresses groups).Pairwise Apart) :
    (∀ entry ∈ servedEntries addresses groups,
        ∃ block ∈ servedBlocks addresses groups, Inside entry.range block) ∧
      (servedEntries addresses groups).Pairwise fun first second =>
        Apart first.range second.range := by
  induction groups generalizing addresses with
  | nil =>
    rw [length_eq_zero_iff.mp hlength]
    exact ⟨fun _ hmem => absurd hmem not_mem_nil, .nil⟩
  | cons group groups ih =>
    rcases addresses with _ | ⟨address, addresses⟩
    · cases hlength
    · rw [forall_mem_cons] at hserved hsizes
      have hblocks : servedBlocks (address :: addresses)
          (group :: groups) = (address, totalSize group) ::
            servedBlocks addresses groups := by
        rw [servedBlocks, zipWith_cons_cons, flatten_cons,
          newBlock, if_neg hserved.1]
        rfl
      have hentries : servedEntries (address :: addresses)
          (group :: groups) = handOut address group ++
            servedEntries addresses groups := rfl
      rw [hblocks] at hfits hdisjoint ⊢
      rw [forall_mem_cons] at hfits
      rw [pairwise_cons] at hdisjoint
      have hgroup := handOut_spec hsizes.1 hfits.1
      have hrest := ih hserved.2 (Nat.succ.inj hlength) hsizes.2 hfits.2
        hdisjoint.2
      rw [hentries, pairwise_append]
      refine ⟨fun entry hentry => ?_, hgroup.2, hrest.2,
        fun first hfirst second hsecond => ?_⟩
      · rcases mem_append.mp hentry with hentry | hentry
        · exact ⟨_, mem_cons_self, hgroup.1 entry hentry⟩
        · obtain ⟨block, hblock, hinside⟩ := hrest.1 entry hentry
          exact ⟨block, mem_cons_of_mem _ hblock, hinside⟩
      · obtain ⟨block, hblock, hinside⟩ := hrest.1 second hsecond
        have hapart := hdisjoint.1 block hblock
        have hfirstInside := hgroup.1 first hfirst
        simp only [Inside, Apart] at hapart hinside hfirstInside ⊢
        omega

def groupAnswers (process : TargetProcess) (allocs : List AllocRequest) :
    List UInt64 :=
  answers process.outcomes (groups allocs).length 0

/-- Every group before the final one gets a block, or the final one gets
none, so that the pass raises. -/
def ServedOrRaises (process : TargetProcess) (allocs : List AllocRequest) :
    Prop :=
  (∀ address ∈ (groupAnswers process allocs).dropLast, address ≠ 0) ∨
    (groupAnswers process allocs).getLast? = some 0

theorem allocate_spec {allocs : List AllocRequest}
    (hsizes : ∀ request ∈ allocs, 0 < request.size) :
    (allocate process allocs).1 =
        (if (groupAnswers process allocs).getLast? = some 0 then none
          else some (servedEntries (groupAnswers process allocs)
            (groups allocs))) ∧
      blocks (allocate process allocs).2 =
        servedBlocks (groupAnswers process allocs) (groups allocs) := by
  rcases allocs with _ | ⟨first, rest⟩
  · exact ⟨rfl, rfl⟩
  · rw [forall_mem_cons] at hsizes
    have hfirst : 0 < totalSize [first] := by
      rw [totalSize_singleton]
      exact hsizes.1
    have hspec := allocateFrom_spec process [] first.prefered [] hfirst
      hsizes.2
    rw [totalSize_singleton] at hspec
    exact hspec

theorem groups_flatten (allocs : List AllocRequest) :
    (groups allocs).flatten = allocs := by
  cases allocs with
  | nil => rfl
  | cons first rest => exact groupsFrom_flatten first.prefered [first] rest

theorem groups_nonempty (allocs : List AllocRequest) :
    ∀ group ∈ groups allocs, group ≠ [] := by
  cases allocs with
  | nil => exact fun _ hmem => absurd hmem not_mem_nil
  | cons first rest =>
    exact groupsFrom_nonempty (cons_ne_nil _ _) rest

theorem ne_zero_of_served
    (hserved : ∀ address ∈ addresses.dropLast, address ≠ 0)
    (hlast : ¬ addresses.getLast? = some 0) :
    ∀ address ∈ addresses, address ≠ 0 := by
  rcases eq_nil_or_concat' addresses with rfl | ⟨front, last, rfl⟩
  · exact fun _ hmem => absurd hmem not_mem_nil
  · rw [dropLast_concat] at hserved
    rw [getLast?_concat] at hlast
    intro address haddress
    rcases mem_append.mp haddress with hmem | hmem
    · exact hserved address hmem
    · rw [mem_singleton.mp hmem]
      exact fun hzero => hlast (congrArg some hzero)

/-- The entries are laid out in the blocks unless a group before the final
one is refused and the final one is not. -/
theorem laysOut_iff {process : TargetProcess} {allocs : List AllocRequest}
    (hsizes : ∀ request ∈ allocs, 0 < request.size)
    (hgranted : Granted (allocate process allocs).2) :
    LaysOut process allocs ↔ ServedOrRaises process allocs := by
  obtain ⟨hresult, hblocks⟩ := allocate_spec process hsizes
  have hlength : (groupAnswers process allocs).length =
      (groups allocs).length := answers_length _ _ _
  rw [LaysOut, ServedOrRaises, hresult]
  by_cases hlast : (groupAnswers process allocs).getLast? = some 0
  · rw [if_pos hlast]
    exact ⟨fun _ => .inr hlast, by rintro - allocated ⟨⟩⟩
  · rw [if_neg hlast]
    simp only [hlast, or_false]
    constructor
    · intro hlaid address haddress hzero
      have hall := (hlaid _ rfl).inside
      obtain ⟨entry, hentry, hentryZero⟩ := exists_zero hlength
        (groups_nonempty allocs)
        (hzero ▸ mem_of_mem_dropLast haddress)
      exact zero_not_inside hentryZero (hall entry hentry)
    · rintro hserved allocated heq
      obtain rfl := Option.some.inj heq
      have hfits := hgranted.fits
      have hdisjoint := hgranted.disjoint
      rw [hblocks] at hfits hdisjoint
      have hall : ∀ group ∈ groups allocs,
          ∀ request ∈ group, 0 < request.size := by
        intro group hgroup request hrequest
        apply hsizes
        rw [← groups_flatten allocs]
        exact mem_flatten_of_mem hgroup hrequest
      have hspec := servedEntries_spec (ne_zero_of_served hserved hlast)
        hlength hall hfits hdisjoint
      refine ⟨?_, ?_, ?_⟩
      · rw [servedEntries_entries hlength, groups_flatten]
      · rw [hblocks]
        exact hspec.1
      · rw [pairwise_map]
        exact hspec.2

/-- The eleven calls for the first group fail, the next one does not. -/
def crowdedProcess : TargetProcess where
  outcomes := fun call => if call < 11 then 0 else 0x10000
  findFreeBlockForRegion := fun _ prefered _ => prefered

def twoRegions : List AllocRequest :=
  [⟨"first".toList, 16, 0x400000⟩, ⟨"second".toList, 16, 0x500000⟩]

theorem twoRegions_granted :
    Granted (allocate crowdedProcess twoRegions).2 := by
  have hblocks : blocks (allocate crowdedProcess twoRegions).2 =
      [(0x10000, 16)] := by
    decide
  refine ⟨?_, ?_⟩
  · rw [hblocks]
    decide
  · rw [hblocks]
    exact pairwise_singleton _ _

theorem not_laysOut :
    (allocate crowdedProcess twoRegions).1 = some
        [⟨⟨"first".toList, 16, 0x400000⟩, 0⟩,
          ⟨⟨"second".toList, 16, 0x500000⟩, 0x10000⟩] ∧
      ¬ LaysOut crowdedProcess twoRegions := by
  have hallocate : (allocate crowdedProcess twoRegions).1 = some
      [⟨⟨"first".toList, 16, 0x400000⟩, 0⟩,
        ⟨⟨"second".toList, 16, 0x500000⟩, 0x10000⟩] := by
    decide
  refine ⟨hallocate, fun hlaid => ?_⟩
  exact zero_not_inside rfl ((hlaid _ hallocate).inside _ mem_cons_self)

theorem laysOut_iff_twoRegions :
    LaysOut crowdedProcess twoRegions ↔
      ServedOrRaises crowdedProcess twoRegions :=
  laysOut_iff (by decide) twoRegions_granted

end CheatEngine.AutoAssembler
