import CheatEngine.ByteMemory
import CheatEngine.ObservedRun

/-!
# The cache of remote pages

`CReadProcessMemory` reads remote memory through sixteen cached pages.  Every
page of the range is looked for in the cache.  If it is not there, or too
old, it is read into the entry that was not updated for the longest time, and
at the end the bytes are copied out of the entries.

An entry does not say which process it belongs to, a page that is too old is
read into the entry with the number of the page in the range, an entry is
reused without regard to the other pages of the range, and a write only marks
the page it starts in.
-/

namespace CheatEngine
namespace Network

open List ByteMemory

/-- The memory of every process; `none` cannot be read. -/
abbrev RemoteMemory : Type := ℕ → ℕ → Option UInt8

def readable (memory : ℕ → Option UInt8) : ℕ → ℕ → List UInt8
  | _, 0 => []
  | address, size + 1 =>
    match memory address with
    | none => []
    | some byte => byte :: readable memory (address + 1) size

structure ReadResult where
  result : Bool
  bytes : List UInt8
deriving DecidableEq, Repr

def NReadProcessMemory (memory : ℕ → Option UInt8)
    (lpBaseAddress nSize : ℕ) : ReadResult :=
  let bytes := readable memory lpBaseAddress nSize
  ⟨decide (0 < bytes.length), bytes⟩

/-- `origin`, the process that the page was read from, is no field of the
program. -/
structure CacheEntry where
  lastupdate : ℤ
  baseaddress : ℕ
  memory : ℕ → UInt8
  origin : ℕ

abbrev RpmCache : Type := Fin 16 → CacheEntry

/-- The loop over the entries ends at the page or with an entry to reuse. -/
inductive Lookup where
  | cached (j : Fin 16)
  | refill (oldest : Fin 16)
deriving DecidableEq, Repr

/-- `((currenttime-lastupdate) / freq) > networkRPMCacheTimeout`, with the
timeout in ticks of the counter. -/
def tooOld (timeout currenttime lastupdate : ℤ) : Bool :=
  currenttime - lastupdate > timeout

local instance neZero : NeZero 16 := ⟨by decide⟩

/-- `for j:=0 to 15`.  A page that is too old sets `oldest` to `i`, the
number of the page in the range. -/
def lookup (timeout currenttime : ℤ) (cache : RpmCache) (page i : ℕ) :
    List (Fin 16) → Fin 16 → Lookup
  | [], oldest => .refill oldest
  | j :: rest, oldest =>
    if (cache j).baseaddress = page then
      if tooOld timeout currenttime (cache j).lastupdate then
        .refill (Fin.ofNat 16 i)
      else
        .cached j
    else if (cache j).lastupdate < (cache oldest).lastupdate then
      lookup timeout currenttime cache page i rest j
    else
      lookup timeout currenttime cache page i rest oldest

/-- One page of the range is mapped to an entry, `none` if it is
unreadable. -/
def mapPage (timeout currenttime : ℤ) (memory : RemoteMemory)
    (process : ℕ) (cache : RpmCache) (page i : ℕ) :
    RpmCache × Option (Fin 16) :=
  match lookup timeout currenttime cache page i (List.finRange 16) 0 with
  | .cached j => (cache, some j)
  | .refill oldest =>
    let read := NReadProcessMemory (memory process) page 4096
    if read.result then
      (Function.update cache oldest
        { lastupdate := currenttime
          baseaddress := page
          memory := store (cache oldest).memory 0 read.bytes
          origin := process },
        some oldest)
    else
      (cache, none)

/-- The first loop of `CReadProcessMemory`; the first argument is the number
of pages left.  It stops if the first page is unreadable. -/
def mapPages (timeout currenttime : ℤ) (memory : RemoteMemory)
    (process first : ℕ) :
    ℕ → ℕ → RpmCache → RpmCache × List (Option (Fin 16))
  | 0, _, cache => (cache, [])
  | count + 1, i, cache =>
    let mapped := mapPage timeout currenttime memory process cache
      ((first + i * 4096) % 2 ^ 64) i
    if mapped.2 = none ∧ i = 0 then
      (mapped.1, [none])
    else
      let rest := mapPages timeout currenttime memory process first count
        (i + 1) mapped.1
      (rest.1, mapped.2 :: rest.2)

/-- The second loop: copy until the end or until an unreadable page. -/
def copyPages (cache : RpmCache) :
    List (Option (Fin 16)) → ℕ → ℕ → ReadResult
  | [], _, _ => ⟨true, []⟩
  | none :: _, _, _ => ⟨false, []⟩
  | some j :: rest, currentbase, nsize =>
    let blockoffset := currentbase % 4096
    let blocksize := min nsize (4096 - blockoffset)
    let copied := copyPages cache rest (currentbase + blocksize)
      (nsize - blocksize)
    ⟨copied.result,
      load (cache j).memory blockoffset blocksize ++ copied.bytes⟩

def pagecount (lpBaseAddress nSize : ℕ) : ℕ :=
  let currenttarget := (lpBaseAddress + nSize - 1) % 2 ^ 64
  if currenttarget < lpBaseAddress then
    2 + currenttarget / 4096
  else
    1 + currenttarget / 4096 - lpBaseAddress / 4096

def pageOf (address : ℕ) : ℕ :=
  address - address % 4096

structure CachedConnection where
  rpmcache : RpmCache
  memory : RemoteMemory

inductive CacheEvent where
  | CReadProcessMemory (hProcess lpBaseAddress nSize : ℕ)
      (currenttime : ℤ)
  | WriteProcessMemory (hProcess lpBaseAddress : ℕ) (written : List UInt8)
deriving Repr

def storeRemote (memory : RemoteMemory) (process lpBaseAddress : ℕ)
    (written : List UInt8) : RemoteMemory :=
  Function.update memory process fun address =>
    (memory process address).map fun old =>
      store (fun _ => old) lpBaseAddress written address

namespace CachedConnection

def CReadProcessMemory (connection : CachedConnection) (timeout : ℤ)
    (process lpBaseAddress nSize : ℕ) (currenttime : ℤ) :
    CachedConnection × ReadResult :=
  let pages := mapPages timeout currenttime connection.memory process
    (pageOf lpBaseAddress) (pagecount lpBaseAddress nSize) 0
    connection.rpmcache
  ({ connection with rpmcache := pages.1 },
    copyPages pages.1 pages.2 lpBaseAddress nSize)

def WriteProcessMemory (connection : CachedConnection)
    (process lpBaseAddress : ℕ) (written : List UInt8) :
    CachedConnection where
  rpmcache := fun j =>
    if 0 < written.length ∧
        (connection.rpmcache j).baseaddress = pageOf lpBaseAddress then
      { connection.rpmcache j with lastupdate := 0 }
    else
      connection.rpmcache j
  memory := storeRemote connection.memory process lpBaseAddress written

end CachedConnection

section

variable (processOf : ℕ → ℕ)

/-- `processOf` is the process of a handle; a process may have several. -/
def cachedStep (timeout : ℤ) (connection : CachedConnection) :
    CacheEvent → CachedConnection × List ReadResult
  | .CReadProcessMemory hProcess lpBaseAddress nSize currenttime =>
    let read := connection.CReadProcessMemory timeout (processOf hProcess)
      lpBaseAddress nSize currenttime
    (read.1, [read.2])
  | .WriteProcessMemory hProcess lpBaseAddress written =>
    (connection.WriteProcessMemory (processOf hProcess) lpBaseAddress
      written, [])

def uncachedStep (memory : RemoteMemory) :
    CacheEvent → RemoteMemory × List ReadResult
  | .CReadProcessMemory hProcess lpBaseAddress nSize _ =>
    (memory, [NReadProcessMemory (memory (processOf hProcess)) lpBaseAddress
      nSize])
  | .WriteProcessMemory hProcess lpBaseAddress written =>
    (storeRemote memory (processOf hProcess) lpBaseAddress written, [])

end

variable {address : ℕ} {cache : RpmCache}

theorem readable_eq_load {memory : ℕ → Option UInt8} {content : ℕ → UInt8}
    {offset size : ℕ} (hcontent : ∀ k < size,
      memory (address + k) = some (content (offset + k))) :
    readable memory address size = load content offset size := by
  induction size generalizing address offset with
  | zero => rfl
  | succ size ih =>
    have hfirst : memory address = some (content offset) :=
      hcontent 0 (Nat.zero_lt_succ _)
    have hrest : ∀ k < size, memory (address + 1 + k) =
        some (content (offset + 1 + k)) := by
      intro k hk
      rw [Nat.add_right_comm address, Nat.add_right_comm offset]
      exact hcontent (k + 1) (Nat.succ_lt_succ hk)
    have hload : load content offset (size + 1) =
        content offset :: load content (offset + 1) size := by
      simp only [load, range_succ_eq_map, map_cons,
        map_map, Nat.add_zero, List.cons.injEq, true_and]
      apply map_congr_left
      intro k _
      simp [Nat.add_comm, Nat.add_left_comm]
    rw [readable, hfirst, hload, ih hrest]

theorem readable_append {memory : ℕ → Option UInt8} {size more : ℕ}
    (hsome : ∀ k < size, (memory (address + k)).isSome) :
    readable memory address (size + more) =
      readable memory address size ++
        readable memory (address + size) more := by
  induction size generalizing address with
  | zero => simp [readable]
  | succ size ih =>
    have hrest : ∀ k < size, (memory (address + 1 + k)).isSome := by
      intro k hk
      rw [Nat.add_right_comm]
      exact hsome (k + 1) (Nat.succ_lt_succ hk)
    obtain ⟨byte, hbyte⟩ :=
      Option.isSome_iff_exists.mp (hsome 0 (Nat.zero_lt_succ _))
    rw [Nat.add_zero] at hbyte
    rw [Nat.add_right_comm, readable, readable, hbyte]
    dsimp only
    rw [ih hrest, cons_append, Nat.add_right_comm address]
    rfl

theorem readable_eq_nil {memory : ℕ → Option UInt8}
    (hnone : memory address = none) (size : ℕ) :
    readable memory address size = [] := by
  cases size with
  | zero => rfl
  | succ size => rw [readable, hnone]

theorem length_readable_pos {memory : ℕ → Option UInt8} {size : ℕ}
    (hsome : (memory address).isSome) (hsize : 0 < size) :
    0 < (readable memory address size).length := by
  obtain ⟨byte, hbyte⟩ := Option.isSome_iff_exists.mp hsome
  obtain ⟨size, rfl⟩ := Nat.exists_eq_succ_of_ne_zero hsize.ne'
  rw [Nat.succ_eq_add_one, readable, hbyte]
  exact Nat.zero_lt_succ _

theorem readable_getElem? {memory : ℕ → Option UInt8} {size k : ℕ}
    (hk : k < size) (hsome : ∀ i ≤ k, (memory (address + i)).isSome) :
    (readable memory address size)[k]? = memory (address + k) := by
  induction size generalizing address k with
  | zero => exact absurd hk (Nat.not_lt_zero k)
  | succ size ih =>
    obtain ⟨byte, hbyte⟩ :=
      Option.isSome_iff_exists.mp (hsome 0 (Nat.zero_le k))
    rw [Nat.add_zero] at hbyte
    rw [readable, hbyte]
    cases k with
    | zero => exact hbyte.symm
    | succ k =>
      have hrest : ∀ i ≤ k, (memory (address + 1 + i)).isSome := by
        intro i hi
        rw [Nat.add_right_comm]
        exact hsome (i + 1) (Nat.succ_le_succ hi)
      rw [getElem?_cons_succ, ih (Nat.succ_lt_succ_iff.mp hk) hrest,
        Nat.add_right_comm, Nat.add_assoc]

/-! ## What the entries hold -/

/-- The entry holds the page as far as it is readable from its start on. -/
structure CacheEntry.Shows (entry : CacheEntry)
    (memory : ℕ → Option UInt8) (page : ℕ) : Prop where
  start : (memory page).isSome
  bytes : ∀ k < 4096, (∀ i ≤ k, (memory (page + i)).isSome) →
    memory (page + k) = some (entry.memory k)

/-- Every entry that is not outdated holds its page of its process. -/
def Coherent (memory : RemoteMemory) (cache : RpmCache) : Prop :=
  ∀ j, (cache j).lastupdate ≠ 0 →
    (cache j).Shows (memory (cache j).origin) (cache j).baseaddress

section

variable {timeout currenttime : ℤ} {memory : RemoteMemory}
  {before cache : RpmCache} {process page first count i : ℕ}
  {entries : List (Fin 16)} {j oldest : Fin 16}

theorem shows_refilled (hstart : (memory process page).isSome)
    (currenttime : ℤ) (old : ℕ → UInt8) :
    CacheEntry.Shows
      ⟨currenttime, page, store old 0 (readable (memory process) page 4096),
        process⟩
      (memory process) page := by
  refine ⟨hstart, fun k hk hsome => ?_⟩
  obtain ⟨byte, hbyte⟩ := Option.isSome_iff_exists.mp (hsome k le_rfl)
  rw [hbyte]
  refine congrArg some (store_of_covers _ (Nat.zero_le k) ?_).symm
  rw [Nat.sub_zero, readable_getElem? hk hsome, hbyte]

theorem mapPage_cached (hlookup : lookup timeout currenttime cache page i
      (List.finRange 16) 0 = .cached j) :
    mapPage timeout currenttime memory process cache page i =
      (cache, some j) := by
  rw [mapPage, hlookup]

theorem mapPage_refill (hlookup : lookup timeout currenttime cache page i
      (List.finRange 16) 0 = .refill oldest)
    (hstart : (memory process page).isSome) :
    mapPage timeout currenttime memory process cache page i =
      (Function.update cache oldest ⟨currenttime, page,
        store (cache oldest).memory 0
          (readable (memory process) page 4096), process⟩, some oldest) := by
  have hpos := length_readable_pos hstart (Nat.succ_pos 4095)
  rw [mapPage, hlookup]
  simp only [NReadProcessMemory, hpos, decide_true, if_true]

theorem mapPage_unreadable (hlookup : lookup timeout currenttime cache page i
      (List.finRange 16) 0 = .refill oldest)
    (hnone : memory process page = none) :
    mapPage timeout currenttime memory process cache page i =
      (cache, none) := by
  rw [mapPage, hlookup]
  simp only [NReadProcessMemory, readable_eq_nil hnone, length_nil,
    lt_irrefl, decide_false, Bool.false_eq_true, if_false]

theorem Coherent.update (hcoherent : Coherent memory cache)
    {entry : CacheEntry}
    (hshows : entry.Shows (memory entry.origin) entry.baseaddress)
    (oldest : Fin 16) :
    Coherent memory (Function.update cache oldest entry) := by
  intro j hupdated
  by_cases hsame : j = oldest
  · rw [hsame, Function.update_self]
    exact hshows
  · rw [Function.update_of_ne hsame] at hupdated ⊢
    exact hcoherent j hupdated

/-! ## The entries that a read takes -/

/-- The entry that a page is found in. -/
def holder (cache : RpmCache) (page : ℕ) : Option (Fin 16) :=
  (List.finRange 16).find? fun j => (cache j).baseaddress = page

/-- Of entries that were updated at the same time the loop keeps the
first. -/
def Older (cache : RpmCache) (j other : Fin 16) : Prop :=
  (cache j).lastupdate < (cache other).lastupdate ∨
    (cache j).lastupdate = (cache other).lastupdate ∧ j.val < other.val

instance olderDecidable (cache : RpmCache) (j other : Fin 16) :
    Decidable (Older cache j other) :=
  inferInstanceAs (Decidable (_ ∨ _))

theorem Older.of_not_older {other last : Fin 16}
    (holder : Older cache other last) (hnot : ¬ Older cache other j) :
    Older cache j last := by
  unfold Older at *
  omega

theorem not_older_self : ¬ Older cache j j := by
  unfold Older
  omega

def oldestOf (cache : RpmCache) (entries : List (Fin 16))
    (oldest : Fin 16) : Fin 16 :=
  entries.foldl (fun oldest j =>
    if (cache j).lastupdate < (cache oldest).lastupdate then j else oldest)
    oldest

theorem not_older_oldestOf (hsorted : entries.Pairwise (· < ·))
    (hle : ∀ j ∈ entries, oldest ≤ j) :
    ∀ j, j = oldest ∨ j ∈ entries →
      ¬ Older cache j (oldestOf cache entries oldest) := by
  induction entries generalizing oldest with
  | nil =>
    rintro j (rfl | hmem)
    · exact not_older_self
    · cases hmem
  | cons entry rest ih =>
    obtain ⟨hfirst, hrest⟩ := pairwise_cons.mp hsorted
    obtain ⟨hentry, hothers⟩ := forall_mem_cons.mp hle
    rw [oldestOf, foldl_cons]
    split
    · rename_i hless
      have hall := ih hrest fun j hj => (hfirst j hj).le
      rintro j (rfl | hmem)
      · have hnot : ¬ Older cache j entry := by
          unfold Older
          omega
        exact fun holder => hall entry (.inl rfl) (holder.of_not_older hnot)
      · rcases mem_cons.mp hmem with rfl | hmem
        · exact hall j (.inl rfl)
        · exact hall j (.inr hmem)
    · rename_i hless
      have hall := ih hrest hothers
      rintro j (rfl | hmem)
      · exact hall j (.inl rfl)
      · rcases mem_cons.mp hmem with rfl | hmem
        · have hnot : ¬ Older cache j oldest := by
            have hval : oldest.val ≤ j.val := hentry
            unfold Older
            omega
          exact fun holder => hall oldest (.inl rfl) (holder.of_not_older hnot)
        · exact hall j (.inr hmem)

theorem lookup_eq (timeout currenttime : ℤ) (cache : RpmCache)
    (page i : ℕ) (entries : List (Fin 16)) (oldest : Fin 16) :
    lookup timeout currenttime cache page i entries oldest =
      match entries.find? fun j => (cache j).baseaddress = page with
      | some j =>
        if tooOld timeout currenttime (cache j).lastupdate then
          .refill (Fin.ofNat 16 i)
        else .cached j
      | none => .refill (oldestOf cache entries oldest) := by
  induction entries generalizing oldest with
  | nil => rfl
  | cons entry rest ih =>
    rw [lookup, find?_cons, oldestOf, foldl_cons]
    by_cases hpage : (cache entry).baseaddress = page
    · rw [if_pos hpage, decide_eq_true hpage]
    · rw [if_neg hpage, decide_eq_false hpage]
      split
      · exact ih entry
      · exact ih oldest

theorem lookup_found (hfound : holder cache page = some j) :
    lookup timeout currenttime cache page i (List.finRange 16) 0 =
      if tooOld timeout currenttime (cache j).lastupdate then
        .refill (Fin.ofNat 16 i)
      else .cached j := by
  rw [lookup_eq]
  unfold holder at hfound
  rw [hfound]

theorem lookup_absent (habsent : holder cache page = none) :
    ∃ oldest, lookup timeout currenttime cache page i (List.finRange 16) 0 =
        .refill oldest ∧
      ∀ j, ¬ Older cache j oldest := by
  refine ⟨_, ?_, fun j => not_older_oldestOf (pairwise_lt_finRange 16)
    (fun other _ => Fin.zero_le other) j (.inr (mem_finRange j))⟩
  rw [lookup_eq]
  unfold holder at habsent
  rw [habsent]

theorem holder_kept (hfound : holder before page = some j)
    (hsame : cache j = before j) (hothers : ∀ other,
      cache other = before other ∨ (cache other).baseaddress ≠ page) :
    holder cache page = some j := by
  unfold holder at *
  generalize List.finRange 16 = entries at hfound ⊢
  induction entries with
  | nil => cases hfound
  | cons entry rest ih =>
    rw [find?_cons] at hfound ⊢
    by_cases hpage : (before entry).baseaddress = page
    · rw [decide_eq_true hpage] at hfound
      cases hfound
      rw [hsame, decide_eq_true hpage]
    · rw [decide_eq_false hpage] at hfound
      have hnot : (cache entry).baseaddress ≠ page := by
        rcases hothers entry with heq | hne
        · rwa [heq]
        · exact hne
      rw [decide_eq_false hnot]
      exact ih hfound

theorem holder_absent (habsent : holder before page = none)
    (hothers : ∀ other, cache other = before other ∨
      (cache other).baseaddress ≠ page) : holder cache page = none := by
  unfold holder at *
  rw [find?_eq_none] at habsent ⊢
  intro other hmem
  rcases hothers other with heq | hne
  · rw [heq]
    exact habsent other hmem
  · simpa using hne

theorem holder_baseaddress (hfound : holder cache page = some j) :
    (cache j).baseaddress = page := by
  simpa using find?_some hfound

def pageAt (first i : ℕ) : ℕ :=
  first + i * 4096

def isStale (timeout currenttime : ℤ) (cache : RpmCache) (page : ℕ) : Bool :=
  (holder cache page).any fun j =>
    tooOld timeout currenttime (cache j).lastupdate

/-- How many pages of the range are in no entry. -/
def missing (cache : RpmCache) (first count : ℕ) : ℕ :=
  (List.range count).countP fun i => holder cache (pageAt first i) = none

/-- An entry that is older than those in which pages of the range are found
and those with the numbers of pages that are too old. -/
def IsSpare (timeout currenttime : ℤ) (cache : RpmCache) (first count : ℕ)
    (j : Fin 16) : Prop :=
  (cache j).lastupdate < currenttime ∧
    ∀ i < count,
      (∀ found ∈ holder cache (pageAt first i), Older cache j found) ∧
      (isStale timeout currenttime cache (pageAt first i) = true →
        Older cache j (Fin.ofNat 16 i))

instance isSpareDecidable (timeout currenttime : ℤ) (cache : RpmCache)
    (first count : ℕ) :
    DecidablePred (IsSpare timeout currenttime cache first count) :=
  fun _ => inferInstanceAs (Decidable (_ ∧ _))

def spares (timeout currenttime : ℤ) (cache : RpmCache)
    (first count : ℕ) : Finset (Fin 16) :=
  Finset.univ.filter (IsSpare timeout currenttime cache first count)

/-- The entries that are reused hold no other page of the range: neither those
with the numbers of pages that are too old, nor the oldest ones, which the
missing pages take. -/
structure Spares (timeout currenttime : ℤ) (cache : RpmCache)
    (first count : ℕ) : Prop where
  apart : ∀ i < count,
    isStale timeout currenttime cache (pageAt first i) = true →
      ∀ k < count, k ≠ i →
        holder cache (pageAt first k) ≠ some (Fin.ofNat 16 i)
  enough : missing cache first count ≤
    (spares timeout currenttime cache first count).card

/-- An entry that is used as it is was read from the process and is not
outdated. -/
def HitsWell (timeout currenttime : ℤ) (cache : RpmCache)
    (process page : ℕ) : Prop :=
  ∀ j ∈ holder cache page,
    tooOld timeout currenttime (cache j).lastupdate = false →
      (cache j).lastupdate ≠ 0 ∧ (cache j).origin = process

/-- What the pages before number `i` have done to the cache. -/
structure Progress (timeout currenttime : ℤ) (before cache : RpmCache)
    (first count i : ℕ) (used : Finset (Fin 16)) : Prop where
  kept : ∀ j, cache j = before j ∨
    (j ∈ used ∧ (cache j).lastupdate = currenttime ∧
      ∃ l < i, (cache j).baseaddress = pageAt first l)
  claimed : ∀ j ∈ used,
    (∃ l < i, holder before (pageAt first l) = some j) ∨
    (∃ l < i, isStale timeout currenttime before (pageAt first l) = true ∧
      j = Fin.ofNat 16 l) ∨
    (j ∈ spares timeout currenttime before first count ∧
      (cache j).lastupdate = currenttime)
  few : (used ∩ spares timeout currenttime before first count).card ≤
    missing before first i

theorem pageAt_ne {l : ℕ} (hne : l ≠ i) :
    pageAt first l ≠ pageAt first i := by
  unfold pageAt
  omega

theorem missing_succ (cache : RpmCache) (first i : ℕ) :
    missing cache first (i + 1) = missing cache first i +
      if holder cache (pageAt first i) = none then 1 else 0 := by
  simp [missing, range_succ, countP_append, countP_singleton]

theorem missing_mono (cache : RpmCache) (first : ℕ) (hle : i ≤ count) :
    missing cache first i ≤ missing cache first count :=
  (range_sublist.mpr hle).countP_le

theorem mem_spares : j ∈ spares timeout currenttime before first count ↔
    IsSpare timeout currenttime before first count j :=
  Finset.mem_filter.trans (and_iff_right (Finset.mem_univ j))

theorem IsSpare.not_found (hspare : IsSpare timeout currenttime before
      first count j) (hi : i < count) :
    holder before (pageAt first i) ≠ some j :=
  fun hfound => not_older_self ((hspare.2 i hi).1 j hfound)

theorem IsSpare.not_number (hspare : IsSpare timeout currenttime before
      first count j) (hi : i < count)
    (hstale : isStale timeout currenttime before (pageAt first i) = true) :
    j ≠ Fin.ofNat 16 i := by
  rintro rfl
  exact not_older_self ((hspare.2 i hi).2 hstale)

namespace Progress

variable {used : Finset (Fin 16)} (hprogress : Progress timeout currenttime
    before cache first count i used)
  (hspares : Spares timeout currenttime before first count)
  (hi : i < count)

include hprogress

theorem others (other : Fin 16) :
    cache other = before other ∨
      (cache other).baseaddress ≠ pageAt first i := by
  rcases hprogress.kept other with hsame | ⟨-, -, l, hl, hlabel⟩
  · exact .inl hsame
  · right
    rw [hlabel]
    exact pageAt_ne hl.ne

theorem same (hunused : j ∉ used) : cache j = before j :=
  (hprogress.kept j).resolve_right fun hchanged => hunused hchanged.1

include hspares hi

theorem found_unused (hfound : holder before (pageAt first i) = some j) :
    j ∉ used := by
  intro hused
  rcases hprogress.claimed j hused with
    ⟨l, hl, hother⟩ | ⟨l, hl, hstale, rfl⟩ | ⟨hspare, -⟩
  · exact pageAt_ne hl.ne ((holder_baseaddress hother).symm.trans
      (holder_baseaddress hfound))
  · exact hspares.apart l (hl.trans hi) hstale i hi hl.ne' hfound
  · exact (mem_spares.mp hspare).not_found hi hfound

theorem number_unused (hsmall : count ≤ 16)
    (hstale : isStale timeout currenttime before (pageAt first i) = true) :
    Fin.ofNat 16 i ∉ used := by
  intro hused
  rcases hprogress.claimed _ hused with
    ⟨l, hl, hother⟩ | ⟨l, hl, -, heq⟩ | ⟨hspare, -⟩
  · exact hspares.apart i hi hstale l (hl.trans hi) hl.ne hother
  · have hval := congrArg Fin.val heq
    simp only [Fin.ofNat] at hval
    omega
  · exact (mem_spares.mp hspare).not_number hi hstale rfl

theorem oldest_spare (habsent : holder before (pageAt first i) = none)
    (holdest : ∀ j, ¬ Older cache j oldest) :
    oldest ∈ spares timeout currenttime before first count ∧
      oldest ∉ used := by
  have hless : (used ∩ spares timeout currenttime before first count).card <
      (spares timeout currenttime before first count).card := by
    have hmore := missing_mono before first (Nat.succ_le_of_lt hi)
    rw [Nat.succ_eq_add_one, missing_succ, if_pos habsent] at hmore
    have hfew := hprogress.few
    have henough := hspares.enough
    omega
  obtain ⟨spare, hspare, hunused⟩ :
      ∃ spare ∈ spares timeout currenttime before first count,
        spare ∉ used := by
    by_contra hnone
    push Not at hnone
    rw [Finset.inter_eq_right.mpr hnone] at hless
    exact lt_irrefl _ hless
  have hsame := hprogress.same hunused
  have hspareOld := mem_spares.mp hspare
  have hbelow : (cache oldest).lastupdate < currenttime := by
    have hclock := hspareOld.1
    rw [← hsame] at hclock
    have hnot := holdest spare
    unfold Older at hnot
    omega
  have hkept : cache oldest = before oldest :=
    (hprogress.kept oldest).resolve_right fun hchanged =>
      hbelow.ne hchanged.2.1
  have hfirst : ¬ Older before spare oldest := by
    have hnot := holdest spare
    unfold Older at hnot ⊢
    rwa [hkept, hsame] at hnot
  have hisSpare : IsSpare timeout currenttime before first count oldest :=
    ⟨hkept ▸ hbelow, fun l hl =>
      ⟨fun found hfound =>
        ((hspareOld.2 l hl).1 found hfound).of_not_older hfirst,
        fun hstale => ((hspareOld.2 l hl).2 hstale).of_not_older hfirst⟩⟩
  refine ⟨mem_spares.mpr hisSpare, fun hused => ?_⟩
  rcases hprogress.claimed oldest hused with
    ⟨l, hl, hother⟩ | ⟨l, hl, hstale, heq⟩ | ⟨-, hnow⟩
  · exact hisSpare.not_found (hl.trans hi) hother
  · exact hisSpare.not_number (hl.trans hi) hstale heq
  · exact hbelow.ne hnow

omit hspares

theorem cached (hfound : holder before (pageAt first i) = some j) :
    Progress timeout currenttime before cache first count (i + 1)
      (insert j used) where
  kept other := by
    refine (hprogress.kept other).imp_right ?_
    rintro ⟨hused, hnow, l, hl, hlabel⟩
    exact ⟨Finset.mem_insert_of_mem hused, hnow, l, by omega, hlabel⟩
  claimed other hother := by
    rcases Finset.mem_insert.mp hother with rfl | hused
    · exact .inl ⟨i, Nat.lt_succ_self i, hfound⟩
    · rcases hprogress.claimed other hused with
        ⟨l, hl, hholder⟩ | ⟨l, hl, hstale⟩ | hspare
      · exact .inl ⟨l, by omega, hholder⟩
      · exact .inr (.inl ⟨l, by omega, hstale⟩)
      · exact .inr (.inr hspare)
  few := by
    rw [Finset.insert_inter_of_notMem fun hspare =>
      (mem_spares.mp hspare).not_found hi hfound]
    exact hprogress.few.trans (missing_mono before first (Nat.le_succ i))

theorem refilled {entry : CacheEntry} (hnow : entry.lastupdate = currenttime)
    (hlabel : entry.baseaddress = pageAt first i) (hunused : oldest ∉ used)
    (hvictim : (isStale timeout currenttime before (pageAt first i) = true ∧
        oldest = Fin.ofNat 16 i) ∨
      (holder before (pageAt first i) = none ∧
        oldest ∈ spares timeout currenttime before first count)) :
    Progress timeout currenttime before
      (Function.update cache oldest entry) first count (i + 1)
      (insert oldest used) where
  kept other := by
    by_cases hsame : other = oldest
    · rw [hsame, Function.update_self]
      exact .inr ⟨Finset.mem_insert_self _ _, hnow, i, Nat.lt_succ_self i,
        hlabel⟩
    · rw [Function.update_of_ne hsame]
      refine (hprogress.kept other).imp_right ?_
      rintro ⟨hused, hnow, l, hl, hlabel⟩
      exact ⟨Finset.mem_insert_of_mem hused, hnow, l, by omega, hlabel⟩
  claimed other hother := by
    rcases Finset.mem_insert.mp hother with rfl | hused
    · rw [Function.update_self]
      rcases hvictim with hstale | ⟨-, hspare⟩
      · exact .inr (.inl ⟨i, Nat.lt_succ_self i, hstale⟩)
      · exact .inr (.inr ⟨hspare, hnow⟩)
    · have hne : other ≠ oldest := fun heq => hunused (heq ▸ hused)
      rw [Function.update_of_ne hne]
      rcases hprogress.claimed other hused with
        ⟨l, hl, hholder⟩ | ⟨l, hl, hstale⟩ | hspare
      · exact .inl ⟨l, by omega, hholder⟩
      · exact .inr (.inl ⟨l, by omega, hstale⟩)
      · exact .inr (.inr hspare)
  few := by
    have hfew := hprogress.few
    rcases hvictim with ⟨hstale, rfl⟩ | ⟨habsent, hspare⟩
    · rw [Finset.insert_inter_of_notMem fun hspare =>
        (mem_spares.mp hspare).not_number hi hstale rfl]
      exact hfew.trans (missing_mono before first (Nat.le_succ i))
    · rw [Finset.insert_inter_of_mem hspare, missing_succ, if_pos habsent]
      exact (Finset.card_insert_le _ _).trans (Nat.succ_le_succ hfew)

end Progress

/-- The entry of a page is found in the cache or reused, and no earlier page
of the read uses it. -/
theorem lookup_cases {used : Finset (Fin 16)} (hi : i < count)
    (hsmall : count ≤ 16)
    (hspares : 1 < count → Spares timeout currenttime before first count)
    (hprogress : 1 < count →
      Progress timeout currenttime before cache first count i used)
    (hfirst : i = 0 → cache = before ∧ used = ∅) :
    (∃ j, lookup timeout currenttime cache (pageAt first i) i
        (List.finRange 16) 0 = .cached j ∧ j ∉ used ∧
      holder before (pageAt first i) = some j ∧ cache j = before j ∧
      tooOld timeout currenttime (before j).lastupdate = false ∧
      (1 < count → Progress timeout currenttime before cache first count
        (i + 1) (insert j used))) ∨
    (∃ oldest, lookup timeout currenttime cache (pageAt first i) i
        (List.finRange 16) 0 = .refill oldest ∧ oldest ∉ used ∧
      ∀ entry : CacheEntry, entry.lastupdate = currenttime →
        entry.baseaddress = pageAt first i → 1 < count →
          Progress timeout currenttime before
            (Function.update cache oldest entry) first count (i + 1)
            (insert oldest used)) := by
  have hothers : ∀ other, cache other = before other ∨
      (cache other).baseaddress ≠ pageAt first i := by
    intro other
    by_cases hmany : 1 < count
    · exact (hprogress hmany).others other
    · rw [(hfirst (by omega)).1]
      exact .inl rfl
  have hnone : ¬ 1 < count → cache = before ∧ used = ∅ :=
    fun hone => hfirst (by omega)
  cases hholder : holder before (pageAt first i) with
  | some j =>
    have hunused : j ∉ used := by
      by_cases hmany : 1 < count
      · exact (hprogress hmany).found_unused (hspares hmany) hi hholder
      · simp [(hnone hmany).2]
    have hsame : cache j = before j := by
      by_cases hmany : 1 < count
      · exact (hprogress hmany).same hunused
      · rw [(hnone hmany).1]
    have hlookup := @lookup_found timeout currenttime cache _ i j
      (holder_kept hholder hsame hothers)
    rw [hsame] at hlookup
    cases hold : tooOld timeout currenttime (before j).lastupdate with
    | false =>
      rw [hold, if_neg Bool.false_ne_true] at hlookup
      exact .inl ⟨j, hlookup, hunused, rfl, hsame, hold,
        fun hmany => (hprogress hmany).cached hi hholder⟩
    | true =>
      rw [hold, if_pos rfl] at hlookup
      have hstale : isStale timeout currenttime before
          (pageAt first i) = true := by
        rw [isStale, hholder]
        exact hold
      have hnumber : Fin.ofNat 16 i ∉ used := by
        by_cases hmany : 1 < count
        · exact (hprogress hmany).number_unused (hspares hmany) hi hsmall
            hstale
        · simp [(hnone hmany).2]
      exact .inr ⟨_, hlookup, hnumber, fun entry hnow hlabel hmany =>
        (hprogress hmany).refilled hi hnow hlabel hnumber
          (.inl ⟨hstale, rfl⟩)⟩
  | none =>
    obtain ⟨oldest, hlookup, holdest⟩ := @lookup_absent timeout currenttime
      cache _ i (holder_absent hholder hothers)
    have hunused : oldest ∉ used := by
      by_cases hmany : 1 < count
      · exact ((hprogress hmany).oldest_spare (hspares hmany) hi hholder
          holdest).2
      · simp [(hnone hmany).2]
    exact .inr ⟨oldest, hlookup, hunused, fun entry hnow hlabel hmany =>
      (hprogress hmany).refilled hi hnow hlabel hunused (.inr ⟨hholder,
        ((hprogress hmany).oldest_spare (hspares hmany) hi hholder
          holdest).1⟩)⟩

def AllShow (cache : RpmCache) (memory : ℕ → Option UInt8)
    (entries : List (Option (Fin 16))) (pages : List ℕ) : Prop :=
  List.Forall₂ (fun entry page =>
    ∃ j, entry = some j ∧ (cache j).Shows memory page) entries pages

theorem Coherent.shows_of_cached (hcoherent : Coherent memory cache)
    (hhits : HitsWell timeout currenttime before process page)
    (hholder : holder before page = some j) (hsame : cache j = before j)
    (hfresh : tooOld timeout currenttime (before j).lastupdate = false) :
    (cache j).Shows (memory process) page := by
  obtain ⟨hupdated, horigin⟩ := hhits j hholder hfresh
  have hshows := hcoherent j (hsame.symm ▸ hupdated)
  rwa [hsame, holder_baseaddress hholder, horigin, ← hsame] at hshows

theorem Coherent.mapPages_spec {used : Finset (Fin 16)} {left : ℕ}
    (hcoherent : Coherent memory cache) (hcount : i + left = count)
    (hsmall : count ≤ 16) (hwrap : first + count * 4096 ≤ 2 ^ 64)
    (hhits : ∀ k < count, HitsWell timeout currenttime before process
      (pageAt first k))
    (hstarts : ∀ k < count, (memory process (pageAt first k)).isSome)
    (hspares : 1 < count → Spares timeout currenttime before first count)
    (hprogress : 1 < count →
      Progress timeout currenttime before cache first count i used)
    (hfirst : i = 0 → cache = before ∧ used = ∅) :
    AllShow (mapPages timeout currenttime memory process first left i
        cache).1 (memory process)
        (mapPages timeout currenttime memory process first left i cache).2
        (List.range' (first + i * 4096) left 4096) ∧
      Coherent memory (mapPages timeout currenttime memory process first
        left i cache).1 ∧
      ∀ j ∈ used, (mapPages timeout currenttime memory process first left i
        cache).1 j = cache j := by
  induction left generalizing i cache used with
  | zero => exact ⟨List.Forall₂.nil, hcoherent, fun _ _ => rfl⟩
  | succ left ih =>
    have hi : i < count := by omega
    have hpage : (first + i * 4096) % 2 ^ 64 = pageAt first i :=
      Nat.mod_eq_of_lt (by omega)
    obtain ⟨j, next, hmapped, hunused, hshows, hafter, hothers, hthen⟩ :
        ∃ j next, mapPage timeout currenttime memory process cache
            (pageAt first i) i = (next, some j) ∧ j ∉ used ∧
          (next j).Shows (memory process) (pageAt first i) ∧
          Coherent memory next ∧ (∀ other ∈ used, next other = cache other) ∧
          (1 < count → Progress timeout currenttime before next first count
            (i + 1) (insert j used)) := by
      rcases lookup_cases hi hsmall hspares hprogress hfirst with
        ⟨j, hlookup, hunused, hholder, hsame, hfresh, hthen⟩ |
          ⟨oldest, hlookup, hunused, hthen⟩
      · exact ⟨j, cache, mapPage_cached hlookup, hunused,
          hcoherent.shows_of_cached (hhits i hi) hholder hsame hfresh,
          hcoherent, fun _ _ => rfl, hthen⟩
      · have hshows := @shows_refilled memory process _ (hstarts i hi)
          currenttime (cache oldest).memory
        refine ⟨oldest, _, mapPage_refill hlookup (hstarts i hi), hunused,
          ?_, hcoherent.update hshows oldest, fun other hother => ?_,
          hthen _ rfl rfl⟩
        · rw [Function.update_self]
          exact hshows
        · exact Function.update_of_ne
            (fun heq : other = oldest => hunused (heq ▸ hother)) _ _
    obtain ⟨hall, hfinal, hkept⟩ := ih hafter (by omega) hthen (by omega)
    have hnext : first + i * 4096 + 4096 = first + (i + 1) * 4096 := by
      ring
    rw [range'_succ, hnext, mapPages, hpage]
    dsimp only
    rw [hmapped, if_neg (by simp)]
    refine ⟨List.Forall₂.cons ⟨j, rfl, ?_⟩ hall, hfinal,
      fun other hother => ?_⟩
    · rw [hkept j (Finset.mem_insert_self j used)]
      exact hshows
    · rw [hkept other (Finset.mem_insert_of_mem hother), hothers other hother]

end

theorem copyPages_zero {memory : ℕ → Option UInt8}
    {entries : List (Option (Fin 16))} {pages : List ℕ}
    (hall : AllShow cache memory entries pages) (currentbase : ℕ) :
    copyPages cache entries currentbase 0 = ⟨true, []⟩ := by
  induction hall generalizing currentbase with
  | nil => rfl
  | cons hentry _ ih =>
    obtain ⟨j, hsome, _⟩ := hentry
    rw [hsome]
    unfold copyPages
    simp only [Nat.zero_min, Nat.zero_sub, ih]
    rfl

theorem copyPages_eq {memory : ℕ → Option UInt8}
    {entries : List (Option (Fin 16))} {page count currentbase nsize : ℕ}
    (hall : AllShow cache memory entries (List.range' page count 4096))
    (haligned : page % 4096 = 0) (hle : page ≤ currentbase)
    (hlt : currentbase < page + 4096)
    (hsize : currentbase + nsize ≤ max currentbase (page + count * 4096))
    (hreadable : ∀ address, page ≤ address →
      address < currentbase + nsize → (memory address).isSome) :
    copyPages cache entries currentbase nsize =
      ⟨true, readable memory currentbase nsize⟩ := by
  induction count generalizing entries page currentbase nsize with
  | zero =>
    cases hall
    have hzero : nsize = 0 := by omega
    rw [hzero]
    rfl
  | succ count ih =>
    rw [range'_succ] at hall
    obtain _ | ⟨hentry, hrest⟩ := hall
    obtain ⟨j, hsome, hshows⟩ := hentry
    have hoffset : currentbase % 4096 = currentbase - page := by omega
    have hbytes : ∀ k < 4096 - (currentbase - page), k < nsize →
        memory (currentbase + k) =
          some ((cache j).memory (currentbase - page + k)) := by
      intro k hk hneeded
      have hbyte := hshows.bytes (currentbase - page + k) (by omega)
        fun i hi => hreadable (page + i) (by omega) (by omega)
      rwa [← Nat.add_assoc, Nat.add_sub_cancel' hle] at hbyte
    rw [hsome]
    unfold copyPages
    dsimp only
    rw [hoffset]
    rcases Nat.le_total nsize (4096 - (currentbase - page)) with
      hfits | hmore
    · rw [Nat.min_eq_left hfits, Nat.sub_self, copyPages_zero hrest,
        append_nil, readable_eq_load]
      intro k hk
      exact hbytes k (by omega) hk
    · set blocksize := 4096 - (currentbase - page) with hblock
      have hnext : currentbase + blocksize = page + 4096 := by omega
      have hbefore : ∀ k < blocksize,
          (memory (currentbase + k)).isSome := by
        intro k hk
        rw [hbytes k hk (by omega)]
        rfl
      have hsplit : nsize = blocksize + (nsize - blocksize) := by omega
      rw [Nat.min_eq_right hmore, hnext,
        ih hrest (by omega) (le_refl _) (by omega) (by omega)
          fun address hle hlt => hreadable address (by omega) (by omega)]
      conv_rhs => rw [hsplit, readable_append hbefore, hnext]
      rw [readable_eq_load fun k hk => hbytes k hk (by omega)]

/-! ## Whole runs -/

/-- The pages of the range can be read from the start of the first one to the
end of the range, and each is in the cache or gets an entry of its own. -/
structure ReadsThrough (timeout : ℤ) (connection : CachedConnection)
    (process lpBaseAddress nSize : ℕ) (currenttime : ℤ) : Prop where
  no_wrap : lpBaseAddress + nSize ≤ 2 ^ 64
  readable : ∀ address, pageOf lpBaseAddress ≤ address →
    address < lpBaseAddress + nSize →
      (connection.memory process address).isSome
  hits : ∀ i < pagecount lpBaseAddress nSize,
    HitsWell timeout currenttime connection.rpmcache process
      (pageAt (pageOf lpBaseAddress) i)
  spares : 1 < pagecount lpBaseAddress nSize →
    Spares timeout currenttime connection.rpmcache (pageOf lpBaseAddress)
      (pagecount lpBaseAddress nSize)

/-- Neither the start of the first page nor that of the range can be read. -/
structure ReadsNothing (timeout : ℤ) (connection : CachedConnection)
    (process lpBaseAddress : ℕ) (currenttime : ℤ) : Prop where
  page_unreadable : connection.memory process (pageOf lpBaseAddress) = none
  unreadable : connection.memory process lpBaseAddress = none
  hits : HitsWell timeout currenttime connection.rpmcache process
    (pageOf lpBaseAddress)

structure ReadsWell (timeout : ℤ) (connection : CachedConnection)
    (process lpBaseAddress nSize : ℕ) (currenttime : ℤ) : Prop where
  size_pos : 0 < nSize
  size_le : nSize ≤ 8192
  address_lt : lpBaseAddress < 2 ^ 64
  reads : ReadsThrough timeout connection process lpBaseAddress nSize
      currenttime ∨
    ReadsNothing timeout connection process lpBaseAddress currenttime

/-- The writes that the cache gets right: apart from the page it starts in,
no cached page of the process is changed. -/
def WritesWell (connection : CachedConnection)
    (process lpBaseAddress : ℕ) (written : List UInt8) : Prop :=
  ∀ j, (connection.rpmcache j).lastupdate ≠ 0 →
    (connection.rpmcache j).origin = process →
    (connection.rpmcache j).baseaddress ≠ pageOf lpBaseAddress →
    ∀ k < 4096, ¬ Covers lpBaseAddress written
      ((connection.rpmcache j).baseaddress + k)

def CachesWell (processOf : ℕ → ℕ) (timeout : ℤ)
    (connection : CachedConnection) : CacheEvent → Prop
  | .CReadProcessMemory hProcess lpBaseAddress nSize currenttime =>
    ReadsWell timeout connection (processOf hProcess) lpBaseAddress nSize
      currenttime
  | .WriteProcessMemory hProcess lpBaseAddress written =>
    WritesWell connection (processOf hProcess) lpBaseAddress written

structure Transparent (connection : CachedConnection)
    (memory : RemoteMemory) : Prop where
  memory_eq : connection.memory = memory
  coherent : Coherent memory connection.rpmcache

variable {timeout : ℤ} {connection : CachedConnection}
  {memory : RemoteMemory} {process lpBaseAddress nSize : ℕ}
  {currenttime : ℤ}

theorem pagecount_spec (hpos : 0 < nSize)
    (hwrap : lpBaseAddress + nSize ≤ 2 ^ 64) :
    0 < pagecount lpBaseAddress nSize ∧
      lpBaseAddress + nSize ≤ pageOf lpBaseAddress +
        pagecount lpBaseAddress nSize * 4096 ∧
      pageOf lpBaseAddress + pagecount lpBaseAddress nSize * 4096 ≤
        min (2 ^ 64) (lpBaseAddress + nSize + 4095) := by
  have htarget : (lpBaseAddress + nSize - 1) % 2 ^ 64 =
      lpBaseAddress + nSize - 1 :=
    Nat.mod_eq_of_lt (by omega)
  unfold pagecount pageOf
  rw [htarget]
  dsimp only
  rw [if_neg (by omega)]
  omega

theorem pagecount_pos (haddress : lpBaseAddress < 2 ^ 64) :
    0 < pagecount lpBaseAddress nSize := by
  unfold pagecount
  dsimp only
  split <;> omega

theorem Coherent.mapPages_unreadable {cache : RpmCache} {first count : ℕ}
    (hcoherent : Coherent memory cache) (hfirst : first < 2 ^ 64)
    (hcount : 0 < count) (hnone : memory process first = none)
    (hhits : HitsWell timeout currenttime cache process first) :
    mapPages timeout currenttime memory process first count 0 cache =
      (cache, [none]) := by
  have hpage : (first + 0 * 4096) % 2 ^ 64 = first := by
    rw [Nat.zero_mul, Nat.add_zero, Nat.mod_eq_of_lt hfirst]
  have hmapped : mapPage timeout currenttime memory process cache first 0 =
      (cache, none) := by
    cases hlookup : lookup timeout currenttime cache first 0
        (List.finRange 16) 0 with
    | refill oldest => exact mapPage_unreadable hlookup hnone
    | cached j =>
      cases hholder : holder cache first with
      | none =>
        obtain ⟨oldest, hrefill, -⟩ := @lookup_absent timeout currenttime
          cache first 0 hholder
        cases hlookup.symm.trans hrefill
      | some found =>
        rw [lookup_found hholder] at hlookup
        split at hlookup
        · cases hlookup
        · rename_i hfresh
          have hshows := hcoherent.shows_of_cached hhits hholder rfl
            (Bool.eq_false_of_not_eq_true hfresh)
          exact absurd hshows.start (by simp [hnone])
  obtain ⟨count, rfl⟩ := Nat.exists_eq_succ_of_ne_zero hcount.ne'
  unfold mapPages
  rw [hpage, hmapped]
  rfl

theorem progress_start (timeout currenttime : ℤ) (cache : RpmCache)
    (first count : ℕ) :
    Progress timeout currenttime cache cache first count 0 ∅ where
  kept _ := .inl rfl
  claimed _ hmem := absurd hmem (Finset.notMem_empty _)
  few := by simp

theorem Transparent.read (htransparent : Transparent connection memory)
    (hreads : ReadsWell timeout connection process lpBaseAddress nSize
      currenttime) :
    Coherent memory (connection.CReadProcessMemory timeout process
        lpBaseAddress nSize currenttime).1.rpmcache ∧
      (connection.CReadProcessMemory timeout process lpBaseAddress nSize
        currenttime).2 =
        NReadProcessMemory (memory process) lpBaseAddress nSize := by
  have hcoherent := htransparent.coherent
  have hpos := hreads.size_pos
  have hsmall := hreads.size_le
  have haddress := hreads.address_lt
  have hle : pageOf lpBaseAddress ≤ lpBaseAddress := Nat.sub_le _ _
  have hlt : lpBaseAddress < pageOf lpBaseAddress + 4096 := by
    unfold pageOf
    omega
  unfold CachedConnection.CReadProcessMemory
  dsimp only
  rcases hreads.reads with
    ⟨hwrap, hreadable, hhits, hspares⟩ | ⟨hpage, hbase, hhits⟩
  · rw [htransparent.memory_eq] at hreadable ⊢
    obtain ⟨-, hreach, hend⟩ := pagecount_spec hpos hwrap
    have haligned : pageOf lpBaseAddress % 4096 = 0 := by
      unfold pageOf
      omega
    have hstarts : ∀ k < pagecount lpBaseAddress nSize,
        (memory process (pageAt (pageOf lpBaseAddress) k)).isSome := by
      intro k hk
      apply hreadable
      · exact Nat.le_add_right _ _
      · unfold pageAt
        omega
    obtain ⟨hshow, hafter, -⟩ := hcoherent.mapPages_spec (i := 0)
      (Nat.zero_add _) (by omega) (hend.trans (min_le_left _ _)) hhits
      hstarts hspares (fun _ => progress_start timeout currenttime _ _ _)
      (fun _ => ⟨rfl, rfl⟩)
    rw [Nat.zero_mul, Nat.add_zero] at hshow
    have hbytes := length_readable_pos
      (hreadable lpBaseAddress hle (by omega)) hpos
    refine ⟨hafter, ?_⟩
    rw [copyPages_eq hshow haligned hle hlt (by omega) hreadable,
      NReadProcessMemory, decide_eq_true hbytes]
  · rw [htransparent.memory_eq] at hpage hbase ⊢
    rw [hcoherent.mapPages_unreadable (hle.trans_lt haddress)
      (pagecount_pos haddress) hpage hhits]
    refine ⟨hcoherent, ?_⟩
    unfold NReadProcessMemory
    rw [readable_eq_nil hbase]
    rfl

theorem storeRemote_isSome (process lpBaseAddress : ℕ)
    (written : List UInt8) (other address : ℕ) :
    (storeRemote memory process lpBaseAddress written other address).isSome =
      (memory other address).isSome := by
  unfold storeRemote
  by_cases hsame : other = process
  · rw [hsame, Function.update_self, Option.isSome_map]
  · rw [Function.update_of_ne hsame]

theorem Transparent.write (htransparent : Transparent connection memory)
    {written : List UInt8}
    (hwrites : WritesWell connection process lpBaseAddress written) :
    Transparent
      (connection.WriteProcessMemory process lpBaseAddress written)
      (storeRemote memory process lpBaseAddress written) := by
  constructor
  · unfold CachedConnection.WriteProcessMemory
    rw [htransparent.memory_eq]
  · intro j
    unfold CachedConnection.WriteProcessMemory
    dsimp only
    split
    · exact fun hcontra => absurd rfl hcontra
    · rename_i hkept
      intro hupdated
      obtain ⟨hstart, hbytes⟩ := htransparent.coherent j hupdated
      refine ⟨by rwa [storeRemote_isSome], fun k hk hsome => ?_⟩
      simp only [storeRemote_isSome] at hsome
      have hbyte := hbytes k hk hsome
      unfold storeRemote
      by_cases horigin : (connection.rpmcache j).origin = process
      · have hoff : ¬ Covers lpBaseAddress written
            ((connection.rpmcache j).baseaddress + k) := by
          by_cases hpage : (connection.rpmcache j).baseaddress =
              pageOf lpBaseAddress
          · have hempty : ¬ 0 < written.length :=
              fun hpos => hkept ⟨hpos, hpage⟩
            unfold Covers
            omega
          · exact hwrites j hupdated horigin hpage k hk
        rw [horigin] at hbyte ⊢
        rw [Function.update_self, hbyte, Option.map_some,
          store_of_not_covers _ hoff]
      · rw [Function.update_of_ne horigin]
        exact hbyte

section

variable (processOf : ℕ → ℕ) (timeout : ℤ)

theorem cachedStep_keeps :
    ObservedRun.Keeps (cachedStep processOf timeout) (uncachedStep processOf)
      (CachesWell processOf timeout) Transparent := by
  intro connection memory event htransparent hwell
  cases event with
  | CReadProcessMemory hProcess lpBaseAddress nSize currenttime =>
    exact ⟨htransparent.memory_eq, (htransparent.read hwell).1⟩
  | WriteProcessMemory hProcess lpBaseAddress written =>
    exact htransparent.write hwell

theorem cachedStep_answersAlike :
    ObservedRun.AnswersAlike (cachedStep processOf timeout)
      (uncachedStep processOf) (CachesWell processOf timeout)
      Transparent := by
  intro connection memory event htransparent hwell
  cases event with
  | CReadProcessMemory hProcess lpBaseAddress nSize currenttime =>
    exact congrArg (fun read => [read]) (htransparent.read hwell).2
  | WriteProcessMemory hProcess lpBaseAddress written => rfl

/-- In a run of calls that the cache gets right, every read gives what it
gives without the cache. -/
theorem cached_reads_eq_uncached (connection : CachedConnection)
    (hnew : ∀ j, (connection.rpmcache j).lastupdate = 0)
    (events : List CacheEvent)
    (hwell : ObservedRun.AllowedRun (cachedStep processOf timeout)
      (CachesWell processOf timeout) connection events) :
    ObservedRun.answers (cachedStep processOf timeout) connection events =
      ObservedRun.answers (uncachedStep processOf) connection.memory
        events := by
  have hstart : Transparent connection connection.memory :=
    ⟨rfl, fun j hupdated => absurd (hnew j) hupdated⟩
  exact (cachedStep_keeps processOf timeout).answers_eq
    (cachedStep_answersAlike processOf timeout) hstart hwell

end

/-- The processes can be read below $2800; a page is readable in part. -/
def filledConnection (value : ℕ → UInt8) : CachedConnection where
  rpmcache := fun _ => ⟨0, 0, fun _ => 0, 0⟩
  memory := fun process address =>
    if address < 0x2800 then some (value process) else none

def twoHandles (hProcess : ℕ) : ℕ := hProcess / 2

/-- A write, a read over two pages, one through another handle of the process
and one of unreadable memory. -/
def sharedCalls : List CacheEvent :=
  [.WriteProcessMemory 2 0x1002 [7], .CReadProcessMemory 2 0x1ffe 4 10,
    .CReadProcessMemory 3 0x1002 1 11, .CReadProcessMemory 3 0x3000 1 12]

theorem cached_reads_eq_uncached_sharedCalls :
    ObservedRun.answers (cachedStep twoHandles 5)
      (filledConnection fun _ => 0) sharedCalls =
    [⟨true, [0, 0, 0, 0]⟩, ⟨true, [7]⟩, ⟨false, []⟩] := by
  have hlow : ∀ address < 0x2800, (storeRemote
      (filledConnection fun _ => 0).memory 1 0x1002 [7] 1
        address).isSome := by
    intro address hlt
    rw [storeRemote_isSome]
    simp [filledConnection, hlt]
  have hwell : ObservedRun.AllowedRun (cachedStep twoHandles 5)
      (CachesWell twoHandles 5) (filledConnection fun _ => 0)
      sharedCalls := by
    refine ⟨fun _ hcontra => absurd rfl hcontra,
      ⟨by decide, by decide, by decide, .inl
        ⟨by decide, fun address _ hlt => hlow address (by omega), ?_,
          fun _ => ⟨?_, ?_⟩⟩⟩,
      ⟨by decide, by decide, by decide, .inl
        ⟨by decide, fun address _ hlt => hlow address (by omega), ?_,
          fun hmany => absurd hmany (by decide)⟩⟩,
      ⟨by decide, by decide, by decide, .inr ⟨by decide, by decide, ?_⟩⟩,
      trivial⟩
    · unfold HitsWell
      decide +kernel
    · decide +kernel
    · decide +kernel
    · unfold HitsWell
      decide +kernel
    · unfold HitsWell
      decide +kernel
  rw [cached_reads_eq_uncached twoHandles 5 _ (fun _ => rfl) _ hwell]
  decide

theorem cached_page_of_other_process :
    ObservedRun.answers (cachedStep id 5) (filledConnection UInt8.ofNat)
      [.CReadProcessMemory 1 0x1000 1 10,
        .CReadProcessMemory 2 0x1000 1 11] ≠
    ObservedRun.answers (uncachedStep id)
      (filledConnection UInt8.ofNat).memory
      [.CReadProcessMemory 1 0x1000 1 10,
        .CReadProcessMemory 2 0x1000 1 11] := by
  decide +kernel

end Network
end CheatEngine
