import CheatEngine.ObservedRun
import CheatEngine.SavedScanRegions

/-!
# Looking up addresses in a saved list

The results of a scan are a file of addresses and a file with the values, one
entry for each.  `getpointertoaddress` reads the addresses in chunks, only
forward, and then the values that belong to the chunk, and searches the chunk
from the index of the last hit on.  When an address is not behind the start of
the chunk it can start again from the beginning, once.
-/

namespace CheatEngine
namespace SavedScanAddresses

open List

open ObservedRun (AllowedRun)
open SavedScanRegions (Loaded)

inductive VariableType
  | vtByte
  | vtWord
  | vtDword
  | vtQword
  | vtSingle
  | vtDouble
  | vtAll
  | vtCustom
deriving DecidableEq, Repr

/-- A saved scan.  `customsize` is the size of the custom type, `allsize` the
size of an entry of a scan for all types.  Only such a scan has entries with
the same address. -/
structure SavedList where
  variableType : VariableType
  customsize : ℕ
  allsize : ℕ
  addresses : List ℕ
  AllowRandomAccess : Bool
  AllowNotFound : Bool
  customsize_pos : 0 < customsize
  allsize_ge : 8 ≤ allsize
  ascending : addresses.Pairwise (· ≤ ·)
  distinct : variableType ≠ .vtAll → addresses.Pairwise (· < ·)

/-- The entries `first`, `first+1`, ... of the list.  `valid` of them are in
`addresslistmemory`, `count` is `currentaddresslistcount`. -/
structure Chunk where
  first : ℕ
  valid : ℕ
  count : ℕ
deriving DecidableEq, Repr

/-- `position` counts the entries that are read of the address file, `index`
is `LastAddressAccessed.index`. -/
structure State where
  position : ℕ
  addresslist : Option Chunk
  SavedScanmemory : Option Loaded
  index : ℕ
deriving DecidableEq, Repr

inductive Answer
  | pointer (offset : ℕ)
  | nil
  | exception
  | outside
deriving DecidableEq, Repr

inductive Attempt
  | answered (state : State) (answer : Answer)
  | restart (state : State)
deriving DecidableEq, Repr

namespace SavedList

variable (list : SavedList) (valuetype : VariableType)

def varsize : ℕ :=
  match valuetype with
  | .vtByte => 1
  | .vtWord => 2
  | .vtDword | .vtSingle => 4
  | .vtQword | .vtDouble => 8
  | .vtAll => list.allsize
  | .vtCustom => list.customsize

def savedsize : ℕ :=
  list.varsize list.variableType

def maxaddresslistcount : ℕ :=
  if 20 * 4096 < list.varsize valuetype then 1
  else 20 * 4096 / list.varsize valuetype

def addressAt (chunk : Chunk) (index : ℕ) : Option ℕ :=
  if index < chunk.valid then list.addresses[chunk.first + index]? else none

def lastAddress (chunk : Chunk) : Option ℕ :=
  if chunk.count = 0 then none else list.addressAt chunk (chunk.count - 1)

/-- `false` for the exception when there are no more addresses. -/
def LoadNextChunk (state : State) : State × Bool :=
  let currentaddresslistcount := min (list.maxaddresslistcount valuetype)
    (list.addresses.length - state.position)
  if currentaddresslistcount = 0 then
    ({ state with
      addresslist := some
        { state.addresslist.getD ⟨0, 0, 0⟩ with count := 0 } }, false)
  else
    ({ state with
      position := state.position + currentaddresslistcount
      addresslist := some ⟨state.position, currentaddresslistcount,
        currentaddresslistcount⟩
      index := 0 }, true)

/-- `none` when the file of the values is too short. -/
def LoadMemoryForCurrentChunk (state : State) : Option State :=
  let count := (state.addresslist.getD ⟨0, 0, 0⟩).count
  let index := state.position - count
  if (index + count) * list.varsize valuetype ≤
      list.addresses.length * list.savedsize then
    some { state with
      SavedScanmemory := some
        { position := index * list.varsize valuetype
          size := count * list.varsize valuetype } }
  else
    none

/-- The binary search from `first` up to `bound-1`. -/
def search (chunk : Chunk) (address : ℕ) : ℕ → ℕ → ℕ → Option ℕ
  | 0, _, _ => none
  | fuel + 1, first, bound =>
    if first < bound then
      let pivot := (first + (bound - 1)) / 2
      match list.addressAt chunk pivot with
      | none => none
      | some other =>
        if address = other then some pivot
        else if address < other then search chunk address fuel first pivot
        else search chunk address fuel (pivot + 1) bound
    else
      none

def lookup (state : State) (chunk : Chunk) (address : ℕ) : State × Answer :=
  match list.search chunk address (chunk.count - state.index) state.index
      chunk.count with
  | some pivot =>
    ({ state with index := pivot },
      .pointer (pivot * list.varsize valuetype))
  | none => (state, if list.AllowNotFound then .nil else .exception)

def goForward (address : ℕ) : ℕ → State → State × Bool
  | 0, state => (state, false)
  | fuel + 1, state =>
    match list.LoadNextChunk valuetype state with
    | (next, false) => (next, false)
    | (next, true) =>
      match next.addresslist.bind list.lastAddress with
      | some last =>
        if last < address then goForward address fuel next
        else (next, true)
      | none => (next, false)

def searchFrom (state : State) (address : ℕ) : Attempt :=
  let chunk := state.addresslist.getD ⟨0, 0, 0⟩
  match list.addressAt chunk 0, list.lastAddress chunk with
  | none, _ => .answered state .outside
  | some head, last =>
    if address < head then
      .restart state
    else
      match last with
      | none => .answered state .outside
      | some last =>
        if last < address then
          match list.goForward valuetype address
              (list.addresses.length - state.position + 1) state with
          | (next, false) => .restart next
          | (next, true) =>
            match list.LoadMemoryForCurrentChunk valuetype next with
            | none => .answered next .exception
            | some loaded =>
              let result := list.lookup valuetype loaded
                (loaded.addresslist.getD ⟨0, 0, 0⟩) address
              .answered result.1 result.2
        else
          let result := list.lookup valuetype state chunk address
          .answered result.1 result.2

def attempt (state : State) (address : ℕ) : Attempt :=
  match state.addresslist with
  | some _ => list.searchFrom valuetype state address
  | none =>
    match list.LoadNextChunk valuetype state with
    | (next, false) => .answered next .exception
    | (next, true) =>
      match list.LoadMemoryForCurrentChunk valuetype next with
      | none => .answered next .exception
      | some loaded => list.searchFrom valuetype loaded address

def InitializeScanHandler (state : State) : State where
  position := 0
  addresslist := none
  SavedScanmemory := none
  index := state.index

def forget (state : State) : State :=
  if list.AllowRandomAccess then { state with index := 0 } else state

def getpointertoaddress (state : State) (address : ℕ) : State × Answer :=
  match list.attempt valuetype (list.forget state) address with
  | .answered next answer => (next, answer)
  | .restart next =>
    if list.AllowRandomAccess then
      match list.attempt valuetype
          (list.forget (InitializeScanHandler next)) address with
      | .answered final answer => (final, answer)
      | .restart final => (final, .nil)
    else
      (next, .exception)

def call (state : State) (address : ℕ) : State × List Answer :=
  let result := list.getpointertoaddress valuetype state address
  (result.1, [result.2])

def SavedAt (address position : ℕ) : Prop :=
  ∃ entry, list.addresses[entry]? = some address ∧
    position = entry * list.savedsize

/-- A pointer to the value saved with the address, all of it loaded, if there
is one, else `nil`. -/
def Answers (address : ℕ) : State × Answer → Prop
  | (after, .pointer offset) => ∃ loaded, after.SavedScanmemory = some loaded ∧
      offset + list.savedsize ≤ loaded.size ∧
      list.SavedAt address (loaded.position + offset)
  | (_, .nil) => address ∉ list.addresses
  | (_, .exception) | (_, .outside) => False

def AnswersRight (state : State) (address : ℕ) : Prop :=
  list.Answers address (list.getpointertoaddress valuetype state address)

end SavedList

def initialized : State where
  position := 0
  addresslist := none
  SavedScanmemory := none
  index := 0

/-! ## Chunks -/

section

variable {list : SavedList} {valuetype : VariableType} {state : State}
  {chunk : Chunk} {address : ℕ}

theorem varsize_pos (list : SavedList) (valuetype : VariableType) :
    0 < list.varsize valuetype := by
  have hcustom := list.customsize_pos
  have hall := list.allsize_ge
  cases valuetype <;> simp only [SavedList.varsize] <;> omega

theorem maxaddresslistcount_pos (list : SavedList)
    (valuetype : VariableType) : 0 < list.maxaddresslistcount valuetype := by
  unfold SavedList.maxaddresslistcount
  split
  · exact Nat.one_pos
  · rename_i hle
    exact Nat.div_pos (not_lt.mp hle) (varsize_pos list valuetype)

theorem addresses_le {first second : ℕ} (hle : first ≤ second)
    (hsecond : second < list.addresses.length) :
    getElem list.addresses first (hle.trans_lt hsecond) ≤
      list.addresses[second] := by
  rcases hle.eq_or_lt with rfl | hlt
  · exact le_rfl
  · exact pairwise_iff_getElem.mp list.ascending first second
      (hle.trans_lt hsecond) hsecond hlt

structure Chunk.Loaded (list : SavedList) (chunk : Chunk) : Prop where
  count_pos : 0 < chunk.count
  valid_eq : chunk.valid = chunk.count
  stop_le : chunk.first + chunk.count ≤ list.addresses.length

namespace Chunk.Loaded

variable (hchunk : chunk.Loaded list)

include hchunk

theorem addressAt_eq {index : ℕ} (hindex : index < chunk.count) :
    list.addressAt chunk index =
      some (getElem list.addresses (chunk.first + index)
        (by have hstop := hchunk.stop_le; omega)) := by
  have hvalid := hchunk.valid_eq
  rw [SavedList.addressAt, if_pos (by omega), getElem?_eq_getElem]

theorem lastAddress_eq :
    list.lastAddress chunk =
      some (getElem list.addresses (chunk.first + (chunk.count - 1)) (by
        have hstop := hchunk.stop_le
        have hpos := hchunk.count_pos
        omega)) := by
  have hpos := hchunk.count_pos
  rw [SavedList.lastAddress, if_neg (by omega), hchunk.addressAt_eq]
  omega

end Chunk.Loaded

theorem search_sound {fuel first bound pivot : ℕ}
    (hfound : list.search chunk address fuel first bound = some pivot) :
    first ≤ pivot ∧ pivot < bound ∧
      list.addressAt chunk pivot = some address := by
  induction fuel generalizing first bound with
  | zero => cases hfound
  | succ fuel ih =>
    rw [SavedList.search] at hfound
    split at hfound
    · rename_i hlt
      dsimp only at hfound
      split at hfound
      · cases hfound
      · rename_i other hother
        split at hfound
        · rename_i heq
          cases hfound
          rw [heq]
          exact ⟨by omega, by omega, hother⟩
        · split at hfound
          · obtain ⟨hge, hbound, hat⟩ := ih hfound
            exact ⟨hge, by omega, hat⟩
          · obtain ⟨hge, hbound, hat⟩ := ih hfound
            exact ⟨by omega, hbound, hat⟩
    · cases hfound

theorem search_complete (hchunk : chunk.Loaded list)
    {fuel first bound index : ℕ} (hfuel : bound - first ≤ fuel)
    (hbound : bound ≤ chunk.count) (hfirst : first ≤ index)
    (hindex : index < bound)
    (hat : list.addressAt chunk index = some address) :
    ∃ pivot, list.search chunk address fuel first bound = some pivot := by
  induction fuel generalizing first bound with
  | zero => omega
  | succ fuel ih =>
    have hstop := hchunk.stop_le
    rw [hchunk.addressAt_eq (by omega)] at hat
    have haddress := Option.some.inj hat
    rw [SavedList.search, if_pos (by omega)]
    dsimp only
    rw [hchunk.addressAt_eq (by omega)]
    dsimp only
    split
    · exact ⟨_, rfl⟩
    · rename_i hne
      split
      · rename_i hless
        apply ih (by omega) (by omega) hfirst
        by_contra hafter
        have hle := @addresses_le list
          (chunk.first + (first + (bound - 1)) / 2)
          (chunk.first + index) (by omega) (by omega)
        omega
      · rename_i hmore
        apply ih (by omega) hbound ?_ hindex
        by_contra hbefore
        have hle := @addresses_le list (chunk.first + index)
          (chunk.first + (first + (bound - 1)) / 2) (by omega) (by omega)
        omega

theorem exists_between {low high : ℕ} (hhigh : high < list.addresses.length)
    (hle : low ≤ high)
    (hlow : getElem list.addresses low (hle.trans_lt hhigh) ≤ address)
    (habove : address ≤ list.addresses[high])
    (hmem : address ∈ list.addresses) :
    ∃ entry, low ≤ entry ∧ entry ≤ high ∧
      list.addresses[entry]? = some address := by
  obtain ⟨entry, hentry, hat⟩ := mem_iff_getElem.mp hmem
  rcases lt_or_ge entry low with hbefore | hafter
  · have hlt := hle.trans_lt hhigh
    have hsame := addresses_le hbefore.le hlt
    refine ⟨low, le_rfl, hle, ?_⟩
    rw [getElem?_eq_getElem hlt, Option.some.injEq]
    omega
  · rcases lt_or_ge high entry with hbehind | hin
    · have hsame := addresses_le hbehind.le hentry
      refine ⟨high, hle, le_rfl, ?_⟩
      rw [getElem?_eq_getElem hhigh, Option.some.injEq]
      omega
    · exact ⟨entry, hafter, hin, by rw [getElem?_eq_getElem hentry, hat]⟩

end

/-! ## One pass -/

section

variable {list : SavedList} {valuetype : VariableType} {state : State}
  {chunk : Chunk} {address : ℕ}

structure Placed (list : SavedList) (valuetype : VariableType)
    (chunk : Chunk) (state : State) : Prop where
  addresslist : state.addresslist = some chunk
  loaded : chunk.Loaded list
  position : state.position = chunk.first + chunk.count
  memory : state.SavedScanmemory = some
    { position := chunk.first * list.varsize valuetype
      size := chunk.count * list.varsize valuetype }

def Exhausted (list : SavedList) (state : State) : Prop :=
  ∃ chunk, state.addresslist = some chunk ∧ chunk.count = 0 ∧
    0 < chunk.valid ∧ chunk.first < list.addresses.length

def chunkAt (list : SavedList) (valuetype : VariableType) (position : ℕ) :
    Chunk :=
  let count := min (list.maxaddresslistcount valuetype)
    (list.addresses.length - position)
  { first := position, valid := count, count := count }

theorem chunkAt_loaded {position : ℕ}
    (hposition : position < list.addresses.length) :
    (chunkAt list valuetype position).Loaded list := by
  have hmax := maxaddresslistcount_pos list valuetype
  refine ⟨?_, rfl, ?_⟩ <;> simp only [chunkAt] <;> omega

theorem LoadNextChunk_of_lt (hposition : state.position <
    list.addresses.length) :
    list.LoadNextChunk valuetype state =
      ({ position := state.position +
            (chunkAt list valuetype state.position).count
         addresslist := some (chunkAt list valuetype state.position)
         SavedScanmemory := state.SavedScanmemory
         index := 0 }, true) := by
  have hpos := (@chunkAt_loaded list valuetype _ hposition).count_pos
  unfold chunkAt at hpos ⊢
  dsimp only at hpos
  unfold SavedList.LoadNextChunk
  dsimp only
  rw [if_neg hpos.ne']

theorem LoadNextChunk_of_ge (hposition : list.addresses.length ≤
    state.position) :
    list.LoadNextChunk valuetype state =
      ({ state with
        addresslist := some
          { state.addresslist.getD ⟨0, 0, 0⟩ with count := 0 } }, false) := by
  unfold SavedList.LoadNextChunk
  dsimp only
  rw [if_pos (by omega)]

theorem goForward_spec (hchunk : ∃ chunk, state.addresslist = some chunk ∧
      0 < chunk.valid ∧ chunk.first < list.addresses.length)
    {fuel : ℕ} (hfuel : list.addresses.length - state.position < fuel) :
    (∃ next, list.goForward valuetype address fuel state = (next, false) ∧
      Exhausted list next ∧
      ∀ entry, state.position ≤ entry →
        ∀ hentry : entry < list.addresses.length,
          list.addresses[entry] < address) ∨
    ∃ next chunk, list.goForward valuetype address fuel state = (next, true) ∧
      next.addresslist = some chunk ∧ chunk.Loaded list ∧
      next.position = chunk.first + chunk.count ∧ next.index = 0 ∧
      (∃ last, list.lastAddress chunk = some last ∧ address ≤ last) ∧
      ∀ entry, state.position ≤ entry → entry < chunk.first →
        ∀ hentry : entry < list.addresses.length,
          list.addresses[entry] < address := by
  induction fuel generalizing state with
  | zero => omega
  | succ fuel ih =>
    rw [SavedList.goForward]
    rcases lt_or_ge state.position list.addresses.length with hlt | hge
    · have hloaded := @chunkAt_loaded list valuetype _ hlt
      have hpos := hloaded.count_pos
      have hstop := hloaded.stop_le
      have hlast := hloaded.lastAddress_eq
      rw [LoadNextChunk_of_lt hlt]
      dsimp only
      rw [Option.bind_some, hlast]
      dsimp only
      split
      · rename_i hpassed
        have hskipped : ∀ entry, state.position ≤ entry →
            entry < state.position +
              (chunkAt list valuetype state.position).count →
            ∀ hentry : entry < list.addresses.length,
              list.addresses[entry] < address := by
          intro entry hfirst hbound hentry
          have hstart : (chunkAt list valuetype state.position).first =
            state.position := rfl
          exact lt_of_le_of_lt (addresses_le (by omega) (by omega)) hpassed
        have hnext := @ih
          { position := state.position +
              (chunkAt list valuetype state.position).count
            addresslist := some (chunkAt list valuetype state.position)
            SavedScanmemory := state.SavedScanmemory
            index := 0 }
          ⟨_, rfl, hloaded.valid_eq ▸ hpos, hlt⟩
          (by dsimp only; omega)
        rcases hnext with ⟨next, hgo, hexhausted, hbefore⟩ |
          ⟨next, chunk, hgo, hsome, hchunk, hposition, hindex, hreach, hbefore⟩
        · refine .inl ⟨next, hgo, hexhausted, ?_⟩
          intro entry hfirst hentry
          rcases lt_or_ge entry (state.position +
            (chunkAt list valuetype state.position).count) with hold | hnew
          · exact hskipped entry hfirst hold hentry
          · exact hbefore entry hnew hentry
        · refine .inr ⟨next, chunk, hgo, hsome, hchunk, hposition, hindex,
            hreach, ?_⟩
          intro entry hfirst hbound hentry
          rcases lt_or_ge entry (state.position +
            (chunkAt list valuetype state.position).count) with hold | hnew
          · exact hskipped entry hfirst hold hentry
          · exact hbefore entry hnew hbound hentry
      · rename_i hreached
        refine .inr ⟨_, _, rfl, rfl, hloaded, rfl, rfl,
          ⟨_, hlast, not_lt.mp hreached⟩, ?_⟩
        intro entry hfirst hbound
        exact absurd hbound hfirst.not_gt
    · obtain ⟨chunk, hsome, hvalid, hfirst⟩ := hchunk
      rw [LoadNextChunk_of_ge hge]
      refine .inl ⟨_, rfl, ⟨_, rfl, rfl, ?_, ?_⟩, ?_⟩
      · rw [hsome]
        exact hvalid
      · rw [hsome]
        exact hfirst
      · intro entry hposition hentry
        omega

inductive Pass (list : SavedList) (valuetype : VariableType) (chunk : Chunk)
    (state : State) (address : ℕ) : Attempt → Prop
  | before (hbefore : ∀ entry ∈ list.addressAt chunk 0, address < entry) :
      Pass list valuetype chunk state address (.restart state)
  | inside (hhead : ∀ entry ∈ list.addressAt chunk 0, entry ≤ address)
      (hlast : ∀ entry ∈ list.lastAddress chunk, address ≤ entry) :
      Pass list valuetype chunk state address (.answered
        (list.lookup valuetype state chunk address).1
        (list.lookup valuetype state chunk address).2)
  | behind (next : State) (hexhausted : Exhausted list next)
      (hpassed : ∀ entry ∈ list.lastAddress chunk, entry < address)
      (hbehind : ∀ entry ∈ list.addresses, entry < address) :
      Pass list valuetype chunk state address (.restart next)
  | ahead (next : State) (later : Chunk)
      (hplaced : Placed list valuetype later next) (hindex : next.index = 0)
      (hpassed : ∀ entry ∈ list.lastAddress chunk, entry < address)
      (hlast : ∀ entry ∈ list.lastAddress later, address ≤ entry)
      (hbefore : ∀ entry < later.first,
        ∀ other ∈ list.addresses[entry]?, other < address) :
      Pass list valuetype chunk state address (.answered
        (list.lookup valuetype next later address).1
        (list.lookup valuetype next later address).2)
  | unread (next : State)
      (hpassed : ∀ entry ∈ list.lastAddress chunk, entry < address)
      (hsize : list.varsize valuetype ≠ list.savedsize) :
      Pass list valuetype chunk state address (.answered next .exception)

theorem LoadMemoryForCurrentChunk_spec (valuetype : VariableType)
    (hsome : state.addresslist = some chunk) (hchunk : chunk.Loaded list)
    (hposition : state.position = chunk.first + chunk.count) :
    (∃ loaded, list.LoadMemoryForCurrentChunk valuetype state = some loaded ∧
      Placed list valuetype chunk loaded ∧ loaded.index = state.index ∧
      (chunk.first + chunk.count) * list.varsize valuetype ≤
        list.addresses.length * list.savedsize) ∨
    (list.LoadMemoryForCurrentChunk valuetype state = none ∧
      list.addresses.length * list.savedsize <
        (chunk.first + chunk.count) * list.varsize valuetype) := by
  have hindex : state.position - chunk.count = chunk.first := by omega
  unfold SavedList.LoadMemoryForCurrentChunk
  simp only [hsome, Option.getD_some, hindex]
  split
  · rename_i hlong
    exact .inl ⟨_, rfl, ⟨rfl, hchunk, hposition, rfl⟩, rfl, hlong⟩
  · rename_i hshort
    exact .inr ⟨rfl, not_le.mp hshort⟩

theorem varsize_ne_of_short (hchunk : chunk.Loaded list)
    (hshort : list.addresses.length * list.savedsize <
      (chunk.first + chunk.count) * list.varsize valuetype) :
    list.varsize valuetype ≠ list.savedsize := by
  intro hsize
  have hle := Nat.mul_le_mul_right list.savedsize hchunk.stop_le
  rw [hsize] at hshort
  omega

theorem Placed.searchFrom_pass (hplaced : Placed list valuetype chunk state)
    (address : ℕ) :
    Pass list valuetype chunk state address
      (list.searchFrom valuetype state address) := by
  obtain ⟨hsome, hchunk, hposition, -⟩ := hplaced
  have hpos := hchunk.count_pos
  have hstop := hchunk.stop_le
  have hhead := hchunk.addressAt_eq hpos
  have hlast := hchunk.lastAddress_eq
  unfold SavedList.searchFrom
  simp only [hsome, Option.getD_some, hhead, hlast]
  split
  · rename_i hbefore
    apply Pass.before
    rw [hhead]
    rintro _ ⟨⟩
    exact hbefore
  · rename_i hnotBefore
    split
    · rename_i hpassed
      have hvalid := hchunk.valid_eq
      have hpassedLast : ∀ entry ∈ list.lastAddress chunk,
          entry < address := by
        rw [hlast]
        rintro _ ⟨⟩
        exact hpassed
      rcases @goForward_spec list valuetype state address
        ⟨chunk, hsome, by omega, by omega⟩ _ (Nat.lt_succ_self _) with
        ⟨next, hgo, hexhausted, hbehind⟩ |
        ⟨next, later, hgo, hnext, hlater, hnextPosition, hindex, hreach,
          hbefore⟩
      · rw [hgo]
        apply Pass.behind next hexhausted hpassedLast
        intro other hother
        obtain ⟨entry, hentry, rfl⟩ := mem_iff_getElem.mp hother
        rcases lt_or_ge entry state.position with hold | hnew
        · exact lt_of_le_of_lt (addresses_le (by omega) (by omega)) hpassed
        · exact hbehind entry hnew hentry
      · rw [hgo]
        dsimp only
        rcases LoadMemoryForCurrentChunk_spec valuetype hnext hlater
          hnextPosition with ⟨loaded, hload, hloaded, hloadedIndex, -⟩ |
          ⟨hload, hshort⟩
        · rw [hload]
          simp only [hloaded.addresslist, Option.getD_some]
          refine Pass.ahead loaded later hloaded
            (hloadedIndex.trans hindex) hpassedLast ?_ ?_
          · obtain ⟨last, hlaterLast, hle⟩ := hreach
            rw [hlaterLast]
            rintro _ ⟨⟩
            exact hle
          · intro entry hentry other hother
            obtain ⟨hlt, rfl⟩ := List.getElem?_eq_some_iff.mp hother
            rcases lt_or_ge entry state.position with hold | hnew
            · exact lt_of_le_of_lt (addresses_le (by omega) (by omega)) hpassed
            · exact hbefore entry hnew hentry hlt
        · rw [hload]
          exact Pass.unread next hpassedLast (varsize_ne_of_short hlater hshort)
    · rename_i hreached
      apply Pass.inside
      · rw [hhead]
        rintro _ ⟨⟩
        exact not_lt.mp hnotBefore
      · rw [hlast]
        rintro _ ⟨⟩
        exact not_lt.mp hreached

structure Found (list : SavedList) (valuetype : VariableType)
    (address : ℕ) (chunk : Chunk) (result : State × Answer) : Prop where
  placed : Placed list valuetype chunk result.1
  index_lt : result.1.index < chunk.count
  at_index : list.addresses[chunk.first + result.1.index]? = some address
  answer : result.2 = .pointer (result.1.index * list.varsize valuetype)

theorem Placed.lookup_spec (hplaced : Placed list valuetype chunk state)
    (address : ℕ) :
    Found list valuetype address chunk
        (list.lookup valuetype state chunk address) ∨
      (list.lookup valuetype state chunk address =
          (state, if list.AllowNotFound then .nil else .exception) ∧
        ∀ entry, chunk.first + state.index ≤ entry →
          entry < chunk.first + chunk.count →
            list.addresses[entry]? ≠ some address) := by
  have hchunk := hplaced.loaded
  unfold SavedList.lookup
  cases hsearch : list.search chunk address (chunk.count - state.index)
      state.index chunk.count with
  | none =>
    refine .inr ⟨rfl, ?_⟩
    intro entry hfirst hbound hat
    have hentry : list.addressAt chunk (entry - chunk.first) =
        some address := by
      have hvalid := hchunk.valid_eq
      rw [SavedList.addressAt, if_pos (by omega),
        Nat.add_sub_cancel' (by omega)]
      exact hat
    have hbounds : state.index ≤ entry - chunk.first ∧
        entry - chunk.first < chunk.count := by omega
    obtain ⟨pivot, hfound⟩ := search_complete hchunk le_rfl le_rfl
      hbounds.1 hbounds.2 hentry
    rw [hsearch] at hfound
    cases hfound
  | some pivot =>
    obtain ⟨-, hlt, hat⟩ := search_sound hsearch
    obtain ⟨hsome, -, hposition, hmemory⟩ := hplaced
    refine .inl ⟨⟨hsome, hchunk, hposition, hmemory⟩, hlt, ?_, rfl⟩
    unfold SavedList.addressAt at hat
    split at hat
    · exact hat
    · cases hat

theorem Found.answers {result : State × Answer}
    (hsize : list.varsize valuetype = list.savedsize)
    (hfound : Found list valuetype address chunk result) :
    list.Answers address result := by
  obtain ⟨⟨-, -, -, hmemory⟩, hlt, hat, hanswer⟩ := hfound
  obtain ⟨after, answer⟩ := result
  dsimp only at hmemory hlt hat hanswer
  subst hanswer
  refine ⟨_, hmemory, ?_, _, hat, ?_⟩
  · rw [← hsize, ← Nat.succ_mul]
    exact Nat.mul_le_mul_right _ hlt
  · rw [← hsize, Nat.add_mul]

theorem attempt_of_none (hnone : state.addresslist = none) :
    list.attempt valuetype state address =
      match list.LoadNextChunk valuetype state with
      | (next, false) => .answered next .exception
      | (next, true) =>
        match list.LoadMemoryForCurrentChunk valuetype next with
        | none => .answered next .exception
        | some loaded => list.searchFrom valuetype loaded address := by
  unfold SavedList.attempt
  rw [hnone]

theorem attempt_of_some (hsome : state.addresslist = some chunk) :
    list.attempt valuetype state address =
      list.searchFrom valuetype state address := by
  unfold SavedList.attempt
  rw [hsome]

theorem attempt_initial (address : ℕ) (hinitial : state.addresslist = none ∧
      state.position = 0) (hsome : list.addresses ≠ []) :
    (∃ loaded, Placed list valuetype (chunkAt list valuetype 0) loaded ∧
      loaded.index = 0 ∧ list.attempt valuetype state address =
        list.searchFrom valuetype loaded address ∧
      (chunkAt list valuetype 0).count * list.varsize valuetype ≤
        list.addresses.length * list.savedsize) ∨
    ∃ next, list.attempt valuetype state address =
        .answered next .exception ∧
      list.addresses.length * list.savedsize <
        (chunkAt list valuetype 0).count * list.varsize valuetype := by
  obtain ⟨hnone, hposition⟩ := hinitial
  have hlt : state.position < list.addresses.length := by
    rw [hposition]
    exact length_pos_of_ne_nil hsome
  have hchunk := @chunkAt_loaded list valuetype _ hlt
  rw [attempt_of_none hnone, LoadNextChunk_of_lt hlt]
  dsimp only
  rw [hposition] at hchunk ⊢
  have hzero : (chunkAt list valuetype 0).first = 0 := rfl
  rcases @LoadMemoryForCurrentChunk_spec list
    { position := 0 + (chunkAt list valuetype 0).count
      addresslist := some (chunkAt list valuetype 0)
      SavedScanmemory := state.SavedScanmemory
      index := 0 } _ valuetype rfl hchunk rfl with
    ⟨loaded, hload, hplaced, hindex, hlong⟩ | ⟨hload, hshort⟩
  · rw [hzero, Nat.zero_add] at hlong
    exact .inl ⟨loaded, hplaced, hindex, by rw [hload], hlong⟩
  · rw [hzero, Nat.zero_add] at hshort
    exact .inr ⟨_, by rw [hload], hshort⟩

theorem head_le {entry : ℕ} (hmem : address ∈ list.addresses)
    (hentry : entry ∈ list.addresses[0]?) : entry ≤ address := by
  obtain ⟨other, hother, rfl⟩ := mem_iff_getElem.mp hmem
  obtain ⟨hzero, rfl⟩ := List.getElem?_eq_some_iff.mp hentry
  exact addresses_le (Nat.zero_le _) hother

end

end SavedScanAddresses
end CheatEngine
