import CheatEngine.ObservedRun

/-!
# The buffers for the results of a scan

A scanner collects the addresses and the values it finds in two buffers, for
at most `maxfound` entries, and flushes them when they are full.  The sizes of
the buffers are set by `configurescanroutine`, in another branch than the
number of entries.  The size of the buffer for the values is a 32-bit integer,
and for custom types it is cut down to 16 megabytes.
-/

namespace CheatEngine
namespace ScanResultBuffers

open List

open ObservedRun (answers final)

inductive VariableType
  | vtByte
  | vtWord
  | vtDWord
  | vtQWord
  | vtSingle
  | vtDouble
  | vtByteArray
  | vtByteArrays
  | vtBinary
  | vtString
  | vtAll
  | vtCustom
  | vtGrouped
deriving DecidableEq, Repr

/-- `customInAll` is `vtCustom in ScanAllTypes`, `customsize` the size of the
custom type of the scan and `customtypes` those of all custom types. -/
structure Scanner where
  variableType : VariableType
  buffersize : ℕ
  customsize : ℕ
  customInAll : Bool
  customtypes : List ℕ
  MaxCustomTypeSize : ℕ
  groupdatalength : ℕ

structure Buffers where
  address : ℕ
  found : ℕ
deriving DecidableEq, Repr

structure State where
  current : Buffers
  secondary : Buffers
  found : ℕ
deriving DecidableEq, Repr

structure Write where
  found : ℕ
  capacity : ℕ
  offset : ℕ
  length : ℕ
deriving DecidableEq, Repr

/-- What the check routine left for the save routine.  `valid` is false for
floats that are not saved. -/
structure Match where
  valid : VariableType → Bool
  binaryresults : List Bool
  typesmatch : VariableType → Bool
  customtypesmatch : List Bool

namespace Scanner

variable (scanner : Scanner)

def maxfound : ℕ :=
  match scanner.variableType with
  | .vtCustom =>
    if 16 < scanner.customsize then
      max 1 (scanner.buffersize * 16 / scanner.customsize)
    else scanner.buffersize
  | .vtAll =>
    if scanner.customInAll ∧ 16 < max 8 scanner.MaxCustomTypeSize then
      max 1 (scanner.buffersize * 16 / max 8 scanner.MaxCustomTypeSize)
    else scanner.buffersize
  | _ => scanner.buffersize

def variablesize : ℕ :=
  if scanner.customInAll then scanner.customtypes.foldl max 8 else 8

def addressEntry : ℕ :=
  match scanner.variableType with
  | .vtBinary | .vtAll => 16
  | .vtGrouped => 8 + 4 * scanner.groupdatalength
  | _ => 8

def valueEntry : ℕ :=
  match scanner.variableType with
  | .vtByte => 1
  | .vtWord => 2
  | .vtDWord | .vtSingle => 4
  | .vtQWord | .vtDouble => 8
  | .vtAll => scanner.variablesize
  | .vtCustom => scanner.customsize
  | .vtByteArray | .vtByteArrays | .vtBinary | .vtString | .vtGrouped => 0

def toInteger (number : ℕ) : ℤ :=
  (number : ℤ).bmod (2 ^ 32)

def FoundBufferSize : ℤ :=
  match scanner.variableType with
  | .vtByte => toInteger (scanner.buffersize * 1)
  | .vtWord => toInteger (scanner.buffersize * 2)
  | .vtDWord => toInteger (scanner.buffersize * 4)
  | .vtQWord => toInteger (scanner.buffersize * 8)
  | .vtSingle => toInteger (scanner.buffersize * 4)
  | .vtDouble => toInteger (scanner.buffersize * 8)
  | .vtAll => toInteger (scanner.maxfound * scanner.variablesize)
  | .vtCustom =>
    let size := toInteger (scanner.maxfound * scanner.customsize)
    if 16 * 1024 * 1024 < size then 16 * 1024 * 1024 else size
  | .vtByteArray | .vtByteArrays | .vtBinary | .vtString | .vtGrouped => 0

/-- The second address buffer of a group scan has another size.  It is not
used, because the buffers are not exchanged there. -/
def secondaryAddressEntry : ℕ :=
  match scanner.variableType with
  | .vtGrouped => 8 + 4 * 1 + scanner.groupdatalength
  | _ => scanner.addressEntry

/-- The buffers after `configurescanroutine`; `none` when memory of a negative
size is asked for. -/
def configurescanroutine : Option State :=
  if scanner.FoundBufferSize < 0 then none
  else some
    { current :=
        { address := scanner.maxfound * scanner.addressEntry
          found := scanner.FoundBufferSize.toNat }
      secondary :=
        { address := scanner.maxfound * scanner.secondaryAddressEntry
          found := scanner.FoundBufferSize.toNat }
      found := 0 }

/-- `genericFlush` and `allFlush` exchange the buffers, `stringFlush`,
`binaryFlush` and `groupflush` do not. -/
def FlushRoutine (state : State) : State :=
  match scanner.variableType with
  | .vtByteArray | .vtByteArrays | .vtBinary | .vtString | .vtGrouped =>
    { state with found := 0 }
  | _ =>
    { current := state.secondary, secondary := state.current, found := 0 }

def writes (state : State) : List Write :=
  [{ found := state.found
     capacity := state.current.address
     offset := state.found * scanner.addressEntry
     length := scanner.addressEntry },
   { found := state.found
     capacity := state.current.found
     offset := state.found * scanner.valueEntry
     length := scanner.valueEntry }]

/-- An entry is saved, and the buffers are flushed when they are full. -/
def saveEntry (state : State) : State × List Write :=
  let next := { state with found := state.found + 1 }
  (if scanner.maxfound ≤ next.found then scanner.FlushRoutine next else next,
    scanner.writes state)

def saveEntries : ℕ → State → State × List Write
  | 0, state => (state, [])
  | count + 1, state =>
    let first := scanner.saveEntry state
    let rest := saveEntries count first.1
    (rest.1, first.2 ++ rest.2)

def allTypes : List VariableType :=
  [.vtByte, .vtWord, .vtDWord, .vtQWord, .vtSingle, .vtDouble]

/-- How many entries the save routine of the type saves for a match. -/
def entries (found : Match) : ℕ :=
  match scanner.variableType with
  | .vtByte | .vtWord | .vtDWord | .vtQWord => 1
  | .vtSingle | .vtDouble | .vtCustom =>
    if found.valid scanner.variableType then 1 else 0
  | .vtByteArray | .vtByteArrays | .vtString | .vtGrouped => 1
  | .vtBinary => (found.binaryresults.take 8).count true
  | .vtAll =>
    allTypes.countP (fun type => found.typesmatch type &&
      (type ≠ .vtSingle && type ≠ .vtDouble || found.valid type)) +
    if scanner.customInAll then found.customtypesmatch.count true else 0

def StoreResultRoutine (state : State) (found : Match) : State × List Write :=
  scanner.saveEntries (scanner.entries found) state

/-- Whatever is found, `found` is at most `maxfound` when an entry is written,
and nothing is written behind the end of a buffer. -/
def NeverOverflows : Prop :=
  ∀ start, scanner.configurescanroutine = some start →
    ∀ found : List Match,
      ∀ write ∈ answers scanner.StoreResultRoutine start found,
        write.found ≤ scanner.maxfound ∧
          write.offset + write.length ≤ write.capacity

/-- The bytes that the values of `maxfound` entries take. -/
def needed : ℕ :=
  scanner.maxfound * scanner.valueEntry

def limit : ℕ :=
  match scanner.variableType with
  | .vtCustom => 16 * 1024 * 1024
  | _ => 2 ^ 31 - 1

/-- There is room for the values of at least one entry, or so much is asked
for that the integer is negative and nothing is allocated. -/
def Fits : Prop :=
  2 ^ 31 ≤ scanner.needed % 2 ^ 32 ∨
    0 < scanner.maxfound ∧ scanner.needed ≤ scanner.limit

end Scanner

section

variable {scanner : Scanner}

theorem toInteger_cases (number : ℕ) :
    (number % 2 ^ 32 < 2 ^ 31 ∧
      Scanner.toInteger number = (number % 2 ^ 32 : ℕ)) ∨
    (2 ^ 31 ≤ number % 2 ^ 32 ∧ Scanner.toInteger number < 0) := by
  unfold Scanner.toInteger
  rw [Int.bmod_def]
  split
  · left
    omega
  · right
    omega

theorem toInteger_zero : Scanner.toInteger 0 = 0 := rfl

theorem FoundBufferSize_eq :
    scanner.FoundBufferSize =
      if scanner.variableType = .vtCustom ∧
          16 * 1024 * 1024 < Scanner.toInteger scanner.needed then
        16 * 1024 * 1024
      else Scanner.toInteger scanner.needed := by
  unfold Scanner.FoundBufferSize Scanner.needed Scanner.valueEntry
  cases hvar : scanner.variableType <;>
    simp only [Scanner.maxfound, hvar, Nat.mul_zero, toInteger_zero,
      reduceCtorEq, false_and, if_false, true_and]

theorem addressEntry_pos : 0 < scanner.addressEntry := by
  unfold Scanner.addressEntry
  split <;> omega

theorem needed_le_iff (hnonneg : 0 ≤ scanner.FoundBufferSize) :
    scanner.needed ≤ scanner.FoundBufferSize.toNat ↔
      scanner.needed ≤ scanner.limit := by
  rw [FoundBufferSize_eq] at hnonneg ⊢
  unfold Scanner.limit
  rcases toInteger_cases scanner.needed with ⟨hlow, heq⟩ | ⟨-, hneg⟩
  · rw [heq] at hnonneg ⊢
    cases hvar : scanner.variableType <;>
      simp only [reduceCtorEq, false_and, if_false, true_and] <;>
      first
        | (split <;> omega)
        | omega
  · rw [if_neg (by omega)] at hnonneg
    omega

theorem FoundBufferSize_neg_iff :
    scanner.FoundBufferSize < 0 ↔ 2 ^ 31 ≤ scanner.needed % 2 ^ 32 := by
  rw [FoundBufferSize_eq]
  rcases toInteger_cases scanner.needed with ⟨hlow, heq⟩ | ⟨hhigh, hneg⟩
  · rw [heq]
    split <;> omega
  · rw [if_neg (by omega)]
    omega

end

/-! ## Runs -/

section

variable {scanner : Scanner} {start state : State}

/-- What holds before an entry is written.  The second buffers matter where
the buffers are exchanged. -/
structure Ready (scanner : Scanner) (start state : State) : Prop where
  found_lt : state.found < scanner.maxfound
  current : state.current = start.current
  secondary : state.secondary = start.current ∨
    ∀ state, (scanner.FlushRoutine state).current = state.current

theorem flush_ready (hmax : 0 < scanner.maxfound) {next : State}
    (hcurrent : next.current = start.current)
    (hsecondary : next.secondary = start.current ∨
      ∀ state, (scanner.FlushRoutine state).current = state.current) :
    Ready scanner start (scanner.FlushRoutine next) := by
  have hzero : (scanner.FlushRoutine next).found = 0 := by
    unfold Scanner.FlushRoutine
    split <;> rfl
  have hcases : ((scanner.FlushRoutine next).current = next.current ∧
        (scanner.FlushRoutine next).secondary = next.secondary) ∨
      ((scanner.FlushRoutine next).current = next.secondary ∧
        (scanner.FlushRoutine next).secondary = next.current) := by
    unfold Scanner.FlushRoutine
    split
    case h_6 => exact .inr ⟨rfl, rfl⟩
    all_goals exact .inl ⟨rfl, rfl⟩
  refine ⟨by omega, ?_, ?_⟩
  · rcases hsecondary with hsame | hkept
    · rcases hcases with ⟨heq, -⟩ | ⟨heq, -⟩
      · rw [heq, hcurrent]
      · rw [heq, hsame]
    · rw [hkept, hcurrent]
  · rcases hsecondary with hsame | hkept
    · left
      rcases hcases with ⟨-, heq⟩ | ⟨-, heq⟩
      · rw [heq, hsame]
      · rw [heq, hcurrent]
    · exact .inr hkept

theorem configured_ready (hmax : 0 < scanner.maxfound)
    (hstart : scanner.configurescanroutine = some start) :
    Ready scanner start start := by
  unfold Scanner.configurescanroutine at hstart
  split at hstart
  · cases hstart
  · cases hstart
    refine ⟨hmax, rfl, ?_⟩
    unfold Scanner.secondaryAddressEntry Scanner.FlushRoutine
    cases scanner.variableType <;>
      first
        | exact .inl rfl
        | exact .inr fun _ => rfl

section

variable (hready : Ready scanner start state)
  (hstart : scanner.configurescanroutine = some start)
  (hneeded : scanner.needed ≤ start.current.found)

include hready hstart hneeded

theorem Ready.saveEntry :
    Ready scanner start (scanner.saveEntry state).1 ∧
      ∀ write ∈ (scanner.saveEntry state).2,
        write.found ≤ scanner.maxfound ∧
          write.offset + write.length ≤ write.capacity := by
  obtain ⟨hlt, hcurrent, hsecondary⟩ := hready
  have hmax : 0 < scanner.maxfound := (Nat.zero_le _).trans_lt hlt
  have haddress : start.current.address =
      scanner.maxfound * scanner.addressEntry := by
    unfold Scanner.configurescanroutine at hstart
    split at hstart
    · cases hstart
    · cases hstart
      rfl
  have hinside : ∀ entry capacity, scanner.maxfound * entry ≤ capacity →
      state.found * entry + entry ≤ capacity := by
    intro entry capacity hle
    rw [← Nat.succ_mul]
    exact (Nat.mul_le_mul_right entry hlt).trans hle
  constructor
  · unfold Scanner.saveEntry
    dsimp only
    split
    · exact flush_ready hmax hcurrent hsecondary
    · exact ⟨by dsimp only; omega, hcurrent, hsecondary⟩
  · intro write hwrite
    rcases mem_pair.mp hwrite with rfl | rfl
    · refine ⟨hlt.le, hinside _ _ ?_⟩
      rw [hcurrent, haddress]
    · refine ⟨hlt.le, hinside _ _ ?_⟩
      rw [hcurrent]
      exact hneeded

theorem Ready.saveEntries (count : ℕ) :
    Ready scanner start (scanner.saveEntries count state).1 ∧
      ∀ write ∈ (scanner.saveEntries count state).2,
        write.found ≤ scanner.maxfound ∧
          write.offset + write.length ≤ write.capacity := by
  induction count generalizing state with
  | zero => exact ⟨hready, fun _ hwrite => nomatch hwrite⟩
  | succ count ih =>
    obtain ⟨hnext, hfirst⟩ := hready.saveEntry hstart hneeded
    obtain ⟨hlast, hrest⟩ := ih hnext
    refine ⟨hlast, fun write hwrite => ?_⟩
    rcases mem_append.mp hwrite with hnow | hlater
    · exact hfirst write hnow
    · exact hrest write hlater

end

theorem Ready.run (hready : Ready scanner start state)
    (hstart : scanner.configurescanroutine = some start)
    (hneeded : scanner.needed ≤ start.current.found) (found : List Match) :
    ∀ write ∈ answers scanner.StoreResultRoutine state found,
      write.found ≤ scanner.maxfound ∧
        write.offset + write.length ≤ write.capacity := by
  induction found generalizing state with
  | nil => exact fun _ hwrite => nomatch hwrite
  | cons found rest ih =>
    obtain ⟨hnext, hfirst⟩ := hready.saveEntries hstart hneeded
      (scanner.entries found)
    intro write hwrite
    rcases mem_append.mp hwrite with hnow | hlater
    · exact hfirst write hnow
    · exact ih hnext write hlater

def single : Match where
  valid := fun _ => true
  binaryresults := [true]
  typesmatch := fun type => type = .vtByte
  customtypesmatch := []

theorem entries_single : scanner.entries single = 1 := by
  unfold Scanner.entries
  cases scanner.variableType <;>
    simp [single, Scanner.allTypes]

theorem store_single (state : State) :
    scanner.StoreResultRoutine state single = scanner.saveEntry state := by
  unfold Scanner.StoreResultRoutine
  rw [entries_single]
  simp [Scanner.saveEntries]

theorem final_singles {count : ℕ} (hzero : state.found = 0)
    (hlt : count < scanner.maxfound) :
    final scanner.StoreResultRoutine state (List.replicate count single) =
      { state with found := count } := by
  suffices hall : ∀ (count : ℕ) (state : State),
      state.found + count < scanner.maxfound →
        final scanner.StoreResultRoutine state (List.replicate count single) =
          { state with found := state.found + count } by
    have hfinal := hall count state (by omega)
    rwa [hzero, Nat.zero_add] at hfinal
  intro count
  induction count with
  | zero => exact fun _ _ => rfl
  | succ count ih =>
    intro state hless
    have hstep : (scanner.StoreResultRoutine state single).1 =
        { state with found := state.found + 1 } := by
      rw [store_single]
      exact if_neg (by dsimp only; omega)
    rw [replicate_succ, final, hstep, ih _ (by dsimp only; omega)]
    dsimp only
    rw [Nat.add_assoc, Nat.add_comm 1]


theorem configurescanroutine_eq (hnonneg : ¬ scanner.FoundBufferSize < 0) :
    scanner.configurescanroutine = some
      { current :=
          { address := scanner.maxfound * scanner.addressEntry
            found := scanner.FoundBufferSize.toNat }
        secondary :=
          { address := scanner.maxfound * scanner.secondaryAddressEntry
            found := scanner.FoundBufferSize.toNat }
        found := 0 } :=
  if_neg hnonneg

/-- The address buffer is too small for one entry, or the found buffer for the
last one before the flush. -/
theorem Scanner.NeverOverflows.fits (hnever : scanner.NeverOverflows) :
    scanner.Fits := by
  unfold Fits
  by_cases hneg : scanner.FoundBufferSize < 0
  · exact .inl (FoundBufferSize_neg_iff.mp hneg)
  · right
    have hrun := hnever _ (configurescanroutine_eq hneg)
    have hmax : 0 < scanner.maxfound := by
      have hwrites := hrun [single]
      rw [answers, store_single] at hwrites
      have haddress := (hwrites _ (mem_append_left _
        (mem_cons_self ..))).2
      have hpos := @addressEntry_pos scanner
      by_contra hzero
      have hnone : scanner.maxfound = 0 := by omega
      simp only [hnone, Nat.zero_mul] at haddress
      omega
    refine ⟨hmax, (needed_le_iff (not_lt.mp hneg)).mp ?_⟩
    have hwrites := hrun
      (List.replicate (scanner.maxfound - 1) single ++ [single])
    rw [ObservedRun.answers_append, final_singles rfl (by omega), answers,
      store_single] at hwrites
    have hlast := (hwrites _ (mem_append_right _ (mem_append_left _
      (mem_cons_of_mem _ (mem_cons_self ..))))).2
    dsimp only at hlast
    rw [← Nat.succ_mul, Nat.succ_eq_add_one, Nat.sub_add_cancel hmax] at hlast
    exact hlast

end

/-- The save routines never write behind a buffer, whatever is found, exactly
when there is room for the values of `maxfound` entries. -/
theorem neverOverflows_iff (scanner : Scanner) :
    scanner.NeverOverflows ↔ scanner.Fits := by
  refine ⟨fun hnever => hnever.fits, ?_⟩
  rintro hfits start hstart
  have hnonneg : ¬ scanner.FoundBufferSize < 0 := by
    intro hneg
    unfold Scanner.configurescanroutine at hstart
    rw [if_pos hneg] at hstart
    cases hstart
  rcases hfits with hhigh | ⟨hmax, hle⟩
  · exact absurd (FoundBufferSize_neg_iff.mpr hhigh) hnonneg
  · refine fun found => (configured_ready hmax hstart).run hstart ?_ found
    rw [configurescanroutine_eq hnonneg] at hstart
    cases hstart
    exact (needed_le_iff (not_lt.mp hnonneg)).mpr hle

def wideBuffer : Scanner where
  variableType := .vtCustom
  buffersize := 4096 * 1024
  customsize := 8
  customInAll := false
  customtypes := [8]
  MaxCustomTypeSize := 8
  groupdatalength := 0

theorem not_neverOverflows : ¬ wideBuffer.NeverOverflows := by
  intro hnever
  rcases hnever.fits with hhigh | ⟨-, hle⟩
  · exact absurd hhigh (by decide)
  · exact absurd hle (by decide)

end ScanResultBuffers
end CheatEngine
