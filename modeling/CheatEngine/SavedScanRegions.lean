import CheatEngine.MemScanSplit
import CheatEngine.ObservedRun

/-!
# Looking up addresses in saved regions

A scan for an unknown initial value is saved as a list of regions and one file
with the bytes of all of them.  `getpointertoaddress` keeps one region in
memory and moves forward to the first region that does not end before the
address.  It does not look at the start of that region.
-/

namespace CheatEngine
namespace SavedScanRegions

open List

open MemScan (MemoryRegion)
open ObservedRun (AllowedRun)

/-- A saved scan.  `behind` is what is found in memory where the array of
regions has ended.  `maxregionsize`, the size of the buffer for one region, is
an integer. -/
structure SavedScan where
  regions : List MemoryRegion
  behind : ℕ → MemoryRegion
  AllowRandomAccess : Bool
  AllowNotFound : Bool
  ordered : regions.Pairwise fun first second =>
    first.stop ≤ second.BaseAddress
  stop_lt : ∀ region ∈ regions, region.stop < 2 ^ 64
  size_lt : ∀ region ∈ regions, region.MemorySize < 2 ^ 31

/-- What `loadCurrentRegionMemory` read: `size` bytes of the file. -/
structure Loaded where
  position : ℕ
  size : ℕ
deriving DecidableEq, Repr

/-- `currentRegion` is `none` for -1. -/
structure State where
  currentRegion : Option ℕ
  SavedScanmemory : Option Loaded
deriving DecidableEq, Repr

inductive Answer
  | pointer (offset : ℤ)
  | nil
  | exception
deriving DecidableEq, Repr

namespace SavedScan

variable (scan : SavedScan)

def maxnumberofregions : ℕ :=
  scan.regions.length

def region (index : ℕ) : MemoryRegion :=
  scan.regions.getD index (scan.behind index)

/-- `pm[index].baseaddress+pm[index].memorysize`. -/
def regionEnd (index : ℕ) : ℕ :=
  ((scan.region index).BaseAddress + (scan.region index).MemorySize) % 2 ^ 64

def startaddress (index : ℕ) : ℕ :=
  ((scan.regions.take index).map MemoryRegion.MemorySize).sum

/-- The loop that goes forward; the first argument is the number of regions
that are left. -/
def skipRegions (address : ℕ) : ℕ → ℕ → ℕ
  | 0, index => index
  | remaining + 1, index =>
    if scan.regionEnd index < address then
      skipRegions address remaining (index + 1)
    else
      index

def pointerInto (index address : ℕ) : Answer :=
  .pointer ((address : ℤ) - (scan.region index).BaseAddress)

def findRegion (address first : ℕ) (state : State) : State × Answer :=
  let currentregion := scan.skipRegions address
    (scan.maxnumberofregions - first) first
  if scan.maxnumberofregions ≤ currentregion then
    ({ state with currentRegion := some currentregion },
      if scan.AllowNotFound then .nil else .exception)
  else
    ({ currentRegion := some currentregion
       SavedScanmemory := some
         { position := scan.startaddress currentregion
           size := (scan.region currentregion).MemorySize } },
      scan.pointerInto currentregion address)

def getpointertoaddress (state : State) (address : ℕ) : State × Answer :=
  match state.currentRegion with
  | none => scan.findRegion address 0 state
  | some current =>
    if scan.AllowRandomAccess ∧
        address < (scan.region current).BaseAddress then
      scan.findRegion address 0 state
    else if scan.regionEnd current < address then
      scan.findRegion address (current + 1) state
    else
      (state, scan.pointerInto current address)

def call (state : State) (address : ℕ) : State × List Answer :=
  let result := scan.getpointertoaddress state address
  (result.1, [result.2])

def initialized : State where
  currentRegion := none
  SavedScanmemory := none

/-! ## What the calls should answer -/

def Saved (address : ℕ) : Prop :=
  ∃ region ∈ scan.regions,
    region.BaseAddress ≤ address ∧ address < region.stop

def SavedAt (address position : ℕ) : Prop :=
  ∃ index, ∃ hindex : index < scan.regions.length,
    (scan.regions[index]).BaseAddress ≤ address ∧
      address < (scan.regions[index]).stop ∧
      position = scan.startaddress index +
        (address - (scan.regions[index]).BaseAddress)

/-- A pointer to the byte saved for the address, inside of what is loaded, if
the address is in a saved region; else a failure. -/
def Answers (address : ℕ) : State × Answer → Prop
  | (after, .pointer offset) => ∃ loaded, after.SavedScanmemory = some loaded ∧
      0 ≤ offset ∧ offset < loaded.size ∧
      scan.SavedAt address (loaded.position + offset.toNat)
  | (_, .nil) => scan.AllowNotFound = true ∧ ¬ scan.Saved address
  | (_, .exception) => scan.AllowNotFound = false ∧ ¬ scan.Saved address

def AnswersRight (state : State) (address : ℕ) : Prop :=
  scan.Answers address (scan.getpointertoaddress state address)

/-- The array of regions is read behind its end.  The condition of the loop
reads `pm[currentregion]` before it compares the index with the number of
regions. -/
def ReadsBehind (state : State) (address : ℕ) : Prop :=
  (∃ current, state.currentRegion = some current ∧
    scan.maxnumberofregions ≤ current) ∨
  ∃ current, (scan.getpointertoaddress state address).1.currentRegion =
    some current ∧ scan.maxnumberofregions ≤ current

def AnswersSafely (state : State) (address : ℕ) : Prop :=
  scan.AnswersRight state address ∧ ¬ scan.ReadsBehind state address

def InsideOne (address : ℕ) : Prop :=
  scan.Saved address ∧ ∀ region ∈ scan.regions, region.stop ≠ address

def Clear (address : ℕ) : Prop :=
  scan.InsideOne address ∨ ∀ region ∈ scan.regions, region.stop < address

/-- After a failure `currentRegion` is behind the list.  What is read there
must not look like a region that reaches to the address. -/
def Behind (state : State) (address : ℕ) : Prop :=
  ∀ current, state.currentRegion = some current →
    scan.maxnumberofregions ≤ current →
      scan.regionEnd current < address ∨
        (scan.AllowRandomAccess = true ∧
          address < (scan.region current).BaseAddress)

def Allowed (state : State) (address : ℕ) : Prop :=
  scan.Clear address ∧ scan.Behind state address

end SavedScan

section

variable {scan : SavedScan} {state : State} {address : ℕ}

variable {index : ℕ}

theorem region_eq_getElem (hindex : index < scan.regions.length) :
    scan.region index = scan.regions[index] := by
  rw [SavedScan.region, getD_eq_getElem?_getD,
    getElem?_eq_getElem hindex, Option.getD_some]

theorem regionEnd_eq (hindex : index < scan.regions.length) :
    scan.regionEnd index = (scan.regions[index]).stop := by
  have hlt := scan.stop_lt _ (getElem_mem hindex)
  rw [SavedScan.regionEnd, region_eq_getElem hindex]
  exact Nat.mod_eq_of_lt hlt

theorem stop_le_base {first second : ℕ} (hlt : first < second)
    (hsecond : second < scan.regions.length) :
    (getElem scan.regions first (hlt.trans hsecond)).stop ≤
      (scan.regions[second]).BaseAddress :=
  pairwise_iff_getElem.mp scan.ordered first second
    (hlt.trans hsecond) hsecond hlt

theorem skipRegions_spec (remaining first : ℕ) :
    first ≤ scan.skipRegions address remaining first ∧
      scan.skipRegions address remaining first ≤ first + remaining ∧
      (∀ index, first ≤ index →
        index < scan.skipRegions address remaining first →
          scan.regionEnd index < address) ∧
      (scan.skipRegions address remaining first < first + remaining →
        address ≤ scan.regionEnd
          (scan.skipRegions address remaining first)) := by
  induction remaining generalizing first with
  | zero =>
    unfold SavedScan.skipRegions
    refine ⟨le_rfl, le_rfl, ?_, ?_⟩ <;> omega
  | succ remaining ih =>
    unfold SavedScan.skipRegions
    split
    · rename_i hskip
      obtain ⟨hfirst, hlast, hskipped, hfound⟩ := ih (first + 1)
      refine ⟨by omega, by omega, ?_, fun hlt => hfound (by omega)⟩
      intro index hindex hlt
      rcases hindex.eq_or_lt with rfl | hafter
      · exact hskip
      · exact hskipped index hafter hlt
    · rename_i hstop
      exact ⟨le_rfl, by omega, by omega, fun _ => not_lt.mp hstop⟩

def EndsBefore (scan : SavedScan) (address index : ℕ) : Prop :=
  ∀ earlier, ∀ hlt : earlier < scan.regions.length, earlier < index →
    (scan.regions[earlier]).stop < address

/-- The first region that does not end before the address. -/
structure First (scan : SavedScan) (address index : ℕ) : Prop where
  lt : index < scan.regions.length
  le_stop : address ≤ (scan.regions[index]).stop
  before : EndsBefore scan address index

theorem First.saved_iff (hfirst : First scan address index)
    (hstop : (getElem scan.regions index hfirst.lt).stop ≠ address) :
    scan.Saved address ↔
      (getElem scan.regions index hfirst.lt).BaseAddress ≤ address := by
  obtain ⟨hlt, hle, hbefore⟩ := hfirst
  constructor
  · rintro ⟨region, hregion, hbase, hin⟩
    obtain ⟨other, hother, rfl⟩ := mem_iff_getElem.mp hregion
    rcases lt_trichotomy other index with hearlier | rfl | hlater
    · have hend := hbefore other hother hearlier
      omega
    · exact hbase
    · have hend := stop_le_base hlater hother
      omega
  · intro hbase
    exact ⟨_, getElem_mem hlt, hbase, by omega⟩

theorem First.clear_iff (hfirst : First scan address index) :
    scan.Clear address ↔
      (getElem scan.regions index hfirst.lt).BaseAddress ≤ address ∧
        address < (getElem scan.regions index hfirst.lt).stop := by
  have hmem := getElem_mem hfirst.lt
  have hle := hfirst.le_stop
  constructor
  · rintro (⟨hsaved, hends⟩ | hall)
    · have hstop := hends _ hmem
      exact ⟨(hfirst.saved_iff hstop).mp hsaved, by omega⟩
    · have hstop := hall _ hmem
      omega
  · rintro ⟨hbase, hin⟩
    left
    refine ⟨⟨_, hmem, hbase, hin⟩, ?_⟩
    intro region hregion
    obtain ⟨other, hother, rfl⟩ := mem_iff_getElem.mp hregion
    rcases lt_trichotomy other index with hearlier | rfl | hlater
    · exact (hfirst.before other hother hearlier).ne
    · exact hin.ne'
    · have hend := stop_le_base hlater hother
      have hstop : (scan.regions[other]).BaseAddress ≤
          (scan.regions[other]).stop := Nat.le_add_right _ _
      omega

def loadedRegion (scan : SavedScan) (index : ℕ) : Loaded where
  position := scan.startaddress index
  size := (scan.region index).MemorySize

theorem First.answers_iff (hfirst : First scan address index)
    (hloaded : state.SavedScanmemory = some (loadedRegion scan index)) :
    scan.Answers address (state, scan.pointerInto index address) ↔
      scan.Clear address := by
  have hregion := region_eq_getElem hfirst.lt
  rw [hfirst.clear_iff]
  constructor
  · rintro ⟨loaded, hsome, hnonneg, hlt, -⟩
    cases hloaded.symm.trans hsome
    unfold loadedRegion at hlt
    rw [hregion] at hnonneg hlt
    unfold MemoryRegion.stop
    dsimp only at hlt
    omega
  · rintro ⟨hbase, hin⟩
    refine ⟨_, hloaded, ?_, ?_, index, hfirst.lt, hbase, hin, ?_⟩
    · rw [hregion]
      omega
    · unfold loadedRegion
      rw [hregion]
      unfold MemoryRegion.stop at hin
      dsimp only
      omega
    · unfold loadedRegion
      rw [hregion]
      dsimp only
      omega

theorem answers_missed
    (hmissed : EndsBefore scan address scan.maxnumberofregions) :
    scan.Answers address
        (state, if scan.AllowNotFound then .nil else .exception) ∧
      scan.Clear address := by
  have hall : ∀ region ∈ scan.regions, region.stop < address := by
    intro region hregion
    obtain ⟨index, hindex, rfl⟩ := mem_iff_getElem.mp hregion
    exact hmissed index hindex hindex
  have hnot : ¬ scan.Saved address := by
    rintro ⟨region, hregion, -, hlt⟩
    have hstop := hall region hregion
    omega
  refine ⟨?_, .inr hall⟩
  cases hallow : scan.AllowNotFound with
  | true => exact ⟨hallow, hnot⟩
  | false => exact ⟨hallow, hnot⟩

/-! ## One call -/

/-- What is known before a call for an address that is not below `last`. -/
structure Ready (scan : SavedScan) (last : ℕ) (state : State) : Prop where
  inside : ∀ current, state.currentRegion = some current →
    ∀ hlt : current < scan.regions.length,
      EndsBefore scan last current ∧
        (scan.regions[current]).BaseAddress ≤ last ∧
        state.SavedScanmemory = some (loadedRegion scan current)
  missed : ∀ current, state.currentRegion = some current →
    scan.maxnumberofregions ≤ current →
      EndsBefore scan last scan.maxnumberofregions

theorem EndsBefore.mono {last : ℕ} (hends : EndsBefore scan last index)
    (hle : last ≤ address) : EndsBefore scan address index :=
  fun earlier hlt hearlier => (hends earlier hlt hearlier).trans_le hle

theorem ready_initialized : Ready scan address SavedScan.initialized :=
  ⟨fun _ hcurrent => (nomatch hcurrent), fun _ hcurrent =>
    (nomatch hcurrent)⟩

theorem findRegion_spec {first : ℕ} (hbefore : EndsBefore scan address first) :
    (scan.Answers address (scan.findRegion address first state) ↔
      scan.Clear address) ∧
      (scan.Clear address →
        Ready scan address (scan.findRegion address first state).1) := by
  obtain ⟨hge, hle, hskipped, hfound⟩ := @skipRegions_spec scan address
    (scan.maxnumberofregions - first) first
  have hends : EndsBefore scan address (scan.skipRegions address
      (scan.maxnumberofregions - first) first) := by
    intro earlier hlt hearlier
    rcases lt_or_ge earlier first with hold | hnew
    · exact hbefore earlier hlt hold
    · rw [← regionEnd_eq hlt]
      exact hskipped earlier hnew hearlier
  unfold SavedScan.findRegion
  dsimp only
  split
  · rename_i hnone
    have hmissed : EndsBefore scan address scan.maxnumberofregions :=
      fun earlier hlt _ => hends earlier hlt (hlt.trans_le hnone)
    obtain ⟨hanswers, hclear⟩ := @answers_missed scan
      { state with currentRegion := some (scan.skipRegions address
        (scan.maxnumberofregions - first) first) } address hmissed
    refine ⟨iff_of_true hanswers hclear, fun _ => ⟨?_, ?_⟩⟩
    · intro current hcurrent hlt
      cases hcurrent
      exact absurd hlt hnone.not_gt
    · exact fun _ _ _ => hmissed
  · rename_i hsome
    have hlt : scan.skipRegions address (scan.maxnumberofregions - first)
        first < scan.regions.length := not_le.mp hsome
    have hregion : First scan address (scan.skipRegions address
        (scan.maxnumberofregions - first) first) := by
      refine ⟨hlt, ?_, hends⟩
      rw [← regionEnd_eq hlt]
      unfold SavedScan.maxnumberofregions at hfound hlt ⊢
      exact hfound (by omega)
    refine ⟨hregion.answers_iff rfl, fun hclear => ⟨?_, ?_⟩⟩
    · intro current hcurrent _
      cases hcurrent
      exact ⟨hends, (hregion.clear_iff.mp hclear).1, rfl⟩
    · intro current hcurrent hcount
      cases hcurrent
      exact absurd hcount hsome

theorem endsBefore_zero : EndsBefore scan address 0 :=
  fun _ _ hearlier => absurd hearlier (Nat.not_lt_zero _)

theorem call_spec {last : ℕ} (hready : Ready scan last state)
    (hle : last ≤ address) :
    (scan.AnswersRight state address ↔ scan.Allowed state address) ∧
      (scan.Allowed state address →
        Ready scan address (scan.getpointertoaddress state address).1) := by
  unfold SavedScan.AnswersRight SavedScan.getpointertoaddress
    SavedScan.Allowed SavedScan.Behind
  cases hcurrent : state.currentRegion with
  | none =>
    obtain ⟨hanswers, hnext⟩ := @findRegion_spec scan state address 0
      endsBefore_zero
    refine ⟨hanswers.trans ?_, fun hallowed => hnext hallowed.1⟩
    simp
  | some current =>
    simp only [Option.some.injEq, forall_eq']
    by_cases hin : current < scan.regions.length
    · obtain ⟨hbefore, hbase, hloaded⟩ :=
        hready.inside current hcurrent hin
      have hcount : ¬ scan.maxnumberofregions ≤ current := not_le.mpr hin
      have hrandom : ¬ (scan.AllowRandomAccess = true ∧
          address < (scan.region current).BaseAddress) := by
        rw [region_eq_getElem hin]
        omega
      have hends := hbefore.mono hle
      rw [if_neg hrandom]
      simp only [hcount, false_imp_iff, and_true]
      split
      · rename_i hpassed
        have hpassedEnds : EndsBefore scan address (current + 1) := by
          intro earlier hlt hearlier
          rcases Nat.lt_succ_iff_lt_or_eq.mp hearlier with hold | rfl
          · exact hends earlier hlt hold
          · rw [← regionEnd_eq hlt]
            exact hpassed
        exact findRegion_spec hpassedEnds
      · rename_i hstay
        have hregion : First scan address current := by
          refine ⟨hin, ?_, hends⟩
          rw [← regionEnd_eq hin]
          exact not_lt.mp hstay
        refine ⟨hregion.answers_iff hloaded, fun hclear => ⟨?_, ?_⟩⟩
        · intro other hother _
          cases hcurrent.symm.trans hother
          exact ⟨hends, (hregion.clear_iff.mp hclear).1, hloaded⟩
        · intro other hother hother'
          cases hcurrent.symm.trans hother
          exact absurd hother' hcount
    · have hcount : scan.maxnumberofregions ≤ current := not_lt.mp hin
      have hmissed := (hready.missed current hcurrent hcount).mono hle
      have hclear := (@answers_missed scan state address hmissed).2
      simp only [hclear, hcount, true_and, true_imp_iff]
      by_cases hrandom : scan.AllowRandomAccess = true ∧
          address < (scan.region current).BaseAddress
      · obtain ⟨hanswers, hnext⟩ := @findRegion_spec scan state address 0
          endsBefore_zero
        rw [if_pos hrandom]
        exact ⟨iff_of_true (hanswers.mpr hclear) (.inr hrandom),
          fun _ => hnext hclear⟩
      · rw [if_neg hrandom]
        split
        · rename_i hpassed
          have hpassedEnds : EndsBefore scan address (current + 1) :=
            fun earlier hlt _ => hmissed earlier hlt hlt
          obtain ⟨hanswers, hnext⟩ :=
            @findRegion_spec scan state address _ hpassedEnds
          exact ⟨iff_of_true (hanswers.mpr hclear) (.inl hpassed),
            fun _ => hnext hclear⟩
        · rename_i hstay
          have hnot : ¬ (scan.regionEnd current < address ∨
              scan.AllowRandomAccess = true ∧
                address < (scan.region current).BaseAddress) :=
            not_or.mpr ⟨hstay, hrandom⟩
          refine ⟨iff_of_false ?_ hnot, fun hallowed => absurd hallowed hnot⟩
          rintro ⟨loaded, -, -, -, other, hother, hbase, hlt, -⟩
          have hend := hmissed other hother hother
          omega

end

/-! ## All calls -/

section

variable {scan : SavedScan} {state : State} {last address : ℕ}

theorem behind_of_fails
    (hfails : ∀ offset, (scan.getpointertoaddress state address).2 ≠
      .pointer offset) :
    ∃ current, (scan.getpointertoaddress state address).1.currentRegion =
      some current ∧ scan.maxnumberofregions ≤ current := by
  have hfind : ∀ first, (∀ offset, (scan.findRegion address first state).2 ≠
      .pointer offset) →
      ∃ current, (scan.findRegion address first state).1.currentRegion =
        some current ∧ scan.maxnumberofregions ≤ current := by
    intro first hnone
    unfold SavedScan.findRegion at hnone ⊢
    dsimp only at hnone ⊢
    split at hnone
    · rename_i hmissed
      rw [if_pos hmissed]
      exact ⟨_, rfl, hmissed⟩
    · exact absurd rfl (hnone _)
  unfold SavedScan.getpointertoaddress at hfails ⊢
  cases hcurrent : state.currentRegion with
  | none =>
    simp only [hcurrent] at hfails
    exact hfind _ hfails
  | some current =>
    simp only [hcurrent] at hfails ⊢
    split at hfails
    · rename_i hrandom
      rw [if_pos hrandom]
      exact hfind _ hfails
    · rename_i hrandom
      rw [if_neg hrandom]
      split at hfails
      · rename_i hpassed
        rw [if_pos hpassed]
        exact hfind _ hfails
      · exact absurd rfl (hfails _)

theorem not_pointer_of_not_saved (hsaved : ¬ scan.Saved address)
    (hright : scan.AnswersRight state address) (offset : ℤ) :
    (scan.getpointertoaddress state address).2 ≠ .pointer offset := by
  intro hpointer
  have hanswers : scan.Answers address
      ((scan.getpointertoaddress state address).1, .pointer offset) := by
    rw [← hpointer]
    exact hright
  obtain ⟨-, -, -, -, index, hindex, hbase, hlt, -⟩ := hanswers
  exact hsaved ⟨_, getElem_mem hindex, hbase, hlt⟩

theorem answersSafely_iff (hready : Ready scan last state)
    (hle : last ≤ address)
    (hinside : ∀ current, state.currentRegion = some current →
      current < scan.maxnumberofregions) :
    scan.AnswersSafely state address ↔ scan.InsideOne address := by
  obtain ⟨hanswers, hnext⟩ := call_spec hready hle
  have hbehind : scan.Behind state address := fun current hcurrent hcount =>
    absurd (hinside current hcurrent) hcount.not_gt
  constructor
  · rintro ⟨hright, hreads⟩
    rcases (hanswers.mp hright).1 with hone | hall
    · exact hone
    · have hnot : ¬ scan.Saved address := by
        rintro ⟨region, hregion, -, hlt⟩
        have hstop := hall region hregion
        omega
      exact absurd (.inr (behind_of_fails
        (not_pointer_of_not_saved hnot hright))) hreads
  · intro hone
    have hallowed : scan.Allowed state address := ⟨.inl hone, hbehind⟩
    refine ⟨hanswers.mpr hallowed, ?_⟩
    rintro (⟨current, hcurrent, hcount⟩ | ⟨current, hcurrent, hcount⟩)
    · exact absurd (hinside current hcurrent) hcount.not_gt
    · obtain ⟨⟨region, hregion, -, hlt⟩, -⟩ := hone
      obtain ⟨index, hindex, rfl⟩ := mem_iff_getElem.mp hregion
      have hstop := (hnext hallowed).missed current hcurrent hcount
        index hindex hindex
      omega

theorem calls_safely_iff (hready : Ready scan last state)
    (hinside : ∀ current, state.currentRegion = some current →
      current < scan.maxnumberofregions) {addresses : List ℕ}
    (hascending : (last :: addresses).Pairwise (· ≤ ·)) :
    AllowedRun scan.call scan.AnswersSafely state addresses ↔
      ∀ address ∈ addresses, scan.InsideOne address := by
  induction addresses generalizing last state with
  | nil => simp [AllowedRun]
  | cons address rest ih =>
    obtain ⟨hlast, hrest⟩ := pairwise_cons.mp hascending
    have hle := hlast address (mem_cons_self ..)
    rw [AllowedRun, forall_mem_cons]
    constructor
    · rintro ⟨⟨hright, hreads⟩, hlater⟩
      have hallowed := (call_spec hready hle).1.mp hright
      refine ⟨(answersSafely_iff hready hle hinside).mp ⟨hright, hreads⟩,
        (ih ((call_spec hready hle).2 hallowed) ?_ hrest).mp hlater⟩
      intro current hcurrent
      exact not_le.mp fun hcount => hreads (.inr ⟨current, hcurrent, hcount⟩)
    · rintro ⟨hone, hlater⟩
      have hsafe := (answersSafely_iff hready hle hinside).mpr hone
      have hallowed := (call_spec hready hle).1.mp hsafe.1
      refine ⟨hsafe, (ih ((call_spec hready hle).2 hallowed) ?_
        hrest).mpr hlater⟩
      intro current hcurrent
      exact not_le.mp fun hcount =>
        hsafe.2 (.inr ⟨current, hcurrent, hcount⟩)

theorem calls_right_iff (hready : Ready scan last state) {addresses : List ℕ}
    (hascending : (last :: addresses).Pairwise (· ≤ ·)) :
    AllowedRun scan.call scan.AnswersRight state addresses ↔
      AllowedRun scan.call scan.Allowed state addresses := by
  induction addresses generalizing last state with
  | nil => exact Iff.rfl
  | cons address rest ih =>
    obtain ⟨hlast, hrest⟩ := pairwise_cons.mp hascending
    obtain ⟨hanswers, hnext⟩ :=
      call_spec hready (hlast address (mem_cons_self ..))
    rw [AllowedRun, AllowedRun, hanswers]
    exact and_congr_right fun hallowed => ih (hnext hallowed) hrest

end

/-- Lookups of addresses that do not go down are right, and read nothing
outside of the array of regions, exactly when every address is in a region and
not the end of another one.  Apart from that read they are right also for
addresses behind all regions, as long as what follows the array does not look
like a region. -/
theorem getpointertoaddress_iff (scan : SavedScan) {addresses : List ℕ}
    (hascending : addresses.Pairwise (· ≤ ·)) :
    (AllowedRun scan.call scan.AnswersSafely SavedScan.initialized addresses ↔
      ∀ address ∈ addresses, scan.InsideOne address) ∧
    (AllowedRun scan.call scan.AnswersRight SavedScan.initialized addresses ↔
      AllowedRun scan.call scan.Allowed SavedScan.initialized
        addresses) := by
  have hready := @ready_initialized scan 0
  have hordered : (0 :: addresses).Pairwise (· ≤ ·) :=
    pairwise_cons.mpr ⟨fun _ _ => Nat.zero_le _, hascending⟩
  exact ⟨calls_safely_iff hready (fun _ hcurrent => nomatch hcurrent)
    hordered, calls_right_iff hready hordered⟩

def twoPages : SavedScan where
  regions := [⟨0x1000, 0x1000⟩, ⟨0x2000, 0x1000⟩]
  behind := fun _ => ⟨0, 0⟩
  AllowRandomAccess := false
  AllowNotFound := true
  ordered := by decide
  stop_lt := by decide
  size_lt := by decide

theorem getpointertoaddress_twoPages :
    AllowedRun twoPages.call twoPages.AnswersSafely SavedScan.initialized
      [0x1ffc, 0x2004] := by
  rw [(getpointertoaddress_iff twoPages (by decide)).1]
  intro address haddress
  have hcases : address = 0x1ffc ∨ address = 0x2004 := by
    simpa using haddress
  rcases hcases with rfl | rfl
  · exact ⟨⟨_, mem_cons_self .., by decide, by decide⟩, by decide⟩
  · exact ⟨⟨_, mem_cons_of_mem _ (mem_cons_self ..), by decide,
      by decide⟩, by decide⟩

theorem not_getpointertoaddress :
    ¬ AllowedRun twoPages.call twoPages.AnswersRight SavedScan.initialized
      [0x2000] := by
  rintro ⟨hanswers, -⟩
  obtain ⟨loaded, hloaded, -, hlt, -⟩ := hanswers
  cases Option.some.inj hloaded
  exact absurd hlt (by decide)

end SavedScanRegions
end CheatEngine
