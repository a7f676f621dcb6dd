import CheatEngine.SavedScanAddresses

/-!
# Lookups in a saved list in any order

With random access an address before the loaded chunk, or behind the end of
the list, makes the handler start again from the beginning.  When that does not
help the answer is `nil`, and the handler is left at the end of the list with
an empty chunk.
-/

namespace CheatEngine
namespace SavedScanAddresses

open ObservedRun (AllowedRun)

namespace SavedList

variable (list : SavedList)

/-- The list is not empty, and where no chunk is left to load the address is
before the last chunk. -/
def Recovers (state : State) (address : ℕ) : Prop :=
  list.addresses ≠ [] ∧ ∀ chunk ∈ state.addresslist,
    chunk.count = 0 → ∀ head ∈ list.addressAt chunk 0, address < head

instance (state : State) (address : ℕ) :
    Decidable (list.Recovers state address) :=
  inferInstanceAs (Decidable (_ ∧ ∀ chunk ∈ state.addresslist, _))

end SavedList

/-! ## Lookups in any order -/

section

variable {list : SavedList} {valuetype : VariableType} {state : State}
  {chunk : Chunk} {address : ℕ}

/-- Before a call with random access: no chunk, a placed one, or none left. -/
def Known (list : SavedList) (valuetype : VariableType) (state : State) :
    Prop :=
  (state.addresslist = none ∧ state.position = 0) ∨
    (∃ chunk, Placed list valuetype chunk state) ∨ Exhausted list state

/-- A pass from the first entry of a placed chunk on answers, or restarts when
the address is before the chunk or behind the list. -/
theorem Placed.searchFrom_answers
    (hplaced : Placed list valuetype chunk state) (hindex : state.index = 0)
    (hsize : list.varsize valuetype = list.savedsize)
    (hallow : list.AllowNotFound = true) (address : ℕ) :
    (∃ result, list.searchFrom valuetype state address =
        .answered result.1 result.2 ∧
      list.Answers address result ∧ Known list valuetype result.1) ∨
    (∃ next, list.searchFrom valuetype state address = .restart next ∧
      Known list valuetype next ∧
      ((∀ head ∈ list.addressAt chunk 0, address < head) ∨
        ∀ entry ∈ list.addresses, entry < address)) := by
  have hpass := hplaced.searchFrom_pass address
  generalize list.searchFrom valuetype state address = pass at hpass ⊢
  have hlookup : ∀ later next, Placed list valuetype later next →
      next.index = 0 →
      (address ∈ list.addresses →
        ∀ head ∈ list.addressAt later 0, head ≤ address) →
      (∀ last ∈ list.lastAddress later, address ≤ last) →
      list.Answers address (list.lookup valuetype next later address) ∧
        Known list valuetype
          (list.lookup valuetype next later address).1 := by
    intro later next hlater hzero hhead hlast
    have hpos := hlater.loaded.count_pos
    have hstop := hlater.loaded.stop_le
    rcases hlater.lookup_spec address with hfound | ⟨hmissed, hnone⟩
    · exact ⟨hfound.answers hsize, .inr (.inl ⟨_, hfound.placed⟩)⟩
    · rw [hmissed, if_pos hallow]
      refine ⟨fun hmem => ?_, .inr (.inl ⟨_, hlater⟩)⟩
      have hlow := hhead hmem _ (hlater.loaded.addressAt_eq hpos)
      have habove := hlast _ hlater.loaded.lastAddress_eq
      obtain ⟨entry, hfirst, hle, hat⟩ := exists_between (by omega)
        (by omega) hlow habove hmem
      exact hnone entry (by omega) (by omega) hat
  cases hpass with
  | before hbefore =>
    exact .inr ⟨_, rfl, .inr (.inl ⟨_, hplaced⟩), .inl hbefore⟩
  | inside hhead hlast =>
    exact .inl ⟨_, rfl,
      hlookup chunk state hplaced hindex (fun _ => hhead) hlast⟩
  | behind next hexhausted hpassed hbehind =>
    exact .inr ⟨_, rfl, .inr (.inr hexhausted), .inr hbehind⟩
  | ahead next later hlater hzero hpassed hlast hbefore =>
    refine .inl ⟨_, rfl, hlookup later next hlater hzero ?_ hlast⟩
    intro hmem head hhead
    obtain ⟨entry, hentry, hat⟩ := List.mem_iff_getElem.mp hmem
    have hafter : later.first ≤ entry := by
      by_contra hearlier
      have hless := hbefore entry (by omega) _
        (List.getElem?_eq_getElem hentry)
      omega
    have hpos := hlater.loaded.count_pos
    rw [hlater.loaded.addressAt_eq hpos] at hhead
    cases hhead
    rw [← hat]
    exact addresses_le hafter hentry
  | unread next hpassed hne => exact absurd hsize hne

theorem attempt_fresh (hsome : list.addresses ≠ [])
    (hinitial : state.addresslist = none ∧ state.position = 0)
    (hsize : list.varsize valuetype = list.savedsize)
    (hallow : list.AllowNotFound = true) (address : ℕ) :
    (∃ result, list.attempt valuetype state address =
        .answered result.1 result.2 ∧
      list.Answers address result ∧ Known list valuetype result.1) ∨
    (∃ next, list.attempt valuetype state address = .restart next ∧
      Known list valuetype next ∧ address ∉ list.addresses) := by
  have hlength := List.length_pos_of_ne_nil hsome
  rcases attempt_initial address hinitial hsome with
    ⟨loaded, hplaced, hindex, hattempt, -⟩ | ⟨next, -, hshort⟩
  · rw [hattempt]
    rcases hplaced.searchFrom_answers hindex hsize hallow address with
      hanswers | ⟨next, hnext, hknown, hout⟩
    · exact .inl hanswers
    · refine .inr ⟨next, hnext, hknown, fun hmem => ?_⟩
      rcases hout with hbefore | hbehind
      · have hhead := hbefore _
          (hplaced.loaded.addressAt_eq hplaced.loaded.count_pos)
        exact absurd (head_le hmem (List.getElem?_eq_getElem hlength))
          hhead.not_ge
      · exact absurd (hbehind address hmem) (lt_irrefl _)
  · have hchunk := @chunkAt_loaded list valuetype 0 hlength
    refine absurd hsize (varsize_ne_of_short hchunk ?_)
    change _ < (0 + _) * _
    rw [Nat.zero_add]
    exact hshort

theorem getpointertoaddress_of_attempt (hsome : list.addresses ≠ [])
    (hrandom : list.AllowRandomAccess = true)
    (hallow : list.AllowNotFound = true)
    (hsize : list.varsize valuetype = list.savedsize)
    (hattempt : (∃ result, list.attempt valuetype (list.forget state) address
        = .answered result.1 result.2 ∧
      list.Answers address result ∧ Known list valuetype result.1) ∨
      ∃ next, list.attempt valuetype (list.forget state) address =
        .restart next) :
    list.AnswersRight valuetype state address ∧ Known list valuetype
      (list.getpointertoaddress valuetype state address).1 := by
  unfold SavedList.AnswersRight SavedList.getpointertoaddress
  rcases hattempt with ⟨result, hattempt, hanswers, hknown⟩ | ⟨next, hattempt⟩
  · rw [hattempt]
    exact ⟨hanswers, hknown⟩
  · rw [hattempt]
    dsimp only
    rw [if_pos hrandom]
    have hinitial : (list.forget (SavedList.InitializeScanHandler
          next)).addresslist = none ∧
        (list.forget (SavedList.InitializeScanHandler next)).position = 0 := by
      unfold SavedList.forget
      rw [if_pos hrandom]
      exact ⟨rfl, rfl⟩
    rcases attempt_fresh hsome hinitial hsize hallow address with
      ⟨result, hfresh, hanswers, hknown⟩ | ⟨last, hfresh, hknown, hnot⟩
    · rw [hfresh]
      exact ⟨hanswers, hknown⟩
    · rw [hfresh]
      exact ⟨hnot, hknown⟩

theorem Known.answersRight_iff (hknown : Known list valuetype state)
    (hrandom : list.AllowRandomAccess = true)
    (hallow : list.AllowNotFound = true)
    (hsize : list.varsize valuetype = list.savedsize) (address : ℕ) :
    (list.AnswersRight valuetype state address ↔ list.Recovers state address) ∧
    (list.Recovers state address → Known list valuetype
      (list.getpointertoaddress valuetype state address).1) := by
  suffices hcases : (list.Recovers state address ∧
      ((∃ result, list.attempt valuetype (list.forget state) address =
          .answered result.1 result.2 ∧
        list.Answers address result ∧ Known list valuetype result.1) ∨
      ∃ next, list.attempt valuetype (list.forget state) address =
        .restart next)) ∨
      (¬ list.Recovers state address ∧
        ∃ next answer, list.attempt valuetype (list.forget state) address =
          .answered next answer ∧ ¬ list.Answers address (next, answer)) by
    rcases hcases with ⟨hrecovers, hattempt⟩ |
      ⟨hnot, next, answer, hattempt, hwrong⟩
    · have hboth := getpointertoaddress_of_attempt hrecovers.1 hrandom
        hallow hsize hattempt
      exact ⟨iff_of_true hboth.1 hrecovers, fun _ => hboth.2⟩
    · refine ⟨iff_of_false ?_ hnot, fun hrecovers => absurd hrecovers hnot⟩
      unfold SavedList.AnswersRight SavedList.getpointertoaddress
      rw [hattempt]
      exact hwrong
  have hforget : list.forget state = { state with index := 0 } :=
    if_pos hrandom
  rw [hforget]
  unfold SavedList.Recovers
  rcases hknown with hinitial | ⟨chunk, hplaced⟩ | hexhausted
  · by_cases hsome : list.addresses = []
    · refine .inr ⟨fun hrecovers => hrecovers.1 hsome, ?_⟩
      have hend : list.addresses.length ≤ state.position := by
        rw [hsome]
        exact Nat.zero_le _
      refine ⟨(list.LoadNextChunk valuetype { state with index := 0 }).1,
        .exception, ?_, fun hanswers => hanswers⟩
      have hagain : ({ state with index := 0 } : State).addresslist = none :=
        hinitial.1
      rw [attempt_of_none hagain, LoadNextChunk_of_ge (by exact hend)]
    · refine .inl ⟨⟨hsome, ?_⟩, ?_⟩
      · intro chunk hchunk
        rw [hinitial.1] at hchunk
        cases hchunk
      · rcases @attempt_fresh list _ { state with index := 0 } hsome
          hinitial hsize hallow address with hanswers | ⟨next, hnext, -⟩
        · exact .inl hanswers
        · exact .inr ⟨next, hnext⟩
  · obtain ⟨hloaded, hchunk, hposition, hmemory⟩ := hplaced
    have hpos := hchunk.count_pos
    have hstop := hchunk.stop_le
    have hagain : Placed list valuetype chunk { state with index := 0 } :=
      ⟨hloaded, hchunk, hposition, hmemory⟩
    refine .inl ⟨⟨?_, ?_⟩, ?_⟩
    · rintro hnil
      rw [hnil, List.length_nil] at hstop
      omega
    · intro other hother hzero
      cases hloaded.symm.trans hother
      omega
    · rw [attempt_of_some hagain.addresslist]
      rcases hagain.searchFrom_answers rfl hsize hallow address with
        hanswers | ⟨next, hnext, -⟩
      · exact .inl hanswers
      · exact .inr ⟨next, hnext⟩
  · obtain ⟨chunk, hloaded, hzero, hvalid, hfirst⟩ := hexhausted
    have hhead : list.addressAt chunk 0 =
        some (list.addresses[chunk.first]) := by
      rw [SavedList.addressAt, if_pos hvalid, Nat.add_zero,
        List.getElem?_eq_getElem hfirst]
    have hlast : list.lastAddress chunk = none := by
      rw [SavedList.lastAddress, if_pos hzero]
    by_cases hbefore : address < list.addresses[chunk.first]
    · refine .inl ⟨⟨?_, ?_⟩, .inr ⟨{ state with index := 0 }, ?_⟩⟩
      · rintro hnil
        rw [hnil, List.length_nil] at hfirst
        omega
      · intro other hother _ head hheadOther
        cases hloaded.symm.trans hother
        rw [hhead] at hheadOther
        cases hheadOther
        exact hbefore
      · unfold SavedList.attempt SavedList.searchFrom
        simp only [hloaded, Option.getD_some, hhead, if_pos hbefore]
    · refine .inr ⟨?_, { state with index := 0 }, .outside, ?_,
        fun hanswers => hanswers⟩
      · rintro ⟨-, hrecovers⟩
        exact hbefore (hrecovers chunk hloaded hzero _ hhead)
      · unfold SavedList.attempt SavedList.searchFrom
        simp only [hloaded, Option.getD_some, hhead, if_neg hbefore, hlast]

end

/-- With random access allowed the answers do not depend on the calls before,
and nothing outside of the chunk is read, exactly when the list is not empty
and no call that looked behind the end of the list is followed by one for an
address from the last chunk on. -/
theorem random_access_iff (list : SavedList)
    (hrandom : list.AllowRandomAccess = true)
    (hallow : list.AllowNotFound = true) (queries : List ℕ) :
    AllowedRun (list.call list.variableType)
        (list.AnswersRight list.variableType) initialized queries ↔
      AllowedRun (list.call list.variableType) list.Recovers initialized
        queries := by
  have hknown : Known list list.variableType initialized :=
    .inl ⟨rfl, rfl⟩
  generalize initialized = state at hknown ⊢
  induction queries generalizing state with
  | nil => exact Iff.rfl
  | cons query rest ih =>
    obtain ⟨hanswers, hnext⟩ := hknown.answersRight_iff hrandom hallow rfl
      query
    rw [AllowedRun, AllowedRun, hanswers]
    exact and_congr_right fun hrecovers => ih _ (hnext hrecovers)

def twoEntries : SavedList where
  variableType := .vtDword
  customsize := 1
  allsize := 8
  addresses := [0x1000, 0x2000]
  AllowRandomAccess := true
  AllowNotFound := true
  customsize_pos := Nat.one_pos
  allsize_ge := by decide
  ascending := by decide
  distinct := by decide

theorem random_access_twoEntries :
    AllowedRun (twoEntries.call twoEntries.variableType)
      (twoEntries.AnswersRight twoEntries.variableType) initialized
      [0x2000, 0x1000, 0x3000, 0x800] := by
  rw [random_access_iff twoEntries rfl rfl]
  exact ⟨by decide, by decide, by decide, by decide, trivial⟩

theorem not_random_access :
    ¬ AllowedRun (twoEntries.call twoEntries.variableType)
      (twoEntries.AnswersRight twoEntries.variableType) initialized
      [0x3000, 0x1000] :=
  fun ⟨_, hanswers, _⟩ => hanswers

end SavedScanAddresses
end CheatEngine
