import CheatEngine.SavedScanAddresses

/-!
# Lookups in the order of a saved list

A next scan goes through the saved addresses in their order and asks for the
value of each.  It does not ask for the type of the saved scan, but for a type
that has the same size.  For custom types there is not always one.
-/

namespace CheatEngine
namespace SavedScanAddresses

open List

open ObservedRun (AllowedRun)

namespace SavedList

variable (list : SavedList) (valuetype : VariableType)

def lookupType : VariableType :=
  match list.variableType with
  | .vtCustom =>
    match list.customsize with
    | 1 => .vtByte
    | 2 => .vtWord
    | 4 => .vtDword
    | 8 => .vtQword
    | _ => .vtDword
  | type => type

def CommonSize : Prop :=
  list.variableType = .vtCustom → list.customsize = 1 ∨
    list.customsize = 2 ∨ list.customsize = 4 ∨ list.customsize = 8

/-- The value of the first entry is found also with a wrong size: the file is
long enough for the first chunk, and the chunk for the value. -/
def HeadFits : Prop :=
  let count := min (list.maxaddresslistcount valuetype) list.addresses.length
  count * list.varsize valuetype ≤ list.addresses.length * list.savedsize ∧
    list.savedsize ≤ count * list.varsize valuetype

end SavedList

/-! ## Lookups in the order of the list -/

section

variable {list : SavedList} {valuetype : VariableType} {state : State}
  {chunk : Chunk} {last address : ℕ}

/-- What is known before a call for an address that is not below `last`. -/
def Ready (list : SavedList) (valuetype : VariableType) (last : ℕ)
    (state : State) : Prop :=
  (state.addresslist = none ∧ state.position = 0) ∨
    ∃ chunk, Placed list valuetype chunk state ∧ state.index < chunk.count ∧
      ∀ entry ∈ list.addresses[chunk.first + state.index]?, entry ≤ last

theorem Found.ready {result : State × Answer}
    (hfound : Found list valuetype address chunk result) :
    Ready list valuetype address result.1 := by
  refine .inr ⟨chunk, hfound.placed, hfound.index_lt, ?_⟩
  rw [hfound.at_index]
  rintro _ ⟨⟩
  exact le_rfl

theorem Ready.forget (hready : Ready list valuetype last state) :
    Ready list valuetype last (list.forget state) := by
  unfold SavedList.forget
  split
  · rcases hready with hinitial | ⟨chunk, ⟨hsome, hchunk, hposition, hmemory⟩,
      hlt, hindex⟩
    · exact .inl hinitial
    · refine .inr ⟨chunk, ⟨hsome, hchunk, hposition, hmemory⟩,
        hchunk.count_pos, ?_⟩
      intro entry hentry
      have hstop := hchunk.stop_le
      obtain ⟨hzero, rfl⟩ := List.getElem?_eq_some_iff.mp hentry
      have hafter := hindex _ (getElem?_eq_getElem
        (show chunk.first + state.index < list.addresses.length by omega))
      refine le_trans (addresses_le ?_ (by omega)) hafter
      dsimp only
      omega
  · exact hready

theorem Placed.searchFrom_found (hplaced : Placed list valuetype chunk state)
    (hsize : list.varsize valuetype = list.savedsize)
    (hlt : state.index < chunk.count)
    (hindex : ∀ entry ∈ list.addresses[chunk.first + state.index]?,
      entry ≤ address) (hmem : address ∈ list.addresses) :
    ∃ chunk result, list.searchFrom valuetype state address =
        .answered result.1 result.2 ∧
      Found list valuetype address chunk result := by
  have hchunk := hplaced.loaded
  have hpos := hchunk.count_pos
  have hstop := hchunk.stop_le
  have hlow := hindex _ (getElem?_eq_getElem (by omega))
  have hpass := hplaced.searchFrom_pass address
  generalize list.searchFrom valuetype state address = pass at hpass ⊢
  cases hpass with
  | before hbefore =>
    have hhead := hbefore _ (hchunk.addressAt_eq hpos)
    have hle := @addresses_le list (chunk.first + 0)
      (chunk.first + state.index) (by omega) (by omega)
    omega
  | inside hhead hlast =>
    rcases hplaced.lookup_spec address with hfound | ⟨-, hnone⟩
    · exact ⟨_, _, rfl, hfound⟩
    · have habove := hlast _ hchunk.lastAddress_eq
      obtain ⟨entry, hfirst, hle, hat⟩ := exists_between (by omega)
        (by omega) hlow habove hmem
      exact absurd hat (hnone entry hfirst (by omega))
  | behind next hexhausted hpassed hbehind =>
    exact absurd (hbehind address hmem) (lt_irrefl _)
  | ahead next later hlater hzero hpassed hlast hbefore =>
    rcases hlater.lookup_spec address with hfound | ⟨-, hnone⟩
    · exact ⟨_, _, rfl, hfound⟩
    · have hlaterPos := hlater.loaded.count_pos
      have hlaterStop := hlater.loaded.stop_le
      have habove := hlast _ hlater.loaded.lastAddress_eq
      obtain ⟨entry, hentry, hat⟩ := mem_iff_getElem.mp hmem
      have hafter : later.first ≤ entry := by
        by_contra hearlier
        have hless := hbefore entry (by omega) _
          (getElem?_eq_getElem hentry)
        omega
      have hlaterLow := addresses_le hafter hentry
      rw [hat] at hlaterLow
      obtain ⟨other, hfirst, hle, hotherAt⟩ := exists_between (by omega)
        (by omega) hlaterLow habove hmem
      exact absurd hotherAt (hnone other (by omega) (by omega))
  | unread next hpassed hne => exact absurd hsize hne

section

variable (hready : Ready list valuetype last state)
  (hsize : list.varsize valuetype = list.savedsize)

include hready hsize

theorem Ready.getpointertoaddress (hmem : address ∈ list.addresses)
    (hle : last ≤ address) :
    ∃ chunk, Found list valuetype address chunk
      (list.getpointertoaddress valuetype state address) := by
  suffices hattempt : ∃ chunk result,
      list.attempt valuetype (list.forget state) address =
        .answered result.1 result.2 ∧
      Found list valuetype address chunk result by
    obtain ⟨chunk, result, hattempt, hfound⟩ := hattempt
    refine ⟨chunk, ?_⟩
    unfold SavedList.getpointertoaddress
    rw [hattempt]
    exact hfound
  rcases hready.forget with hinitial | ⟨chunk, hplaced, hlt, hindex⟩
  · rcases attempt_initial address hinitial
      (ne_nil_of_mem hmem) with
      ⟨loaded, hplaced, hindex, hattempt, -⟩ | ⟨next, -, hshort⟩
    · rw [hattempt]
      apply hplaced.searchFrom_found hsize ?_ ?_ hmem
      · rw [hindex]
        exact hplaced.loaded.count_pos
      · rw [hindex]
        exact fun entry => head_le hmem
    · have hchunk := @chunkAt_loaded list valuetype 0
        (length_pos_of_mem hmem)
      exact absurd hsize (varsize_ne_of_short hchunk (by
        change _ < (0 + _) * _
        rw [Nat.zero_add]
        exact hshort))
  · rw [attempt_of_some hplaced.addresslist]
    exact hplaced.searchFrom_found hsize hlt
      (fun entry hentry => (hindex entry hentry).trans hle) hmem

theorem Ready.calls_right {queries : List ℕ}
    (hmem : ∀ query ∈ queries, query ∈ list.addresses)
    (hascending : (last :: queries).Pairwise (· ≤ ·)) :
    AllowedRun (list.call valuetype) (list.AnswersRight valuetype) state
      queries := by
  induction queries generalizing last state with
  | nil => trivial
  | cons query rest ih =>
    obtain ⟨hlast, hrest⟩ := pairwise_cons.mp hascending
    obtain ⟨chunk, hfound⟩ := hready.getpointertoaddress hsize
      (hmem query (mem_cons_self ..))
      (hlast query (mem_cons_self ..))
    exact ⟨hfound.answers hsize, ih hfound.ready
      (fun other hother => hmem other (mem_cons_of_mem _ hother))
      hrest⟩

end

end

/-! ## Lookups with another size than the saved one -/

section

variable {list : SavedList} {valuetype : VariableType} {state : State}
  {chunk : Chunk} {address : ℕ}

theorem entry_eq (hdistinct : list.addresses.Pairwise (· < ·))
    {first second : ℕ} (hfirst : list.addresses[first]? = some address)
    (hsecond : list.addresses[second]? = some address) : first = second := by
  obtain ⟨hlt, hat⟩ := List.getElem?_eq_some_iff.mp hfirst
  obtain ⟨hlt', hat'⟩ := List.getElem?_eq_some_iff.mp hsecond
  rw [pairwise_iff_getElem] at hdistinct
  rcases lt_trichotomy first second with hless | heq | hmore
  · have hnot := hdistinct _ _ hlt hlt' hless
    omega
  · exact heq
  · have hnot := hdistinct _ _ hlt' hlt hmore
    omega

theorem Found.head_of_answers (hdistinct : list.addresses.Pairwise (· < ·))
    (hne : list.varsize valuetype ≠ list.savedsize) {result : State × Answer}
    (hfound : Found list valuetype address chunk result)
    (hanswers : list.Answers address result) :
    list.addresses[0]? = some address := by
  obtain ⟨⟨-, -, -, hmemory⟩, -, hat, hanswer⟩ := hfound
  obtain ⟨after, answer⟩ := result
  dsimp only at hmemory hat hanswer
  subst hanswer
  obtain ⟨loaded, hloaded, -, entry, hentry, hposition⟩ := hanswers
  cases hmemory.symm.trans hloaded
  have hsame := entry_eq hdistinct hat hentry
  subst hsame
  dsimp only at hposition
  rw [← Nat.add_mul] at hposition
  rcases Nat.eq_zero_or_pos (chunk.first + after.index) with hzero | hpos
  · rw [← hzero]
    exact hentry
  · exact absurd (Nat.eq_of_mul_eq_mul_left hpos hposition) hne

/-- Only the first chunk is loaded, and nothing behind its first entry was
found. -/
def AtHead (list : SavedList) (valuetype : VariableType) (state : State) :
    Prop :=
  (state.addresslist = none ∧ state.position = 0) ∨
    Placed list valuetype (chunkAt list valuetype 0) state ∧
      state.index = 0 ∧
      (chunkAt list valuetype 0).count * list.varsize valuetype ≤
        list.addresses.length * list.savedsize

theorem AtHead.forget (hhead : AtHead list valuetype state) :
    AtHead list valuetype (list.forget state) := by
  unfold SavedList.forget
  split
  · rcases hhead with hinitial | ⟨hplaced, -, hlong⟩
    · exact .inl hinitial
    · obtain ⟨hsome, hchunk, hposition, hmemory⟩ := hplaced
      exact .inr ⟨⟨hsome, hchunk, hposition, hmemory⟩, rfl, hlong⟩
  · exact hhead

theorem Placed.searchFrom_head
    (hplaced : Placed list valuetype (chunkAt list valuetype 0) state)
    (hindex : state.index = 0) (hdistinct : list.addresses.Pairwise (· < ·))
    (hne : list.varsize valuetype ≠ list.savedsize)
    (hmem : address ∈ list.addresses)
    (hlong : (chunkAt list valuetype 0).count * list.varsize valuetype ≤
      list.addresses.length * list.savedsize) :
    ∃ next answer, list.searchFrom valuetype state address =
        .answered next answer ∧
      (list.Answers address (next, answer) ↔
        list.addresses[0]? = some address ∧ list.HeadFits valuetype) ∧
      (list.addresses[0]? = some address → AtHead list valuetype next) := by
  have hchunk := hplaced.loaded
  have hpos := hchunk.count_pos
  have hfirst : (chunkAt list valuetype 0).first = 0 := rfl
  have hlength := length_pos_of_mem hmem
  have hwrong : ∀ later next, Placed list valuetype later next →
      list.addresses[0]? ≠ some address →
      ¬ list.Answers address (list.lookup valuetype next later address) := by
    intro later next hlater hnot hanswers
    rcases hlater.lookup_spec address with hfound | ⟨hnone, -⟩
    · exact hnot (hfound.head_of_answers hdistinct hne hanswers)
    · rw [hnone] at hanswers
      split at hanswers
      · exact hanswers hmem
      · exact hanswers
  have hpassedHead : (∀ entry ∈ list.lastAddress
      (chunkAt list valuetype 0), entry < address) →
      list.addresses[0]? ≠ some address := by
    intro hpassed heq
    obtain ⟨hlt, rfl⟩ := List.getElem?_eq_some_iff.mp heq
    have hstop := hchunk.stop_le
    have hless := hpassed _ hchunk.lastAddress_eq
    exact absurd (addresses_le (Nat.zero_le _) (by omega)) hless.not_ge
  have hzero := hchunk.addressAt_eq hpos
  have hpass := hplaced.searchFrom_pass address
  generalize list.searchFrom valuetype state address = pass at hpass ⊢
  cases hpass with
  | before hbefore =>
    have hless := hbefore _ hzero
    have hle := head_le hmem (getElem?_eq_getElem hlength)
    simp only [hfirst, Nat.add_zero] at hless
    omega
  | inside hhead hlast =>
    refine ⟨_, _, rfl, ?_⟩
    by_cases heq : list.addresses[0]? = some address
    · rcases hplaced.lookup_spec address with hfound | ⟨-, hnone⟩
      · have hsame : (list.lookup valuetype state
            (chunkAt list valuetype 0) address).1.index = 0 := by
          have hat := entry_eq hdistinct hfound.at_index heq
          rw [hfirst] at hat
          omega
        refine ⟨?_, fun _ => .inr ⟨hfound.placed, hsame, hlong⟩⟩
        obtain ⟨⟨-, -, -, hmemory⟩, -, -, hanswer⟩ := hfound
        rw [hsame, Nat.zero_mul] at hanswer
        rw [hanswer]
        constructor
        · rintro ⟨loaded, hloaded, hfits, -⟩
          cases hmemory.symm.trans hloaded
          rw [Nat.zero_add] at hfits
          exact ⟨heq, hlong, hfits⟩
        · rintro ⟨-, -, hfits⟩
          refine ⟨_, hmemory, ?_, 0, heq, ?_⟩
          · rw [Nat.zero_add]
            exact hfits
          · rw [hfirst, Nat.zero_mul, Nat.zero_mul]
      · refine absurd heq (hnone 0 ?_ ?_) <;> rw [hfirst] <;> omega
    · exact ⟨iff_of_false (hwrong _ _ hplaced heq) fun hboth =>
        heq hboth.1, fun hhead => absurd hhead heq⟩
  | behind next hexhausted hpassed hbehind =>
    exact absurd (hbehind address hmem) (lt_irrefl _)
  | ahead next later hlater hzero' hpassed hlast hbefore =>
    have hnot := hpassedHead hpassed
    exact ⟨_, _, rfl, iff_of_false (hwrong _ _ hlater hnot) fun hboth =>
      hnot hboth.1, fun hhead => absurd hhead hnot⟩
  | unread next hpassed hsize =>
    have hnot := hpassedHead hpassed
    exact ⟨_, _, rfl, iff_of_false (fun hanswers => hanswers) fun hboth =>
      hnot hboth.1, fun hhead => absurd hhead hnot⟩

section

variable (hhead : AtHead list valuetype state)
  (hdistinct : list.addresses.Pairwise (· < ·))
  (hne : list.varsize valuetype ≠ list.savedsize)

include hhead hdistinct hne

theorem AtHead.getpointertoaddress (hmem : address ∈ list.addresses) :
    (list.AnswersRight valuetype state address ↔
      list.addresses[0]? = some address ∧ list.HeadFits valuetype) ∧
    (list.addresses[0]? = some address ∧ list.HeadFits valuetype →
      AtHead list valuetype
        (list.getpointertoaddress valuetype state address).1) := by
  unfold SavedList.AnswersRight SavedList.getpointertoaddress
  rcases hhead.forget with hinitial | ⟨hplaced, hindex, hlong⟩
  · rcases attempt_initial address hinitial (ne_nil_of_mem hmem) with
      ⟨loaded, hplaced, hindex, hattempt, hlong⟩ | ⟨next, hattempt, hshort⟩
    · obtain ⟨next, answer, hpass, hanswers, hnext⟩ :=
        hplaced.searchFrom_head hindex hdistinct hne hmem hlong
      rw [hattempt, hpass]
      exact ⟨hanswers, fun hboth => hnext hboth.1⟩
    · have hnot : ¬ list.HeadFits valuetype := by
        rintro ⟨hlong, -⟩
        exact absurd hlong hshort.not_ge
      rw [hattempt]
      exact ⟨iff_of_false (fun hanswers => hanswers) fun hboth =>
        hnot hboth.2, fun hboth => absurd hboth.2 hnot⟩
  · obtain ⟨next, answer, hpass, hanswers, hnext⟩ :=
      hplaced.searchFrom_head hindex hdistinct hne hmem hlong
    rw [attempt_of_some hplaced.addresslist, hpass]
    exact ⟨hanswers, fun hboth => hnext hboth.1⟩

theorem AtHead.calls_right_iff {queries : List ℕ}
    (hmem : ∀ query ∈ queries, query ∈ list.addresses) :
    AllowedRun (list.call valuetype) (list.AnswersRight valuetype) state
        queries ↔
      ∀ query ∈ queries,
        list.addresses[0]? = some query ∧ list.HeadFits valuetype := by
  induction queries generalizing state with
  | nil => simp [AllowedRun]
  | cons query rest ih =>
    obtain ⟨hanswers, hnext⟩ := hhead.getpointertoaddress hdistinct hne
      (hmem query (mem_cons_self ..))
    rw [AllowedRun, forall_mem_cons, hanswers]
    exact and_congr_right fun hfirst => ih (hnext hfirst)
      fun other hother => hmem other (mem_cons_of_mem _ hother)

end

end

theorem varsize_lookupType_iff (list : SavedList) :
    list.varsize list.lookupType = list.savedsize ↔ list.CommonSize := by
  unfold SavedList.savedsize SavedList.lookupType SavedList.CommonSize
  cases list.variableType with
  | vtCustom =>
    simp only [true_imp_iff]
    constructor
    · intro hsize
      split at hsize <;> simp_all [SavedList.varsize]
    · rintro (hcustom | hcustom | hcustom | hcustom) <;>
        simp [hcustom, SavedList.varsize]
  | _ => simp

/-- What `nextnextscanmem` looks up in the order of the list is right exactly
when it asks for values of the saved size.  For custom types of another size
than 1, 2, 4 and 8 bytes it asks for dwords, and only the first value can be
right. -/
theorem nextnextscanmem_lookups_iff (list : SavedList) {queries : List ℕ}
    (hmem : ∀ query ∈ queries, query ∈ list.addresses)
    (hascending : queries.Pairwise (· ≤ ·)) :
    AllowedRun (list.call list.lookupType)
        (list.AnswersRight list.lookupType) initialized queries ↔
      list.CommonSize ∨
        ∀ query ∈ queries, list.addresses[0]? = some query ∧
          list.HeadFits list.lookupType := by
  rw [← varsize_lookupType_iff]
  by_cases hsize : list.varsize list.lookupType = list.savedsize
  · have hready : Ready list list.lookupType 0 initialized :=
      .inl ⟨rfl, rfl⟩
    have hordered : (0 :: queries).Pairwise (· ≤ ·) :=
      pairwise_cons.mpr ⟨fun _ _ => Nat.zero_le _, hascending⟩
    exact iff_of_true (hready.calls_right hsize hmem hordered) (.inl hsize)
  · have hcustom : list.variableType = .vtCustom := by
      by_contra hother
      apply hsize
      rw [varsize_lookupType_iff]
      exact fun hcustom => absurd hcustom hother
    have hdistinct := list.distinct (by rw [hcustom]; decide)
    have hhead : AtHead list list.lookupType initialized := .inl ⟨rfl, rfl⟩
    rw [hhead.calls_right_iff hdistinct hsize hmem, or_iff_right hsize]

def twoVectors : SavedList where
  variableType := .vtCustom
  customsize := 16
  allsize := 8
  addresses := [0x1000, 0x1010]
  AllowRandomAccess := false
  AllowNotFound := false
  customsize_pos := Nat.succ_pos 15
  allsize_ge := Nat.le.refl
  ascending := by decide
  distinct := by decide

def twoDwords : SavedList :=
  { twoVectors with variableType := .vtDword, distinct := by decide }

theorem nextnextscanmem_lookups_twoDwords :
    AllowedRun (twoDwords.call twoDwords.lookupType)
      (twoDwords.AnswersRight twoDwords.lookupType) initialized
      [0x1000, 0x1010, 0x1010] := by
  rw [nextnextscanmem_lookups_iff twoDwords (by decide) (by decide)]
  left
  rintro ⟨⟩

theorem not_nextnextscanmem_lookups :
    ¬ AllowedRun (twoVectors.call twoVectors.lookupType)
      (twoVectors.AnswersRight twoVectors.lookupType) initialized
      [0x1010] := by
  rintro ⟨⟨loaded, hloaded, -, entry, hentry, hposition⟩, -⟩
  cases Option.some.inj hloaded
  have hsize : twoVectors.savedsize = 16 := rfl
  rw [hsize] at hposition
  change 0 * 4 + 1 * 4 = entry * 16 at hposition
  omega

end SavedScanAddresses
end CheatEngine
