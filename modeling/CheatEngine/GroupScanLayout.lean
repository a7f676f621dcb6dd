import CheatEngine.GroupScanCommandRun

/-!
# The layout that a group scan command describes

What a command means is read off its tokens without a parser: the sizes of
its elements, the block size it gives and its out-of-order tokens.  The
parser keeps the options of the command before, reads a token of a single
character with a variable that was never set, and adds in 32 bits.
-/

namespace CheatEngine.GroupScanCommand

open List

open PascalText (copy strToInt upperCase)

def outOfOrderOf (command : Text) : Bool :=
  (commandsOf command).any fun entry => (orderOf entry).isSome

def typeAlignedOf (command : Text) : Bool :=
  ((commandsOf command).filterMap orderOf).getLast?.getD false

/-- The last `BS` value; -1 says that none is set. -/
def givenBlocksize (command : Text) : Option Int32 :=
  ((commandsOf command).filterMap blocksizeOf).getLast?.filter (· ≠ -1)

def sizes (env : Environment) (command : Text) : List ℤ :=
  (elementsOf (commandsOf command)).map fun entry =>
    (sizeOf env entry).toInt

structure LaidOut (command : Text) (layout : Parser) : Prop where
  offsets : ∀ j element, layout.elements[j]? = some element →
    element.offset.toInt =
      ((layout.elements.take j).map fun before => before.bytesize.toInt).sum
  blocksize : layout.blocksize.toInt =
    ((givenBlocksize command).map Int32.toInt).getD
      (layout.elements.map fun element => element.bytesize.toInt).sum
  outOfOrder : layout.outOfOrder = outOfOrderOf command
  typeAligned : layout.typeAligned = typeAlignedOf command

/-- The result of a command is that of a new parser, and laid out by this
command alone. -/
def WellParsed (env : Environment) (parser : Parser) (command : Text) :
    Prop :=
  ∀ unset unset',
    result env unset command parser = result env unset' command blank ∧
      ∀ layout ∈ result env unset command parser, LaidOut command layout

def Live (token : Text) : Prop :=
  token.length = 1 ∧ isElement (upperCase token) = true

/-- No command raises an exception, and there are no wildcards out of
order. -/
def Valid (env : Environment) (command : Text) : Prop :=
  (∀ entry ∈ commandsOf command, Accepted env entry = true) ∧
    ¬(outOfOrderOf command = true ∧
      ∃ entry ∈ elementsOf (commandsOf command), isWildcard env entry = true)

def Fits (size : ℤ) : Prop :=
  -2 ^ 31 ≤ size ∧ size < 2 ^ 31

structure Harmless (env : Environment) (parser : Parser) (command : Text) :
    Prop where
  separated : ∀ token ∈ tokens command, ¬Live token
  options : outOfOrderOf command = true ∨
    parser.outOfOrder = false ∧ parser.typeAligned = false
  offsets : ∀ j < (sizes env command).length,
    Fits ((sizes env command).take j).sum
  blocksize : givenBlocksize command = none → Fits (sizes env command).sum

theorem fits_iff {size : ℤ} : size.bmod (2 ^ 32) = size ↔ Fits size := by
  unfold Fits
  constructor
  · intro hequal
    have hlow := Int.le_bmod (x := size) (m := 2 ^ 32) (by decide)
    have hhigh := Int.bmod_lt (x := size) (m := 2 ^ 32) (by decide)
    omega
  · rintro ⟨hlow, hhigh⟩
    exact Int.bmod_eq_of_le (by omega) (by omega)

theorem toInt_total (offset : Int32) (sizes : List Int32) :
    (total offset sizes).toInt =
      (offset.toInt + (sizes.map Int32.toInt).sum).bmod (2 ^ 32) := by
  induction sizes generalizing offset with
  | nil =>
    rw [map_nil, sum_nil, Int.add_zero]
    exact (fits_iff.mpr ⟨offset.le_toInt, offset.toInt_lt⟩).symm
  | cons bytesize rest ih =>
    have hstep : total offset (bytesize :: rest) =
        total (offset + bytesize) rest := rfl
    rw [hstep, ih, Int32.toInt_add, Int.bmod_add_bmod, map_cons,
      sum_cons, Int.add_assoc]

theorem starts_getElem? (offset : Int32) (sizes : List Int32) (j : ℕ) :
    (starts offset sizes)[j]? =
      if j < sizes.length then some (total offset (sizes.take j))
      else none := by
  induction sizes generalizing offset j with
  | nil => rfl
  | cons bytesize rest ih =>
    cases j with
    | zero => simp [starts, total]
    | succ j =>
      rw [starts, getElem?_cons_succ, ih]
      simp [total]

/-! ## Tokens of a single character -/

section

variable {env : Environment} {unset : ℕ → ℤ} {n : ℕ} {s : Text} {i : ℤ}
  {entry : Text × Text} {rest : List (Text × Text)} {parser : Parser}

theorem separate_of_two_le (hlength : 2 ≤ s.length) (i : ℤ) :
    separate i s = separate 1 s := by
  have hvariable : loopVariable i s = loopVariable 1 s := by
    unfold loopVariable
    cases colonFrom 1 0 s with
    | some found => rfl
    | none => rw [if_pos hlength, if_pos hlength]
  simp only [separate, hvariable]

theorem separate_command (hentry : separate i s = some entry) :
    ∃ count, entry.1 = upperCase (s.take count) := by
  unfold separate at hentry
  dsimp only at hentry
  split at hentry
  · cases hentry
  · cases hentry
    exact ⟨(loopVariable i s - 1).toNat, rfl⟩

theorem separate_short (hlength : s.length ≤ 1) (hlive : ¬Live s)
    (hentry : separate i s = some entry) :
    entry.1.length ≤ 1 ∧ isElement entry.1 = false := by
  obtain ⟨count, hcommand⟩ := separate_command hentry
  rw [hcommand]
  have hshort : (upperCase (s.take count)).length ≤ 1 := by
    rw [upperCase, length_map, length_take]
    omega
  refine ⟨hshort, ?_⟩
  rcases Nat.eq_zero_or_pos count with hzero | hpositive
  · rw [hzero]
    rfl
  · rw [take_of_length_le (by omega), Bool.eq_false_iff]
    intro helement
    apply hlive
    refine ⟨?_, helement⟩
    have hne : s.length ≠ 0 := by
      intro hzero
      rw [length_eq_zero_iff.mp hzero] at helement
      cases helement
    omega

theorem executeAll_idle {found : Option (Text × Text)}
    (hidle : ∀ entry ∈ found, entry.1.length ≤ 1 ∧ isElement entry.1 = false) :
    executeAll env (found.toList ++ rest) parser =
      executeAll env rest parser := by
  cases found with
  | none => rfl
  | some entry =>
    obtain ⟨hlength, helement⟩ := hidle entry rfl
    have hne : ∀ command : Text, 2 ≤ command.length →
        entry.1 ≠ command := by
      rintro command htwo rfl
      omega
    rw [Option.toList_some, cons_append, nil_append, executeAll,
      execute_other (hne BA (by decide)) (hne BS (by decide))
        (hne OOO (by decide)) helement]

theorem executeAll_separate (hlive : ¬Live s) (i : ℤ) :
    executeAll env ((separate i s).toList ++ rest) parser =
      executeAll env ((separate 1 s).toList ++ rest) parser := by
  rcases Nat.lt_or_ge s.length 2 with hshort | htwo
  · have hlength : s.length ≤ 1 := by omega
    rw [executeAll_idle fun _ hentry =>
        separate_short hlength hlive hentry,
      executeAll_idle fun _ hentry =>
        separate_short hlength hlive hentry]
  · rw [separate_of_two_le htwo i]

theorem executeAll_append (env : Environment)
    (first rest : List (Text × Text)) (parser : Parser) :
    executeAll env (first ++ rest) parser =
      (executeAll env first parser).bind (executeAll env rest) := by
  induction first generalizing parser with
  | nil => rfl
  | cons entry others ih =>
    rw [cons_append, executeAll, executeAll]
    cases execute env entry parser with
    | error exception => rfl
    | ok next => exact ih next

variable {tokens : List Text}

theorem executeAll_entriesFrom (hlive : ∀ token ∈ tokens, ¬Live token) :
    executeAll env (entriesFrom unset n tokens) parser =
      executeAll env (tokens.filterMap (separate 1)) parser := by
  induction tokens generalizing n parser with
  | nil => rfl
  | cons s rest ih =>
    have hfilter : (s :: rest).filterMap (separate 1) =
        (separate 1 s).toList ++ rest.filterMap (separate 1) := by
      rw [filterMap_cons]
      cases separate 1 s <;> rfl
    rw [entriesFrom, executeAll_separate (hlive s mem_cons_self),
      hfilter, executeAll_append, executeAll_append]
    congr 1
    funext next
    exact ih fun token htoken => hlive token (mem_cons_of_mem s htoken)

theorem entriesFrom_one (n : ℕ) (tokens : List Text) :
    entriesFrom (fun _ => 1) n tokens = tokens.filterMap (separate 1) := by
  induction tokens generalizing n with
  | nil => rfl
  | cons s rest ih =>
    rw [entriesFrom, ih, filterMap_cons]
    cases separate 1 s <;> rfl

theorem mem_entriesFrom (unset : ℕ → ℤ) (n : ℕ)
    (hentry : entry ∈ tokens.filterMap (separate 1)) :
    entry ∈ entriesFrom unset n tokens ∨ entry.1 = [] := by
  induction tokens generalizing n with
  | nil => cases hentry
  | cons s rest ih =>
    obtain ⟨token, htoken, hseparate⟩ := mem_filterMap.mp hentry
    rcases mem_cons.mp htoken with rfl | hrest
    · rcases Nat.lt_or_ge token.length 2 with hshort | htwo
      · right
        obtain ⟨count, hcommand⟩ := separate_command hseparate
        rcases Nat.eq_zero_or_pos token.length with hzero | hpositive
        · rw [hcommand, length_eq_zero_iff.mp hzero]
          simp [upperCase]
        · have hone : token.length = 1 := by omega
          obtain ⟨char, rfl⟩ := length_eq_one_iff.mp hone
          simp [separate, loopVariable, colonFrom] at hseparate
      · left
        rw [entriesFrom, separate_of_two_le htwo, hseparate]
        exact mem_append_left _ (by simp)
    · rcases ih (n + 1) (mem_filterMap.mpr
          ⟨token, hrest, hseparate⟩) with hmem | hempty
      · left
        rw [entriesFrom]
        exact mem_append_right _ hmem
      · exact Or.inr hempty

theorem elementsOf_append (first second : List (Text × Text)) :
    elementsOf (first ++ second) = elementsOf first ++ elementsOf second :=
  filter_append ..

theorem elementsOf_separate_le (s : Text) :
    (elementsOf (separate 1 s).toList).length ≤
      (elementsOf (separate 2 s).toList).length := by
  rcases Nat.lt_or_ge s.length 2 with hshort | htwo
  · have hnone : elementsOf (separate 1 s).toList = [] := by
      cases s with
      | nil => rfl
      | cons char rest =>
        have hrest : rest = [] := by
          apply length_eq_zero_iff.mp
          simp only [length_cons] at hshort
          omega
        subst hrest
        simp [separate, loopVariable, colonFrom, elementsOf]
    rw [hnone]
    exact Nat.zero_le _
  · rw [separate_of_two_le htwo 2]

theorem elementsOf_separate_live (hlive : Live s) :
    (elementsOf (separate 1 s).toList).length <
      (elementsOf (separate 2 s).toList).length := by
  obtain ⟨hlength, helement⟩ := hlive
  obtain ⟨char, rfl⟩ := length_eq_one_iff.mp hlength
  have hone : separate 1 [char] = none := by
    simp [separate, loopVariable, colonFrom]
  have htwo : separate 2 [char] = some (upperCase [char], []) := by
    simp [separate, loopVariable, colonFrom, copy]
  rw [hone, htwo]
  simp [elementsOf, helement]

theorem elementsOf_entriesFrom_le (n : ℕ) (tokens : List Text) :
    (elementsOf (entriesFrom (fun _ => 1) n tokens)).length ≤
      (elementsOf (entriesFrom (fun _ => 2) n tokens)).length := by
  induction tokens generalizing n with
  | nil => exact le_rfl
  | cons s rest ih =>
    simp only [entriesFrom, elementsOf_append, length_append]
    exact add_le_add (elementsOf_separate_le s) (ih (n + 1))

theorem elementsOf_entriesFrom_lt (hs : s ∈ tokens) (hlive : Live s) (n : ℕ) :
    (elementsOf (entriesFrom (fun _ => 1) n tokens)).length <
      (elementsOf (entriesFrom (fun _ => 2) n tokens)).length := by
  induction tokens generalizing n with
  | nil => cases hs
  | cons first rest ih =>
    simp only [entriesFrom, elementsOf_append, length_append]
    rcases mem_cons.mp hs with rfl | hrest
    · exact add_lt_add_of_lt_of_le (elementsOf_separate_live hlive)
        (elementsOf_entriesFrom_le (n + 1) rest)
    · exact add_lt_add_of_le_of_lt (elementsOf_separate_le first)
        (ih hrest (n + 1))

end

/-! ## The end of a call -/

section

variable {env : Environment} {unset : ℕ → ℤ} {command : Text}
  {entries : List (Text × Text)} {parser next layout : Parser}
  {added : List Element}

theorem pickAll_map {Value : Type*} (field : Element → Value)
    (hfield : ∀ element : Element,
      field { element with picked := true } = field element)
    (elements : List Element) :
    (pickAll elements).map field = elements.map field := by
  unfold pickAll
  split
  · rfl
  · rw [map_map]
    exact map_congr_left fun element _ => hfield element

/-- A call without an exception, by what its commands do. -/
structure Closed (env : Environment) (entries : List (Text × Text))
    (parser layout : Parser) : Prop where
  offsets : layout.elements.map Element.offset =
    starts 0 (layout.elements.map Element.bytesize)
  bytesizes : layout.elements.map Element.bytesize =
    (elementsOf entries).map (sizeOf env)
  blocksize : layout.blocksize =
    if (entries.filterMap blocksizeOf).getLast?.getD (-1) = -1 then
      total 0 (layout.elements.map Element.bytesize)
    else
      (entries.filterMap blocksizeOf).getLast?.getD (-1)
  outOfOrder : layout.outOfOrder =
    (parser.outOfOrder || entries.any fun entry => (orderOf entry).isSome)
  typeAligned : layout.typeAligned =
    (entries.filterMap orderOf).getLast?.getD parser.typeAligned
  wildcards : layout.outOfOrder = true →
    ∀ entry ∈ elementsOf entries, isWildcard env entry = false

theorem Executed.closed
    (hexecuted : Executed env entries (reset env parser) next added)
    (hclose : close next = some layout) :
    Closed env entries parser layout := by
  have helements : next.elements = added := hexecuted.elements
  have hoffset := pickAll_map Element.offset (fun _ => rfl) added
  have hbytesize := pickAll_map Element.bytesize (fun _ => rfl) added
  unfold close at hclose
  split at hclose
  · cases hclose
  · rename_i hnot
    cases hclose
    rw [helements] at hnot
    simp only [helements, hexecuted.blocksize, hexecuted.calculatedBlocksize]
    refine ⟨?_, ?_, ?_, hexecuted.outOfOrder, hexecuted.typeAligned, ?_⟩
    · rw [hoffset, hbytesize, hexecuted.offsets]
      rfl
    · rw [hbytesize, hexecuted.sizes]
    · rw [hbytesize]
      rfl
    · intro hout entry hentry
      have hnext : next.outOfOrder = true := hout
      have hall : ∀ element ∈ added, element.wildcard = false := by
        simpa [hnext] using hnot
      rw [Bool.eq_false_iff]
      intro hwildcard
      have hmem : true ∈ added.map Element.wildcard := by
        rw [hexecuted.wildcards]
        exact mem_map.mpr ⟨entry, hentry, hwildcard⟩
      obtain ⟨element, helement, hvalue⟩ := mem_map.mp hmem
      rw [hall element helement] at hvalue
      cases hvalue

theorem result_closed
    (hresult : result env unset command parser = some layout) :
    (executeAll env (entriesFrom unset 0 (tokens command))
        (reset env parser)).isSome ∧
      Closed env (entriesFrom unset 0 (tokens command)) parser layout := by
  rw [result_eq] at hresult
  obtain ⟨next, hrun, hclose⟩ := Option.bind_eq_some_iff.mp hresult
  obtain ⟨added, hexecuted⟩ := executeAll_executed hrun
  exact ⟨by rw [hrun]; rfl, hexecuted.closed hclose⟩

theorem offsets_iff {elements : List Element}
    (hoffsets : elements.map Element.offset =
      starts 0 (elements.map Element.bytesize)) :
    (∀ (j : ℕ) (element : Element), elements[j]? = some element →
        element.offset.toInt =
          ((elements.take j).map fun before : Element =>
            before.bytesize.toInt).sum) ↔
      ∀ j < elements.length,
        Fits ((elements.map fun element => element.bytesize.toInt).take
          j).sum := by
  have hvalue : ∀ (j : ℕ) (element : Element),
      elements[j]? = some element →
      element.offset.toInt =
        ((elements.take j).map fun before : Element =>
          before.bytesize.toInt).sum.bmod (2 ^ 32) := by
    intro j element helement
    obtain ⟨hj, -⟩ := List.getElem?_eq_some_iff.mp helement
    have hget : (elements.map Element.offset)[j]? = some element.offset := by
      rw [getElem?_map, helement]
      rfl
    rw [hoffsets, starts_getElem?, length_map, if_pos hj] at hget
    rw [← Option.some.inj hget, toInt_total, ← map_take, map_map,
      Int32.toInt_zero, Int.zero_add]
    rfl
  constructor
  · intro hall j hj
    have helement := getElem?_eq_getElem hj
    have hsame := (hvalue j _ helement).symm.trans (hall j _ helement)
    rw [← map_take]
    exact fits_iff.mp hsame
  · intro hall j element helement
    obtain ⟨hj, -⟩ := List.getElem?_eq_some_iff.mp helement
    have hfits := hall j hj
    rw [← map_take] at hfits
    rw [hvalue j element helement]
    exact fits_iff.mpr hfits

theorem any_order_iff (entries : List (Text × Text)) :
    (entries.any fun entry => (orderOf entry).isSome) = false ↔
      entries.filterMap orderOf = [] := by
  rw [filterMap_eq_nil_iff, any_eq_false]
  simp

section

variable (hclosed : Closed env (commandsOf command) parser layout)

include hclosed

theorem Closed.options_iff :
    layout.outOfOrder = outOfOrderOf command ∧
        layout.typeAligned = typeAlignedOf command ↔
      (outOfOrderOf command = true ∨
        parser.outOfOrder = false ∧ parser.typeAligned = false) := by
  have hnone := any_order_iff (commandsOf command)
  rw [hclosed.outOfOrder, hclosed.typeAligned]
  unfold outOfOrderOf typeAlignedOf
  cases hany : (commandsOf command).any
      fun entry => (orderOf entry).isSome with
  | false => simp [hnone.mp hany]
  | true =>
    have hne : (commandsOf command).filterMap orderOf ≠ [] := by
      intro hempty
      rw [hnone.mpr hempty] at hany
      cases hany
    rw [getLast?_eq_some_getLast hne]
    constructor
    · intro _
      exact Or.inl rfl
    · intro _
      exact ⟨Bool.or_true _, rfl⟩

theorem Closed.sizes_eq :
    sizes env command =
      layout.elements.map fun element => element.bytesize.toInt := by
  have hbytesizes := congrArg (List.map Int32.toInt) hclosed.bytesizes
  rw [map_map, map_map] at hbytesizes
  exact hbytesizes.symm

theorem Closed.blocksize_iff :
    layout.blocksize.toInt =
        ((givenBlocksize command).map Int32.toInt).getD
          (sizes env command).sum ↔
      (givenBlocksize command = none → Fits (sizes env command).sum) := by
  have htotal : (total 0 (layout.elements.map Element.bytesize)).toInt =
      (sizes env command).sum.bmod (2 ^ 32) := by
    rw [toInt_total, map_map, hclosed.sizes_eq, Int32.toInt_zero, Int.zero_add]
    rfl
  have hblocksize := hclosed.blocksize
  unfold givenBlocksize
  cases hgiven : ((commandsOf command).filterMap blocksizeOf).getLast? with
  | none =>
    rw [hgiven, Option.getD_none, if_pos rfl] at hblocksize
    rw [hblocksize, htotal]
    simpa using fits_iff
  | some number =>
    rw [hgiven, Option.getD_some] at hblocksize
    by_cases hmarker : number = -1
    · rw [if_pos hmarker] at hblocksize
      have hnone : (some number).filter (· ≠ -1) = none := by
        rw [hmarker]
        rfl
      rw [hblocksize, htotal, hnone]
      simpa using fits_iff
    · rw [if_neg hmarker] at hblocksize
      rw [hblocksize]
      simp [Option.filter, hmarker]

/-- The result is laid out as described when the options of the command before
do not matter and the sums fit in 32 bits. -/
theorem Closed.laidOut_iff :
    LaidOut command layout ↔
      (outOfOrderOf command = true ∨
          parser.outOfOrder = false ∧ parser.typeAligned = false) ∧
        (∀ j < (sizes env command).length,
          Fits ((sizes env command).take j).sum) ∧
        (givenBlocksize command = none →
          Fits (sizes env command).sum) := by
  have hoffsets := offsets_iff hclosed.offsets
  rw [← hclosed.options_iff, ← hclosed.blocksize_iff]
  rw [hclosed.sizes_eq, length_map]
  constructor
  · intro hlaid
    exact ⟨⟨hlaid.outOfOrder, hlaid.typeAligned⟩,
      hoffsets.mp hlaid.offsets, hlaid.blocksize⟩
  · rintro ⟨⟨hout, haligned⟩, hfits, hblocksize⟩
    exact ⟨hoffsets.mpr hfits, hblocksize, hout, haligned⟩

end

theorem isElement_nil : isElement [] = false := rfl

theorem orderOf_ne_nil {entry : Text × Text}
    (horder : (orderOf entry).isSome = true) : entry.1 ≠ [] := by
  intro hempty
  have hne : entry.1 ≠ OOO := by
    rw [hempty]
    decide
  rw [orderOf, if_neg hne] at horder
  cases horder

theorem accepted_nil {entry : Text × Text} (hempty : entry.1 = []) :
    Accepted env entry = true := by
  unfold Accepted
  rw [hempty, if_neg (by decide : ¬(([] : Text) = BA ∨ ([] : Text) = BS)),
    isElement_nil]
  rfl

theorem valid_of_result
    (hresult : result env unset command parser = some layout) :
    Valid env command := by
  obtain ⟨hrun, hclosed⟩ := result_closed hresult
  rw [executeAll_isSome, all_eq_true] at hrun
  constructor
  · intro entry hentry
    rcases mem_entriesFrom unset 0 hentry with hmem | hempty
    · exact hrun entry hmem
    · exact accepted_nil hempty
  · rintro ⟨hout, entry, hentry, hwildcard⟩
    obtain ⟨order, horder, hisSome⟩ := any_eq_true.mp hout
    obtain ⟨hmem, helement⟩ := mem_filter.mp hentry
    have hlayout : layout.outOfOrder = true := by
      rw [hclosed.outOfOrder, Bool.or_eq_true]
      right
      rcases mem_entriesFrom unset 0 horder with
        hreached | hempty
      · exact any_eq_true.mpr ⟨order, hreached, hisSome⟩
      · exact absurd hempty (orderOf_ne_nil hisSome)
    have hnot : isWildcard env entry = false := by
      apply hclosed.wildcards hlayout
      apply mem_filter.mpr
      refine ⟨?_, helement⟩
      rcases mem_entriesFrom unset 0 hmem with
        hreached | hempty
      · exact hreached
      · rw [hempty] at helement
        cases helement
    rw [hnot] at hwildcard
    cases hwildcard

theorem result_of_valid (hvalid : Valid env command) :
    ∃ layout, result env (fun _ => 1) command blank = some layout := by
  obtain ⟨haccepted, hwildcards⟩ := hvalid
  have hrun := executeAll_isSome env (commandsOf command) (reset env blank)
  rw [all_eq_true.mpr haccepted] at hrun
  obtain ⟨next, hnext⟩ := Option.isSome_iff_exists.mp hrun
  obtain ⟨added, hexecuted⟩ := executeAll_executed hnext
  rw [result_eq, entriesFrom_one]
  change ∃ layout, (executeAll env (commandsOf command) _).bind close = _
  rw [hnext, Option.bind_some, close, if_neg]
  · exact ⟨_, rfl⟩
  · intro hboth
    obtain ⟨hout, hany⟩ := (Bool.and_eq_true _ _).mp hboth
    apply hwildcards
    have houtOfOrder : outOfOrderOf command = true := by
      rw [hexecuted.outOfOrder] at hout
      exact hout
    refine ⟨houtOfOrder, ?_⟩
    obtain ⟨element, helement, hwildcard⟩ := any_eq_true.mp hany
    have helements : next.elements = added := hexecuted.elements
    have hmem : true ∈ added.map Element.wildcard := by
      rw [← helements]
      exact mem_map.mpr ⟨element, helement, hwildcard⟩
    rw [hexecuted.wildcards] at hmem
    exact mem_map.mp hmem

theorem executeAll_reset (entries : List (Text × Text))
    (hoptions : (entries.any fun entry => (orderOf entry).isSome) = true ∨
      parser.outOfOrder = false ∧ parser.typeAligned = false) :
    executeAll env entries (reset env parser) =
      executeAll env entries (reset env blank) := by
  have hparser : reset env parser = (reset env blank).withOptions
      parser.outOfOrder parser.typeAligned := rfl
  have hblank : (reset env blank).withOptions false false =
      reset env blank := rfl
  rw [hparser]
  rcases hoptions with hany | ⟨hout, haligned⟩
  · have hne : entries.filterMap orderOf ≠ [] := by
      intro hempty
      rw [(any_order_iff entries).mpr hempty] at hany
      cases hany
    refine Eq.trans ?_ (congrArg (executeAll env entries) hblank)
    rw [executeAll_withOptions, executeAll_withOptions, hany,
      getLast?_eq_some_getLast hne, Bool.or_true, Bool.or_true]
    rfl
  · rw [hout, haligned, hblank]

end

/-- The result of a command is that of a new parser, and laid out by this
command alone, exactly when the command is not valid or is harmless. -/
theorem wellParsed_iff (env : Environment) (parser : Parser) (command : Text) :
    WellParsed env parser command ↔
      (Valid env command → Harmless env parser command) := by
  have hcommands : entriesFrom (fun _ => 1) 0 (tokens command) =
      commandsOf command := entriesFrom_one 0 (tokens command)
  constructor
  · intro hwell hvalid
    obtain ⟨layout, hblank⟩ := result_of_valid hvalid
    obtain ⟨hsame, hlaid⟩ := hwell (fun _ => 1) (fun _ => 1)
    rw [hblank] at hsame
    obtain ⟨-, hclosed⟩ := result_closed hsame
    have hone := hclosed.bytesizes
    rw [hcommands] at hclosed
    obtain ⟨hoptions, hoffsets, hblocksize⟩ :=
      hclosed.laidOut_iff.mp (hlaid layout hsame)
    refine ⟨?_, hoptions, hoffsets, hblocksize⟩
    intro token htoken hlive
    have hother := (hwell (fun _ => 1) (fun _ => 2)).1
    rw [hsame] at hother
    have htwo := (result_closed hother.symm).2.bytesizes
    have hlength := congrArg List.length (hone.symm.trans htwo)
    rw [length_map, length_map] at hlength
    have hlt := elementsOf_entriesFrom_lt htoken hlive 0
    omega
  · intro hharmless unset unset'
    by_cases hvalid : Valid env command
    · obtain ⟨hseparated, hoptions, hoffsets, hblocksize⟩ :=
        hharmless hvalid
      have hresult : ∀ (unset : ℕ → ℤ) (parser : Parser),
          result env unset command parser =
            (executeAll env (commandsOf command) (reset env parser)).bind
              close := by
        intro unset parser
        rw [result_eq, executeAll_entriesFrom hseparated]
        rfl
      constructor
      · rw [hresult, hresult, executeAll_reset _ hoptions]
      · intro layout hlayout
        rw [hresult, ← hresult (fun _ => 1)] at hlayout
        obtain ⟨-, hclosed⟩ := result_closed hlayout
        rw [hcommands] at hclosed
        exact hclosed.laidOut_iff.mpr ⟨hoptions, hoffsets, hblocksize⟩
    · have hnone : ∀ (unset : ℕ → ℤ) (parser : Parser),
          result env unset command parser = none := by
        intro unset parser
        rw [Option.eq_none_iff_forall_not_mem]
        intro layout hlayout
        exact hvalid (valid_of_result hlayout)
      rw [hnone, hnone]
      refine ⟨rfl, ?_⟩
      intro layout hlayout
      cases hlayout

def plain : Environment :=
  ⟨[], fun value => (strToInt value).map fun number =>
      number.toUInt32.toUInt64,
    fun _ _ => none, '.'⟩

/-- `4:1 BA:8 S:'a b'` on a new parser. -/
example :
    (result plain (fun _ => 1)
        ['4', ':', '1', ' ', 'B', 'A', ':', '8', ' ', 'S', ':', quote, 'a',
          ' ', 'b', quote]
        blank).map (fun parser =>
          (parser.elements.map Element.offset, parser.blocksize,
            parser.blockalignment)) =
      some ([0, 4], 7, 8) := by
  decide

def commandOOO : Text :=
  ['O', 'O', 'O', ':', 'A', ' ', '4', ':', '1']

def command4 : Text :=
  ['4', ':', '1']

theorem not_wellParsed :
    ¬∀ env history command, WellParsed env (after env history) command := by
  intro hall
  have hout : (result plain (fun _ => 1) command4
      (after plain [(commandOOO, fun _ => 1)])).map Parser.outOfOrder =
        some true := by
    decide
  obtain ⟨layout, hlayout, htrue⟩ := Option.map_eq_some_iff.mp hout
  obtain ⟨-, hlaid⟩ := hall plain [(commandOOO, fun _ => 1)] command4
    (fun _ => 1) (fun _ => 1)
  have hfalse : outOfOrderOf command4 = false := by decide
  have hsame := (hlaid layout hlayout).outOfOrder
  rw [htrue, hfalse] at hsame
  cases hsame

end CheatEngine.GroupScanCommand
