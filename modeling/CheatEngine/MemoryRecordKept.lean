import CheatEngine.MemoryRecordBody

/-!
# Which records a table keeps

When a record that reads an entry is the record the entry was written from,
and when a fresh record gets the ID it reads.
-/

namespace CheatEngine.MemoryRecordUnit

open List DocumentNodes PascalText HexText

def SameTypeData (memrec other : MemoryRecord) : Prop :=
  match memrec.varType with
  | .vtBinary => other.extra.bitData = memrec.extra.bitData
  | .vtString | .vtUnicodeString | .vtCodePageString =>
    other.extra.stringData = memrec.extra.stringData
  | .vtByteArray => other.extra.byteData = memrec.extra.byteData
  | .vtCustom => other.customTypeName = memrec.customTypeName
  | .vtAutoAssembler =>
    other.script = memrec.script ∧ other.async = memrec.async
  | _ => True

def SameDropDown (memrec other : MemoryRecord) : Prop :=
  other.dropDownLinked = memrec.dropDownLinked ∧
    if memrec.dropDownLinked then
      other.dropDownLinkedMemrec = memrec.dropDownLinkedMemrec
    else
      other.dropDownList = memrec.dropDownList ∧
        other.dropDownReadOnly = memrec.dropDownReadOnly ∧
        other.dropDownDescriptionOnly = memrec.dropDownDescriptionOnly ∧
        other.displayAsDropDownListItem = memrec.displayAsDropDownListItem

/-- The record `other` has all that a table keeps of `memrec`. -/
structure SameRecord (memrec other : MemoryRecord) : Prop where
  id : other.id = memrec.id
  description : other.description = memrec.description
  options : other.options = memrec.options
  color : other.color = memrec.color
  showAsHex : other.showAsHex = memrec.showAsHex
  showAsSignedOverride :
    other.showAsSignedOverride = memrec.showAsSignedOverride
  showAsSigned : memrec.showAsSignedOverride = true →
    other.showAsSigned = memrec.showAsSigned
  isGroupHeader : other.isGroupHeader = memrec.isGroupHeader
  dropDown : SameDropDown memrec other
  hotkeys : other.hotkeylist = memrec.hotkeylist
  varType : memrec.isGroupHeader = false → other.varType = memrec.varType
  typeData : memrec.isGroupHeader = false → SameTypeData memrec other
  address : memrec.isGroupHeader = false →
    memrec.varType ≠ .vtAutoAssembler →
      other.interpretableaddress = memrec.interpretableaddress ∧
        other.pointeroffsets = memrec.pointeroffsets

structure DropDownKept (memrec : MemoryRecord) : Prop where
  unbroken : ∀ line ∈ memrec.dropDownList, Unbroken line
  flags : memrec.dropDownList = [] →
    memrec.dropDownReadOnly = false ∧
      memrec.dropDownDescriptionOnly = false ∧
      memrec.displayAsDropDownListItem = false

def OffsetKept (offset : MemrecOffset) : Prop :=
  if offset.onlyUpdateAfterInterval then
    offset.updateInterval.toNat < 2 ^ 31
  else
    offset.updateInterval = 0

/-- Types that are saved with all their data, and the data with which the
others come back. -/
def TypeKept (environment : Environment) (memrec : MemoryRecord) : Prop :=
  match memrec.varType with
  | .vtUnicodeString => memrec.extra.stringData = ⟨true, false, 0, true⟩
  | .vtPointer => memrec.showAsHex = true
  | .vtGrouped =>
    stringToVariableType (environment.leftover memrec) = .vtGrouped
  | .vtByteArrays | .vtCodePageString => False
  | .vtAutoAssembler =>
    ∀ script ∈ memrec.script, ∀ line ∈ script, Unbroken line
  | _ => True

structure RecordKept (environment : Environment) (memrec : MemoryRecord) :
    Prop where
  dropDown : memrec.dropDownLinked = false → DropDownKept memrec
  hotkeys : ∀ hotkey ∈ memrec.hotkeylist, HotkeyKept hotkey
  type : memrec.isGroupHeader = false → TypeKept environment memrec
  offsets : memrec.isGroupHeader = false →
    memrec.varType ≠ .vtAutoAssembler →
      ∀ offset ∈ memrec.pointeroffsets, OffsetKept offset

/-- A fresh record keeps the ID although the others are in the list. -/
def NewID (others : List Int32) (i : Int32) : Prop :=
  i = -1 ∨ i ∉ others ∨ (i = Int32.minValue ∧ Int32.maxValue ∈ others)

theorem foldl_max_spec (ids : List Int32) (first : Int32) :
    first ≤ ids.foldl max first ∧ (∀ i ∈ ids, i ≤ ids.foldl max first) ∧
      (ids.foldl max first = first ∨ ids.foldl max first ∈ ids) := by
  induction ids generalizing first with
  | nil => simp
  | cons i rest ih =>
    obtain ⟨hfirst, hrest, hmem⟩ := ih (max first i)
    have hmax : first ≤ max first i ∧ i ≤ max first i ∧
        (max first i = first ∨ max first i = i) := by
      change _ ≤ (if first ≤ i then i else first) ∧
        _ ≤ (if first ≤ i then i else first) ∧
        ((if first ≤ i then i else first) = first ∨
          (if first ≤ i then i else first) = i)
      split_ifs with hle
      · exact ⟨hle, Int32.le_refl _, Or.inr rfl⟩
      · exact ⟨Int32.le_refl _,
          Int32.le_of_lt (Int32.not_le.mp hle), Or.inl rfl⟩
    rw [foldl_cons]
    refine ⟨Int32.le_trans hmax.1 hfirst, ?_, ?_⟩
    · intro j hj
      rcases mem_cons.mp hj with rfl | hj
      · exact Int32.le_trans hmax.2.1 hfirst
      · exact hrest j hj
    · rcases hmem with hmem | hmem
      · rcases hmax.2.2 with heq | heq
        · exact Or.inl (hmem.trans heq)
        · exact Or.inr (by rw [hmem, heq]; exact mem_cons_self)
      · exact Or.inr (mem_cons_of_mem _ hmem)

theorem add_one_eq_of_le {i m : Int32} (hle : i ≤ m) (heq : m + 1 = i) :
    i = Int32.minValue ∧ m = Int32.maxValue := by
  have hone : (1 : Int32).toInt = 1 := rfl
  have hupper := m.toInt_lt
  have hlower := m.le_toInt
  by_cases hlast : m.toInt = 2 ^ 31 - 1
  · have hm : m = Int32.maxValue := Int32.toInt_inj.mp hlast
    rw [hm] at heq
    exact ⟨heq.symm, hm⟩
  · rw [Int32.le_iff_toInt_le, ← heq, Int32.toInt_add, hone,
      Int.bmod_eq_of_le (by omega) (by omega)] at hle
    omega

theorem getUniqueMemrecId_eq_iff {others : List Int32} {i : Int32}
    (hmem : i ∈ others) :
    getUniqueMemrecId (-1 :: others) = i ↔
      i = Int32.minValue ∧ Int32.maxValue ∈ others := by
  obtain ⟨-, hle, hfound⟩ := foldl_max_spec (-1 :: others) (-1)
  constructor
  · intro heq
    obtain ⟨hi, hmax⟩ := add_one_eq_of_le
      (hle i (mem_cons_of_mem _ hmem)) heq
    refine ⟨hi, ?_⟩
    rw [hmax] at hfound
    rcases hfound with hfound | hfound
    · exact absurd hfound (by decide)
    · exact mem_of_ne_of_mem (by decide) hfound
  · rintro ⟨hi, hmax⟩
    have hbound := hle _ (mem_cons_of_mem _ hmax)
    have hlast : List.foldl max (-1) (-1 :: others) = Int32.maxValue := by
      apply Int32.toInt_inj.mp
      have hupper := (List.foldl max (-1) (-1 :: others)).toInt_lt
      have hvalue : Int32.maxValue.toInt = 2 ^ 31 - 1 := rfl
      rw [Int32.le_iff_toInt_le] at hbound
      omega
    rw [getUniqueMemrecId, hlast, hi]
    rfl

theorem loadID_eq_iff (others : List Int32) (i : Int32) :
    loadID others i = i ↔ NewID others i := by
  unfold loadID setID NewID
  by_cases hfresh : i = -1
  · simp [hfresh, MemoryRecord.create]
  · by_cases hmem : i ∈ others
    · have hunique := getUniqueMemrecId_eq_iff hmem
      simpa [hfresh, hmem, MemoryRecord.create] using hunique
    · simp [hfresh, hmem, MemoryRecord.create]

/-! ## The header behind the rest of the entry -/

def MemoryRecord.header (memrec : MemoryRecord) : MemoryRecord :=
  { MemoryRecord.create with
    id := memrec.id
    description := memrec.description
    options := memrec.options
    dropDownLinked := memrec.dropDownLinked
    dropDownLinkedMemrec := memrec.dropDownLinkedMemrec
    dropDownList := memrec.dropDownList
    dropDownReadOnly := memrec.dropDownReadOnly
    dropDownDescriptionOnly := memrec.dropDownDescriptionOnly
    displayAsDropDownListItem := memrec.displayAsDropDownListItem
    showAsSignedOverride := memrec.showAsSignedOverride
    showAsSigned := memrec.showAsSigned
    color := memrec.color
    isGroupHeader := memrec.isGroupHeader }

theorem setShowAsHex_header (environment : Environment) (state : Bool)
    (memrec : MemoryRecord) :
    (setShowAsHex environment state memrec).header = memrec.header := by
  unfold setShowAsHex
  split
  · split <;> rfl
  · rfl

theorem setVarType_header (environment : Environment) (v : VariableType)
    (memrec : MemoryRecord) :
    (setVarType environment v memrec).header = memrec.header := by
  unfold setVarType
  cases v
  case vtPointer =>
    exact setShowAsHex_header environment true
      { memrec with
        varType := if environment.is64bit then .vtQword else .vtDword }
  all_goals rfl

variable {fields : List Node} {loaded : MemoryRecord}

theorem readTypeData_header {result : MemoryRecord}
    (hread : readTypeData fields loaded = some result) :
    result.header = loaded.header := by
  unfold readTypeData at hread
  split at hread <;>
    simp only [Option.bind_eq_bind, Option.bind_eq_some_iff, Option.pure_def,
      Option.some.injEq] at hread
  · rw [← hread]
    rfl
  · obtain ⟨-, -, -, -, rfl⟩ := hread
    rfl
  · obtain ⟨-, -, rfl⟩ := hread
    rfl
  · obtain ⟨-, -, rfl⟩ := hread
    rfl
  · rw [← hread, readScript]
    split <;> rfl
  · rw [← hread]

theorem readType_header {environment : Environment} {result : MemoryRecord}
    (hread : readType fields environment loaded = some result) :
    result.header = loaded.header := by
  rw [readTypeData_header hread]
  split
  · rfl
  · exact setVarType_header _ _ _

theorem readBody_header {environment : Environment} {result : MemoryRecord}
    (hread : readBody fields environment loaded = some result) :
    result.header = loaded.header := by
  obtain ⟨typed, htype, hrest⟩ := Option.bind_eq_some_iff.mp hread
  rw [← readType_header htype]
  unfold readHotkeys at hrest
  split at hrest
  · rw [← Option.some.inj hrest]
    rfl
  · obtain ⟨hotkeys, -, rfl⟩ := Option.map_eq_some_iff.mp hrest
    rfl

theorem loadDropDown_same_iff (memrec : MemoryRecord)
    (hloaded : loaded.dropDownLinked = false ∧ loaded.dropDownList = [] ∧
      loaded.dropDownReadOnly = false ∧
      loaded.dropDownDescriptionOnly = false ∧
      loaded.displayAsDropDownListItem = false) :
    SameDropDown memrec (loadDropDown memrec loaded) ↔
      (memrec.dropDownLinked = false → DropDownKept memrec) := by
  obtain ⟨hlinked, hlist, hreadOnly, hdescription, hdisplay⟩ := hloaded
  cases hcase : memrec.dropDownLinked with
  | true => simp [SameDropDown, loadDropDown, hcase]
  | false =>
    by_cases hempty : memrec.dropDownList = []
    · have hload : loadDropDown memrec loaded = loaded := by
        simp [loadDropDown, hcase, hempty]
      rw [hload, SameDropDown, hcase, if_neg (by decide), hlinked, hlist,
        hreadOnly, hdescription, hdisplay]
      constructor
      · rintro ⟨-, -, honly, hdesc, hitem⟩ -
        exact ⟨by simp [hempty], fun _ => ⟨honly.symm, hdesc.symm, hitem.symm⟩⟩
      · intro hkept
        obtain ⟨honly, hdesc, hitem⟩ := (hkept rfl).flags hempty
        exact ⟨rfl, hempty.symm, honly.symm, hdesc.symm, hitem.symm⟩
    · have hload : loadDropDown memrec loaded =
          { loaded with
            dropDownList := linesOf (textOf memrec.dropDownList)
            dropDownReadOnly := memrec.dropDownReadOnly
            dropDownDescriptionOnly := memrec.dropDownDescriptionOnly
            displayAsDropDownListItem :=
              memrec.displayAsDropDownListItem } := by
        simp [loadDropDown, hcase, hempty]
      rw [hload, SameDropDown, hcase, if_neg (by decide)]
      simp only [hlinked, linesOf_textOf_iff, true_and, and_true]
      constructor
      · intro hlines _
        exact ⟨hlines, fun hnil => absurd hnil hempty⟩
      · intro hkept
        exact (hkept trivial).unbroken

theorem loadOffset_eq_iff (offset : MemrecOffset) :
    loadOffset offset = offset ↔ OffsetKept offset := by
  obtain ⟨text, after, reinterpret, interval⟩ := offset
  cases after with
  | false => simp [loadOffset, OffsetKept, eq_comm]
  | true =>
    by_cases hfits : interval.toNat < 2 ^ 31
    · simp only [loadOffset, OffsetKept, hfits, if_true, and_self]
    · simp only [loadOffset, OffsetKept, hfits, if_true, and_false,
        if_false, MemrecOffset.mk.injEq]
      simp

theorem map_loadOffset_eq_iff (offsets : List MemrecOffset) :
    offsets.map loadOffset = offsets ↔
      ∀ offset ∈ offsets, OffsetKept offset := by
  induction offsets with
  | nil => simp
  | cons offset rest ih => simp [ih, loadOffset_eq_iff]

/-! ## One record -/

theorem loadDropDown_fields (memrec loaded : MemoryRecord) :
    (loadDropDown memrec loaded).id = loaded.id ∧
      (loadDropDown memrec loaded).description = loaded.description ∧
      (loadDropDown memrec loaded).options = loaded.options ∧
      (loadDropDown memrec loaded).varType = loaded.varType ∧
      (loadDropDown memrec loaded).active = loaded.active ∧
      (loadDropDown memrec loaded).async = loaded.async ∧
      (loadDropDown memrec loaded).extra = loaded.extra ∧
      (loadDropDown memrec loaded).pointeroffsets = loaded.pointeroffsets ∧
      (loadDropDown memrec loaded).hotkeylist = loaded.hotkeylist := by
  unfold loadDropDown
  split_ifs <;> exact ⟨rfl, rfl, rfl, rfl, rfl, rfl, rfl, rfl, rfl⟩

theorem loadHeader_id (others : List Int32) (memrec : MemoryRecord) :
    (loadHeader others memrec).id = loadID others memrec.id :=
  (loadDropDown_fields memrec _).1

/-- A record that reads the entry is the same if the header is and what is
read behind it is. -/
theorem sameRecord_iff {others : List Int32} {memrec other : MemoryRecord}
    (hheader : other.header = (loadHeader others memrec).header) :
    SameRecord memrec other ↔
      NewID others memrec.id ∧
        (memrec.dropDownLinked = false → DropDownKept memrec) ∧
        other.showAsHex = memrec.showAsHex ∧
        other.hotkeylist = memrec.hotkeylist ∧
        (memrec.isGroupHeader = false →
          other.varType = memrec.varType ∧ SameTypeData memrec other ∧
            (memrec.varType ≠ .vtAutoAssembler →
              other.interpretableaddress = memrec.interpretableaddress ∧
                other.pointeroffsets = memrec.pointeroffsets)) := by
  have hid : other.id = loadID others memrec.id :=
    (congrArg MemoryRecord.id hheader).trans (loadHeader_id others memrec)
  have hsame : SameDropDown memrec other ↔
      (memrec.dropDownLinked = false → DropDownKept memrec) := by
    have hdropDown : SameDropDown memrec other.header ↔
        SameDropDown memrec (loadHeader others memrec).header := by
      rw [hheader]
    refine hdropDown.trans (loadDropDown_same_iff memrec ?_)
    exact ⟨rfl, rfl, rfl, rfl, rfl⟩
  obtain ⟨-, hdescription, hoptions, -⟩ := loadDropDown_fields memrec
    { MemoryRecord.create with
      id := loadID others memrec.id
      description := memrec.description
      options := memrec.options }
  constructor
  · intro hrecord
    refine ⟨(loadID_eq_iff others memrec.id).mp (hid.symm.trans hrecord.id),
      hsame.mp hrecord.dropDown, hrecord.showAsHex, hrecord.hotkeys, ?_⟩
    intro hgroup
    exact ⟨hrecord.varType hgroup, hrecord.typeData hgroup,
      hrecord.address hgroup⟩
  · rintro ⟨hnew, hdropDown, hhex, hhotkeys, hbody⟩
    have hshown : other.showAsSigned =
        (memrec.showAsSignedOverride && memrec.showAsSigned) :=
      congrArg MemoryRecord.showAsSigned hheader
    have hcolor := congrArg MemoryRecord.color hheader
    have hoverride := congrArg MemoryRecord.showAsSignedOverride hheader
    have hgroup := congrArg MemoryRecord.isGroupHeader hheader
    exact {
      id := hid.trans ((loadID_eq_iff others memrec.id).mpr hnew)
      description :=
        (congrArg MemoryRecord.description hheader).trans hdescription
      options := (congrArg MemoryRecord.options hheader).trans hoptions
      color := hcolor
      showAsHex := hhex
      showAsSignedOverride := hoverride
      showAsSigned := by
        intro hset
        rw [hshown, hset, Bool.true_and]
      isGroupHeader := hgroup
      dropDown := hsame.mpr hdropDown
      hotkeys := hhotkeys
      varType := fun hgroup => (hbody hgroup).1
      typeData := fun hgroup => (hbody hgroup).2.1
      address := fun hgroup => (hbody hgroup).2.2 }

section

variable {environment : Environment} {memrec : MemoryRecord}
  (parts : EntryParts environment memrec)

theorem readBody_eq {others : List Int32} {typed : MemoryRecord}
    (htype : readType parts.nodes environment (loadHeader others memrec) =
      some typed) (hhotkeys : typed.hotkeylist = []) :
    readBody parts.nodes environment (loadHeader others memrec) =
      some { readAddress parts.nodes typed with
        hotkeylist :=
          createHotkeyIds [] (memrec.hotkeylist.map loadHotkey) } := by
  rw [readBody, htype, Option.bind_some]
  exact readHotkeys_nodes parts hhotkeys

theorem loadHeader_hotkeylist (others : List Int32) :
    (loadHeader others memrec).hotkeylist = [] :=
  (loadDropDown_fields memrec _).2.2.2.2.2.2.2.2

theorem readBody_groupHeader (hgroup : memrec.isGroupHeader = true)
    (others : List Int32) :
    (∃ other, readBody parts.nodes environment (loadHeader others memrec) =
        some other ∧ SameRecord memrec other) ↔
      NewID others memrec.id ∧ RecordKept environment memrec := by
  have htype := readType_groupHeader parts hgroup
    (show (loadHeader others memrec).varType = .vtByte from
      (loadDropDown_fields memrec _).2.2.2.1)
  have hread := readBody_eq parts htype (loadHeader_hotkeylist others)
  have hsame := sameRecord_iff (readBody_header hread)
  rw [hread]
  constructor
  · rintro ⟨other, hother, hrecord⟩
    obtain rfl := Option.some.inj hother
    obtain ⟨hnew, hdropDown, -, hhotkeys, -⟩ := hsame.mp hrecord
    refine ⟨hnew, hdropDown, (createHotkeyIds_eq_iff _).mp hhotkeys, ?_, ?_⟩
    · simp [hgroup]
    · simp [hgroup]
  · rintro ⟨hnew, hkept⟩
    refine ⟨_, rfl, hsame.mpr ⟨hnew, hkept.dropDown, rfl,
      (createHotkeyIds_eq_iff _).mpr hkept.hotkeys, ?_⟩⟩
    simp [hgroup]

theorem loadType_fields (loaded : MemoryRecord) :
    (loadType environment memrec loaded).varType = memrec.varType ∧
      (loadType environment memrec loaded).hotkeylist = loaded.hotkeylist ∧
      (loadType environment memrec loaded).pointeroffsets =
        loaded.pointeroffsets := by
  have hhex : ∀ state : Bool, ∀ memrec : MemoryRecord,
      (setShowAsHex environment state memrec).hotkeylist = memrec.hotkeylist ∧
        (setShowAsHex environment state memrec).pointeroffsets =
          memrec.pointeroffsets := by
    intro state memrec
    unfold setShowAsHex
    split
    · split <;> exact ⟨rfl, rfl⟩
    · exact ⟨rfl, rfl⟩
  unfold loadType
  cases memrec.varType
  case vtPointer => exact ⟨rfl, hhex _ _⟩
  all_goals exact ⟨rfl, rfl, rfl⟩

theorem setShowAsHex_of_inactive {loaded : MemoryRecord}
    (hactive : loaded.active = false) (state : Bool) :
    setShowAsHex environment state loaded =
      { loaded with showAsHex := state } := by
  rw [setShowAsHex, if_neg]
  simp [hactive]

theorem map_linesOf_eq_iff (script : Option (List (List Char))) :
    script.map (fun script => linesOf (textOf script)) = script ↔
      ∀ lines ∈ script, ∀ line ∈ lines, Unbroken line := by
  cases script with
  | none => simp
  | some lines => simp [linesOf_textOf_iff]

theorem loadType_kept_iff (hsame : stringToVariableType
      (variableTypeToString (environment.leftover memrec) memrec.varType) =
        memrec.varType) {loaded : MemoryRecord}
    (hactive : loaded.active = false)
    (hextra : loaded.extra = MemoryRecord.create.extra)
    (hhex : loaded.showAsHex = memrec.showAsHex) :
    (loadType environment memrec loaded).showAsHex = memrec.showAsHex ∧
        SameTypeData memrec (loadType environment memrec loaded) ↔
      TypeKept environment memrec := by
  have hnever := stringToVariableType_never
    (variableTypeToString (environment.leftover memrec) memrec.varType)
  rw [hsame] at hnever
  unfold loadType SameTypeData TypeKept
  cases hvar : memrec.varType
  case vtPointer =>
    have hset : (setVarType environment .vtPointer loaded).showAsHex =
        true := by
      rw [setVarType, setShowAsHex_of_inactive (by exact hactive)]
    simp only [hset]
    exact ⟨fun hkept => hkept.1.symm, fun hkept => ⟨hkept.symm, trivial⟩⟩
  case vtUnicodeString =>
    simp [setVarType, hextra, MemoryRecord.create, hhex, eq_comm]
  case vtGrouped =>
    rw [hvar] at hsame
    simp [setVarType, hhex]
    exact hsame
  case vtByteArrays => exact absurd hvar hnever.1
  case vtCodePageString => exact absurd hvar hnever.2
  case vtAutoAssembler =>
    simp [setVarType, hhex, map_linesOf_eq_iff]
  all_goals simp [setVarType, hhex]

theorem readBody_varType (hgroup : memrec.isGroupHeader = false)
    {loaded other : MemoryRecord}
    (hread : readBody parts.nodes environment loaded = some other) :
    other.varType = stringToVariableType
      (variableTypeToString (environment.leftover memrec)
        memrec.varType) := by
  obtain ⟨typed, htype, hrest⟩ := Option.bind_eq_some_iff.mp hread
  have htyped : typed.varType = stringToVariableType
      (variableTypeToString (environment.leftover memrec)
        memrec.varType) := by
    rw [readType, find_variableType parts hgroup] at htype
    rw [readTypeData_varType htype, setVarType_varType,
      textElement_textContent]
  unfold readHotkeys at hrest
  split at hrest
  · rw [← Option.some.inj hrest, ← htyped]
    rfl
  · obtain ⟨hotkeys, -, rfl⟩ := Option.map_eq_some_iff.mp hrest
    rw [← htyped]
    rfl

theorem stringToVariableType_of_kept (hkept : TypeKept environment memrec) :
    stringToVariableType
      (variableTypeToString (environment.leftover memrec) memrec.varType) =
        memrec.varType := by
  by_cases hnamed : Named memrec.varType
  · exact stringToVariableType_name _ hnamed
  · unfold TypeKept at hkept
    cases hvar : memrec.varType <;> rw [hvar] at hkept hnamed <;> first
      | exact absurd trivial hnamed
      | exact hkept.elim
      | exact hkept

theorem sameTypeData_congr (memrec : MemoryRecord)
    {other typed : MemoryRecord} (hextra : other.extra = typed.extra)
    (hname : other.customTypeName = typed.customTypeName)
    (hscript : other.script = typed.script)
    (hasync : other.async = typed.async) :
    SameTypeData memrec other ↔ SameTypeData memrec typed := by
  unfold SameTypeData
  rw [hextra, hname, hscript, hasync]

theorem readBody_typed (hgroup : memrec.isGroupHeader = false)
    (others : List Int32) :
    (∃ other, readBody parts.nodes environment (loadHeader others memrec) =
        some other ∧ SameRecord memrec other) ↔
      NewID others memrec.id ∧ RecordKept environment memrec := by
  by_cases hsame : stringToVariableType
      (variableTypeToString (environment.leftover memrec) memrec.varType) =
        memrec.varType
  · obtain ⟨-, -, -, -, hactive, hasync, hextra, hoffsets, -⟩ :=
      loadDropDown_fields memrec
        { MemoryRecord.create with
          id := loadID others memrec.id
          description := memrec.description
          options := memrec.options }
    have htype := readType_nodes parts hgroup hsame
      (show (loadHeader others memrec).async = false from hasync)
    obtain ⟨hvar, hhotkeylist, hpointers⟩ :=
      @loadType_fields environment memrec (loadHeader others memrec)
    have hread := readBody_eq parts htype
      (hhotkeylist.trans (loadHeader_hotkeylist others))
    have hiff := sameRecord_iff (readBody_header hread)
    have htyped := @loadType_kept_iff environment memrec hsame
      (loadHeader others memrec) hactive hextra rfl
    have haddress := fun hne => readAddress_nodes parts hgroup hne
      (hpointers.trans hoffsets)
    have htypeData : SameTypeData memrec
        { readAddress parts.nodes
            (loadType environment memrec (loadHeader others memrec)) with
          hotkeylist :=
            createHotkeyIds [] (memrec.hotkeylist.map loadHotkey) } ↔
        SameTypeData memrec
          (loadType environment memrec (loadHeader others memrec)) :=
      sameTypeData_congr memrec rfl rfl rfl rfl
    rw [hread]
    constructor
    · rintro ⟨other, hother, hrecord⟩
      obtain rfl := Option.some.inj hother
      obtain ⟨hnew, hdropDown, hhex, hhotkeys, hbody⟩ := hiff.mp hrecord
      obtain ⟨-, hdata, hplace⟩ := hbody hgroup
      refine ⟨hnew, hdropDown, (createHotkeyIds_eq_iff _).mp hhotkeys,
        fun _ => htyped.mp ⟨hhex, htypeData.mp hdata⟩, fun _ hne => ?_⟩
      have hkept := (hplace hne).2
      rw [haddress hne] at hkept
      exact (map_loadOffset_eq_iff _).mp hkept
    · rintro ⟨hnew, hkept⟩
      obtain ⟨hhex, hdata⟩ := htyped.mpr (hkept.type hgroup)
      refine ⟨_, rfl, hiff.mpr ⟨hnew, hkept.dropDown, hhex,
        (createHotkeyIds_eq_iff _).mpr hkept.hotkeys, fun _ =>
          ⟨hvar, htypeData.mpr hdata, fun hne => ?_⟩⟩⟩
      rw [haddress hne]
      exact ⟨rfl, (map_loadOffset_eq_iff _).mpr (hkept.offsets hgroup hne)⟩
  · constructor
    · rintro ⟨other, hother, hrecord⟩
      exact absurd ((readBody_varType parts hgroup hother).symm.trans
        (hrecord.varType hgroup)) hsame
    · rintro ⟨-, hkept⟩
      exact absurd (stringToVariableType_of_kept (hkept.type hgroup)) hsame

theorem readBody_same_iff (others : List Int32) :
    (∃ other, readBody parts.nodes environment (loadHeader others memrec) =
        some other ∧ SameRecord memrec other) ↔
      NewID others memrec.id ∧ RecordKept environment memrec := by
  cases hgroup : memrec.isGroupHeader with
  | true => exact readBody_groupHeader parts hgroup others
  | false => exact readBody_typed parts hgroup others

end

end CheatEngine.MemoryRecordUnit
