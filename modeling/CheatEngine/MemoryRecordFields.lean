import CheatEngine.MemoryRecordUnit

/-!
# What a reader finds in the entry of a record

The children of the entry that `getXMLNode` writes, by groups with disjoint
names, and for each step of `setXMLnode` the record it leaves when it reads
such an entry.
-/

namespace CheatEngine.MemoryRecordUnit

open DocumentNodes PascalText HexText

/-! ## The groups of children -/

def dataNames : List String :=
  ["CustomType", "BitStart", "BitLength", "ShowAsBinary", "Length",
    "Unicode", "CodePage", "ZeroTerminate", "ByteLength", "AssemblerScript"]

def addressNames : List String :=
  ["Address", "Offsets"]

def typeNames : List String :=
  "GroupHeader" :: "VariableType" :: (dataNames ++ addressNames)

theorem identityNodes_named (environment : Environment)
    (memrec : MemoryRecord) :
    NamedIn ["ID", "Description"] (identityNodes environment memrec) := by
  simp [NamedIn, identityNodes]

variable (memrec : MemoryRecord)

theorem optionNodes_named : NamedIn ["Options"] (optionNodes memrec) := by
  unfold optionNodes
  split <;> simp [NamedIn]

theorem dropDownNodes_named :
    NamedIn ["DropDownListLink", "DropDownList"] (dropDownNodes memrec) := by
  unfold dropDownNodes
  split_ifs <;> simp [NamedIn]

theorem lastStateNodes_named {environment : Environment}
    {memrec : MemoryRecord} {laststate : List Node}
    (hlast : lastStateNodes environment memrec = some laststate) :
    NamedIn ["LastState"] laststate := by
  simp only [lastStateNodes, Option.bind_eq_bind, Option.bind_eq_some_iff]
    at hlast
  obtain ⟨value, -, hlast⟩ := hlast
  split_ifs at hlast
  · simp only [Option.bind_some, Option.some.injEq, Option.pure_def] at hlast
    subst hlast
    simp [NamedIn]
  · simp at hlast
  · simp only [Option.some.injEq, Option.pure_def] at hlast
    subst hlast
    simp [NamedIn]
  · simp only [Option.some.injEq, Option.pure_def] at hlast
    subst hlast
    simp [NamedIn]

theorem appearanceNodes_named :
    NamedIn ["ShowAsHex", "ShowAsSigned", "Color"]
      (appearanceNodes memrec) := by
  unfold appearanceNodes
  split_ifs <;> simp [NamedIn]

theorem typeDataNodes_named {memrec : MemoryRecord} {data : List Node}
    (hdata : typeDataNodes memrec = some data) :
    NamedIn dataNames data := by
  unfold typeDataNodes at hdata
  split at hdata
  case h_5 =>
    simp only [Option.map_eq_some_iff] at hdata
    obtain ⟨script, -, rfl⟩ := hdata
    simp [NamedIn, dataNames]
  all_goals
    obtain rfl := Option.some.inj hdata
    simp [NamedIn, dataNames]

theorem addressNodes_named : NamedIn addressNames (addressNodes memrec) := by
  unfold addressNodes
  split_ifs <;> simp [NamedIn, addressNames]

theorem typeNodes_named {environment : Environment} {memrec : MemoryRecord}
    {type : List Node} (htype : typeNodes environment memrec = some type) :
    NamedIn typeNames type := by
  unfold typeNodes at htype
  split_ifs at htype
  · obtain rfl := Option.some.inj htype
    simp [NamedIn, typeNames]
  · simp only [Option.map_eq_some_iff] at htype
    obtain ⟨data, hdata, rfl⟩ := htype
    intro node hnode
    rcases List.mem_cons.mp hnode with rfl | hnode
    · simp [typeNames]
    rcases List.mem_append.mp hnode with hnode | hnode
    · have hname := typeDataNodes_named hdata node hnode
      simp [typeNames, hname]
    · have hname := addressNodes_named memrec node hnode
      simp [typeNames, hname]

theorem hotkeyNodes_named : NamedIn ["Hotkeys"] (hotkeyNodes memrec) := by
  unfold hotkeyNodes
  split_ifs <;> simp [NamedIn]

/-- The children of an entry, with the groups that can be missing as a whole
and the records below. -/
structure EntryParts (environment : Environment) (memrec : MemoryRecord) where
  laststate : List Node
  type : List Node
  below : List Node
  laststate_eq : lastStateNodes environment memrec = some laststate
  type_eq : typeNodes environment memrec = some type
  below_named : NamedIn ["CheatEntries"] below

section

variable {environment : Environment} {memrec : MemoryRecord}
  (parts : EntryParts environment memrec)

def EntryParts.nodes : List Node :=
  identityNodes environment memrec ++ optionNodes memrec ++
    dropDownNodes memrec ++ parts.laststate ++ appearanceNodes memrec ++
    parts.type ++ hotkeyNodes memrec ++ parts.below

variable {name : String} {loaded : MemoryRecord}

@[simp] theorem findNode_identityNodes (hname : name ∉ ["ID", "Description"]) :
    findNode name (identityNodes environment memrec) = none :=
  findNode_of_namedIn (identityNodes_named environment memrec) hname

@[simp] theorem findNode_optionNodes (hname : name ∉ ["Options"]) :
    findNode name (optionNodes memrec) = none :=
  findNode_of_namedIn (optionNodes_named memrec) hname

@[simp] theorem findNode_dropDownNodes
    (hname : name ∉ ["DropDownListLink", "DropDownList"]) :
    findNode name (dropDownNodes memrec) = none :=
  findNode_of_namedIn (dropDownNodes_named memrec) hname

@[simp] theorem findNode_laststate (hname : name ∉ ["LastState"]) :
    findNode name parts.laststate = none :=
  findNode_of_namedIn (lastStateNodes_named parts.laststate_eq) hname

@[simp] theorem findNode_appearanceNodes
    (hname : name ∉ ["ShowAsHex", "ShowAsSigned", "Color"]) :
    findNode name (appearanceNodes memrec) = none :=
  findNode_of_namedIn (appearanceNodes_named memrec) hname

@[simp] theorem findNode_type (hname : name ∉ typeNames) :
    findNode name parts.type = none :=
  findNode_of_namedIn (typeNodes_named parts.type_eq) hname

@[simp] theorem findNode_hotkeyNodes (hname : name ∉ ["Hotkeys"]) :
    findNode name (hotkeyNodes memrec) = none :=
  findNode_of_namedIn (hotkeyNodes_named memrec) hname

@[simp] theorem findNode_below (hname : name ∉ ["CheatEntries"]) :
    findNode name parts.below = none :=
  findNode_of_namedIn parts.below_named hname

theorem EntryParts.find_identity (hname : name ∈ ["ID", "Description"]) :
    findNode name parts.nodes =
      findNode name (identityNodes environment memrec) := by
  fin_cases hname <;>
    simp [EntryParts.nodes, typeNames, dataNames, addressNames]

theorem EntryParts.find_option :
    findNode "Options" parts.nodes =
      findNode "Options" (optionNodes memrec) := by
  simp [EntryParts.nodes, typeNames, dataNames, addressNames]

theorem EntryParts.find_dropDown
    (hname : name ∈ ["DropDownListLink", "DropDownList"]) :
    findNode name parts.nodes =
      findNode name (dropDownNodes memrec) := by
  fin_cases hname <;>
    simp [EntryParts.nodes, typeNames, dataNames, addressNames]

theorem EntryParts.find_appearance
    (hname : name ∈ ["ShowAsHex", "ShowAsSigned", "Color"]) :
    findNode name parts.nodes =
      findNode name (appearanceNodes memrec) := by
  fin_cases hname <;>
    simp [EntryParts.nodes, typeNames, dataNames, addressNames]

theorem EntryParts.find_type (hname : name ∈ typeNames) :
    findNode name parts.nodes =
      findNode name parts.type := by
  fin_cases hname <;> simp [EntryParts.nodes]

theorem EntryParts.find_hotkey :
    findNode "Hotkeys" parts.nodes =
      findNode "Hotkeys" (hotkeyNodes memrec) := by
  simp [EntryParts.nodes, typeNames, dataNames, addressNames]

theorem EntryParts.find_below :
    findNode "CheatEntries" parts.nodes =
      findNode "CheatEntries" parts.below := by
  simp [EntryParts.nodes, typeNames, dataNames, addressNames]

/-! ## The header of an entry -/

theorem strToInt_of_identity :
    findNode "ID" parts.nodes =
      some (textElement "ID" [] (intToStr memrec.id.toInt)) := by
  rw [parts.find_identity (by simp)]
  simp [identityNodes, findNode_cons]

theorem readID_nodes (others : List Int32) (loaded : MemoryRecord) :
    readID parts.nodes others loaded =
      some (setID others memrec.id loaded) := by
  simp [readID, strToInt_of_identity, strToInt_intToStr_longint]

theorem stripQuotes_quoted (text : List Char) :
    stripQuotes ('"' :: text ++ ['"']) = text := by
  have hlast : ('"' :: text ++ ['"']).getLast? = some '"' := by
    rw [List.getLast?_append]
    rfl
  rw [stripQuotes, if_pos ⟨rfl, hlast⟩]
  simp

def Environment.Survives (environment : Environment)
    (description : List Char) : Prop :=
  environment.ansitoutf8
      ('"' :: environment.utf8tosys description ++ ['"']) =
    '"' :: description ++ ['"']

theorem readDescription_nodes
    (hsurvives : environment.Survives memrec.description)
    (loaded : MemoryRecord) :
    readDescription parts.nodes environment loaded =
      { loaded with description := memrec.description } := by
  have hfind : findNode "Description" parts.nodes =
      some (textElement "Description" []
        ('"' :: environment.utf8tosys memrec.description ++ ['"'])) := by
    rw [parts.find_identity (by simp)]
    simp [identityNodes, findNode_cons]
  unfold Environment.Survives at hsurvives
  simp only [readDescription, hfind, textElement_textContent, hsurvives,
    stripQuotes_quoted]

theorem mem_if_empty {condition : Prop} [Decidable condition]
    (option : MemrecOption) (options : Finset MemrecOption) :
    (option ∈ if condition then options else ∅) ↔
      condition ∧ option ∈ options := by
  split_ifs with hcondition <;> simp [hcondition]

theorem readOptionSet_of_flags {node : Node} {options : Finset MemrecOption}
    (hnode : node.attributes = flagAttributes (optionFlags options)) :
    readOptionSet node = options := by
  have hflag := hasFlag_flagAttributes hnode
  ext option
  simp only [readOptionSet, hflag, Finset.mem_union, mem_if_empty]
  cases option <;> simp [optionFlags]

theorem readOptions_nodes (hloaded : loaded.options = ∅) :
    readOptions parts.nodes loaded =
      { loaded with options := memrec.options } := by
  rw [readOptions, parts.find_option, optionNodes]
  by_cases hoptions : memrec.options = ∅
  · simp [hoptions, ← hloaded]
  · simp [hoptions, findNode_cons, hloaded]
    exact readOptionSet_of_flags rfl

def loadDropDown (memrec loaded : MemoryRecord) : MemoryRecord :=
  if memrec.dropDownLinked then
    { loaded with
      dropDownLinked := true
      dropDownLinkedMemrec := memrec.dropDownLinkedMemrec }
  else if memrec.dropDownList = [] then
    loaded
  else
    { loaded with
      dropDownList := linesOf (textOf memrec.dropDownList)
      dropDownReadOnly := memrec.dropDownReadOnly
      dropDownDescriptionOnly := memrec.dropDownDescriptionOnly
      displayAsDropDownListItem := memrec.displayAsDropDownListItem }

theorem hasFlag_dropDown {node : Node} {memrec : MemoryRecord}
    (hnode : node.attributes = flagAttributes (dropDownFlags memrec)) :
    node.hasFlag "DescriptionOnly" = memrec.dropDownDescriptionOnly ∧
      node.hasFlag "ReadOnly" = memrec.dropDownReadOnly ∧
      node.hasFlag "DisplayValueAsItem" =
        memrec.displayAsDropDownListItem := by
  simp [hasFlag_flagAttributes hnode, dropDownFlags]

theorem readDropDown_nodes (hreadOnly : loaded.dropDownReadOnly = false)
    (hdescription : loaded.dropDownDescriptionOnly = false)
    (hdisplay : loaded.displayAsDropDownListItem = false) :
    readDropDown parts.nodes loaded = loadDropDown memrec loaded := by
  rw [readDropDown, parts.find_dropDown (by simp),
    parts.find_dropDown (by simp), dropDownNodes, loadDropDown]
  by_cases hlinked : memrec.dropDownLinked = true
  · simp [hlinked, findNode_cons]
  · by_cases hempty : memrec.dropDownList = []
    · simp [hlinked, hempty]
    · have hnode : (textElement "DropDownList"
          (flagAttributes (dropDownFlags memrec))
          (textOf memrec.dropDownList)).attributes =
            flagAttributes (dropDownFlags memrec) := rfl
      obtain ⟨hdesc, honly, hitem⟩ := hasFlag_dropDown hnode
      simp [hlinked, hempty, findNode_cons, hdesc, honly, hitem, hreadOnly,
        hdescription, hdisplay]

theorem ofInt_toUInt32 (value : Int32) :
    Int32.ofInt value.toUInt32.toNat = value := by
  apply Int32.toBitVec_inj.mp
  simp [Int32.ofInt]

theorem find_color :
    findNode "Color" parts.nodes =
      if memrec.color = clWindowText then
        none
      else
        some (textElement "Color" []
          (intToHex memrec.color.toUInt32.toNat 6)) := by
  rw [parts.find_appearance (by simp), appearanceNodes]
  split_ifs <;> simp [findNode_cons]

theorem find_showAsHex :
    findNode "ShowAsHex" parts.nodes =
      if memrec.showAsHex then
        some (textElement "ShowAsHex" [] ['1'])
      else
        none := by
  rw [parts.find_appearance (by simp), appearanceNodes]
  split_ifs <;> simp [findNode_cons]

theorem find_showAsSigned :
    findNode "ShowAsSigned" parts.nodes =
      if memrec.showAsSignedOverride then
        some (textElement "ShowAsSigned" [] (boolToStr memrec.showAsSigned))
      else
        none := by
  rw [parts.find_appearance (by simp), appearanceNodes]
  split_ifs <;> simp [findNode_cons]

theorem boolToStr_beq (value : Bool) : (boolToStr value == ['1']) = value := by
  cases value <;> rfl

theorem type_of_groupHeader (hgroup : memrec.isGroupHeader = true) :
    parts.type = [textElement "GroupHeader" [] ['1']] := by
  have htype := parts.type_eq
  rw [typeNodes, if_pos hgroup] at htype
  exact (Option.some.inj htype).symm

theorem type_of_not_groupHeader (hgroup : memrec.isGroupHeader = false) :
    ∃ data, typeDataNodes memrec = some data ∧
      parts.type = textElement "VariableType" []
          (variableTypeToString (environment.leftover memrec)
            memrec.varType) :: (data ++ addressNodes memrec) := by
  have htype := parts.type_eq
  rw [typeNodes, if_neg (by simp [hgroup])] at htype
  obtain ⟨data, hdata, htype⟩ := Option.map_eq_some_iff.mp htype
  exact ⟨data, hdata, htype.symm⟩

theorem find_groupHeader :
    findNode "GroupHeader" parts.nodes =
      if memrec.isGroupHeader then
        some (textElement "GroupHeader" [] ['1'])
      else
        none := by
  rw [parts.find_type (by simp [typeNames])]
  cases hgroup : memrec.isGroupHeader with
  | true => simp [type_of_groupHeader parts hgroup, findNode_cons]
  | false =>
    obtain ⟨data, hdata, htype⟩ := type_of_not_groupHeader parts hgroup
    simp [htype, findNode_cons, dataNames, addressNames,
      findNode_of_namedIn (typeDataNodes_named hdata),
      findNode_of_namedIn (addressNodes_named memrec)]

theorem readColor_nodes (hcolor : loaded.color = clWindowText) :
    readColor parts.nodes loaded =
      { loaded with color := memrec.color } := by
  rw [readColor, find_color]
  by_cases hdefault : memrec.color = clWindowText
  · simp [hdefault, ← hcolor]
  · simp [hdefault, strToInt_dollar, ofInt_toUInt32]

theorem readAppearance_nodes (hcolor : loaded.color = clWindowText)
    (hhex : loaded.showAsHex = false)
    (hoverride : loaded.showAsSignedOverride = false)
    (hsigned : loaded.showAsSigned = false)
    (hgroup : loaded.isGroupHeader = false) :
    readAppearance parts.nodes loaded =
      { loaded with
        showAsHex := memrec.showAsHex
        showAsSignedOverride := memrec.showAsSignedOverride
        showAsSigned := memrec.showAsSignedOverride && memrec.showAsSigned
        color := memrec.color
        isGroupHeader := memrec.isGroupHeader } := by
  have hreadHex :
      readBool parts.nodes "ShowAsHex" false = memrec.showAsHex := by
    rw [readBool, find_showAsHex]
    cases memrec.showAsHex <;> simp
  have hreadGroup :
      readBool parts.nodes "GroupHeader" false = memrec.isGroupHeader := by
    rw [readBool, find_groupHeader]
    cases memrec.isGroupHeader <;> simp
  rw [readAppearance, find_showAsSigned, hhex, hgroup, hreadHex, hreadGroup]
  cases hshown : memrec.showAsSignedOverride with
  | true =>
    simp only [if_true, textElement_textContent, boolToStr_beq]
    rw [readColor_nodes parts (by exact hcolor)]
    simp
  | false =>
    simp only [Bool.false_eq_true, if_false]
    rw [readColor_nodes parts (by exact hcolor)]
    simp [hoverride, hsigned]

def loadID (others : List Int32) (i : Int32) : Int32 :=
  (setID others i MemoryRecord.create).id

theorem setID_create (others : List Int32) (i : Int32) :
    setID others i MemoryRecord.create =
      { MemoryRecord.create with id := loadID others i } := by
  unfold loadID setID
  split_ifs <;> rfl

def loadHeader (others : List Int32) (memrec : MemoryRecord) : MemoryRecord :=
  { loadDropDown memrec
      { MemoryRecord.create with
        id := loadID others memrec.id
        description := memrec.description
        options := memrec.options } with
    showAsHex := memrec.showAsHex
    showAsSignedOverride := memrec.showAsSignedOverride
    showAsSigned := memrec.showAsSignedOverride && memrec.showAsSigned
    color := memrec.color
    isGroupHeader := memrec.isGroupHeader }

theorem readHeader_nodes
    (hsurvives : environment.Survives memrec.description)
    (others : List Int32) :
    readHeader parts.nodes environment others MemoryRecord.create =
      some (loadHeader others memrec) := by
  rw [readHeader, readID_nodes, setID_create, Option.map_some,
    readDescription_nodes parts hsurvives, readOptions_nodes parts rfl,
    readDropDown_nodes parts rfl rfl rfl]
  have hdropDown : ∀ loaded : MemoryRecord,
      (loadDropDown memrec loaded).color = loaded.color ∧
        (loadDropDown memrec loaded).showAsHex = loaded.showAsHex ∧
        (loadDropDown memrec loaded).showAsSignedOverride =
          loaded.showAsSignedOverride ∧
        (loadDropDown memrec loaded).showAsSigned = loaded.showAsSigned ∧
        (loadDropDown memrec loaded).isGroupHeader =
          loaded.isGroupHeader := by
    intro loaded
    unfold loadDropDown
    split_ifs <;> exact ⟨rfl, rfl, rfl, rfl, rfl⟩
  obtain ⟨hcolor, hhex, hoverride, hsigned, hgroup⟩ := hdropDown
    { MemoryRecord.create with
      id := loadID others memrec.id
      description := memrec.description
      options := memrec.options }
  rw [readAppearance_nodes parts hcolor hhex hoverride hsigned hgroup]
  rfl

end

end CheatEngine.MemoryRecordUnit
