import CheatEngine.DocumentNodes
import CheatEngine.PascalText

/-!
# Memory records and their XML nodes

The records of the address list, `setVarType`, and the two routines that
write a tree of records into an XML document and read it back, `getXMLNode`
and `setXMLnode`.  Where one of the two raises, the result is missing.
-/

namespace CheatEngine.MemoryRecordUnit

open DocumentNodes PascalText HexText

inductive VariableType
  | vtByte | vtWord | vtDword | vtQword | vtSingle | vtDouble | vtString
  | vtUnicodeString | vtByteArray | vtBinary | vtAll | vtAutoAssembler
  | vtPointer | vtCustom | vtGrouped | vtByteArrays | vtCodePageString
deriving DecidableEq

inductive MemrecOption
  | moHideChildren | moActivateChildrenAsWell | moDeactivateChildrenAsWell
  | moRecursiveSetValue | moAllowManualCollapseAndExpand
  | moManualExpandCollapse
deriving DecidableEq

inductive MemrecHotkeyAction
  | mrhToggleActivation | mrhToggleActivationAllowIncrease
  | mrhToggleActivationAllowDecrease | mrhActivate | mrhDeactivate
  | mrhSetValue | mrhIncreaseValue | mrhDecreaseValue
deriving DecidableEq

inductive HKSoundFlag
  | hksPlaySound | hksSpeakText | hksSpeakTextEnglish
deriving DecidableEq

structure MemrecStringData where
  unicode : Bool
  codepage : Bool
  length : Int32
  zeroTerminate : Bool
deriving DecidableEq

structure MemRecBitData where
  bit : UInt8
  bitlength : Int32
  showasbinary : Bool
deriving DecidableEq

structure MemRecByteData where
  bytelength : Int32
deriving DecidableEq

/-- A variant record in the source: a record uses the part of its own type
only. -/
structure MemRecExtraData where
  stringData : MemrecStringData
  bitData : MemRecBitData
  byteData : MemRecByteData
deriving DecidableEq

structure MemrecOffset where
  offsetText : List Char
  onlyUpdateAfterInterval : Bool
  onlyUpdateWithReinterpret : Bool
  updateInterval : UInt32
deriving DecidableEq

structure MemoryRecordHotkey where
  id : Int32
  description : List Char
  keys : Fin 5 → UInt16
  action : MemrecHotkeyAction
  value : List Char
  activateSound : List Char
  activateSoundFlag : HKSoundFlag
  deactivateSound : List Char
  deactivateSoundFlag : HKSoundFlag

structure MemoryRecord where
  id : Int32
  description : List Char
  options : Finset MemrecOption
  dropDownLinked : Bool
  dropDownLinkedMemrec : List Char
  dropDownList : List (List Char)
  dropDownReadOnly : Bool
  dropDownDescriptionOnly : Bool
  displayAsDropDownListItem : Bool
  active : Bool
  frozenValue : List Char
  showAsHex : Bool
  showAsSignedOverride : Bool
  showAsSigned : Bool
  color : Int32
  isGroupHeader : Bool
  varType : VariableType
  customTypeName : List Char
  extra : MemRecExtraData
  script : Option (List (List Char))
  async : Bool
  interpretableaddress : List Char
  pointeroffsets : List MemrecOffset
  hotkeylist : List MemoryRecordHotkey
  isSelected : Bool
  dontSave : Bool

inductive TreeNode
  | node (data : MemoryRecord) (children : List TreeNode)

/-- What the records depend on outside of the unit.  `readValue` is the text
`GetValue` makes of the target's memory, `??` when it cannot be read;
`leftover` is what the result of a function holds that assigns none. -/
structure Environment where
  is64bit : Bool
  utf8tosys : List Char → List Char
  ansitoutf8 : List Char → List Char
  customTypeSize : List Char → Int32
  readValue : MemoryRecord → Option (List Char)
  realAddress : MemoryRecord → UInt64
  reformat : Bool → List Char → Option (List Char)
  leftover : MemoryRecord → List Char

def clWindowText : Int32 := -2147483640

def variableTypeToString (leftover : List Char) : VariableType → List Char
  | .vtAll => "All".toList
  | .vtBinary => "Binary".toList
  | .vtByteArray => "Array of byte".toList
  | .vtByte => "Byte".toList
  | .vtWord => "2 Bytes".toList
  | .vtDword => "4 Bytes".toList
  | .vtQword => "8 Bytes".toList
  | .vtSingle => "Float".toList
  | .vtDouble => "Double".toList
  | .vtString => "String".toList
  | .vtUnicodeString => "Unicode String".toList
  | .vtPointer => "Pointer".toList
  | .vtAutoAssembler => "Auto Assembler Script".toList
  | .vtCustom => "Custom".toList
  | .vtGrouped | .vtByteArrays | .vtCodePageString => leftover

def stringToVariableType (text : List Char) : VariableType :=
  let s := trim (lowerCase text)
  if s = "all".toList then .vtAll
  else if s = "binary".toList then .vtBinary
  else if s = "array of byte".toList then .vtByteArray
  else if s = "byte".toList then .vtByte
  else if s = "2 bytes".toList then .vtWord
  else if s = "4 bytes".toList then .vtDword
  else if s = "8 bytes".toList then .vtQword
  else if s = "float".toList then .vtSingle
  else if s = "double".toList then .vtDouble
  else if s = "string".toList then .vtString
  else if s = "unicode string".toList then .vtUnicodeString
  else if s = "pointer".toList then .vtPointer
  else if s = "custom".toList then .vtCustom
  else if s = "grouped".toList then .vtGrouped
  else if s = "auto assembler script".toList then .vtAutoAssembler
  else .vtByte

def memRecHotkeyActionToText : MemrecHotkeyAction → List Char
  | .mrhToggleActivation => "Toggle Activation".toList
  | .mrhToggleActivationAllowIncrease =>
    "Toggle Activation Allow Increase".toList
  | .mrhToggleActivationAllowDecrease =>
    "Toggle Activation Allow Decrease".toList
  | .mrhActivate => "Activate".toList
  | .mrhDeactivate => "Deactivate".toList
  | .mrhSetValue => "Set Value".toList
  | .mrhIncreaseValue => "Increase Value".toList
  | .mrhDecreaseValue => "Decrease Value".toList

def textToMemRecHotkeyAction (text : List Char) : MemrecHotkeyAction :=
  if text = "Toggle Activation".toList then .mrhToggleActivation
  else if text = "Toggle Activation Allow Increase".toList then
    .mrhToggleActivationAllowIncrease
  else if text = "Toggle Activation Allow Decrease".toList then
    .mrhToggleActivationAllowDecrease
  else if text = "Activate".toList then .mrhActivate
  else if text = "Deactivate".toList then .mrhDeactivate
  else if text = "Set Value".toList then .mrhSetValue
  else if text = "Increase Value".toList then .mrhIncreaseValue
  else if text = "Decrease Value".toList then .mrhDecreaseValue
  else .mrhToggleActivation

def MemrecOffset.create : MemrecOffset where
  offsetText := []
  onlyUpdateAfterInterval := false
  onlyUpdateWithReinterpret := false
  updateInterval := 0

def MemoryRecordHotkey.create : MemoryRecordHotkey where
  id := -1
  description := []
  keys := fun _ => 0
  action := .mrhToggleActivation
  value := []
  activateSound := []
  activateSoundFlag := .hksPlaySound
  deactivateSound := []
  deactivateSoundFlag := .hksPlaySound

def MemoryRecord.create : MemoryRecord where
  id := -1
  description := []
  options := ∅
  dropDownLinked := false
  dropDownLinkedMemrec := []
  dropDownList := []
  dropDownReadOnly := false
  dropDownDescriptionOnly := false
  displayAsDropDownListItem := false
  active := false
  frozenValue := []
  showAsHex := false
  showAsSignedOverride := false
  showAsSigned := false
  color := clWindowText
  isGroupHeader := false
  varType := .vtByte
  customTypeName := []
  extra := ⟨⟨false, false, 0, false⟩, ⟨0, 0, false⟩, ⟨0⟩⟩
  script := none
  async := false
  interpretableaddress := []
  pointeroffsets := []
  hotkeylist := []
  isSelected := false
  dontSave := false

def getByteSize (environment : Environment) (memrec : MemoryRecord) : Int32 :=
  match memrec.varType with
  | .vtByte => 1
  | .vtWord => 2
  | .vtDword | .vtSingle => 4
  | .vtDouble | .vtQword => 8
  | .vtString =>
    if memrec.extra.stringData.unicode then
      memrec.extra.stringData.length * 2
    else
      memrec.extra.stringData.length
  | .vtByteArray => memrec.extra.byteData.bytelength
  | .vtBinary =>
    1 + (memrec.extra.bitData.bit.toUInt32.toInt32 +
      memrec.extra.bitData.bitlength / 8)
  | .vtCustom => environment.customTypeSize memrec.customTypeName
  | _ => 0

def unreadable : List Char := ['?', '?']

def getValue (environment : Environment) (memrec : MemoryRecord) :
    Option (List Char) :=
  if memrec.isGroupHeader then some []
  else if getByteSize environment memrec = 0 then some []
  else environment.readValue memrec

def frozenAsNumber : List VariableType :=
  [.vtByte, .vtWord, .vtDword, .vtQword, .vtSingle, .vtDouble]

/-- The frozen value of an active record is rewritten; where that raises, the
flag is not set. -/
def setShowAsHex (environment : Environment) (state : Bool)
    (memrec : MemoryRecord) : MemoryRecord :=
  if memrec.active ∧ memrec.varType ∈ frozenAsNumber ∧
      state ≠ memrec.showAsHex then
    match environment.reformat state memrec.frozenValue with
    | none => memrec
    | some frozen => { memrec with frozenValue := frozen, showAsHex := state }
  else
    { memrec with showAsHex := state }

def setVarType (environment : Environment) (v : VariableType)
    (memrec : MemoryRecord) : MemoryRecord :=
  let prepared : MemoryRecord :=
    match v with
    | .vtUnicodeString =>
      { memrec with
        varType := .vtString
        extra.stringData.unicode := true
        extra.stringData.codepage := false
        extra.stringData.zeroTerminate := true }
    | .vtCodePageString =>
      { memrec with
        varType := .vtString
        extra.stringData.unicode := false
        extra.stringData.codepage := true
        extra.stringData.zeroTerminate := true }
    | .vtPointer =>
      setShowAsHex environment true
        { memrec with
          varType := if environment.is64bit then .vtQword else .vtDword }
    | .vtString => { memrec with extra.stringData.zeroTerminate := true }
    | .vtAutoAssembler =>
      { memrec with script := some (memrec.script.getD []) }
    | _ => memrec
  { prepared with varType := v }

def getUniqueMemrecId (ids : List Int32) : Int32 :=
  ids.foldl max (-1) + 1

/-- `others` are the IDs of the other records of the address list. -/
def setID (others : List Int32) (i : Int32) (memrec : MemoryRecord) :
    MemoryRecord :=
  if i ≠ memrec.id then
    if i ∈ others then
      { memrec with id := getUniqueMemrecId (memrec.id :: others) }
    else
      { memrec with id := i }
  else
    memrec

/-! ## Writing -/

def optionFlags (options : Finset MemrecOption) : List (String × Bool) :=
  [("moHideChildren", .moHideChildren ∈ options),
    ("moActivateChildrenAsWell", .moActivateChildrenAsWell ∈ options),
    ("moDeactivateChildrenAsWell", .moDeactivateChildrenAsWell ∈ options),
    ("moRecursiveSetValue", .moRecursiveSetValue ∈ options),
    ("moAllowManualCollapseAndExpand",
      .moAllowManualCollapseAndExpand ∈ options),
    ("moManualExpandCollapse", .moManualExpandCollapse ∈ options)]

def identityNodes (environment : Environment) (memrec : MemoryRecord) :
    List Node :=
  [textElement "ID" [] (intToStr memrec.id.toInt),
    textElement "Description" []
      ('"' :: environment.utf8tosys memrec.description ++ ['"'])]

def optionNodes (memrec : MemoryRecord) : List Node :=
  if memrec.options = ∅ then
    []
  else
    [.element "Options" (flagAttributes (optionFlags memrec.options)) []]

def dropDownFlags (memrec : MemoryRecord) : List (String × Bool) :=
  [("DescriptionOnly", memrec.dropDownDescriptionOnly),
    ("ReadOnly", memrec.dropDownReadOnly),
    ("DisplayValueAsItem", memrec.displayAsDropDownListItem)]

def dropDownNodes (memrec : MemoryRecord) : List Node :=
  if memrec.dropDownLinked then
    [textElement "DropDownListLink" [] memrec.dropDownLinkedMemrec]
  else if memrec.dropDownList = [] then
    []
  else
    [textElement "DropDownList" (flagAttributes (dropDownFlags memrec))
      (textOf memrec.dropDownList)]

def lastStateAttributes (environment : Environment) (memrec : MemoryRecord)
    (value : List Char) : List (String × List Char) :=
  if memrec.varType = .vtAutoAssembler then
    []
  else
    ("RealAddress", intToHex (environment.realAddress memrec).toNat 8) ::
      if memrec.varType = .vtString then [] else [("Value", value)]

/-- The variable `laststate` is assigned only when the value can be read; an
active record uses it in any case. -/
def lastStateNodes (environment : Environment) (memrec : MemoryRecord) :
    Option (List Node) := do
  let value ← getValue environment memrec
  let laststate :=
    if value ≠ unreadable then
      some (lastStateAttributes environment memrec value)
    else
      none
  if memrec.active then
    let attributes ← laststate
    return [.element "LastState" (attributes ++ [("Activated", ['1'])]) []]
  else
    return match laststate with
      | none => []
      | some attributes => [.element "LastState" attributes []]

def boolToStr (value : Bool) : List Char :=
  if value then ['1'] else ['0']

def appearanceNodes (memrec : MemoryRecord) : List Node :=
  (if memrec.showAsHex then [textElement "ShowAsHex" [] ['1']] else []) ++
    (if memrec.showAsSignedOverride then
      [textElement "ShowAsSigned" [] (boolToStr memrec.showAsSigned)]
    else
      []) ++
    if memrec.color = clWindowText then
      []
    else
      [textElement "Color" [] (intToHex memrec.color.toUInt32.toNat 6)]

def typeDataNodes (memrec : MemoryRecord) : Option (List Node) :=
  match memrec.varType with
  | .vtCustom =>
    some [textElement "CustomType" [] memrec.customTypeName]
  | .vtBinary =>
    some [textElement "BitStart" []
        (intToStr memrec.extra.bitData.bit.toNat),
      textElement "BitLength" []
        (intToStr memrec.extra.bitData.bitlength.toInt),
      textElement "ShowAsBinary" []
        (boolToStr memrec.extra.bitData.showasbinary)]
  | .vtString =>
    some [textElement "Length" []
        (intToStr memrec.extra.stringData.length.toInt),
      textElement "Unicode" [] (boolToStr memrec.extra.stringData.unicode),
      textElement "CodePage" []
        (boolToStr memrec.extra.stringData.codepage),
      textElement "ZeroTerminate" []
        (boolToStr memrec.extra.stringData.zeroTerminate)]
  | .vtByteArray =>
    some [textElement "ByteLength" []
      (intToStr memrec.extra.byteData.bytelength.toInt)]
  | .vtAutoAssembler =>
    memrec.script.map fun script =>
      [textElement "AssemblerScript"
        (flagAttributes [("Async", memrec.async)]) (textOf script)]
  | _ => some []

def offsetNode (offset : MemrecOffset) : Node :=
  textElement "Offset"
    ((if offset.onlyUpdateAfterInterval then
        [("Interval", intToStr offset.updateInterval.toNat)]
      else
        []) ++
      flagAttributes
        [("UpdateOnFullRefresh", offset.onlyUpdateWithReinterpret)])
    offset.offsetText

def addressNodes (memrec : MemoryRecord) : List Node :=
  if memrec.varType = .vtAutoAssembler then
    []
  else
    textElement "Address" [] memrec.interpretableaddress ::
      if memrec.pointeroffsets = [] then
        []
      else
        [.element "Offsets" [] (memrec.pointeroffsets.map offsetNode)]

def typeNodes (environment : Environment) (memrec : MemoryRecord) :
    Option (List Node) :=
  if memrec.isGroupHeader then
    some [textElement "GroupHeader" [] ['1']]
  else
    (typeDataNodes memrec).map fun data =>
      textElement "VariableType" []
          (variableTypeToString (environment.leftover memrec)
            memrec.varType) ::
        (data ++ addressNodes memrec)

def soundNodes (tagName : String) (sound : List Char) (flag : HKSoundFlag) :
    List Node :=
  if sound = [] then
    []
  else
    [textElement tagName
      (match flag with
        | .hksPlaySound => []
        | .hksSpeakText => [("TTS", [])]
        | .hksSpeakTextEnglish => [("TTS", ['E', 'N'])])
      sound]

def optionalNodes (tagName : String) (value : List Char) : List Node :=
  if value = [] then [] else [textElement tagName [] value]

def hotkeyNode (hotkey : MemoryRecordHotkey) : Node :=
  .element "Hotkey" []
    ([textElement "Action" [] (memRecHotkeyActionToText hotkey.action),
      .element "Keys" []
        (((List.ofFn hotkey.keys).takeWhile (· ≠ 0)).map fun key =>
          textElement "Key" [] (intToStr key.toNat))] ++
      optionalNodes "Value" hotkey.value ++
      optionalNodes "Description" hotkey.description ++
      (if 0 ≤ hotkey.id then
        [textElement "ID" [] (intToStr hotkey.id.toInt)]
      else
        []) ++
      soundNodes "ActivateSound" hotkey.activateSound
        hotkey.activateSoundFlag ++
      soundNodes "DeactivateSound" hotkey.deactivateSound
        hotkey.deactivateSoundFlag)

def hotkeyNodes (memrec : MemoryRecord) : List Node :=
  if memrec.hotkeylist = [] then
    []
  else
    [.element "Hotkeys" [] (memrec.hotkeylist.map hotkeyNode)]

/-- The children of a `CheatEntry`, up to the records below it. -/
def fieldNodes (environment : Environment) (memrec : MemoryRecord) :
    Option (List Node) := do
  let laststate ← lastStateNodes environment memrec
  let type ← typeNodes environment memrec
  return identityNodes environment memrec ++ optionNodes memrec ++
    dropDownNodes memrec ++ laststate ++ appearanceNodes memrec ++ type ++
    hotkeyNodes memrec

mutual

def cheatEntry (environment : Environment) : TreeNode → Option Node
  | .node memrec children => do
      let fields ← fieldNodes environment memrec
      let entries ← cheatEntries environment children
      return .element "CheatEntry" []
        (fields ++ if children = [] then [] else
          [.element "CheatEntries" [] entries])

def cheatEntries (environment : Environment) :
    List TreeNode → Option (List Node)
  | [] => some []
  | .node memrec children :: rest => do
      let entry ←
        if memrec.dontSave then
          some []
        else
          (cheatEntry environment (.node memrec children)).map ([·])
      let entries ← cheatEntries environment rest
      return entry ++ entries

end

def getXMLNode (environment : Environment)
    (hasSelectedParent selectedOnly : Bool) (tree : TreeNode) :
    Option (List Node) :=
  match tree with
  | .node memrec children =>
    if selectedOnly then
      if ¬ memrec.isSelected ∨ hasSelectedParent then
        some []
      else
        (cheatEntry environment (.node memrec children)).map ([·])
    else if memrec.dontSave then
      some []
    else
      (cheatEntry environment (.node memrec children)).map ([·])

/-! ## Reading -/

section

variable (fields : List Node)

def readInt (name : String) (old : Int32) : Option Int32 :=
  match findNode name fields with
  | none => some old
  | some node => strToInt node.textContent

def readBool (name : String) (old : Bool) : Bool :=
  match findNode name fields with
  | none => old
  | some node => node.textContent == ['1']

def readText (name : String) (old : List Char) : List Char :=
  match findNode name fields with
  | none => old
  | some node => node.textContent

def readID (others : List Int32) (memrec : MemoryRecord) :
    Option MemoryRecord :=
  match findNode "ID" fields with
  | none => some memrec
  | some node => (strToInt node.textContent).map (setID others · memrec)

def stripQuotes (text : List Char) : List Char :=
  if text.head? = some '"' ∧ text.getLast? = some '"' then
    text.tail.dropLast
  else
    text

def readDescription (environment : Environment) (memrec : MemoryRecord) :
    MemoryRecord :=
  match findNode "Description" fields with
  | none => { memrec with description := stripQuotes memrec.description }
  | some node =>
    { memrec with
      description :=
        stripQuotes (environment.ansitoutf8 node.textContent) }

/-- `moBindActivation` stands for two options. -/
def readOptionSet (node : Node) : Finset MemrecOption :=
  (if node.hasFlag "moHideChildren" then {.moHideChildren} else ∅) ∪
    (if node.hasFlag "moBindActivation" then
      {.moActivateChildrenAsWell, .moDeactivateChildrenAsWell} else ∅) ∪
    (if node.hasFlag "moActivateChildrenAsWell" then
      {.moActivateChildrenAsWell} else ∅) ∪
    (if node.hasFlag "moDeactivateChildrenAsWell" then
      {.moDeactivateChildrenAsWell} else ∅) ∪
    (if node.hasFlag "moRecursiveSetValue" then
      {.moRecursiveSetValue} else ∅) ∪
    (if node.hasFlag "moAllowManualCollapseAndExpand" then
      {.moAllowManualCollapseAndExpand} else ∅) ∪
    if node.hasFlag "moManualExpandCollapse" then
      {.moManualExpandCollapse} else ∅

def readOptions (memrec : MemoryRecord) : MemoryRecord :=
  match findNode "Options" fields with
  | none => memrec
  | some node =>
    { memrec with options := memrec.options ∪ readOptionSet node }

def readDropDown (memrec : MemoryRecord) : MemoryRecord :=
  let linked : MemoryRecord :=
    match findNode "DropDownListLink" fields with
    | none => memrec
    | some node =>
      { memrec with
        dropDownLinked := true
        dropDownLinkedMemrec := node.textContent }
  match findNode "DropDownList" fields with
  | none => linked
  | some node =>
    { linked with
      dropDownList := linesOf node.textContent
      dropDownDescriptionOnly :=
        linked.dropDownDescriptionOnly || node.hasFlag "DescriptionOnly"
      dropDownReadOnly :=
        linked.dropDownReadOnly || node.hasFlag "ReadOnly"
      displayAsDropDownListItem :=
        linked.displayAsDropDownListItem ||
          node.hasFlag "DisplayValueAsItem" }

def readColor (memrec : MemoryRecord) : MemoryRecord :=
  match findNode "Color" fields with
  | none => memrec
  | some node =>
    match strToInt ('$' :: node.textContent) with
    | none => memrec
    | some color => { memrec with color := color }

def readAppearance (memrec : MemoryRecord) : MemoryRecord :=
  let signed : MemoryRecord :=
    match findNode "ShowAsSigned" fields with
    | none => memrec
    | some node =>
      { memrec with
        showAsSignedOverride := true
        showAsSigned := node.textContent == ['1'] }
  readColor fields
    { signed with
      showAsHex := readBool fields "ShowAsHex" memrec.showAsHex
      isGroupHeader := readBool fields "GroupHeader" memrec.isGroupHeader }

def readScript (memrec : MemoryRecord) : MemoryRecord :=
  match findNode "AssemblerScript" fields with
  | none => memrec
  | some node =>
    { memrec with
      script := some (linesOf node.textContent)
      async :=
        match node.getNamedItem "Async" with
        | none => memrec.async
        | some value => value == ['1'] }

def readTypeData (memrec : MemoryRecord) : Option MemoryRecord :=
  match memrec.varType with
  | .vtCustom =>
    some { memrec with
      customTypeName :=
        readText fields "CustomType" memrec.customTypeName }
  | .vtBinary => do
      let data := memrec.extra.bitData
      let bit ← readInt fields "BitStart" data.bit.toUInt32.toInt32
      let bitlength ← readInt fields "BitLength" data.bitlength
      return { memrec with
        extra.bitData :=
          { bit := bit.toUInt32.toUInt8
            bitlength := bitlength
            showasbinary :=
              readBool fields "ShowAsBinary" data.showasbinary } }
  | .vtString => do
      let data := memrec.extra.stringData
      let length ← readInt fields "Length" data.length
      return { memrec with
        extra.stringData :=
          { unicode := readBool fields "Unicode" data.unicode
            codepage := readBool fields "CodePage" data.codepage
            length := length
            zeroTerminate :=
              readBool fields "ZeroTerminate" data.zeroTerminate } }
  | .vtByteArray => do
      let bytelength ←
        readInt fields "ByteLength" memrec.extra.byteData.bytelength
      return { memrec with extra.byteData := ⟨bytelength⟩ }
  | .vtAutoAssembler => some (readScript fields memrec)
  | _ => some memrec

def readType (environment : Environment) (memrec : MemoryRecord) :
    Option MemoryRecord :=
  readTypeData fields
    (match findNode "VariableType" fields with
      | none => memrec
      | some node =>
        setVarType environment (stringToVariableType node.textContent)
          memrec)

def setOffsetCount (count : ℕ) (offsets : List MemrecOffset) :
    List MemrecOffset :=
  offsets.take count ++
    List.replicate (count - offsets.length) MemrecOffset.create

def readOffset (node : Node) (offset : MemrecOffset) : MemrecOffset :=
  let timed : MemrecOffset :=
    match (node.getNamedItem "Interval").bind strToInt with
    | none => offset
    | some interval =>
      { offset with
        updateInterval := interval.toUInt32
        onlyUpdateAfterInterval := true }
  { timed with
    offsetText := node.textContent
    onlyUpdateWithReinterpret :=
      timed.onlyUpdateWithReinterpret || node.hasFlag "UpdateOnFullRefresh" }

def readOffsets (nodes : List Node) (offsets : List MemrecOffset) :
    List MemrecOffset :=
  List.zipWith readOffset
    (nodes.filter (fun node => node.nodeName == "Offset"))
    (setOffsetCount nodes.length offsets)

def readAddress (memrec : MemoryRecord) : MemoryRecord :=
  { memrec with
    interpretableaddress :=
      readText fields "Address" memrec.interpretableaddress
    pointeroffsets :=
      match findNode "Offsets" fields with
      | none => memrec.pointeroffsets
      | some node => readOffsets node.childNodes memrec.pointeroffsets }

def readSoundFlag (node : Node) : HKSoundFlag :=
  match node.getNamedItem "TTS" with
  | none => .hksPlaySound
  | some value =>
    if value = ['E', 'N'] then .hksSpeakTextEnglish else .hksSpeakText

def readKeys (nodes : List Node) : List UInt16 :=
  (nodes.filter (fun node => node.nodeName == "Key")).filterMap fun node =>
    (strToInt node.textContent).map fun key => key.toUInt32.toUInt16

def readHotkey (node : Node) : Option MemoryRecordHotkey :=
  if node.nodeName = "Hotkey" then do
    let hotkey := MemoryRecordHotkey.create
    let items := node.childNodes
    let id ← readInt items "ID" hotkey.id
    return {
      id := id
      description := readText items "Description" hotkey.description
      keys :=
        match findNode "Keys" items with
        | none => hotkey.keys
        | some keys => fun i => (readKeys keys.childNodes).getD i 0
      action :=
        match findNode "Action" items with
        | none => hotkey.action
        | some action => textToMemRecHotkeyAction action.textContent
      value := readText items "Value" hotkey.value
      activateSound := readText items "ActivateSound" hotkey.activateSound
      activateSoundFlag :=
        match findNode "ActivateSound" items with
        | none => hotkey.activateSoundFlag
        | some sound => readSoundFlag sound
      deactivateSound :=
        readText items "DeactivateSound" hotkey.deactivateSound
      deactivateSoundFlag :=
        match findNode "DeactivateSound" items with
        | none => hotkey.deactivateSoundFlag
        | some sound => readSoundFlag sound }
  else
    some MemoryRecordHotkey.create

/-- The smallest ID that no hotkey of the list has, which is at most their
number; the loop of the source ends at `maxint-1`. -/
def getuniquehotkeyid (hotkeys : List MemoryRecordHotkey) : Int32 :=
  let tried := List.range (min (hotkeys.length + 1) (2 ^ 31 - 1))
  Int32.ofNat ((tried.find? fun n =>
    hotkeys.all (fun hotkey => hotkey.id ≠ Int32.ofNat n)).getD (2 ^ 31 - 2))

def createHotkeyIds (done : List MemoryRecordHotkey) :
    List MemoryRecordHotkey → List MemoryRecordHotkey
  | [] => done
  | hotkey :: rest =>
    createHotkeyIds
      (done ++ [if hotkey.id = -1 then
          { hotkey with id := getuniquehotkeyid (done ++ hotkey :: rest) }
        else
          hotkey]) rest

def readHotkeys (memrec : MemoryRecord) : Option MemoryRecord :=
  match findNode "Hotkeys" fields with
  | none => some memrec
  | some node =>
    (node.childNodes.mapM readHotkey).map fun hotkeys =>
      { memrec with hotkeylist := createHotkeyIds [] hotkeys }

def readHeader (environment : Environment) (others : List Int32)
    (memrec : MemoryRecord) : Option MemoryRecord :=
  (readID fields others memrec).map fun memrec =>
    readAppearance fields
      (readDropDown fields
        (readOptions fields (readDescription fields environment memrec)))

def readBody (environment : Environment) (memrec : MemoryRecord) :
    Option MemoryRecord :=
  (readType fields environment memrec).bind fun memrec =>
    readHotkeys fields (readAddress fields memrec)

end

mutual

/-- The tree of the record after the call, and the IDs in the address list,
whose other records have the IDs `others`. -/
def setXMLnode (environment : Environment) (others : List Int32)
    (tree : TreeNode) (entry : Node) : Option (TreeNode × List Int32) :=
  match tree with
  | .node memrec children =>
    if entry.nodeName ≠ "CheatEntry" then
      some (.node memrec children, memrec.id :: others)
    else
      (readHeader entry.childNodes environment others memrec).bind
        fun memrec =>
          (match _hentries : findNode "CheatEntries" entry.childNodes with
            | none => some ([], memrec.id :: others)
            | some entries =>
              addEntries environment (memrec.id :: others)
                entries.childNodes).bind
            fun (added, ids) =>
              (readBody entry.childNodes environment memrec).map
                fun memrec => (.node memrec (children ++ added), ids)
termination_by sizeOf entry
decreasing_by
  have hfound := sizeOf_found_lt _hentries
  have hchildren := sizeOf_childNodes_lt entry
  omega

def addEntries (environment : Environment) (ids : List Int32)
    (entries : List Node) : Option (List TreeNode × List Int32) :=
  match entries with
  | [] => some ([], ids)
  | entry :: rest =>
    (setXMLnode environment ids (.node MemoryRecord.create []) entry).bind
      fun (tree, ids) =>
        (addEntries environment ids rest).map
          fun (trees, ids) => (tree :: trees, ids)
termination_by sizeOf entries
decreasing_by
  · simp only [List.cons.sizeOf_spec]
    omega
  · simp only [List.cons.sizeOf_spec]
    omega

end

end CheatEngine.MemoryRecordUnit
