import CheatEngine.MemoryRecordFields

/-!
# Types, addresses and hotkeys read back

The steps of `setXMLnode` behind the records below an entry: the variable type
with its data, the address with its offsets, and the hotkeys.
-/

namespace CheatEngine.MemoryRecordUnit

open List DocumentNodes PascalText HexText

theorem ofInt_natCast_toUInt32 (n : ℕ) :
    (Int32.ofInt (n : ℤ)).toUInt32 = UInt32.ofNat n := by
  apply UInt32.toBitVec_inj.mp
  simp only [Int32.ofInt, BitVec.ofInt_natCast]
  rfl

theorem ite_ne_of {condition : Prop} [Decidable condition]
    {first second third : VariableType} (hfirst : first ≠ third)
    (hsecond : second ≠ third) :
    (if condition then first else second) ≠ third := by
  split_ifs
  · exact hfirst
  · exact hsecond

theorem stringToVariableType_never (text : List Char) :
    stringToVariableType text ≠ .vtByteArrays ∧
      stringToVariableType text ≠ .vtCodePageString := by
  constructor <;> (repeat' apply ite_ne_of) <;> decide

def Named : VariableType → Prop
  | .vtGrouped | .vtByteArrays | .vtCodePageString => False
  | _ => True

theorem stringToVariableType_name (leftover : List Char) {type : VariableType}
    (hnamed : Named type) :
    stringToVariableType (variableTypeToString leftover type) = type := by
  have hclosed : variableTypeToString leftover type =
      variableTypeToString [] type := by
    cases type <;> first
      | exact hnamed.elim
      | rfl
  rw [hclosed]
  clear hclosed
  cases type <;> first
    | exact hnamed.elim
    | decide

theorem textToMemRecHotkeyAction_toText (action : MemrecHotkeyAction) :
    textToMemRecHotkeyAction (memRecHotkeyActionToText action) = action := by
  cases action <;> decide

theorem setVarType_varType (environment : Environment) (v : VariableType)
    (memrec : MemoryRecord) :
    (setVarType environment v memrec).varType = v := rfl

section

variable {environment : Environment} {memrec : MemoryRecord}
  (parts : EntryParts environment memrec)

theorem find_variableType (hgroup : memrec.isGroupHeader = false) :
    findNode "VariableType" parts.nodes =
      some (textElement "VariableType" []
        (variableTypeToString (environment.leftover memrec)
          memrec.varType)) := by
  obtain ⟨data, -, htype⟩ := type_of_not_groupHeader parts hgroup
  rw [parts.find_type (by simp [typeNames]), htype]
  simp [findNode_cons]

theorem find_data (hgroup : memrec.isGroupHeader = false) {data : List Node}
    (hdata : typeDataNodes memrec = some data) {name : String}
    (hname : name ∈ dataNames) :
    findNode name parts.nodes = findNode name data := by
  obtain ⟨written, hwritten, htype⟩ := type_of_not_groupHeader parts hgroup
  obtain rfl : written = data :=
    Option.some.inj (hwritten.symm.trans hdata)
  have hother : name ≠ "VariableType" ∧ name ∉ addressNames := by
    fin_cases hname <;> simp [addressNames]
  rw [parts.find_type (by simp [typeNames, hname]), htype]
  simp [findNode_cons, hother.1.symm,
    findNode_of_namedIn (addressNodes_named memrec) hother.2]

variable {loaded : MemoryRecord} (offset : MemrecOffset)

theorem readType_groupHeader (hgroup : memrec.isGroupHeader = true)
    (hloaded : loaded.varType = .vtByte) :
    readType parts.nodes environment loaded = some loaded := by
  have hfind : findNode "VariableType" parts.nodes = none := by
    rw [parts.find_type (by simp [typeNames]),
      type_of_groupHeader parts hgroup]
    simp [findNode_cons]
  simp only [readType, hfind, readTypeData, hloaded]

theorem readTypeData_varType {fields : List Node} {result : MemoryRecord}
    (hread : readTypeData fields loaded = some result) :
    result.varType = loaded.varType := by
  unfold readTypeData at hread
  split at hread <;>
    simp only [Option.bind_eq_bind, Option.bind_eq_some_iff, Option.pure_def,
      Option.some.injEq] at hread
  · rw [← hread]
  · obtain ⟨-, -, -, -, rfl⟩ := hread
    rfl
  · obtain ⟨-, -, rfl⟩ := hread
    rfl
  · obtain ⟨-, -, rfl⟩ := hread
    rfl
  · rw [← hread, readScript]
    split <;> rfl
  · rw [← hread]

def loadType (environment : Environment) (memrec loaded : MemoryRecord) :
    MemoryRecord :=
  let typed := setVarType environment memrec.varType loaded
  match memrec.varType with
  | .vtCustom => { typed with customTypeName := memrec.customTypeName }
  | .vtBinary => { typed with extra.bitData := memrec.extra.bitData }
  | .vtString => { typed with extra.stringData := memrec.extra.stringData }
  | .vtByteArray => { typed with extra.byteData := memrec.extra.byteData }
  | .vtAutoAssembler =>
    { typed with
      script := memrec.script.map (fun script => linesOf (textOf script))
      async := memrec.async }
  | _ => typed

theorem readType_nodes (hgroup : memrec.isGroupHeader = false)
    (hsame : stringToVariableType
      (variableTypeToString (environment.leftover memrec) memrec.varType) =
        memrec.varType) (hasync : loaded.async = false) :
    readType parts.nodes environment loaded =
      some (loadType environment memrec loaded) := by
  obtain ⟨data, hdata, -⟩ := type_of_not_groupHeader parts hgroup
  have hfind : ∀ name ∈ dataNames,
      findNode name parts.nodes = findNode name data :=
    fun name hname => find_data parts hgroup hdata hname
  simp only [dataNames, forall_mem_cons] at hfind
  have hbit : ∀ bit : UInt8,
      strToInt (intToStr bit.toNat) = some (Int32.ofInt bit.toNat) := by
    intro bit
    have hbound := bit.toNat_lt
    rw [strToInt_intToStr, if_pos (by omega)]
  simp only [readType, find_variableType parts hgroup, textElement_textContent,
    hsame, readTypeData, setVarType_varType, loadType]
  unfold typeDataNodes at hdata
  cases hvar : memrec.varType
  case vtCustom =>
    simp only [hvar, Option.some.injEq] at hdata
    simp [readText, hfind, ← hdata, findNode_cons]
  case vtBinary =>
    simp only [hvar, Option.some.injEq] at hdata
    simp [readInt, readBool, hfind, ← hdata, findNode_cons, hbit,
      strToInt_intToStr_longint, boolToStr_beq, ofInt_natCast_toUInt32]
  case vtString =>
    simp only [hvar, Option.some.injEq] at hdata
    simp [readInt, readBool, hfind, ← hdata, findNode_cons,
      strToInt_intToStr_longint, boolToStr_beq]
  case vtByteArray =>
    simp only [hvar, Option.some.injEq] at hdata
    simp [readInt, hfind, ← hdata, findNode_cons, strToInt_intToStr_longint]
  case vtAutoAssembler =>
    simp only [hvar, Option.map_eq_some_iff] at hdata
    obtain ⟨script, hscript, rfl⟩ := hdata
    cases hflag : memrec.async with
    | true =>
      simp [readScript, hfind, findNode_cons, hscript, hflag,
        flagAttributes, Node.getNamedItem, setVarType_varType]
    | false =>
      simp [readScript, hfind, findNode_cons, hscript, hflag,
        flagAttributes, Node.getNamedItem, setVarType, hasync]
  all_goals rfl

theorem find_address (hgroup : memrec.isGroupHeader = false) {name : String}
    (hname : name ∈ addressNames) :
    findNode name parts.nodes = findNode name (addressNodes memrec) := by
  obtain ⟨data, hdata, htype⟩ := type_of_not_groupHeader parts hgroup
  have hother : name ≠ "VariableType" ∧ name ∉ dataNames := by
    fin_cases hname <;> simp [dataNames]
  rw [parts.find_type (by simp [typeNames, hname]), htype]
  simp [findNode_cons, hother.1.symm,
    findNode_of_namedIn (typeDataNodes_named hdata) hother.2]

/-- An offset read back: an interval that is no `longint` is not read. -/
def loadOffset (offset : MemrecOffset) : MemrecOffset :=
  if offset.onlyUpdateAfterInterval ∧
      offset.updateInterval.toNat < 2 ^ 31 then
    offset
  else
    { offset with onlyUpdateAfterInterval := false, updateInterval := 0 }

theorem getNamedItem_interval :
    (offsetNode offset).getNamedItem "Interval" =
      if offset.onlyUpdateAfterInterval then
        some (intToStr offset.updateInterval.toNat)
      else
        none := by
  cases hafter : offset.onlyUpdateAfterInterval <;>
    cases hflag : offset.onlyUpdateWithReinterpret <;>
      simp [offsetNode, Node.getNamedItem, flagAttributes, hafter, hflag]

theorem hasFlag_updateOnFullRefresh :
    (offsetNode offset).hasFlag "UpdateOnFullRefresh" =
      offset.onlyUpdateWithReinterpret := by
  cases hafter : offset.onlyUpdateAfterInterval <;>
    cases hflag : offset.onlyUpdateWithReinterpret <;>
      simp [offsetNode, Node.hasFlag, Node.getNamedItem, flagAttributes,
        hafter, hflag]

theorem readOffset_offsetNode :
    readOffset (offsetNode offset) MemrecOffset.create =
      loadOffset offset := by
  have htext : (offsetNode offset).textContent = offset.offsetText := by
    simp [offsetNode]
  simp only [readOffset, htext, hasFlag_updateOnFullRefresh,
    getNamedItem_interval, loadOffset]
  cases hafter : offset.onlyUpdateAfterInterval with
  | false => simp [MemrecOffset.create]
  | true =>
    have hlow : -2 ^ 31 ≤ (offset.updateInterval.toNat : ℤ) := by omega
    by_cases hfits : offset.updateInterval.toNat < 2 ^ 31
    · have hread : strToInt (intToStr offset.updateInterval.toNat) =
          some (Int32.ofInt offset.updateInterval.toNat) := by
        rw [strToInt_intToStr, if_pos ⟨hlow, by exact_mod_cast hfits⟩]
      simp only [if_true, Option.bind_some, hread, ofInt_natCast_toUInt32]
      rw [if_pos ⟨trivial, hfits⟩]
      simp [MemrecOffset.create, ← hafter]
    · have hread : strToInt (intToStr offset.updateInterval.toNat) =
          none := by
        rw [strToInt_intToStr, if_neg]
        rintro ⟨-, hupper⟩
        exact hfits (by exact_mod_cast hupper)
      simp only [if_true, Option.bind_some, hread]
      rw [if_neg (fun hboth => hfits hboth.2)]
      simp [MemrecOffset.create]

theorem readOffsets_map (offsets : List MemrecOffset) :
    readOffsets (offsets.map offsetNode) [] = offsets.map loadOffset := by
  have hfilter : (offsets.map offsetNode).filter
      (fun node => node.nodeName == "Offset") = offsets.map offsetNode := by
    rw [filter_eq_self]
    intro node hnode
    obtain ⟨offset, -, rfl⟩ := mem_map.mp hnode
    simp [offsetNode]
  simp only [readOffsets, hfilter, setOffsetCount, take_nil,
    length_nil, Nat.sub_zero, nil_append, length_map]
  induction offsets with
  | nil => rfl
  | cons offset rest ih =>
    have hrest : (rest.map offsetNode).filter
        (fun node => node.nodeName == "Offset") =
          rest.map offsetNode := by
      simp [offsetNode]
    simp [replicate_succ, readOffset_offsetNode, ih hrest]

theorem readAddress_nodes (hgroup : memrec.isGroupHeader = false)
    (hvar : memrec.varType ≠ .vtAutoAssembler)
    (hloaded : loaded.pointeroffsets = []) :
    readAddress parts.nodes loaded =
      { loaded with
        interpretableaddress := memrec.interpretableaddress
        pointeroffsets := memrec.pointeroffsets.map loadOffset } := by
  rw [readAddress, readText,
    find_address parts hgroup (by simp [addressNames]),
    find_address parts hgroup (by simp [addressNames]), addressNodes,
    if_neg hvar]
  by_cases hempty : memrec.pointeroffsets = []
  · simp [hempty, findNode_cons, hloaded]
  · simp [hempty, findNode_cons, hloaded, readOffsets_map]

end

/-! ## Hotkeys -/

@[simp] theorem findNode_optionalNodes (name tagName : String)
    (value : List Char) :
    findNode name (optionalNodes tagName value) =
      if tagName = name then
        if value = [] then none else some (textElement tagName [] value)
      else
        none := by
  unfold optionalNodes
  split_ifs <;> simp_all [findNode_cons]

def soundAttributes : HKSoundFlag → List (String × List Char)
  | .hksPlaySound => []
  | .hksSpeakText => [("TTS", [])]
  | .hksSpeakTextEnglish => [("TTS", ['E', 'N'])]

@[simp] theorem findNode_soundNodes (name tagName : String)
    (sound : List Char) (flag : HKSoundFlag) :
    findNode name (soundNodes tagName sound flag) =
      if tagName = name then
        if sound = [] then
          none
        else
          some (textElement tagName (soundAttributes flag) sound)
      else
        none := by
  unfold soundNodes
  split_ifs <;> cases flag <;> simp_all [findNode_cons, soundAttributes]

variable (tagName : String)

theorem readSoundFlag_soundAttributes (flag : HKSoundFlag)
    (sound : List Char) :
    readSoundFlag (textElement tagName (soundAttributes flag) sound) =
      flag := by
  cases flag <;>
    simp [readSoundFlag, soundAttributes, Node.getNamedItem]

def loadKeys (keys : Fin 5 → UInt16) : Fin 5 → UInt16 :=
  fun i => ((List.ofFn keys).takeWhile (· ≠ 0)).getD i 0

theorem readKeys_map (keys : List UInt16) :
    readKeys (keys.map fun key => textElement "Key" []
      (intToStr key.toNat)) = keys := by
  induction keys with
  | nil => rfl
  | cons key rest ih =>
    have hbound := key.toNat_lt
    have hread : strToInt (intToStr key.toNat) =
        some (Int32.ofInt key.toNat) := by
      rw [strToInt_intToStr, if_pos (by omega)]
    rw [readKeys] at ih ⊢
    simp [hread, ofInt_natCast_toUInt32, ih]

def loadSoundFlag (sound : List Char) (flag : HKSoundFlag) : HKSoundFlag :=
  if sound = [] then .hksPlaySound else flag

def loadHotkey (hotkey : MemoryRecordHotkey) : MemoryRecordHotkey :=
  { hotkey with
    id := if 0 ≤ hotkey.id then hotkey.id else -1
    keys := loadKeys hotkey.keys
    activateSoundFlag :=
      loadSoundFlag hotkey.activateSound hotkey.activateSoundFlag
    deactivateSoundFlag :=
      loadSoundFlag hotkey.deactivateSound hotkey.deactivateSoundFlag }

theorem find_hotkeyID (hotkey : MemoryRecordHotkey) (name : String) :
    findNode name
        (if 0 ≤ hotkey.id then
          [textElement "ID" [] (intToStr hotkey.id.toInt)] else []) =
      if "ID" = name then
        if 0 ≤ hotkey.id then
          some (textElement "ID" [] (intToStr hotkey.id.toInt))
        else
          none
      else
        none := by
  split_ifs <;> simp_all [findNode_cons]

theorem readText_optional (attributes : List (String × List Char))
    (value : List Char) :
    (match (if value = [] then none
        else some (textElement tagName attributes value)) with
      | none => []
      | some node => node.textContent) = value := by
  by_cases hvalue : value = []
  · simp [hvalue]
  · simp [hvalue]

theorem readSoundFlag_optional (flag : HKSoundFlag) (sound : List Char) :
    (match (if sound = [] then none
        else some (textElement tagName (soundAttributes flag) sound)) with
      | none => .hksPlaySound
      | some node => readSoundFlag node) = loadSoundFlag sound flag := by
  by_cases hsound : sound = []
  · simp [hsound, loadSoundFlag]
  · simp [hsound, loadSoundFlag, readSoundFlag_soundAttributes]

theorem readHotkey_hotkeyNode (hotkey : MemoryRecordHotkey) :
    readHotkey (hotkeyNode hotkey) = some (loadHotkey hotkey) := by
  have hid : readInt (hotkeyNode hotkey).childNodes "ID" (-1) =
      some (if 0 ≤ hotkey.id then hotkey.id else -1) := by
    simp only [readInt, hotkeyNode, element_childNodes, findNode_append,
      find_hotkeyID]
    by_cases hpositive : 0 ≤ hotkey.id
    · simp [findNode_cons, hpositive, strToInt_intToStr_longint]
    · simp [findNode_cons, hpositive]
  have hname : (hotkeyNode hotkey).nodeName = "Hotkey" := rfl
  rw [readHotkey, if_pos hname]
  simp only [MemoryRecordHotkey.create, hid]
  simp only [hotkeyNode, element_childNodes, findNode_append, find_hotkeyID,
    readText]
  simp only [findNode_cons, loadHotkey, textElement_nodeName, element_nodeName,
    String.reduceEq, if_true, if_false, Option.none_or, findNode_nil,
    findNode_optionalNodes, findNode_soundNodes, Option.or_none,
    textElement_textContent, element_childNodes, readKeys_map,
    textToMemRecHotkeyAction_toText, Option.bind_eq_bind, Option.bind_some,
    Option.pure_def, Option.some.injEq, MemoryRecordHotkey.mk.injEq, true_and]
  exact ⟨readText_optional _ _ _, rfl, readText_optional _ _ _,
    readText_optional _ _ _, readSoundFlag_optional _ _ _,
    readText_optional _ _ _, readSoundFlag_optional _ _ _⟩

theorem mapM_readHotkey (hotkeys : List MemoryRecordHotkey) :
    (hotkeys.map hotkeyNode).mapM readHotkey =
      some (hotkeys.map loadHotkey) := by
  induction hotkeys with
  | nil => rfl
  | cons hotkey rest ih =>
    rw [map_cons, mapM_cons, readHotkey_hotkeyNode, ih]
    rfl

theorem readHotkeys_nodes {environment : Environment} {memrec : MemoryRecord}
    (parts : EntryParts environment memrec) {loaded : MemoryRecord}
    (hloaded : loaded.hotkeylist = []) :
    readHotkeys parts.nodes loaded =
      some { loaded with
        hotkeylist :=
          createHotkeyIds [] (memrec.hotkeylist.map loadHotkey) } := by
  rw [readHotkeys, parts.find_hotkey, hotkeyNodes]
  by_cases hempty : memrec.hotkeylist = []
  · rw [if_pos hempty, hempty]
    simp only [findNode_nil, map_nil, createHotkeyIds]
    rw [← hloaded]
  · rw [if_neg hempty]
    simp only [findNode_cons, element_nodeName, if_true, element_childNodes,
      mapM_readHotkey, Option.map_some]

/-! ## Which hotkeys come back -/

theorem ofNat_nonneg {n : ℕ} (hn : n < 2 ^ 31) : 0 ≤ Int32.ofNat n := by
  rw [Int32.le_iff_toInt_le, Int32.toInt_ofNat_of_lt hn]
  exact Int.natCast_nonneg n

theorem getuniquehotkeyid_nonneg (hotkeys : List MemoryRecordHotkey) :
    0 ≤ getuniquehotkeyid hotkeys := by
  apply ofNat_nonneg
  cases hfind : (List.range (min (hotkeys.length + 1) (2 ^ 31 - 1))).find?
      fun n => hotkeys.all (fun hotkey => hotkey.id ≠ Int32.ofNat n) with
  | none => simp
  | some n =>
    have hmem := mem_of_find?_eq_some hfind
    have hbound := lt_of_lt_of_le (mem_range.mp hmem) (min_le_right _ _)
    rw [Option.getD_some]
    omega

structure GetsID (read kept : MemoryRecordHotkey) : Prop where
  unchanged : read.id ≠ -1 → kept = read
  created : read.id = -1 → 0 ≤ kept.id

theorem createHotkeyIds_getsID (done rest : List MemoryRecordHotkey) :
    ∃ kept, createHotkeyIds done rest = done ++ kept ∧
      List.Forall₂ GetsID rest kept := by
  induction rest generalizing done with
  | nil => exact ⟨[], by simp [createHotkeyIds], List.Forall₂.nil⟩
  | cons hotkey rest ih =>
    rw [createHotkeyIds]
    obtain ⟨kept, hkept, hrest⟩ := ih (done ++ [if hotkey.id = -1 then
      { hotkey with id := getuniquehotkeyid (done ++ hotkey :: rest) }
      else hotkey])
    refine ⟨_ :: kept, by rw [hkept, append_assoc]; rfl,
      List.Forall₂.cons ⟨?_, ?_⟩ hrest⟩
    · intro hid
      rw [if_neg hid]
    · intro hid
      rw [if_pos hid]
      exact getuniquehotkeyid_nonneg _

theorem createHotkeyIds_of_ids {done rest : List MemoryRecordHotkey}
    (hrest : ∀ hotkey ∈ rest, hotkey.id ≠ -1) :
    createHotkeyIds done rest = done ++ rest := by
  induction rest generalizing done with
  | nil => simp [createHotkeyIds]
  | cons hotkey rest ih =>
    rw [createHotkeyIds, if_neg (hrest hotkey (by simp)),
      ih (fun next hnext => hrest next (by simp [hnext]))]
    simp

theorem getD_takeWhile_of_zero {keys : List UInt16} {i j : ℕ} (hle : j ≤ i)
    (hzero : keys.getD j 0 = 0) :
    (keys.takeWhile (· ≠ 0)).getD i 0 = 0 := by
  induction keys generalizing i j with
  | nil => simp
  | cons key rest ih =>
    by_cases hkey : key = 0
    · simp [hkey]
    · have htake : (key :: rest).takeWhile (· ≠ 0) =
          key :: rest.takeWhile (· ≠ 0) := by simp [hkey]
      rw [htake]
      cases j with
      | zero => exact absurd hzero (by simpa using hkey)
      | succ j =>
        cases i with
        | zero => omega
        | succ i =>
          rw [getD_cons_succ] at hzero ⊢
          exact ih (by omega) hzero

theorem getD_takeWhile_of_ne {keys : List UInt16} {i : ℕ}
    (hne : ∀ j ≤ i, keys.getD j 0 ≠ 0) :
    (keys.takeWhile (· ≠ 0)).getD i 0 = keys.getD i 0 := by
  induction keys generalizing i with
  | nil => simp
  | cons key rest ih =>
    have hkey : key ≠ 0 := by simpa using hne 0 (Nat.zero_le _)
    have htake : (key :: rest).takeWhile (· ≠ 0) =
        key :: rest.takeWhile (· ≠ 0) := by simp [hkey]
    rw [htake]
    cases i with
    | zero => rfl
    | succ i =>
      rw [getD_cons_succ, getD_cons_succ]
      apply ih
      intro j hj
      simpa using hne (j + 1) (by omega)

theorem loadKeys_eq_iff (keys : Fin 5 → UInt16) :
    loadKeys keys = keys ↔
      ∀ i j, i ≤ j → keys i = 0 → keys j = 0 := by
  have hget : ∀ i : Fin 5, (List.ofFn keys).getD i 0 = keys i := by
    intro i
    fin_cases i <;> rfl
  constructor
  · intro heq i j hle hzero
    rw [← heq, loadKeys]
    exact getD_takeWhile_of_zero hle (by rw [hget, hzero])
  · intro hgap
    funext i
    rw [loadKeys]
    by_cases hzero : ∃ j ≤ i, keys j = 0
    · obtain ⟨j, hle, hj⟩ := hzero
      rw [getD_takeWhile_of_zero hle (by rw [hget, hj]), hgap j i hle hj]
    · rw [getD_takeWhile_of_ne, hget]
      intro j hj hzeroj
      have hbound : j < 5 := by omega
      exact hzero ⟨⟨j, hbound⟩, hj, (hget ⟨j, hbound⟩).symm.trans hzeroj⟩

structure HotkeyKept (hotkey : MemoryRecordHotkey) : Prop where
  id : 0 ≤ hotkey.id
  keys : ∀ i j, i ≤ j → hotkey.keys i = 0 → hotkey.keys j = 0
  activateSound : hotkey.activateSound = [] →
    hotkey.activateSoundFlag = .hksPlaySound
  deactivateSound : hotkey.deactivateSound = [] →
    hotkey.deactivateSoundFlag = .hksPlaySound

theorem loadSoundFlag_eq_iff (sound : List Char) (flag : HKSoundFlag) :
    loadSoundFlag sound flag = flag ↔
      (sound = [] → flag = .hksPlaySound) := by
  unfold loadSoundFlag
  split_ifs with hsound
  · simp [hsound, eq_comm]
  · simp [hsound]

theorem loadHotkey_eq_iff {hotkey : MemoryRecordHotkey} (hid : 0 ≤ hotkey.id) :
    loadHotkey hotkey = hotkey ↔ HotkeyKept hotkey := by
  have hfields : loadHotkey hotkey = hotkey ↔
      loadKeys hotkey.keys = hotkey.keys ∧
        loadSoundFlag hotkey.activateSound hotkey.activateSoundFlag =
          hotkey.activateSoundFlag ∧
        loadSoundFlag hotkey.deactivateSound hotkey.deactivateSoundFlag =
          hotkey.deactivateSoundFlag := by
    obtain ⟨id, description, keys, action, value, sound, flag, other,
      otherFlag⟩ := hotkey
    simp only [loadHotkey, if_pos hid, MemoryRecordHotkey.mk.injEq, true_and]
  rw [hfields, loadKeys_eq_iff, loadSoundFlag_eq_iff, loadSoundFlag_eq_iff]
  constructor
  · rintro ⟨hkeys, hactivate, hdeactivate⟩
    exact ⟨hid, hkeys, hactivate, hdeactivate⟩
  · rintro ⟨-, hkeys, hactivate, hdeactivate⟩
    exact ⟨hkeys, hactivate, hdeactivate⟩

theorem ne_of_nonneg {i : Int32} (hi : 0 ≤ i) : i ≠ -1 := by
  rintro rfl
  exact absurd hi (by decide)

theorem createHotkeyIds_eq_iff (hotkeys : List MemoryRecordHotkey) :
    createHotkeyIds [] (hotkeys.map loadHotkey) = hotkeys ↔
      ∀ hotkey ∈ hotkeys, HotkeyKept hotkey := by
  constructor
  · intro heq
    obtain ⟨kept, hkept, hall⟩ :=
      createHotkeyIds_getsID [] (hotkeys.map loadHotkey)
    rw [heq, nil_append] at hkept
    rw [← hkept, forall₂_map_left_iff, forall₂_same] at hall
    intro hotkey hhotkey
    obtain ⟨hunchanged, hcreated⟩ := hall hotkey hhotkey
    have hid : 0 ≤ hotkey.id := by
      by_contra hnegative
      exact hnegative (hcreated (by simp [loadHotkey, hnegative]))
    have hsame : (loadHotkey hotkey).id = hotkey.id := by
      simp [loadHotkey, hid]
    have hback := hunchanged (by rw [hsame]; exact ne_of_nonneg hid)
    exact (loadHotkey_eq_iff hid).mp hback.symm
  · intro hkept
    have hmap : hotkeys.map loadHotkey = hotkeys.map id :=
      map_congr_left fun hotkey hhotkey =>
        (loadHotkey_eq_iff (hkept hotkey hhotkey).id).mpr
          (hkept hotkey hhotkey)
    rw [map_id] at hmap
    rw [hmap]
    exact createHotkeyIds_of_ids
      (fun hotkey hhotkey => ne_of_nonneg (hkept hotkey hhotkey).id)

end CheatEngine.MemoryRecordUnit
