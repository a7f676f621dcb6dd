import CheatEngine.MemoryRecordKept

/-!
# The round trip of a tree of memory records

Which trees come back from the XML nodes they are saved as: the conditions on
each record, and on the IDs in the order in which they are read.
-/

namespace CheatEngine.MemoryRecordUnit

open List DocumentNodes PascalText HexText

mutual

def TreeNode.records : TreeNode → List MemoryRecord
  | .node memrec children => memrec :: recordsOf children

def recordsOf : List TreeNode → List MemoryRecord
  | [] => []
  | tree :: rest => tree.records ++ recordsOf rest

end

def idsOf (records : List MemoryRecord) : List Int32 :=
  records.map MemoryRecord.id

mutual

def SameTree : TreeNode → TreeNode → Prop
  | .node memrec children, .node other others =>
    SameRecord memrec other ∧ SameTrees children others

def SameTrees : List TreeNode → List TreeNode → Prop
  | [], [] => True
  | tree :: rest, other :: others =>
    SameTree tree other ∧ SameTrees rest others
  | _, _ => False

end

/-- `getXMLNode` completes, and a fresh record of an empty address list that
reads the node becomes the same tree. -/
def RoundTrips (environment : Environment) (hasSelectedParent : Bool)
    (tree : TreeNode) : Prop :=
  ∃ entry other ids,
    getXMLNode environment hasSelectedParent false tree = some [entry] ∧
      setXMLnode environment [] (.node MemoryRecord.create []) entry =
        some (other, ids) ∧
      SameTree tree other

def NewIDs (others : List Int32) : List Int32 → Prop
  | [] => True
  | i :: rest => NewID others i ∧ NewIDs (i :: others) rest

theorem newIDs_append (others ids more : List Int32) :
    NewIDs others (ids ++ more) ↔
      NewIDs others ids ∧ NewIDs (ids.reverse ++ others) more := by
  induction ids generalizing others with
  | nil => simp [NewIDs]
  | cons i rest ih => simp [NewIDs, ih, and_assoc]

structure Writable (environment : Environment) (memrec : MemoryRecord) :
    Prop where
  value : ∃ value, getValue environment memrec = some value ∧
    (memrec.active = true → value ≠ unreadable)
  script : memrec.isGroupHeader = false →
    memrec.varType = .vtAutoAssembler → memrec.script ≠ none

variable {entries : List Node} (environment : Environment)
  (memrec : MemoryRecord)

theorem lastStateNodes_isSome_iff :
    (∃ laststate, lastStateNodes environment memrec = some laststate) ↔
      ∃ value, getValue environment memrec = some value ∧
        (memrec.active = true → value ≠ unreadable) := by
  unfold lastStateNodes
  cases hvalue : getValue environment memrec with
  | none => simp
  | some value =>
    by_cases hread : value = unreadable
    · cases hactive : memrec.active <;> simp [hread]
    · cases hactive : memrec.active <;> simp [hread]

theorem typeNodes_isSome_iff :
    (∃ type, typeNodes environment memrec = some type) ↔
      (memrec.isGroupHeader = false →
        memrec.varType = .vtAutoAssembler → memrec.script ≠ none) := by
  unfold typeNodes
  cases hgroup : memrec.isGroupHeader with
  | true => simp
  | false =>
    unfold typeDataNodes
    cases hvar : memrec.varType
    case vtAutoAssembler =>
      cases hscript : memrec.script <;> simp
    all_goals simp

theorem fieldNodes_isSome_iff :
    (∃ fields, fieldNodes environment memrec = some fields) ↔
      Writable environment memrec := by
  have hlast := lastStateNodes_isSome_iff environment memrec
  have htype := typeNodes_isSome_iff environment memrec
  constructor
  · rintro ⟨fields, hfields⟩
    simp only [fieldNodes, Option.bind_eq_bind, Option.bind_eq_some_iff]
      at hfields
    obtain ⟨laststate, hlaststate, type, htypes, -⟩ := hfields
    exact ⟨hlast.mp ⟨laststate, hlaststate⟩, htype.mp ⟨type, htypes⟩⟩
  · rintro ⟨hvalue, hscript⟩
    obtain ⟨laststate, hlaststate⟩ := hlast.mpr hvalue
    obtain ⟨type, htypes⟩ := htype.mpr hscript
    exact ⟨_, by simp only [fieldNodes, hlaststate, htypes]; rfl⟩

/-! ## Reading a tree -/

theorem setXMLnode_entry {environment : Environment} {memrec : MemoryRecord}
    (hsurvives : environment.Survives memrec.description)
    {fields : List Node} {children : List TreeNode}
    (hfields : fieldNodes environment memrec = some fields)
    (hentries : children = [] → entries = []) (others : List Int32) :
    ∃ parts : EntryParts environment memrec,
      setXMLnode environment others (.node MemoryRecord.create [])
          (.element "CheatEntry" []
            (fields ++ if children = [] then [] else
              [.element "CheatEntries" [] entries])) =
        (addEntries environment (loadID others memrec.id :: others)
            entries).bind
          fun (added, ids) =>
            (readBody parts.nodes environment (loadHeader others memrec)).map
              fun memrec => (.node memrec added, ids) := by
  simp only [fieldNodes, Option.bind_eq_bind, Option.bind_eq_some_iff,
    Option.pure_def, Option.some.injEq] at hfields
  obtain ⟨laststate, hlaststate, type, htype, rfl⟩ := hfields
  let below : List Node :=
    if children = [] then [] else [.element "CheatEntries" [] entries]
  have hbelow : NamedIn ["CheatEntries"] below := by
    unfold below
    split_ifs <;> simp [NamedIn]
  let parts : EntryParts environment memrec :=
    ⟨laststate, type, below, hlaststate, htype, hbelow⟩
  refine ⟨parts, ?_⟩
  have hnodes : ∀ nodes, nodes = parts.nodes →
      setXMLnode environment others (.node MemoryRecord.create [])
          (.element "CheatEntry" [] nodes) =
        (addEntries environment (loadID others memrec.id :: others)
            entries).bind
          fun (added, ids) =>
            (readBody parts.nodes environment (loadHeader others memrec)).map
              fun memrec => (.node memrec added, ids) := by
    rintro nodes rfl
    rw [setXMLnode, if_neg (by simp)]
    simp only [element_childNodes, readHeader_nodes parts hsurvives,
      Option.bind_some, loadHeader_id, nil_append]
    split
    · rename_i hfind
      have hnone : entries = [] := by
        apply hentries
        by_contra hchildren
        rw [parts.find_below] at hfind
        simp [parts, below, hchildren, findNode_cons] at hfind
      rw [hnone, addEntries]
    · rename_i found hfind
      have hchildren : children ≠ [] := by
        intro hnil
        rw [parts.find_below] at hfind
        simp [parts, below, hnil] at hfind
      have hfound : .element "CheatEntries" [] entries = found := by
        rw [parts.find_below] at hfind
        simpa [parts, below, hchildren, findNode_cons] using hfind
      rw [← hfound, element_childNodes]
  exact hnodes _ rfl

mutual

theorem cheatEntry_isSome_iff (environment : Environment) (tree : TreeNode)
    (hsaved : ∀ memrec ∈ tree.records, memrec.dontSave = false) :
    (∃ entry, cheatEntry environment tree = some entry) ↔
      ∀ memrec ∈ tree.records, Writable environment memrec := by
  match tree with
  | .node memrec children =>
    have hfields := fieldNodes_isSome_iff environment memrec
    have hchildren := cheatEntries_isSome_iff environment children
      (fun child hchild => hsaved child (by simp [TreeNode.records, hchild]))
    simp only [TreeNode.records, forall_mem_cons, ← hfields,
      ← hchildren, cheatEntry, Option.bind_eq_bind,
      Option.bind_eq_some_iff, Option.pure_def, Option.some.injEq]
    constructor
    · rintro ⟨-, fields, hfield, entries, hentries, -⟩
      exact ⟨⟨fields, hfield⟩, ⟨entries, hentries⟩⟩
    · rintro ⟨⟨fields, hfield⟩, ⟨entries, hentries⟩⟩
      exact ⟨_, fields, hfield, entries, hentries, rfl⟩

theorem cheatEntries_isSome_iff (environment : Environment)
    (trees : List TreeNode)
    (hsaved : ∀ memrec ∈ recordsOf trees, memrec.dontSave = false) :
    (∃ entries, cheatEntries environment trees = some entries) ↔
      ∀ memrec ∈ recordsOf trees, Writable environment memrec := by
  match trees with
  | [] => simp [cheatEntries, recordsOf]
  | .node memrec children :: rest =>
    have hsave : memrec.dontSave = false :=
      hsaved memrec (by simp [recordsOf, TreeNode.records])
    have htree := cheatEntry_isSome_iff environment (.node memrec children)
      (fun child hchild => hsaved child (by simp [recordsOf, hchild]))
    have hrest := cheatEntries_isSome_iff environment rest
      (fun child hchild => hsaved child (by simp [recordsOf, hchild]))
    simp only [recordsOf, forall_mem_append, ← htree, ← hrest,
      cheatEntries, hsave, Bool.false_eq_true, if_false,
      Option.bind_eq_bind, Option.bind_eq_some_iff, Option.pure_def,
      Option.some.injEq, Option.map_eq_some_iff]
    constructor
    · rintro ⟨-, -, ⟨entry, hentry, -⟩, entries, hentries, -⟩
      exact ⟨⟨entry, hentry⟩, ⟨entries, hentries⟩⟩
    · rintro ⟨⟨entry, hentry⟩, ⟨entries, hentries⟩⟩
      exact ⟨_, _, ⟨entry, hentry, rfl⟩, entries, hentries, rfl⟩

end

/-- What reading the entry of a tree gives: whether it is the same tree, and
the IDs that are then in the address list. -/
structure ReadsTree (environment : Environment) (others : List Int32)
    (entry : Node) (tree : TreeNode) : Prop where
  same_iff :
    (∃ other ids,
        setXMLnode environment others (.node MemoryRecord.create []) entry =
          some (other, ids) ∧ SameTree tree other) ↔
      NewIDs others (idsOf tree.records) ∧
        ∀ memrec ∈ tree.records, RecordKept environment memrec
  ids_eq : ∀ other ids,
    setXMLnode environment others (.node MemoryRecord.create []) entry =
        some (other, ids) →
      SameTree tree other → ids = (idsOf tree.records).reverse ++ others

structure ReadsTrees (environment : Environment) (others : List Int32)
    (entries : List Node) (trees : List TreeNode) : Prop where
  same_iff :
    (∃ added ids,
        addEntries environment others entries = some (added, ids) ∧
          SameTrees trees added) ↔
      NewIDs others (idsOf (recordsOf trees)) ∧
        ∀ memrec ∈ recordsOf trees, RecordKept environment memrec
  ids_eq : ∀ added ids,
    addEntries environment others entries = some (added, ids) →
      SameTrees trees added →
        ids = (idsOf (recordsOf trees)).reverse ++ others

theorem readsTrees_nil (others : List Int32) :
    ReadsTrees environment others [] [] where
  same_iff := by
    simp [addEntries, SameTrees, recordsOf, idsOf, NewIDs]
  ids_eq := by
    intro added ids hread _
    rw [addEntries] at hread
    obtain ⟨-, rfl⟩ := Prod.mk.inj (Option.some.inj hread)
    simp [recordsOf, idsOf]

theorem readsTrees_cons {environment : Environment} {others : List Int32}
    {entry : Node} {tree : TreeNode} {trees : List TreeNode}
    (htree : ReadsTree environment others entry tree)
    (htrees : ReadsTrees environment
      ((idsOf tree.records).reverse ++ others) entries trees) :
    ReadsTrees environment others (entry :: entries) (tree :: trees) where
  same_iff := by
    have hids : idsOf (recordsOf (tree :: trees)) =
        idsOf tree.records ++ idsOf (recordsOf trees) := by
      simp [idsOf, recordsOf]
    rw [hids, newIDs_append, recordsOf, forall_mem_append]
    have hcombined : (NewIDs others (idsOf tree.records) ∧
          NewIDs ((idsOf tree.records).reverse ++ others)
            (idsOf (recordsOf trees))) ∧
          (∀ memrec ∈ tree.records, RecordKept environment memrec) ∧
            (∀ memrec ∈ recordsOf trees, RecordKept environment memrec) ↔
        (∃ other ids,
          setXMLnode environment others (.node MemoryRecord.create [])
              entry = some (other, ids) ∧ SameTree tree other) ∧
          ∃ added ids,
            addEntries environment
                ((idsOf tree.records).reverse ++ others) entries =
              some (added, ids) ∧ SameTrees trees added := by
      rw [htree.same_iff, htrees.same_iff]
      tauto
    rw [hcombined]
    simp only [addEntries, Option.bind_eq_some_iff, Option.map_eq_some_iff]
    constructor
    · rintro ⟨added, ids, ⟨⟨other, between⟩, hother, ⟨more, last⟩, hmore,
        heq⟩, hsame⟩
      obtain ⟨rfl, rfl⟩ := Prod.mk.inj heq
      obtain ⟨hfirst, hrest⟩ := hsame
      rw [htree.ids_eq other between hother hfirst] at hmore
      exact ⟨⟨other, between, hother, hfirst⟩, more, last, hmore, hrest⟩
    · rintro ⟨⟨other, between, hother, hfirst⟩, more, last, hmore, hrest⟩
      rw [← htree.ids_eq other between hother hfirst] at hmore
      exact ⟨other :: more, last,
        ⟨(other, between), hother, (more, last), hmore, rfl⟩,
        hfirst, hrest⟩
  ids_eq := by
    intro added ids hread hsame
    simp only [addEntries, Option.bind_eq_some_iff, Option.map_eq_some_iff]
      at hread
    obtain ⟨⟨other, between⟩, hother, ⟨more, last⟩, hmore, heq⟩ := hread
    obtain ⟨rfl, rfl⟩ := Prod.mk.inj heq
    obtain ⟨hfirst, hrest⟩ := hsame
    rw [htree.ids_eq other between hother hfirst] at hmore
    rw [htrees.ids_eq more last hmore hrest]
    simp [idsOf, recordsOf]

theorem readsTree_node {environment : Environment} {memrec : MemoryRecord}
    (hsurvives : environment.Survives memrec.description)
    {children : List TreeNode} {fields : List Node}
    (hfields : fieldNodes environment memrec = some fields)
    (hentries : children = [] → entries = []) {others : List Int32}
    (hchildren : ReadsTrees environment (memrec.id :: others) entries
      children) :
    ReadsTree environment others
      (.element "CheatEntry" []
        (fields ++ if children = [] then [] else
          [.element "CheatEntries" [] entries]))
      (.node memrec children) := by
  obtain ⟨parts, hread⟩ :=
    setXMLnode_entry hsurvives hfields hentries others
  have hrecord := readBody_same_iff parts others
  have hid : ∀ other, readBody parts.nodes environment
      (loadHeader others memrec) = some other → SameRecord memrec other →
        loadID others memrec.id = memrec.id := by
    intro other hother hsame
    have hnew := (hrecord.mp ⟨other, hother, hsame⟩).1
    exact (loadID_eq_iff others memrec.id).mpr hnew
  constructor
  · rw [hread]
    simp only [TreeNode.records, idsOf, map_cons, NewIDs, forall_mem_cons]
    have hlist := hchildren.same_iff
    constructor
    · rintro ⟨other, ids, hboth, hsame⟩
      obtain ⟨⟨added, last⟩, hadded, hbody⟩ :=
        Option.bind_eq_some_iff.mp hboth
      obtain ⟨loaded, hloaded, heq⟩ := Option.map_eq_some_iff.mp hbody
      obtain ⟨rfl, rfl⟩ := Prod.mk.inj heq
      obtain ⟨hfirst, hrest⟩ := hsame
      rw [hid loaded hloaded hfirst] at hadded
      obtain ⟨hnew, hkept⟩ := hrecord.mp ⟨loaded, hloaded, hfirst⟩
      obtain ⟨hids, hbelow⟩ := hlist.mp ⟨added, last, hadded, hrest⟩
      exact ⟨⟨hnew, hids⟩, hkept, hbelow⟩
    · rintro ⟨⟨hnew, hids⟩, hkept, hbelow⟩
      obtain ⟨loaded, hloaded, hfirst⟩ := hrecord.mpr ⟨hnew, hkept⟩
      obtain ⟨added, last, hadded, hrest⟩ := hlist.mpr ⟨hids, hbelow⟩
      refine ⟨.node loaded added, last, ?_, hfirst, hrest⟩
      rw [hid loaded hloaded hfirst, hadded, Option.bind_some, hloaded]
      rfl
  · intro other ids hboth hsame
    rw [hread] at hboth
    obtain ⟨⟨added, last⟩, hadded, hbody⟩ :=
      Option.bind_eq_some_iff.mp hboth
    obtain ⟨loaded, hloaded, heq⟩ := Option.map_eq_some_iff.mp hbody
    obtain ⟨rfl, rfl⟩ := Prod.mk.inj heq
    obtain ⟨hfirst, hrest⟩ := hsame
    rw [hid loaded hloaded hfirst] at hadded
    rw [hchildren.ids_eq added last hadded hrest]
    simp [TreeNode.records, idsOf]

mutual

theorem readsTree_cheatEntry {environment : Environment} (tree : TreeNode)
    (hsaved : ∀ memrec ∈ tree.records, memrec.dontSave = false)
    (hsurvives : ∀ memrec ∈ tree.records,
      environment.Survives memrec.description)
    {entry : Node} (hentry : cheatEntry environment tree = some entry)
    (others : List Int32) : ReadsTree environment others entry tree := by
  match tree with
  | .node memrec children =>
    simp only [cheatEntry, Option.bind_eq_bind, Option.bind_eq_some_iff,
      Option.pure_def, Option.some.injEq] at hentry
    obtain ⟨fields, hfields, entries, hentries, rfl⟩ := hentry
    have hempty : children = [] → entries = [] := by
      rintro rfl
      rw [cheatEntries] at hentries
      exact (Option.some.inj hentries).symm
    have hchildren := readsTrees_cheatEntries children
      (fun child hchild => hsaved child (by simp [TreeNode.records, hchild]))
      (fun child hchild =>
        hsurvives child (by simp [TreeNode.records, hchild]))
      hentries (memrec.id :: others)
    exact readsTree_node (hsurvives memrec (by simp [TreeNode.records]))
      hfields hempty hchildren

theorem readsTrees_cheatEntries {environment : Environment}
    (trees : List TreeNode)
    (hsaved : ∀ memrec ∈ recordsOf trees, memrec.dontSave = false)
    (hsurvives : ∀ memrec ∈ recordsOf trees,
      environment.Survives memrec.description) {entries : List Node}
    (hentries : cheatEntries environment trees = some entries)
    (others : List Int32) :
    ReadsTrees environment others entries trees := by
  match trees with
  | [] =>
    rw [cheatEntries] at hentries
    obtain rfl := Option.some.inj hentries
    exact readsTrees_nil environment others
  | .node memrec children :: rest =>
    have hsave : memrec.dontSave = false :=
      hsaved memrec (by simp [recordsOf, TreeNode.records])
    simp only [cheatEntries, hsave, Bool.false_eq_true, if_false,
      Option.bind_eq_bind, Option.bind_eq_some_iff, Option.pure_def,
      Option.some.injEq, Option.map_eq_some_iff] at hentries
    obtain ⟨-, ⟨entry, hentry, rfl⟩, more, hmore, rfl⟩ := hentries
    exact readsTrees_cons
      (readsTree_cheatEntry (.node memrec children)
        (fun child hchild => hsaved child (by simp [recordsOf, hchild]))
        (fun child hchild => hsurvives child (by simp [recordsOf, hchild]))
        hentry others)
      (readsTrees_cheatEntries rest
        (fun child hchild => hsaved child (by simp [recordsOf, hchild]))
        (fun child hchild => hsurvives child (by simp [recordsOf, hchild]))
        hmore _)

end

/-- A tree comes back from its XML nodes exactly when every record can be
written and is kept, and no ID is taken when it is read. -/
theorem copyPaste_iff (environment : Environment) (hasSelectedParent : Bool)
    (tree : TreeNode)
    (hsaved : ∀ memrec ∈ tree.records, memrec.dontSave = false)
    (hsurvives : ∀ memrec ∈ tree.records,
      environment.Survives memrec.description) :
    RoundTrips environment hasSelectedParent tree ↔
      NewIDs [] (idsOf tree.records) ∧
        ∀ memrec ∈ tree.records,
          Writable environment memrec ∧ RecordKept environment memrec := by
  have hwritten := cheatEntry_isSome_iff environment tree hsaved
  have hnodes : ∀ entry, getXMLNode environment hasSelectedParent false
      tree = some [entry] ↔ cheatEntry environment tree = some entry := by
    intro entry
    obtain ⟨memrec, children⟩ := tree
    have hsave : memrec.dontSave = false :=
      hsaved memrec (by simp [TreeNode.records])
    simp [getXMLNode, hsave]
  simp only [RoundTrips, hnodes]
  constructor
  · rintro ⟨entry, other, ids, hentry, hread, hsame⟩
    have hreads := readsTree_cheatEntry tree hsaved hsurvives hentry []
    obtain ⟨hids, hkept⟩ := hreads.same_iff.mp ⟨other, ids, hread, hsame⟩
    have hwritable := hwritten.mp ⟨entry, hentry⟩
    exact ⟨hids, fun memrec hmemrec =>
      ⟨hwritable memrec hmemrec, hkept memrec hmemrec⟩⟩
  · rintro ⟨hids, hboth⟩
    obtain ⟨entry, hentry⟩ :=
      hwritten.mpr (fun memrec hmemrec => (hboth memrec hmemrec).1)
    have hreads := readsTree_cheatEntry tree hsaved hsurvives hentry []
    obtain ⟨other, ids, hread, hsame⟩ := hreads.same_iff.mpr
      ⟨hids, fun memrec hmemrec => (hboth memrec hmemrec).2⟩
    exact ⟨entry, other, ids, hentry, hread, hsame⟩

/-- A code page that changes nothing, and a target whose memory is all 5. -/
def plainEnvironment : Environment where
  is64bit := true
  utf8tosys := id
  ansitoutf8 := id
  customTypeSize := fun _ => 4
  readValue := fun _ => some ['5']
  realAddress := fun _ => 0x400000
  reformat := fun _ text => some text
  leftover := fun _ => []

theorem plainEnvironment_survives (description : List Char) :
    plainEnvironment.Survives description := rfl

def healthRecord : MemoryRecord :=
  { MemoryRecord.create with
    id := 1
    description := "health".toList
    showAsHex := true
    varType := .vtDword
    interpretableaddress := "game.exe+10".toList
    pointeroffsets := [⟨"8".toList, false, false, 0⟩] }

def playerGroup : TreeNode :=
  .node
    { MemoryRecord.create with
      id := 0
      options := {.moHideChildren}
      isGroupHeader := true }
    [.node healthRecord []]

theorem copyPaste_iff_playerGroup :
    RoundTrips plainEnvironment false playerGroup := by
  have hsaved : ∀ memrec ∈ playerGroup.records, memrec.dontSave = false := by
    simp [playerGroup, TreeNode.records, recordsOf, healthRecord,
      MemoryRecord.create]
  apply (copyPaste_iff plainEnvironment false playerGroup hsaved
    (fun _ _ => plainEnvironment_survives _)).mpr
  refine ⟨?_, ?_⟩
  · simp [playerGroup, TreeNode.records, recordsOf, idsOf, NewIDs, NewID,
      healthRecord]
  · simp only [playerGroup, TreeNode.records, recordsOf, append_nil,
      forall_mem_cons, not_mem_nil, false_implies, implies_true, and_true]
    refine ⟨⟨⟨⟨[], rfl, by simp [MemoryRecord.create]⟩, by simp⟩, ?_⟩,
      ⟨⟨⟨['5'], by decide, by simp [unreadable]⟩, by simp [healthRecord]⟩, ?_⟩⟩
    · constructor <;> simp [MemoryRecord.create]
      exact ⟨by simp, by simp⟩
    · constructor <;>
        simp [healthRecord, MemoryRecord.create, TypeKept, OffsetKept]
      exact ⟨by simp, by simp⟩

/-- A Unicode string of ten characters, of the type that `setVarType` means to
turn into a string. -/
def unicodeRecord : MemoryRecord :=
  setVarType plainEnvironment .vtUnicodeString
    { MemoryRecord.create with
      id := 0
      extra.stringData.length := 10 }

theorem unicodeString_loses_its_length :
    ¬ RoundTrips plainEnvironment false (.node unicodeRecord []) := by
  rintro ⟨entry, other, ids, hentry, hread, hsame⟩
  have hsaved : ∀ memrec ∈ (TreeNode.node unicodeRecord []).records,
      memrec.dontSave = false := by
    simp [TreeNode.records, recordsOf, unicodeRecord, setVarType,
      MemoryRecord.create]
  have hcheat : cheatEntry plainEnvironment (.node unicodeRecord []) =
      some entry := by
    simpa [getXMLNode, unicodeRecord, setVarType, MemoryRecord.create] using
      hentry
  have hreads := readsTree_cheatEntry (.node unicodeRecord []) hsaved
    (fun _ _ => plainEnvironment_survives _) hcheat []
  have hkept := (hreads.same_iff.mp ⟨other, ids, hread, hsame⟩).2
    unicodeRecord (by simp [TreeNode.records])
  have htype := hkept.type rfl
  simp [TypeKept, unicodeRecord, setVarType] at htype

end CheatEngine.MemoryRecordUnit
