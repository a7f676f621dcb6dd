import CheatEngine.HexText
import CheatEngine.TokenText

/-!
# Label resolution of the auto assembler

The second pass of `autoassemble2`: it walks over the assembler lines, keeps
room for the lines that name a label that is not defined yet, and assembles
these lines again when the line of the label is reached.  It is compared with
a two-pass assembler that first lays the lines out and then assembles every
line with all final addresses.
-/

namespace CheatEngine.AutoAssembler

open HexText TokenText

abbrev Text := List Char

def isTokenChar (char : Char) : Bool :=
  char.isAlphanum || char = '.' || char = '_' || char = '#' || char = '@'

def tokencheck (input token : Text) : Bool :=
  hasToken isTokenChar input token

def replacetoken (input token replacewith : Text) : Text :=
  replaceToken isTokenChar input token replacewith

inductive AssemblerPreference where
  | apNone
  | apShort
  | apLong
deriving DecidableEq, Repr

inductive SystemArchitecture where
  | archX86
  | archArm
deriving DecidableEq, Repr

structure Alloc where
  varname : Text
  address : UInt64
deriving DecidableEq

structure Define where
  name : Text
  whatever : Text
deriving DecidableEq

structure LabelDeclaration where
  labelname : Text
  assemblerline : ℕ
deriving DecidableEq

structure Script where
  systemArchitecture : SystemArchitecture
  is64Bit : Bool
  allocs : List Alloc
  kallocs : List Alloc
  defines : List Define
  labels : List LabelDeclaration
  readmems : List (List UInt8)
  assemblerlines : List Text

/-- The routines of other units that the pass calls.  `none` is an exception;
a line that `assemble` refuses without one has no bytes. -/
structure Tools where
  assemble :
    Text → UInt64 → AssemblerPreference → Bool → Option (List UInt8)
  getAddressFromName : Text → Option UInt64

structure Assembled where
  address : UInt64
  bytes : List UInt8
deriving DecidableEq, Repr

def addressText (address : UInt64) : Text :=
  intToHex address.toNat 8

def replaceAllocs (allocs : List Alloc) (currentline : Text) : Text :=
  allocs.foldl
    (fun text alloc =>
      replacetoken text alloc.varname (addressText alloc.address))
    currentline

def replaceDefines (defines : List Define) (currentline : Text) : Text :=
  defines.foldl
    (fun text define => replacetoken text define.name define.whatever)
    currentline

section

variable (tools : Tools) (script : Script)

def replaceNames (currentline : Text) : Text :=
  replaceDefines script.defines
    (replaceAllocs script.kallocs (replaceAllocs script.allocs currentline))

def farDistance : UInt64 :=
  match script.systemArchitecture with
  | .archArm => 0x4FFFFF8
  | .archX86 => if script.is64Bit then 0x1000FFFFF else 0xFFFFF

/-- The bytes that keep the room of a line whose label is not known yet. -/
def reserve (near far : Text) (currentaddress : UInt64) :
    Option (List UInt8) := do
  let farBytes ← tools.assemble far currentaddress .apNone true
  let nearBytes ← tools.assemble near currentaddress .apNone true
  if nearBytes.length < farBytes.length then
    tools.assemble far currentaddress .apNone false
  else
    some nearBytes

def referencePreference : AssemblerPreference :=
  if script.is64Bit then .apNone else .apLong

def nops (count : ℕ) : List UInt8 :=
  match script.systemArchitecture with
  | .archArm =>
    ((List.replicate ((count + 3) / 4)
      [0x00, 0x00, 0xa0, (0xe1 : UInt8)]).flatten).take count
  | .archX86 => List.replicate count 0x90

def readmemIndex (currentline : Text) : ℕ :=
  ((currentline.drop 8).takeWhile Char.isDigit).foldl
    (fun index char => index * 10 + (char.toNat - 48)) 0

def assembleLine (currentline : Text) (currentaddress : UInt64) :
    Option (List UInt8) :=
  if currentline.take 8 = "<READMEM".toList then
    script.readmems[readmemIndex currentline]?
  else
    tools.assemble currentline currentaddress .apNone false

/-! ## The pass -/

structure Reference where
  entry : ℕ
  line : ℕ
deriving DecidableEq

structure Label extends LabelDeclaration where
  defined : Bool
  address : UInt64
  references : List Reference
deriving DecidableEq

structure State where
  currentaddress : UInt64
  labels : List Label
  assembled : List Assembled

structure LineState where
  currentline : Text
  currentaddress : UInt64
  assembled : List Assembled
  ok1 : Bool

def referenceLabel (index : ℕ) (label : Label) (state : LineState) :
    Option (Label × LineState) :=
  if tokencheck state.currentline label.labelname then
    if !label.defined then do
      let near := replacetoken state.currentline label.labelname
        (addressText state.currentaddress)
      let far := replacetoken state.currentline label.labelname
        (addressText (state.currentaddress + farDistance script))
      let bytes ← reserve tools near far state.currentaddress
      some
        ({ label with
            references := label.references ++
              [⟨state.assembled.length, index⟩] },
          { currentline := far
            currentaddress :=
              state.currentaddress + UInt64.ofNat bytes.length
            assembled :=
              state.assembled ++ [⟨state.currentaddress, bytes⟩]
            ok1 := true })
    else
      some (label, { state with
        currentline := replacetoken state.currentline label.labelname
          (addressText label.address) })
  else
    some (label, state)

def referenceLabels (index : ℕ) :
    List Label → LineState → Option (List Label × LineState)
  | [], state => some ([], state)
  | label :: labels, state => do
      let (label, state) ← referenceLabel tools script index label state
      let (labels, state) ← referenceLabels index labels state
      some (label :: labels, state)

def defineLabel (index : ℕ) (currentaddress : UInt64) :
    List Label → Option (List Label × Label)
  | [] => none
  | label :: labels =>
    if index = label.assemblerline then
      let label :=
        { label with address := currentaddress, defined := true }
      some (label :: labels, label)
    else
      (defineLabel index currentaddress labels).map
        (fun result => (label :: result.1, result.2))

def fillReserved (size : ℕ) (bytes : List UInt8) : List UInt8 :=
  bytes.take size ++ nops script (size - bytes.length)

def reassemble (label : Label) (assembled : List Assembled)
    (reference : Reference) : Option (List Assembled) := do
  let entry ← assembled[reference.entry]?
  let line ← script.assemblerlines[reference.line]?
  let bytes ← tools.assemble
    (replacetoken line label.labelname (addressText label.address))
    entry.address (referencePreference script) false
  some (assembled.set reference.entry
    { entry with bytes := fillReserved script entry.bytes.length bytes })

def colonLine (index : ℕ) (currentline : Text) (state : State) :
    Option State :=
  match defineLabel index state.currentaddress state.labels with
  | some (labels, label) => do
      let assembled ←
        label.references.foldlM (reassemble tools script label)
          state.assembled
      some { state with labels, assembled }
  | none => do
      let currentaddress ← tools.getAddressFromName currentline.dropLast
      some { state with currentaddress }

def codeLine (index : ℕ) (currentline : Text) (state : State) :
    Option State := do
  let (labels, line) ← referenceLabels tools script index state.labels
    { currentline
      currentaddress := state.currentaddress
      assembled := state.assembled
      ok1 := false }
  if line.ok1 then
    some
      { currentaddress := line.currentaddress
        labels
        assembled := line.assembled }
  else do
    let bytes ← assembleLine tools script line.currentline line.currentaddress
    some
      { currentaddress :=
          line.currentaddress + UInt64.ofNat bytes.length
        labels
        assembled :=
          line.assembled ++ [⟨line.currentaddress, bytes⟩] }

/-- One turn of the loop.  The last character of an empty line cannot be
read, and a replaced label never puts a colon at the end of a line. -/
def processLine (index : ℕ) (line : Text) (state : State) : Option State :=
  match (replaceNames script line).getLast? with
  | none => none
  | some last =>
    if last = ':' then
      colonLine tools script index (replaceNames script line) state
    else
      codeLine tools script index (replaceNames script line) state

def processLines : ℕ → List Text → State → Option State
  | _, [], state => some state
  | index, line :: lines, state => do
      let state ← processLine tools script index line state
      processLines (index + 1) lines state

def initialState : State where
  currentaddress := 0
  labels := script.labels.map (fun declaration =>
    { declaration with defined := false, address := 0, references := [] })
  assembled := []

def secondPass : Option (List Assembled) :=
  (processLines tools script 0 script.assemblerlines
    (initialState script)).map State.assembled

structure KnownLabel extends LabelDeclaration where
  value : Option UInt64
deriving DecidableEq

def replaceLabels (shown : KnownLabel → Option Text) :
    List KnownLabel → Text → Text
  | [], line => line
  | label :: labels, line =>
    match shown label with
    | some text => replaceLabels shown labels
        (replacetoken line label.labelname text)
    | none => replaceLabels shown labels line

def resolve (labels : List KnownLabel) (line : Text) : Text :=
  replaceLabels (fun label => label.value.map addressText) labels line

def guess (labels : List KnownLabel) (address : UInt64) (line : Text) :
    Text :=
  replaceLabels (fun label => some (addressText (label.value.getD address)))
    labels line

/-- A label without an address is left when the others are replaced. -/
def unresolved : List KnownLabel → Text → Bool
  | [], _ => false
  | label :: labels, line =>
    match label.value with
    | some address => unresolved labels
        (replacetoken line label.labelname (addressText address))
    | none => tokencheck line label.labelname || unresolved labels line

/-- An instruction line with its place: `size` bytes at `address`. -/
structure Item where
  line : ℕ
  text : Text
  address : UInt64
  size : ℕ
  forward : Bool
deriving DecidableEq

structure Layout where
  currentaddress : UInt64
  labels : List KnownLabel
  items : List Item

def defineKnown (index : ℕ) (currentaddress : UInt64) :
    List KnownLabel → Option (List KnownLabel)
  | [] => none
  | label :: labels =>
    if index = label.assemblerline then
      some ({ label with value := some currentaddress } :: labels)
    else
      (defineKnown index currentaddress labels).map (label :: ·)

def layoutSize (labels : List KnownLabel) (text : Text)
    (currentaddress : UInt64) : Option ℕ :=
  if unresolved labels text then
    (reserve tools (guess labels currentaddress text)
      (guess labels (currentaddress + farDistance script) text)
      currentaddress).map List.length
  else
    (assembleLine tools script (resolve labels text)
      currentaddress).map List.length

def layoutLine (index : ℕ) (line : Text) (layout : Layout) :
    Option Layout :=
  match (replaceNames script line).getLast? with
  | none => none
  | some last =>
    if last = ':' then
      match defineKnown index layout.currentaddress layout.labels with
      | some labels => some { layout with labels }
      | none => do
          let currentaddress ←
            tools.getAddressFromName (replaceNames script line).dropLast
          some { layout with currentaddress }
    else do
      let size ← layoutSize tools script layout.labels
        (replaceNames script line) layout.currentaddress
      some
        { layout with
          currentaddress := layout.currentaddress + UInt64.ofNat size
          items := layout.items ++
            [{ line := index
               text := replaceNames script line
               address := layout.currentaddress
               size
               forward :=
                unresolved layout.labels (replaceNames script line) }] }

def layoutLines : ℕ → List Text → Layout → Option Layout
  | _, [], layout => some layout
  | index, line :: lines, layout => do
      let layout ← layoutLine tools script index line layout
      layoutLines (index + 1) lines layout

def initialLayout : Layout where
  currentaddress := 0
  labels := script.labels.map (fun declaration =>
    { declaration with value := none })
  items := []

def encode (labels : List KnownLabel) (item : Item) : Option (List UInt8) :=
  if item.forward then
    tools.assemble (resolve labels item.text) item.address
      (referencePreference script) false
  else
    assembleLine tools script (resolve labels item.text) item.address

/-- The encoding of one line with the final address of every label, followed
by as many nops as the line has room left. -/
def emit (labels : List KnownLabel) (item : Item) : Option Assembled :=
  (encode tools script labels item).map (fun bytes =>
    ⟨item.address, bytes ++ nops script (item.size - bytes.length)⟩)

def twoPass : Option (List Assembled) := do
  let layout ← layoutLines tools script 0 script.assemblerlines
    (initialLayout script)
  layout.items.mapM (emit tools script layout.labels)

end

end CheatEngine.AutoAssembler
