import CheatEngine.GroupScan
import CheatEngine.PascalText

/-!
# The command of a group scan

`TGroupscanCommandParser` splits a command at its blanks and takes each token
apart at its colon.  A token adds an element to the block or sets an option.

What a loop variable holds after a loop that did not run is left open by the
language: the tokens of a single character are read with an unknown value,
another one each time.
-/

namespace CheatEngine
namespace GroupScanCommand

open GroupScan (VariableType)
open PascalText (copy pos strToInt trim upperCase)

abbrev Text := List Char

structure CustomType where
  name : Text
  bytesize : Int32
deriving DecidableEq, Repr

/-- What the parser uses of the program around it.  The value of a float is
given by its bits. -/
structure Environment where
  customTypes : List CustomType
  StrToQWordEx : Text → Option UInt64
  StrToFloat : Char → Text → Option UInt64
  DecimalSeparator : Char

inductive Exception
  | message (text : Text)
  | invalidNumber (value : Text)
deriving DecidableEq, Repr

def rsGSCPCustomTypeNotRecognized : Text :=
  "Custom type not recognized: ".toList

def rsGSCPInvalidGroupscanCommand : Text :=
  "Invalid groupscan command".toList

def rsGSCPWildcardsEmptyAreNotAllowedForOutOfOrderScans : Text :=
  "Wildcards/Empty are not allowed for Out of Order scans".toList

structure Element where
  wildcard : Bool
  offset : Int32
  vartype : VariableType
  uservalue : Text
  valueint : UInt64
  valuefloat : UInt64
  customtype : Option CustomType
  bytesize : Int32
  command : Text
  picked : Bool
deriving DecidableEq, Repr

structure Parser where
  calculatedBlocksize : Int32
  DecimalSeparator : Char
  elements : List Element
  blocksize : Int32
  blockalignment : Int32
  outOfOrder : Bool
  typeAligned : Bool
deriving DecidableEq, Repr

def GetCustomTypeFromName (env : Environment) (name : Text) :
    Option CustomType :=
  env.customTypes.find? fun customtype =>
    upperCase customtype.name = upperCase name

def quote : Char :=
  Char.ofNat 39

/-- The first colon that is in no brackets and not the last character. -/
def colonFrom : ℕ → ℤ → Text → Option ℕ
  | _, _, [] => none
  | _, _, [_] => none
  | i, bracketcount, char :: rest =>
    if char = ':' ∧ bracketcount = 0 then
      some i
    else if char = '(' then
      colonFrom (i + 1) (bracketcount + 1) rest
    else if char = ')' then
      colonFrom (i + 1) (bracketcount - 1) rest
    else
      colonFrom (i + 1) bracketcount rest

/-- The loop variable after the loop that looks for the colon: its last value
where there is none, and `unset` where the loop did not run. -/
def loopVariable (unset : ℤ) (s : Text) : ℤ :=
  match colonFrom 1 0 s with
  | some i => i
  | none => if 2 ≤ s.length then s.length - 1 else unset

def separate (unset : ℤ) (s : Text) : Option (Text × Text) :=
  let i := loopVariable unset s
  if i = s.length then
    none
  else
    some (upperCase (copy s 1 (i - 1)), copy s (i + 1) s.length)

/-- The loop of `parse` over the characters of the command. -/
def tokensFrom (command : Text) : ℕ → ℕ → Bool → Bool → Text → List Text
  | _, _, _, _, [] => []
  | i, start, inquote, inbraces, char :: rest =>
    if char ∈ [' ', quote, '(', ')'] ∨ rest = [] then
      let inquote := inquote != (char == quote)
      if char = quote ∧ rest ≠ [] then
        tokensFrom command (i + 1) start inquote inbraces rest
      else if inquote then
        tokensFrom command (i + 1) start inquote inbraces rest
      else if char = '(' then
        tokensFrom command (i + 1) start inquote true rest
      else if char = ')' then
        tokensFrom command (i + 1) start inquote false rest
      else if inbraces then
        tokensFrom command (i + 1) start inquote inbraces rest
      else
        trim (copy command start (i + 1 - start)) ::
          tokensFrom command (i + 1) i inquote inbraces rest
    else
      tokensFrom command (i + 1) start inquote inbraces rest

def tokens (command : Text) : List Text :=
  tokensFrom command 1 1 false false command

/-! ## Elements -/

def isElement (command : Text) : Bool :=
  command.head?.any (· ∈ ['1', '2', '4', '8', 'F', 'D', 'C', 'S', 'W'])

structure Shape where
  vartype : VariableType
  bytesize : Int32
  customtype : Option CustomType
  nextchar : ℕ
  value : Text

/-- The loop down to `i` that looks for the closing bracket. -/
def closingFrom (command : Text) (i : ℕ) : ℕ → ℕ
  | 0 => 0
  | k + 1 =>
    if command[k]? = some ')' then
      k + 1
    else if k + 1 ≤ i then
      i
    else
      closingFrom command i k

def unquote (value : Text) : Text :=
  if value.head? = some quote ∧ value.getLast? = some quote then
    copy value 2 (value.length - 2)
  else
    value

def shapeOf (env : Environment) (command value : Text) :
    Except Exception Shape :=
  match command with
  | '1' :: _ => .ok ⟨.vtByte, 1, none, 2, value⟩
  | '2' :: _ => .ok ⟨.vtWord, 2, none, 2, value⟩
  | '4' :: _ => .ok ⟨.vtDWord, 4, none, 2, value⟩
  | '8' :: _ => .ok ⟨.vtQWord, 8, none, 2, value⟩
  | 'F' :: _ => .ok ⟨.vtSingle, 4, none, 2, value⟩
  | 'D' :: _ => .ok ⟨.vtDouble, 8, none, 2, value⟩
  | 'C' :: _ =>
    let i := pos '(' command
    let k := closingFrom command i command.length
    let ctn := copy command (i + 1) (k - i - 1)
    match GetCustomTypeFromName env ctn with
    | some customtype =>
      .ok ⟨.vtCustom, customtype.bytesize, some customtype, k + 1, value⟩
    | none => .error (.message (rsGSCPCustomTypeNotRecognized ++ ctn))
  | 'S' :: rest =>
    let value := unquote value
    if rest.head? = some 'U' then
      .ok ⟨.vtUnicodeString, Int32.ofNat (value.length * 2), none, 3, value⟩
    else
      .ok ⟨.vtString, Int32.ofNat value.length, none, 2, value⟩
  | 'W' :: _ =>
    match strToInt value with
    | some bytesize => .ok ⟨.vtString, bytesize, none, 2, []⟩
    | none => .error (.invalidNumber value)
  | _ => .error (.message rsGSCPInvalidGroupscanCommand)

def pickedOf (command : Text) (nextchar : ℕ) : Except Exception Bool :=
  match command[nextchar - 1]? with
  | none => .ok false
  | some 'P' => .ok true
  | some _ => .error (.message rsGSCPInvalidGroupscanCommand)

namespace Shape

variable (shape : Shape)

def wildcard : Bool :=
  shape.value = [] ∨
    (shape.vartype ∉ [.vtString, .vtUnicodeString] ∧ shape.value = ['*'])

def readsFloat : Bool :=
  !shape.wildcard && decide (shape.vartype ∈ [.vtSingle, .vtDouble])

def valueint (env : Environment) : Except Exception UInt64 :=
  if !shape.wildcard &&
      decide (shape.vartype ∈
        [.vtByte, .vtWord, .vtDWord, .vtQWord, .vtCustom]) then
    match env.StrToQWordEx shape.value with
    | some value => .ok value
    | none => .error (.invalidNumber shape.value)
  else
    .ok 0

def valuefloat (env : Environment) (separator : Char) : UInt64 :=
  if shape.readsFloat then
    (env.StrToFloat separator shape.value).getD 0
  else
    0

/-- A float that cannot be read changes the separator for the next one. -/
def nextSeparator (env : Environment) (separator : Char) : Char :=
  if shape.readsFloat ∧ env.StrToFloat separator shape.value = none then
    if separator = '.' then ',' else '.'
  else
    separator

end Shape

def addElement (env : Environment) (command value : Text) (parser : Parser) :
    Except Exception Parser :=
  match shapeOf env command value with
  | .error exception => .error exception
  | .ok shape =>
    match pickedOf command shape.nextchar with
    | .error exception => .error exception
    | .ok picked =>
      match shape.valueint env with
      | .error exception => .error exception
      | .ok valueint =>
        .ok
          { parser with
            elements := parser.elements ++
              [{ wildcard := shape.wildcard
                 offset := parser.calculatedBlocksize
                 vartype := shape.vartype
                 uservalue := shape.value
                 valueint := valueint
                 valuefloat :=
                   shape.valuefloat env parser.DecimalSeparator
                 customtype := shape.customtype
                 bytesize := shape.bytesize
                 command := command
                 picked := picked }]
            calculatedBlocksize :=
              parser.calculatedBlocksize + shape.bytesize
            DecimalSeparator :=
              shape.nextSeparator env parser.DecimalSeparator }

def BA : Text := ['B', 'A']

def BS : Text := ['B', 'S']

def OOO : Text := ['O', 'O', 'O']

def setOption (command value : Text) (parser : Parser) :
    Except Exception Parser :=
  if command = BA then
    match strToInt value with
    | some number => .ok { parser with blockalignment := number }
    | none => .error (.invalidNumber value)
  else if command = BS then
    match strToInt value with
    | some number => .ok { parser with blocksize := number }
    | none => .error (.invalidNumber value)
  else if command = OOO then
    .ok { parser with outOfOrder := true, typeAligned := value = ['A'] }
  else
    .ok parser

def execute (env : Environment) (entry : Text × Text) (parser : Parser) :
    Except Exception Parser :=
  match setOption entry.1 entry.2 parser with
  | .error exception => .error exception
  | .ok parser =>
    if isElement entry.1 then
      addElement env entry.1 entry.2 parser
    else
      .ok parser

def parseToken (env : Environment) (unset : ℤ) (s : Text) (parser : Parser) :
    Except Exception Parser :=
  match separate unset s with
  | none => .ok parser
  | some entry => execute env entry parser

/-- The tokens one after the other.  An exception ends the call; what it
leaves behind of the token is replaced by the next call. -/
def parseTokens (env : Environment) (unset : ℕ → ℤ) :
    ℕ → List Text → Parser → Parser × Option Exception
  | _, [], parser => (parser, none)
  | n, s :: rest, parser =>
    match parseToken env (unset n) s parser with
    | .error exception => (parser, some exception)
    | .ok parser => parseTokens env unset (n + 1) rest parser

def reset (env : Environment) (parser : Parser) : Parser :=
  { parser with
    blockalignment := 4
    blocksize := -1
    calculatedBlocksize := 0
    elements := []
    DecimalSeparator := env.DecimalSeparator }

def pickAll (elements : List Element) : List Element :=
  if elements.any Element.picked then
    elements
  else
    elements.map fun element => { element with picked := true }

def finish (parser : Parser) : Parser × Option Exception :=
  let parser :=
    { parser with
      blocksize :=
        if parser.blocksize = -1 then
          parser.calculatedBlocksize
        else
          parser.blocksize }
  if parser.outOfOrder ∧ parser.elements.any Element.wildcard then
    (parser,
      some (.message rsGSCPWildcardsEmptyAreNotAllowedForOutOfOrderScans))
  else
    ({ parser with elements := pickAll parser.elements }, none)

def parse (env : Environment) (unset : ℕ → ℤ) (command : Text)
    (parser : Parser) : Parser × Option Exception :=
  match parseTokens env unset 0 (tokens command) (reset env parser) with
  | (parser, some exception) => (parser, some exception)
  | (parser, none) => finish parser

def blank : Parser :=
  ⟨0, '.', [], 0, 0, false, false⟩

def after (env : Environment) (history : List (Text × (ℕ → ℤ))) : Parser :=
  history.foldl
    (fun parser entry => (parse env entry.2 entry.1 parser).1)
    (parse env (fun _ => 0) [] blank).1

def result (env : Environment) (unset : ℕ → ℤ) (command : Text)
    (parser : Parser) : Option Parser :=
  match parse env unset command parser with
  | (parser, none) => some parser
  | (_, some _) => none

end GroupScanCommand
end CheatEngine
