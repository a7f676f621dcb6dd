import CheatEngine.GroupScanCommand

/-!
# What the commands of a group scan do to the parser

Each command of a token adds elements or sets one field, and where it raises
an exception does not depend on the parser.  The effects of the commands of a
call are put together, and compared with those under other options.
-/

namespace CheatEngine.GroupScanCommand

open List

open GroupScan (VariableType)
open PascalText (strToInt)

/-- The commands with their values.  A token of one character has none. -/
def commandsOf (command : Text) : List (Text × Text) :=
  (tokens command).filterMap (separate 1)

def Accepted (env : Environment) (entry : Text × Text) : Bool :=
  if entry.1 = BA ∨ entry.1 = BS then
    (strToInt entry.2).isSome
  else if isElement entry.1 then
    match shapeOf env entry.1 entry.2 with
    | .ok shape =>
      (pickedOf entry.1 shape.nextchar).isOk && (shape.valueint env).isOk
    | .error _ => false
  else
    true

def sizeOf (env : Environment) (entry : Text × Text) : Int32 :=
  match shapeOf env entry.1 entry.2 with
  | .ok shape => shape.bytesize
  | .error _ => 0

def isWildcard (env : Environment) (entry : Text × Text) : Bool :=
  match shapeOf env entry.1 entry.2 with
  | .ok shape => shape.wildcard
  | .error _ => false

def blocksizeOf (entry : Text × Text) : Option Int32 :=
  if entry.1 = BS then strToInt entry.2 else none

def orderOf (entry : Text × Text) : Option Bool :=
  if entry.1 = OOO then some (entry.2 = ['A']) else none

def elementsOf (entries : List (Text × Text)) : List (Text × Text) :=
  entries.filter fun entry => isElement entry.1

/-! ## One command -/

theorem isElement_BA : isElement BA = false := by decide

theorem isElement_BS : isElement BS = false := by decide

theorem isElement_OOO : isElement OOO = false := by decide

def starts (offset : Int32) : List Int32 → List Int32
  | [] => []
  | bytesize :: rest => offset :: starts (offset + bytesize) rest

def total (offset : Int32) (sizes : List Int32) : Int32 :=
  sizes.foldl (· + ·) offset

structure Executed (env : Environment) (entries : List (Text × Text))
    (parser after : Parser) (added : List Element) : Prop where
  elements : after.elements = parser.elements ++ added
  offsets : added.map Element.offset =
    starts parser.calculatedBlocksize (added.map Element.bytesize)
  sizes : added.map Element.bytesize =
    (elementsOf entries).map (sizeOf env)
  wildcards : added.map Element.wildcard =
    (elementsOf entries).map (isWildcard env)
  calculatedBlocksize : after.calculatedBlocksize =
    total parser.calculatedBlocksize (added.map Element.bytesize)
  blocksize : after.blocksize =
    (entries.filterMap blocksizeOf).getLast?.getD parser.blocksize
  outOfOrder : after.outOfOrder =
    (parser.outOfOrder || entries.any fun entry => (orderOf entry).isSome)
  typeAligned : after.typeAligned =
    (entries.filterMap orderOf).getLast?.getD parser.typeAligned

section

variable {env : Environment} {entry : Text × Text} {parser next : Parser}

theorem elementsOf_singleton :
    elementsOf [entry] = if isElement entry.1 then [entry] else [] := by
  simp [elementsOf, filter_cons]

theorem ne_of_isElement {command : Text}
    (helement : isElement command = true) :
    command ≠ BA ∧ command ≠ BS ∧ command ≠ OOO := by
  refine ⟨?_, ?_, ?_⟩ <;> rintro rfl <;> exact absurd helement (by decide)

theorem addElement_executed (helement : isElement entry.1 = true)
    (hadd : addElement env entry.1 entry.2 parser = .ok next) :
    ∃ added, Executed env [entry] parser next added := by
  obtain ⟨-, hBS, hOOO⟩ := ne_of_isElement helement
  have hblocksize : blocksizeOf entry = none := if_neg hBS
  have horder : orderOf entry = none := if_neg hOOO
  unfold addElement at hadd
  split at hadd
  · cases hadd
  · rename_i shape hshape
    split at hadd
    · cases hadd
    · split at hadd
      · cases hadd
      · cases hadd
        have hone : elementsOf [entry] = [entry] := by
          rw [elementsOf_singleton, if_pos helement]
        refine ⟨_, rfl, rfl, ?_, ?_, rfl, ?_, ?_, ?_⟩
        · rw [hone, map_singleton, map_singleton, sizeOf, hshape]
        · rw [hone, map_singleton, map_singleton, isWildcard, hshape]
        · simp [hblocksize]
        · simp [horder]
        · simp [horder]

theorem executed_nil (helement : isElement entry.1 = false)
    (helements : next.elements = parser.elements)
    (hcalculated : next.calculatedBlocksize = parser.calculatedBlocksize)
    (hblocksize : next.blocksize = (blocksizeOf entry).getD parser.blocksize)
    (houtOfOrder : next.outOfOrder =
      (parser.outOfOrder || (orderOf entry).isSome))
    (htypeAligned : next.typeAligned =
      (orderOf entry).getD parser.typeAligned) :
    Executed env [entry] parser next [] := by
  have hnone : elementsOf [entry] = [] := by
    rw [elementsOf_singleton, helement]
    rfl
  refine ⟨?_, rfl, ?_, ?_, hcalculated, ?_, ?_, ?_⟩
  · rw [helements, append_nil]
  · rw [hnone]
    rfl
  · rw [hnone]
    rfl
  · rw [hblocksize]
    cases hvalue : blocksizeOf entry <;> simp [hvalue]
  · rw [houtOfOrder]
    simp
  · rw [htypeAligned]
    cases hvalue : orderOf entry <;> simp [hvalue]

variable (value : Text)

theorem execute_BA :
    execute env (BA, value) parser =
      match strToInt value with
      | some number => .ok { parser with blockalignment := number }
      | none => .error (.invalidNumber value) := by
  cases hvalue : strToInt value <;>
    simp [execute, setOption, hvalue, isElement_BA]

theorem execute_BS :
    execute env (BS, value) parser =
      match strToInt value with
      | some number => .ok { parser with blocksize := number }
      | none => .error (.invalidNumber value) := by
  have hBA : BS ≠ BA := by decide
  cases hvalue : strToInt value <;>
    simp [execute, setOption, hvalue, hBA, isElement_BS]

theorem execute_OOO :
    execute env (OOO, value) parser =
      .ok { parser with outOfOrder := true, typeAligned := value = ['A'] } := by
  have hBA : OOO ≠ BA := by decide
  have hBS : OOO ≠ BS := by decide
  simp [execute, setOption, hBA, hBS, isElement_OOO]

theorem execute_element (helement : isElement entry.1 = true) :
    execute env entry parser =
      addElement env entry.1 entry.2 parser := by
  obtain ⟨hBA, hBS, hOOO⟩ := ne_of_isElement helement
  simp [execute, setOption, hBA, hBS, hOOO, helement]

theorem execute_other (hBA : entry.1 ≠ BA) (hBS : entry.1 ≠ BS)
    (hOOO : entry.1 ≠ OOO) (helement : isElement entry.1 = false) :
    execute env entry parser = .ok parser := by
  simp [execute, setOption, hBA, hBS, hOOO, helement]

/-- The commands that `parseToken` tells apart. -/
inductive Kind : Text × Text → Prop
  | BA (value : Text) : Kind (BA, value)
  | BS (value : Text) : Kind (BS, value)
  | OOO (value : Text) : Kind (OOO, value)
  | element {entry : Text × Text} (helement : isElement entry.1 = true) :
      Kind entry
  | other {entry : Text × Text} (hBA : entry.1 ≠ GroupScanCommand.BA)
      (hBS : entry.1 ≠ GroupScanCommand.BS)
      (hOOO : entry.1 ≠ GroupScanCommand.OOO)
      (helement : isElement entry.1 = false) : Kind entry

theorem kind (entry : Text × Text) : Kind entry := by
  obtain ⟨command, value⟩ := entry
  by_cases hBA : command = BA
  · subst hBA
    exact .BA value
  · by_cases hBS : command = BS
    · subst hBS
      exact .BS value
    · by_cases hOOO : command = OOO
      · subst hOOO
        exact .OOO value
      · cases helement : isElement command with
        | true => exact .element helement
        | false => exact .other hBA hBS hOOO helement

theorem execute_executed (hexecute : execute env entry parser = .ok next) :
    ∃ added, Executed env [entry] parser next added := by
  cases kind entry with
  | BA value =>
    rw [execute_BA] at hexecute
    cases hvalue : strToInt value with
    | none =>
      rw [hvalue] at hexecute
      cases hexecute
    | some number =>
      rw [hvalue] at hexecute
      cases hexecute
      exact ⟨[], executed_nil isElement_BA rfl rfl rfl
        (Bool.or_false _).symm rfl⟩
  | BS value =>
    rw [execute_BS] at hexecute
    cases hvalue : strToInt value with
    | none =>
      rw [hvalue] at hexecute
      cases hexecute
    | some number =>
      rw [hvalue] at hexecute
      cases hexecute
      have hblocksize : blocksizeOf (BS, value) = some number := hvalue
      exact ⟨[], executed_nil isElement_BS rfl rfl
        (by rw [hblocksize]; rfl) (Bool.or_false _).symm rfl⟩
  | OOO value =>
    rw [execute_OOO] at hexecute
    cases hexecute
    exact ⟨[], executed_nil isElement_OOO rfl rfl rfl
      (Bool.or_true _).symm rfl⟩
  | element helement =>
    rw [execute_element helement] at hexecute
    exact addElement_executed helement hexecute
  | other hBA hBS hOOO helement =>
    rw [execute_other hBA hBS hOOO helement] at hexecute
    cases hexecute
    exact ⟨[], executed_nil helement rfl rfl (by simp [blocksizeOf, hBS])
      (by simp [orderOf, hOOO]) (by simp [orderOf, hOOO])⟩

theorem addElement_isOk (command value : Text) :
    (addElement env command value parser).isOk =
      match shapeOf env command value with
      | .ok shape =>
        (pickedOf command shape.nextchar).isOk && (shape.valueint env).isOk
      | .error _ => false := by
  unfold addElement
  cases shapeOf env command value with
  | error exception => rfl
  | ok shape =>
    dsimp only
    cases pickedOf command shape.nextchar with
    | error exception => rfl
    | ok picked => cases shape.valueint env <;> rfl

theorem execute_isOk :
    (execute env entry parser).isOk = Accepted env entry := by
  unfold Accepted
  cases kind entry with
  | BA value =>
    rw [execute_BA, if_pos (Or.inl rfl)]
    cases strToInt value <;> rfl
  | BS value =>
    rw [execute_BS, if_pos (Or.inr rfl)]
    cases strToInt value <;> rfl
  | OOO value =>
    rw [execute_OOO,
      if_neg (by decide : ¬(OOO = BA ∨ OOO = BS)), isElement_OOO]
    rfl
  | element helement =>
    obtain ⟨hBA, hBS, -⟩ := ne_of_isElement helement
    rw [execute_element helement, if_neg (by simp [hBA, hBS]),
      if_pos helement, addElement_isOk]
  | other hBA hBS hOOO helement =>
    rw [execute_other hBA hBS hOOO helement, if_neg (by simp [hBA, hBS]),
      helement]
    rfl

def Parser.withOptions (parser : Parser) (outOfOrder typeAligned : Bool) :
    Parser :=
  { parser with outOfOrder := outOfOrder, typeAligned := typeAligned }

theorem addElement_withOptions (command value : Text)
    (outOfOrder typeAligned : Bool) :
    addElement env command value (parser.withOptions outOfOrder typeAligned) =
      (addElement env command value parser).map
        fun next => next.withOptions outOfOrder typeAligned := by
  unfold addElement
  cases shapeOf env command value with
  | error exception => rfl
  | ok shape =>
    dsimp only
    cases pickedOf command shape.nextchar with
    | error exception => rfl
    | ok picked => cases shape.valueint env <;> rfl

theorem execute_withOptions (outOfOrder typeAligned : Bool) :
    execute env entry (parser.withOptions outOfOrder typeAligned) =
      (execute env entry parser).map fun next =>
        next.withOptions (outOfOrder || (orderOf entry).isSome)
          ((orderOf entry).getD typeAligned) := by
  cases kind entry with
  | BA value =>
    have hnone : orderOf (BA, value) = none := rfl
    rw [execute_BA, execute_BA, hnone]
    cases strToInt value with
    | none => rfl
    | some number => simp [Except.map, Parser.withOptions]
  | BS value =>
    have hnone : orderOf (BS, value) = none := rfl
    rw [execute_BS, execute_BS, hnone]
    cases strToInt value with
    | none => rfl
    | some number => simp [Except.map, Parser.withOptions]
  | OOO value =>
    have hsome : orderOf (OOO, value) = some (decide (value = ['A'])) := rfl
    rw [execute_OOO, execute_OOO, hsome]
    simp [Except.map, Parser.withOptions]
  | element helement =>
    obtain ⟨-, -, hOOO⟩ := ne_of_isElement helement
    have hnone : orderOf entry = none := if_neg hOOO
    rw [execute_element helement, execute_element helement,
      addElement_withOptions, hnone]
    simp
  | other hBA hBS hOOO helement =>
    have hnone : orderOf entry = none := if_neg hOOO
    rw [execute_other hBA hBS hOOO helement,
      execute_other hBA hBS hOOO helement, hnone]
    simp [Except.map]

end

/-! ## All commands of a call -/

section

variable {env : Environment} {unset : ℕ → ℤ} {n : ℕ}
  {entries first second : List (Text × Text)} {parser middle next : Parser}
  {added left right : List Element}

theorem starts_append (offset : Int32) (left right : List Int32) :
    starts offset (left ++ right) =
      starts offset left ++ starts (total offset left) right := by
  induction left generalizing offset with
  | nil => rfl
  | cons bytesize rest ih =>
    rw [cons_append, starts, ih, starts, cons_append]
    rfl

theorem getLast?_getD_append {Value : Type*} (left right : List Value)
    (default : Value) :
    (left ++ right).getLast?.getD default =
      right.getLast?.getD (left.getLast?.getD default) := by
  rw [getLast?_append]
  cases right.getLast? <;> rfl

theorem Executed.refl (parser : Parser) : Executed env [] parser parser [] :=
  ⟨(append_nil _).symm, rfl, rfl, rfl, rfl, rfl,
    (Bool.or_false _).symm, rfl⟩

theorem Executed.trans (hfirst : Executed env first parser middle left)
    (hsecond : Executed env second middle next right) :
    Executed env (first ++ second) parser next (left ++ right) where
  elements := by
    rw [hsecond.elements, hfirst.elements, append_assoc]
  offsets := by
    rw [map_append, map_append, hfirst.offsets, hsecond.offsets,
      hfirst.calculatedBlocksize, starts_append]
  sizes := by
    rw [map_append, hfirst.sizes, hsecond.sizes, elementsOf,
      elementsOf, elementsOf, filter_append, map_append]
  wildcards := by
    rw [map_append, hfirst.wildcards, hsecond.wildcards, elementsOf,
      elementsOf, elementsOf, filter_append, map_append]
  calculatedBlocksize := by
    rw [hsecond.calculatedBlocksize, hfirst.calculatedBlocksize,
      map_append, total, total, total, foldl_append]
  blocksize := by
    rw [hsecond.blocksize, hfirst.blocksize, filterMap_append,
      getLast?_getD_append]
  outOfOrder := by
    rw [hsecond.outOfOrder, hfirst.outOfOrder, any_append, Bool.or_assoc]
  typeAligned := by
    rw [hsecond.typeAligned, hfirst.typeAligned, filterMap_append,
      getLast?_getD_append]

/-- The commands of the tokens, with what their loop variables hold. -/
def entriesFrom (unset : ℕ → ℤ) : ℕ → List Text → List (Text × Text)
  | _, [] => []
  | n, s :: rest =>
    (separate (unset n) s).toList ++ entriesFrom unset (n + 1) rest

def executeAll (env : Environment) :
    List (Text × Text) → Parser → Option Parser
  | [], parser => some parser
  | entry :: rest, parser =>
    match execute env entry parser with
    | .ok next => executeAll env rest next
    | .error _ => none

theorem executeAll_executed
    (hrun : executeAll env entries parser = some next) :
    ∃ added, Executed env entries parser next added := by
  induction entries generalizing parser with
  | nil =>
    cases hrun
    exact ⟨[], Executed.refl next⟩
  | cons entry rest ih =>
    rw [executeAll] at hrun
    cases hexecute : execute env entry parser with
    | error exception =>
      rw [hexecute] at hrun
      cases hrun
    | ok middle =>
      rw [hexecute] at hrun
      obtain ⟨left, hleft⟩ := execute_executed hexecute
      obtain ⟨right, hright⟩ := ih hrun
      exact ⟨left ++ right, hleft.trans hright⟩

theorem executeAll_isSome (env : Environment)
    (entries : List (Text × Text)) (parser : Parser) :
    (executeAll env entries parser).isSome =
      entries.all (Accepted env) := by
  induction entries generalizing parser with
  | nil => rfl
  | cons entry rest ih =>
    have hok : (execute env entry parser).isOk = Accepted env entry :=
      execute_isOk
    rw [executeAll, all_cons, ← hok]
    cases execute env entry parser with
    | error exception => rfl
    | ok middle => exact ih middle

theorem executeAll_withOptions (outOfOrder typeAligned : Bool) :
    executeAll env entries (parser.withOptions outOfOrder typeAligned) =
      (executeAll env entries parser).map fun next =>
        next.withOptions
          (outOfOrder || entries.any fun entry => (orderOf entry).isSome)
          ((entries.filterMap orderOf).getLast?.getD typeAligned) := by
  induction entries generalizing parser outOfOrder typeAligned with
  | nil => simp [executeAll]
  | cons entry rest ih =>
    rw [executeAll, executeAll, execute_withOptions]
    cases execute env entry parser with
    | error exception => rfl
    | ok middle =>
      have hlast : ((entry :: rest).filterMap orderOf).getLast?.getD
          typeAligned = (rest.filterMap orderOf).getLast?.getD
          ((orderOf entry).getD typeAligned) := by
        cases horder : orderOf entry with
        | none => simp [horder]
        | some aligned => simp [horder, getLast?_cons]
      simp only [Except.map, any_cons, hlast, ← Bool.or_assoc]
      exact ih _ _

theorem parseTokens_eq (env : Environment) (unset : ℕ → ℤ) (n : ℕ)
    (tokens : List Text) (parser : Parser) :
    (∃ next, parseTokens env unset n tokens parser = (next, none) ∧
        executeAll env (entriesFrom unset n tokens) parser = some next) ∨
      ∃ next exception,
        parseTokens env unset n tokens parser = (next, some exception) ∧
          executeAll env (entriesFrom unset n tokens) parser = none := by
  induction tokens generalizing n parser with
  | nil => exact Or.inl ⟨parser, rfl, rfl⟩
  | cons s rest ih =>
    simp only [parseTokens, parseToken, entriesFrom]
    cases separate (unset n) s with
    | none => exact ih (n + 1) parser
    | some entry =>
      simp only [Option.toList_some, cons_append, nil_append, executeAll]
      cases execute env entry parser with
      | error exception => exact Or.inr ⟨parser, exception, rfl, rfl⟩
      | ok middle => exact ih (n + 1) middle

def close (parser : Parser) : Option Parser :=
  if parser.outOfOrder && parser.elements.any Element.wildcard then
    none
  else
    some
      { parser with
        elements := pickAll parser.elements
        blocksize :=
          if parser.blocksize = -1 then
            parser.calculatedBlocksize
          else
            parser.blocksize }

theorem result_eq (env : Environment) (unset : ℕ → ℤ) (command : Text)
    (parser : Parser) :
    result env unset command parser =
      (executeAll env (entriesFrom unset 0 (tokens command))
        (reset env parser)).bind close := by
  rcases parseTokens_eq env unset 0 (tokens command) (reset env parser) with
    ⟨next, hparse, hexecute⟩ | ⟨next, exception, hparse, hexecute⟩
  · rw [result, parse, hparse, hexecute, Option.bind_some]
    by_cases hwildcards : next.outOfOrder = true ∧
        next.elements.any Element.wildcard = true
    · simp [finish, close, hwildcards.1, hwildcards.2]
    · simp only [finish, close, Bool.and_eq_true, if_neg hwildcards]
  · rw [result, parse, hparse, hexecute]
    rfl

end

end CheatEngine.GroupScanCommand
