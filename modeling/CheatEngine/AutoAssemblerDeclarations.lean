import CheatEngine.AutoAssembler
import CheatEngine.PascalText

/-!
# Declared names of the auto assembler

The first pass of the auto assembler keeps the names of the LABEL, ALLOC and
KALLOC lines in arrays, and for every new name it searches the array for one
that is declared already.  Other lines may raise, allocate memory or write to
it, and behind the last line the names in some of them are checked.
-/

namespace CheatEngine.AutoAssembler

open List PascalText

structure AllocRequest where
  varname : Text
  size : UInt32
  prefered : UInt64
deriving DecidableEq

structure Declarations where
  labels : List Text
  allocs : List AllocRequest
  kallocs : List AllocRequest
  addsymbollist : List Text
  createthread : List Text
  loadbinary : List Text
deriving DecidableEq

def noDeclarations : Declarations where
  labels := []
  allocs := []
  kallocs := []
  addsymbollist := []
  createthread := []
  loadbinary := []

inductive DeclarationError
  | isBeingRedeclared (name : Text)
  | theIdentifierHasAlreadyBeenDeclared (name : Text)
  | isNotAValidIdentifier (name : Text)
  | labelIsBeingDefinedMoreThanOnce (name : Text)
  | labelIsNotDefinedInTheScript (name : Text)
  | isNotAValidInteger (text : Text)
  | unknownAddress (text : Text)
  | needToUseKernelmodeReadWriteprocessmemory
  | kallocWillNotFunctionWithoutTheDriver
  | syntaxError
  | wrongSyntaxALLOC
  | wrongSyntaxKalloc
  | otherLine
  | wasSupposedToBeAddedToTheSymbollist (name : Text)
  | theAddressInCreatethreadIsNotValid (name : Text)
  | theAddressInLoadbinaryIsNotValid (name : Text)
deriving DecidableEq

/-- The loop over the array stops at the first name that is not longer than
the new one. -/
def redeclared (s1 : Text) : List Text → Bool
  | [] => false
  | name :: rest =>
    if s1.length < name.length then
      name == s1 || redeclared s1 rest
    else
      false

def isNumber (s1 : Text) : Bool :=
  (strToInt ('$' :: s1)).isSome

/-- A line as the declarations see it, and the code as it is then. -/
structure Reached where
  code : List Text
  currentline : Text
deriving DecidableEq

/-- The names that a line of another kind leaves. -/
structure OtherLine where
  labels : List Text
  addsymbollist : List Text
  createthread : List Text
  loadbinary : List Text
deriving DecidableEq

/-- The settings, and what depends on all lines so far: the symbols, the
defines, what a line of another kind does or that it raises, and whether
memory is allocated or written at a line, as by GLOBALALLOC, LOADLIBRARY,
LUACALL or a plugin. -/
structure FirstPass where
  is64bit : Bool
  DBKReadWrite : Bool
  DBKLoaded : Bool
  getAddressFromName : List Reached → Text → Option UInt64
  defines : List Reached → List Define
  otherLine : List Reached → Reached → Option OtherLine
  touchesMemory : List Reached → Reached → Bool

def isLabel (currentline : Text) : Bool :=
  upperCase (copy currentline 1 6) = "LABEL(".toList

def isAlloc (currentline : Text) : Bool :=
  upperCase (copy currentline 1 6) = "ALLOC(".toList

def isKalloc (currentline : Text) : Bool :=
  upperCase (copy currentline 1 7) = "KALLOC(".toList

def parseLabel (currentline : Text) : Option Text :=
  let a := pos '(' currentline
  let b := pos ')' currentline
  if 0 < a ∧ 0 < b then
    some (trim (copy currentline (a + 1) (b - a - 1)))
  else
    none

def parseAlloc (currentline : Text) : Option (Text × Text × Text) :=
  let a := pos '(' currentline
  let b := pos ',' currentline
  let c := posEx ',' currentline (b + 1)
  let d := pos ')' currentline
  if 0 < a ∧ 0 < b ∧ 0 < d then
    let s1 := trim (copy currentline (a + 1) (b - a - 1))
    if 0 < c then
      some (s1, trim (copy currentline (b + 1) (c - b - 1)),
        trim (copy currentline (c + 1) (d - c - 1)))
    else
      some (s1, trim (copy currentline (b + 1) (d - b - 1)), [])
  else
    none

def parseKalloc (currentline : Text) : Option (Text × Text) :=
  let a := pos '(' currentline
  let b := pos ',' currentline
  let c := pos ')' currentline
  if 0 < a ∧ 0 < b ∧ 0 < c then
    some (trim (copy currentline (a + 1) (b - a - 1)),
      trim (copy currentline (b + 1) (c - b - 1)))
  else
    none

section

variable (pass : FirstPass)

def definedInTheScript (code : List Text) (s1 : Text) :
    Except DeclarationError Unit :=
  match code.filter fun line => trim line = s1 ++ [':'] with
  | [] => .error (.labelIsNotDefinedInTheScript s1)
  | [_] => .ok ()
  | _ => .error (.labelIsBeingDefinedMoreThanOnce s1)

def executeLabel (code : List Text) (declarations : Declarations)
    (currentline : Text) : Except DeclarationError Declarations :=
  match parseLabel currentline with
  | none => .error .syntaxError
  | some s1 =>
    if isNumber s1 then
      .error (.isNotAValidIdentifier s1)
    else if redeclared s1 declarations.labels then
      .error (.isBeingRedeclared s1)
    else
      (definedInTheScript code s1).map fun _ =>
        { declarations with labels := declarations.labels ++ [s1] }

def executeAlloc (before : List Reached) (declarations : Declarations)
    (currentline : Text) : Except DeclarationError Declarations :=
  match parseAlloc currentline with
  | none => .error .wrongSyntaxALLOC
  | some (s1, s2, s3) =>
    if isNumber s1 then
      .error (.isNotAValidIdentifier s1)
    else if redeclared s1 (declarations.allocs.map (·.varname)) then
      .error (.theIdentifierHasAlreadyBeenDeclared s1)
    else
      match strToInt s2 with
      | none => .error (.isNotAValidInteger s2)
      | some size =>
        match if s3 = [] then some 0
            else pass.getAddressFromName before s3 with
        | none => .error (.unknownAddress s3)
        | some prefered => .ok
            { declarations with
              allocs := declarations.allocs ++
                [⟨s1, size.toUInt32, prefered⟩] }

def executeKalloc (declarations : Declarations) (currentline : Text) :
    Except DeclarationError Declarations :=
  if !pass.DBKReadWrite then
    .error .needToUseKernelmodeReadWriteprocessmemory
  else if !pass.DBKLoaded then
    .error .kallocWillNotFunctionWithoutTheDriver
  else
    match parseKalloc currentline with
    | none => .error .wrongSyntaxKalloc
    | some (s1, s2) =>
      if isNumber s1 then
        .error (.isNotAValidIdentifier s1)
      else if redeclared s1 (declarations.kallocs.map (·.varname)) then
        .error (.theIdentifierHasAlreadyBeenDeclared s1)
      else
        match strToInt s2 with
        | none => .error (.isNotAValidInteger s2)
        | some size => .ok
            { declarations with
              kallocs := declarations.kallocs ++ [⟨s1, size.toUInt32, 0⟩] }

def placeholder : Text :=
  if pass.is64bit then "ffffffffffffffff".toList else "00000000".toList

def replaceVarnames (names : List Text) (currentline : Text) : Text :=
  names.foldl (fun text name => replacetoken text name (placeholder pass))
    currentline

def executeOther (before : List Reached) (declarations : Declarations)
    (reached : Reached) : Except DeclarationError Declarations :=
  match pass.otherLine before reached with
  | none => .error .otherLine
  | some other =>
    .ok
      { declarations with
        labels := declarations.labels ++ other.labels
        addsymbollist := declarations.addsymbollist ++ other.addsymbollist
        createthread := declarations.createthread ++ other.createthread
        loadbinary := declarations.loadbinary ++ other.loadbinary }

def executeLine (before : List Reached) (declarations : Declarations)
    (reached : Reached) : Except DeclarationError Declarations :=
  if isLabel reached.currentline then
    executeLabel reached.code declarations reached.currentline
  else if isAlloc reached.currentline then
    executeAlloc pass before declarations reached.currentline
  else
    let currentline := replaceVarnames pass
      (declarations.allocs.map (·.varname)) reached.currentline
    if isKalloc currentline then
      executeKalloc pass declarations currentline
    else
      executeOther pass before declarations reached

def isDeclared (names : List Text) (name : Text) : Bool :=
  names.any fun other => upperCase other = upperCase name

def isSymbol (lines : List Reached) (declarations : Declarations)
    (name : Text) : Bool :=
  isDeclared (declarations.allocs.map (·.varname)) name ||
    isDeclared declarations.labels name ||
    isDeclared ((pass.defines lines).map (·.name)) name

/-- Of the defines only the first one with this name is tried. -/
def isAddress (lines : List Reached) (declarations : Declarations)
    (name : Text) : Bool :=
  (pass.getAddressFromName lines name).isSome ||
    isDeclared declarations.labels name ||
    isDeclared (declarations.allocs.map (·.varname)) name ||
    isDeclared (declarations.kallocs.map (·.varname)) name ||
    ((pass.defines lines).find? fun define =>
      upperCase define.name = upperCase name).any fun define =>
        (pass.getAddressFromName lines define.whatever).isSome

/-- The checks behind the last line. -/
def checkDeclarations (lines : List Reached) (declarations : Declarations) :
    Except DeclarationError Declarations :=
  match declarations.addsymbollist.find? (!isSymbol pass lines declarations ·)
  with
  | some name => .error (.wasSupposedToBeAddedToTheSymbollist name)
  | none =>
    match declarations.createthread.find?
      (!isAddress pass lines declarations ·) with
    | some name => .error (.theAddressInCreatethreadIsNotValid name)
    | none =>
      match declarations.loadbinary.find?
        (!isAddress pass lines declarations ·) with
      | some name => .error (.theAddressInLoadbinaryIsNotValid name)
      | none => .ok declarations

/-- The lines from one on, with whether memory was touched. -/
def executeLines (before : List Reached) (touched : Bool)
    (declarations : Declarations) :
    List Reached → Bool × Except DeclarationError Declarations
  | [] => (touched, checkDeclarations pass before declarations)
  | reached :: rest =>
    let touched := touched || pass.touchesMemory before reached
    match executeLine pass before declarations reached with
    | .error error => (touched, .error error)
    | .ok next => executeLines (before ++ [reached]) touched next rest

/-- Up to the allocation of the memory for the ALLOC lines. -/
def firstPass (lines : List Reached) :
    Bool × Except DeclarationError Declarations :=
  executeLines pass [] false noDeclarations lines

end

theorem redeclared_eq_false (s1 : Text) (names : List Text) :
    redeclared s1 names = false := by
  induction names with
  | nil => rfl
  | cons name rest ih =>
    rw [redeclared]
    split_ifs with hlonger
    · have hname : name ≠ s1 := by
        rintro rfl
        exact absurd hlonger (Nat.lt_irrefl _)
      rw [ih, Bool.or_false, beq_eq_false_iff_ne]
      exact hname
    · rfl

def labelName (reached : Reached) : Option Text :=
  if isLabel reached.currentline then
    parseLabel reached.currentline
  else
    none

def allocName (reached : Reached) : Option Text :=
  if isAlloc reached.currentline then
    (parseAlloc reached.currentline).map Prod.fst
  else
    none

def memoryName (reached : Reached) : Option Text :=
  (allocName reached).or <|
    if isKalloc reached.currentline then
      (parseKalloc reached.currentline).map Prod.fst
    else
      none

def Distinct (lines : List Reached) : Prop :=
  (lines.filterMap labelName).Nodup ∧ (lines.filterMap memoryName).Nodup

def IsRedeclaration : DeclarationError → Prop
  | .isBeingRedeclared _ => True
  | .theIdentifierHasAlreadyBeenDeclared _ => True
  | _ => False

section

variable (pass : FirstPass)

def LabelAccepted (reached : Reached) : Prop :=
  match parseLabel reached.currentline with
  | none => False
  | some s1 => isNumber s1 = false ∧
      definedInTheScript reached.code s1 = .ok ()

def AllocAccepted (before : List Reached) (currentline : Text) : Prop :=
  match parseAlloc currentline with
  | none => False
  | some (s1, s2, s3) => isNumber s1 = false ∧ strToInt s2 ≠ none ∧
      (s3 = [] ∨ pass.getAddressFromName before s3 ≠ none)

def KallocAccepted (currentline : Text) : Prop :=
  pass.DBKReadWrite = true ∧ pass.DBKLoaded = true ∧
    match parseKalloc currentline with
    | none => False
    | some (s1, s2) => isNumber s1 = false ∧ strToInt s2 ≠ none

/-- The line is well formed and has a name that may be declared; what other
lines have declared does not matter. -/
def Accepted (before : List Reached) (reached : Reached) : Prop :=
  if isLabel reached.currentline then
    LabelAccepted reached
  else if isAlloc reached.currentline then
    AllocAccepted pass before reached.currentline
  else
    let currentline := replaceVarnames pass (before.filterMap allocName)
      reached.currentline
    if isKalloc currentline then
      KallocAccepted pass currentline
    else
      pass.otherLine before reached ≠ none

/-- Two lines with one name raise an error before memory is touched, and the
error for this is not raised where the names are distinct. -/
def RejectsConflicts (lines : List Reached) : Prop :=
  (¬ Distinct lines → ∃ error, firstPass pass lines = (false, .error error)) ∧
    (Distinct lines → ∀ error, IsRedeclaration error →
      (firstPass pass lines).2 ≠ .error error)

end

/-! ## What the lines declare -/

def Declarations.append (declarations added : Declarations) :
    Declarations where
  labels := declarations.labels ++ added.labels
  allocs := declarations.allocs ++ added.allocs
  kallocs := declarations.kallocs ++ added.kallocs
  addsymbollist := declarations.addsymbollist ++ added.addsymbollist
  createthread := declarations.createthread ++ added.createthread
  loadbinary := declarations.loadbinary ++ added.loadbinary

section

variable (pass : FirstPass)

def allocRequest (before : List Reached) (currentline : Text) :
    Option AllocRequest :=
  (parseAlloc currentline).map fun (s1, s2, s3) =>
    ⟨s1, ((strToInt s2).getD 0).toUInt32,
      if s3 = [] then 0 else (pass.getAddressFromName before s3).getD 0⟩

def kallocRequest (currentline : Text) : Option AllocRequest :=
  (parseKalloc currentline).map fun (s1, s2) =>
    ⟨s1, ((strToInt s2).getD 0).toUInt32, 0⟩

/-- What a line declares if it is accepted. -/
def added (before : List Reached) (reached : Reached) : Declarations :=
  if isLabel reached.currentline then
    { noDeclarations with labels := (parseLabel reached.currentline).toList }
  else if isAlloc reached.currentline then
    { noDeclarations with
      allocs := (allocRequest pass before reached.currentline).toList }
  else
    let currentline := replaceVarnames pass (before.filterMap allocName)
      reached.currentline
    if isKalloc currentline then
      { noDeclarations with kallocs := (kallocRequest currentline).toList }
    else
      match pass.otherLine before reached with
      | none => noDeclarations
      | some other =>
        { noDeclarations with
          labels := other.labels
          addsymbollist := other.addsymbollist
          createthread := other.createthread
          loadbinary := other.loadbinary }

def declaredBy (before : List Reached) : List Reached → Declarations
  | [] => noDeclarations
  | reached :: rest =>
    (added pass before reached).append (declaredBy (before ++ [reached]) rest)

/-- Every name that is checked behind the last line is declared. -/
def AllDeclared (lines : List Reached) (declarations : Declarations) : Prop :=
  (∀ name ∈ declarations.addsymbollist,
      isSymbol pass lines declarations name = true) ∧
    ∀ name ∈ declarations.createthread ++ declarations.loadbinary,
      isAddress pass lines declarations name = true

/-- At no line memory is allocated or written. -/
def Untouched (before lines : List Reached) : Prop :=
  ∀ front reached back, lines = front ++ reached :: back →
    pass.touchesMemory (before ++ front) reached = false

/-- A line is refused, or the checks behind the last line fail, and no line up
to there touches memory. -/
def RefusedUntouched (before : List Reached) (declarations : Declarations)
    (lines : List Reached) : Prop :=
  (∃ front reached back, lines = front ++ reached :: back ∧
      ¬ Accepted pass (before ++ front) reached ∧
      Untouched pass before (front ++ [reached])) ∨
    Untouched pass before lines ∧
      ¬ AllDeclared pass (before ++ lines)
        (declarations.append (declaredBy pass before lines))

end

section

variable {pass : FirstPass}

/-- What a line leaves: it is accepted and declares what it adds, or it raises
an error that is not about other names. -/
def Leaves (declarations : Declarations) (accepted : Prop)
    (added : Declarations) :
    Except DeclarationError Declarations → Prop
  | .ok next => accepted ∧ next = declarations.append added
  | .error error => ¬ accepted ∧ ¬ IsRedeclaration error

theorem append_noDeclarations (declarations : Declarations) :
    declarations.append noDeclarations = declarations := by
  simp [Declarations.append, noDeclarations]

theorem append_assoc (first second third : Declarations) :
    (first.append second).append third =
      first.append (second.append third) := by
  simp [Declarations.append]

variable (declarations : Declarations)

theorem executeLabel_leaves (reached : Reached) :
    Leaves declarations (LabelAccepted reached)
      { noDeclarations with labels := (parseLabel reached.currentline).toList }
      (executeLabel reached.code declarations reached.currentline) := by
  unfold executeLabel LabelAccepted
  cases parseLabel reached.currentline with
  | none => exact ⟨id, id⟩
  | some s1 =>
    simp only [redeclared_eq_false]
    cases isNumber s1 with
    | true => exact ⟨by simp, id⟩
    | false =>
      unfold definedInTheScript
      rcases reached.code.filter fun line => trim line = s1 ++ [':'] with
        _ | ⟨line, _ | ⟨next, rest⟩⟩
      · exact ⟨by simp, id⟩
      · exact ⟨⟨rfl, rfl⟩, by simp [Declarations.append, noDeclarations]⟩
      · exact ⟨by simp, id⟩

theorem executeAlloc_leaves (before : List Reached) (currentline : Text) :
    Leaves declarations (AllocAccepted pass before currentline)
      { noDeclarations with
        allocs := (allocRequest pass before currentline).toList }
      (executeAlloc pass before declarations currentline) := by
  unfold executeAlloc AllocAccepted allocRequest
  rcases parseAlloc currentline with _ | ⟨s1, s2, s3⟩
  · exact ⟨id, id⟩
  · simp only [redeclared_eq_false]
    cases isNumber s1 with
    | true => exact ⟨by simp, id⟩
    | false =>
      cases hsize : strToInt s2 with
      | none => exact ⟨by simp, id⟩
      | some size =>
        by_cases hs3 : s3 = []
        · rw [if_pos hs3]
          refine ⟨⟨rfl, by simp, .inl hs3⟩, ?_⟩
          simp [Declarations.append, noDeclarations, hsize, hs3]
        · rw [if_neg hs3]
          cases hprefered : pass.getAddressFromName before s3 with
          | none => exact ⟨by simp [hs3], id⟩
          | some prefered =>
            refine ⟨⟨rfl, by simp, .inr (by simp)⟩, ?_⟩
            simp [Declarations.append, noDeclarations, hsize, hs3, hprefered]

theorem executeKalloc_leaves (currentline : Text) :
    Leaves declarations (KallocAccepted pass currentline)
      { noDeclarations with kallocs := (kallocRequest currentline).toList }
      (executeKalloc pass declarations currentline) := by
  unfold executeKalloc KallocAccepted kallocRequest
  cases pass.DBKReadWrite with
  | false => exact ⟨by simp, id⟩
  | true =>
    cases pass.DBKLoaded with
    | false => exact ⟨by simp, id⟩
    | true =>
      rcases parseKalloc currentline with _ | ⟨s1, s2⟩
      · exact ⟨by simp, id⟩
      · simp only [redeclared_eq_false]
        cases isNumber s1 with
        | true => exact ⟨by simp, id⟩
        | false =>
          cases hsize : strToInt s2 with
          | none => exact ⟨by simp, id⟩
          | some size =>
            refine ⟨by simp, ?_⟩
            simp [Declarations.append, noDeclarations, hsize]

theorem isAlloc_of_isLabel {currentline : Text}
    (hlabel : isLabel currentline = true) : isAlloc currentline = false := by
  unfold isLabel at hlabel
  unfold isAlloc
  rw [decide_eq_true_eq] at hlabel
  rw [hlabel]
  decide

theorem allocName_none {reached : Reached}
    (halloc : isAlloc reached.currentline = false) :
    allocName reached = none := by
  rw [allocName, halloc]
  rfl

theorem allocName_added (before : List Reached) (reached : Reached) :
    (added pass before reached).allocs.map (·.varname) =
      (allocName reached).toList := by
  unfold added
  by_cases hlabel : isLabel reached.currentline = true
  · rw [if_pos hlabel, allocName_none (isAlloc_of_isLabel hlabel)]
    rfl
  · rw [if_neg hlabel]
    by_cases halloc : isAlloc reached.currentline = true
    · rw [if_pos halloc, allocName, if_pos halloc]
      unfold allocRequest
      cases parseAlloc reached.currentline <;> rfl
    · rw [if_neg halloc, allocName_none (Bool.eq_false_of_not_eq_true halloc)]
      dsimp only
      split_ifs
      · rfl
      · cases pass.otherLine before reached <;> rfl

theorem executeLine_leaves {before : List Reached}
    {declarations : Declarations} (reached : Reached)
    (hnames : declarations.allocs.map (·.varname) =
      before.filterMap allocName) :
    Leaves declarations (Accepted pass before reached)
      (added pass before reached)
      (executeLine pass before declarations reached) := by
  rw [executeLine, Accepted, added, hnames]
  split_ifs with hlabel halloc
  · exact executeLabel_leaves declarations reached
  · exact executeAlloc_leaves declarations before reached.currentline
  · dsimp only
    split_ifs with hkalloc
    · exact executeKalloc_leaves declarations _
    · unfold executeOther
      cases pass.otherLine before reached with
      | none => exact ⟨by simp, id⟩
      | some other =>
        exact ⟨by simp, by simp [Declarations.append, noDeclarations]⟩

theorem checkDeclarations_leaves (lines : List Reached) :
    Leaves declarations (AllDeclared pass lines declarations) noDeclarations
      (checkDeclarations pass lines declarations) := by
  unfold checkDeclarations AllDeclared
  rw [forall_mem_append]
  cases hsymbol : declarations.addsymbollist.find?
    (!isSymbol pass lines declarations ·) with
  | some name =>
    have hnot := find?_some hsymbol
    refine ⟨fun hall => ?_, id⟩
    simp [hall.1 name (mem_of_find?_eq_some hsymbol)] at hnot
  | none =>
    cases hthread : declarations.createthread.find?
      (!isAddress pass lines declarations ·) with
    | some name =>
      have hnot := find?_some hthread
      refine ⟨fun hall => ?_, id⟩
      simp [hall.2.1 name (mem_of_find?_eq_some hthread)] at hnot
    | none =>
      cases hbinary : declarations.loadbinary.find?
        (!isAddress pass lines declarations ·) with
      | some name =>
        have hnot := find?_some hbinary
        refine ⟨fun hall => ?_, id⟩
        simp [hall.2.2 name (mem_of_find?_eq_some hbinary)] at hnot
      | none =>
        rw [find?_eq_none] at hsymbol hthread hbinary
        exact ⟨⟨by simpa using hsymbol, by simpa using hthread,
          by simpa using hbinary⟩, (append_noDeclarations _).symm⟩

end

/-! ## The whole pass -/

section

variable {pass : FirstPass}

theorem untouched_cons {before : List Reached} {reached : Reached}
    {rest : List Reached} :
    Untouched pass before (reached :: rest) ↔
      pass.touchesMemory before reached = false ∧
        Untouched pass (before ++ [reached]) rest := by
  constructor
  · intro hall
    refine ⟨?_, ?_⟩
    · have hfirst := hall [] reached rest rfl
      rwa [append_nil] at hfirst
    · rintro front next back rfl
      rw [List.append_assoc]
      exact hall (reached :: front) next back rfl
  · rintro ⟨hfirst, hrest⟩ front next back heq
    rcases front with _ | ⟨first, front⟩
    · obtain ⟨rfl, rfl⟩ := List.cons.inj heq
      rwa [append_nil]
    · obtain ⟨rfl, rfl⟩ := List.cons.inj heq
      have hnext := hrest front next back rfl
      rwa [List.append_assoc] at hnext

theorem refusedUntouched_cons {before : List Reached}
    {declarations : Declarations} {reached : Reached} {rest : List Reached} :
    RefusedUntouched pass before declarations (reached :: rest) ↔
      pass.touchesMemory before reached = false ∧
        (¬ Accepted pass before reached ∨
          RefusedUntouched pass (before ++ [reached])
            (declarations.append (added pass before reached)) rest) := by
  unfold RefusedUntouched
  rw [untouched_cons, declaredBy, append_assoc,
    show before ++ reached :: rest = before ++ [reached] ++ rest by simp]
  constructor
  · rintro (⟨front, next, back, heq, hrefused, huntouched⟩ |
      ⟨⟨hfirst, hrest⟩, hnot⟩)
    · rcases front with _ | ⟨first, front⟩
      · obtain ⟨rfl, rfl⟩ := List.cons.inj heq
        rw [append_nil] at hrefused
        exact ⟨(untouched_cons.mp huntouched).1, .inl hrefused⟩
      · obtain ⟨rfl, rfl⟩ := List.cons.inj heq
        obtain ⟨hfirst, hrest⟩ := untouched_cons.mp huntouched
        refine ⟨hfirst, .inr (.inl ⟨front, next, back, rfl, ?_, hrest⟩)⟩
        rwa [List.append_assoc]
    · exact ⟨hfirst, .inr (.inr ⟨hrest, hnot⟩)⟩
  · rintro ⟨hfirst, hrefused |
      ⟨front, next, back, rfl, hrefused, hrest⟩ | ⟨hrest, hnot⟩⟩
    · refine .inl ⟨[], reached, rest, rfl, ?_, ?_⟩
      · rwa [append_nil]
      · exact untouched_cons.mpr ⟨hfirst, fun _ _ _ heq => by simp at heq⟩
    · refine .inl ⟨reached :: front, next, back, rfl, ?_, ?_⟩
      · rwa [List.append_assoc] at hrefused
      · exact untouched_cons.mpr ⟨hfirst, hrest⟩
    · exact .inr ⟨⟨hfirst, hrest⟩, hnot⟩

/-- The run ends with memory untouched and an error exactly when something is
refused before, and no error is about two names. -/
theorem executeLines_spec (before : List Reached) (touched : Bool)
    {declarations : Declarations} (lines : List Reached)
    (hnames : declarations.allocs.map (·.varname) =
      before.filterMap allocName) :
    ((∃ error, executeLines pass before touched declarations lines =
        (false, .error error)) ↔
      touched = false ∧ RefusedUntouched pass before declarations lines) ∧
    ∀ error, (executeLines pass before touched declarations lines).2 =
      .error error → ¬ IsRedeclaration error := by
  induction lines generalizing before touched declarations with
  | nil =>
    have hcheck := @checkDeclarations_leaves pass declarations before
    have hnil : RefusedUntouched pass before declarations [] ↔
        ¬ AllDeclared pass before declarations := by
      simp [RefusedUntouched, Untouched, declaredBy, append_noDeclarations]
    rw [executeLines, hnil]
    cases hresult : checkDeclarations pass before declarations with
    | ok next =>
      rw [hresult] at hcheck
      simp [hcheck.1]
    | error error =>
      rw [hresult] at hcheck
      refine ⟨by simp [hcheck.1], fun other hother => ?_⟩
      obtain rfl := Except.error.inj hother
      exact hcheck.2
  | cons reached rest ih =>
    have hline := @executeLine_leaves pass _ _ reached hnames
    rw [executeLines, refusedUntouched_cons]
    cases hexecute : executeLine pass before declarations reached with
    | error error =>
      rw [hexecute] at hline
      refine ⟨by simp [hline.1], fun other hother => ?_⟩
      obtain rfl := Except.error.inj hother
      exact hline.2
    | ok next =>
      rw [hexecute] at hline
      obtain ⟨haccepted, rfl⟩ := hline
      have hkept :
          (declarations.append (added pass before reached)).allocs.map
            (·.varname) = (before ++ [reached]).filterMap allocName := by
        rw [Declarations.append, map_append, hnames, allocName_added,
          filterMap_append]
        cases hname : allocName reached <;> simp [hname]
      have hrest := ih (before ++ [reached])
        (touched || pass.touchesMemory before reached) hkept
      refine ⟨hrest.1.trans ?_, hrest.2⟩
      simp [haccepted, and_assoc]

end

end CheatEngine.AutoAssembler
