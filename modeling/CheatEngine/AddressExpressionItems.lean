import CheatEngine.AddressExpressionLevel
import CheatEngine.PointerExpressions

/-!
# Expressions with brackets

What an expression with brackets means, and the substitution of its tokens:
numbers and names are replaced by their values, and the tokens between two
brackets by the pointer that is read where they point.  A name may contain
operators and brackets: its pieces are looked up one after another, each put
to what is left of the pieces before it.
-/

namespace CheatEngine.Symhandler

open AssemblerRewrite (Text val inttohex)
open List SignedExpressions
open PascalText
open scoped UInt64.CommRing

/-- A number or a name, as it is or in quotes. -/
structure Atom where
  name : Text
  quoted : Bool
  trimmed : trim name = name
  nonempty : name ≠ []
  unquoted : '"' ∉ name

def Atom.text (known : Atom) : Text :=
  if known.quoted then '"' :: (known.name ++ ['"']) else known.name

def Atom.tokens (known : Atom) : List Text :=
  if known.quoted then [known.name] else tokenize known.name

inductive Lexeme
  | atom (atom : Atom)
  | operator (operator : Operator)
  | openBracket
  | closeBracket

def Lexeme.text : Lexeme → Text
  | atom known => known.text
  | operator sign => [operatorChar sign]
  | openBracket => ['[']
  | closeBracket => [']']

def Lexeme.tokens : Lexeme → List Text
  | atom known => known.tokens
  | operator sign => [[operatorChar sign]]
  | openBracket => [['[']]
  | closeBracket => [[']']]

def texts (lexemes : List Lexeme) : List Text :=
  lexemes.flatMap Lexeme.tokens

def Lexeme.isAtom : Lexeme → Bool
  | atom _ => true
  | _ => false

def Lexeme.isPlain : Lexeme → Bool
  | atom known => !known.quoted
  | _ => false

def IsBlankText (text : Text) : Prop :=
  ∀ char ∈ text, isBlank char = true

/-- An expression with blanks before it and after each of its parts. -/
structure Source where
  lead : Text
  padded : List (Lexeme × Text)
  lead_blank : IsBlankText lead
  pads_blank : ∀ part ∈ padded, IsBlankText part.2

def Source.lexemes (source : Source) : List Lexeme :=
  source.padded.map Prod.fst

def spelling (padded : List (Lexeme × Text)) : Text :=
  padded.flatMap fun part => part.1.text ++ part.2

def Source.text (source : Source) : Text :=
  source.lead ++ spelling source.padded

/-- The parts of an expression with matching brackets. -/
inductive Items
  | nil
  | atom (atom : Atom) (rest : Items)
  | operator (operator : Operator) (rest : Items)
  | pointer (inner rest : Items)

def Items.lexemes : Items → List Lexeme
  | nil => []
  | atom known rest => .atom known :: rest.lexemes
  | operator sign rest => .operator sign :: rest.lexemes
  | pointer inner rest =>
    .openBracket :: (inner.lexemes ++ .closeBracket :: rest.lexemes)

section

variable (moment : Moment) (is64Bit : Bool)

def atomValue (text : Text) : Option UInt64 :=
  match literal text with
  | some value => some value
  | none =>
    match moment.lookup text with
    | .address value => some value
    | .failure => none
    | .unknown _ => none

/-- The items have these values; a pointer is read where the expression
between the brackets points. -/
inductive Denotes : Items → List (Token UInt64) → Prop
  | nil : Denotes .nil []
  | atom {atom : Atom} {rest : Items} {tokens : List (Token UInt64)}
      {value : UInt64} (hvalue : atomValue moment atom.name = some value)
      (hrest : Denotes rest tokens) :
      Denotes (.atom atom rest) (.value value :: tokens)
  | operator {operator : Operator} {rest : Items}
      {tokens : List (Token UInt64)} (hrest : Denotes rest tokens) :
      Denotes (.operator operator rest) (.operator operator :: tokens)
  | pointer {inner rest : Items} {tokens : List (Token UInt64)}
      {expression : Expression UInt64} {value : UInt64}
      (hinner : Denotes inner expression.tokens)
      (hread : readPointer moment is64Bit expression.result = some value)
      (hrest : Denotes rest tokens) :
      Denotes (.pointer inner rest) (.value value :: tokens)

def Means (lexemes : List Lexeme) (value : UInt64) : Prop :=
  ∃ (items : Items) (expression : Expression UInt64),
    items.lexemes = lexemes ∧
      Denotes moment is64Bit items expression.tokens ∧
      expression.result = value

/-- The value of the expression is returned, and an error when it has no
value. -/
def EvaluatesAsUsual (source : Source) : Prop :=
  ∀ value, getAddressFromName moment is64Bit source.text = some value ↔
    Means moment is64Bit source.lexemes value

end

def Items.kinds : Items → List (Option Operator)
  | nil => []
  | atom _ rest => none :: rest.kinds
  | operator sign rest => some sign :: rest.kinds
  | pointer _ rest => none :: rest.kinds

def OrdinaryKinds (kinds : List (Option Operator)) : Prop :=
  ∀ defect ∈ defects, ¬ defect <:+: kinds

instance (kinds : List (Option Operator)) : Decidable (OrdinaryKinds kinds) :=
  inferInstanceAs (Decidable (∀ defect ∈ defects, ¬ defect <:+: kinds))

/-- The check before the passes refuses a multiplication at the start and an
operator at the end. -/
def isRefused (kinds : List (Option Operator)) : Bool :=
  kinds.head? == some (some .multiply) || (kinds.getLast?.getD none).isSome

def Items.InsideOrdinary : Items → Prop
  | nil => True
  | atom _ rest => rest.InsideOrdinary
  | operator _ rest => rest.InsideOrdinary
  | pointer inner rest =>
    (isRefused inner.kinds = true ∨
      OrdinaryKinds inner.kinds ∧ inner.InsideOrdinary) ∧
    rest.InsideOrdinary

/-- Levels that are not refused are only sequences that are computed as
usual. -/
def Items.IsOrdinary (items : Items) : Prop :=
  isRefused items.kinds = true ∨
    OrdinaryKinds items.kinds ∧ items.InsideOrdinary

def startsPlain (text : Text) : Bool :=
  text.head?.any fun first => !isSeperator first

def HasSeperator (text : Text) : Prop :=
  ∃ char ∈ text, isSeperator char = true

section

variable (moment : Moment)

/-- What replaces the text of a token. -/
def resolve (text : Text) : Option Text :=
  if (val text).isSome then some text
  else
    match moment.lookup text with
    | .address value => some (inttohex value)
    | .failure => none
    | .unknown _ => none

/-- The pieces put together, when none of the beginnings is a number or
known. -/
def joined (text : Text) : List Text → Option Text
  | [] => some text
  | next :: rest =>
    if (val text).isSome then none
    else
      match moment.lookup text with
      | .address _ => none
      | .failure => none
      | .unknown left =>
        if startsPlain left then joined (left ++ next) rest else none

/-- No text that is put together from a piece and the tokens behind it is a
number or known. -/
def staysUnknown (text : Text) : List Text → Bool
  | [] => startsPlain text && (resolve moment text).isNone
  | next :: rest =>
    startsPlain text && (resolve moment text).isNone &&
      match moment.lookup text with
      | .address _ => false
      | .failure => true
      | .unknown left => staysUnknown (left ++ next) rest

/-- The name is found as a whole, or no part of the expression that begins
with it is. -/
def readsName (known : Atom) (behind : List Text) : Bool :=
  match known.tokens with
  | [] => false
  | first :: pieces =>
    startsPlain first &&
      if (resolve moment known.name).isSome then
        (joined moment first pieces).map (resolve moment) ==
          some (resolve moment known.name)
      else
        staysUnknown moment first (pieces ++ behind)

def ReadsNames : List Lexeme → Prop
  | [] => True
  | .atom known :: rest =>
    readsName moment known (texts rest) = true ∧ ReadsNames rest
  | _ :: rest => ReadsNames rest

end

/-- A name or number that is not in quotes is followed by an operator or a
bracket. -/
def Apart (lexemes : List Lexeme) : Prop :=
  lexemes.IsChain fun first second => !(first.isPlain && second.isAtom)

def EndsPlain (lexemes : List Lexeme) : Prop :=
  ∀ known, lexemes.getLast? = some (.atom known) →
    ∀ last ∈ known.tokens.getLast?, startsWith ['*', '+', '-'] last = false

/-- Reads are complete, and a target of 32 bits has no memory behind them. -/
structure OrdinaryReads (moment : Moment) (is64Bit : Bool) : Prop where
  complete : ∀ address size bytes,
    moment.readprocessmemory address size = (true, bytes) →
    bytes.length = size
  inside : is64Bit = false → ∀ address bytes,
    moment.readprocessmemory address 4 = (true, bytes) →
    address.toNat < 2 ^ 32

/-- Only a whole text is a number with a dollar sign or `0x` before it. -/
def PlainNumbers (lexemes : List Lexeme) : Prop :=
  ∀ atom, .atom atom ∈ lexemes →
    literal atom.name = val atom.name ∨
      lexemes = [.atom atom] ∧ atom.quoted = false

structure IsRegular (moment : Moment) (is64Bit : Bool)
    (lexemes : List Lexeme) : Prop where
  apart : Apart lexemes
  names : ReadsNames moment lexemes
  ends : EndsPlain lexemes
  reads : OrdinaryReads moment is64Bit
  numbers : PlainNumbers lexemes
  ordinary : ∀ items : Items, items.lexemes = lexemes → items.IsOrdinary

/-! ## The tokens of an expression -/

theorem isPlain_of_isBlank {char : Char} (hblank : isBlank char = true) :
    IsPlain char := by
  have hne (other : Char) (hother : isBlank other = false) :
      char ≠ other := by
    rintro rfl
    rw [hblank] at hother
    cases hother
  simp [IsPlain, isSeperator, hne '"' (by decide), hne '[' (by decide),
    hne ']' (by decide), hne '+' (by decide), hne '-' (by decide),
    hne '*' (by decide)]

theorem trim_lead {lead : Text} (hlead : IsBlankText lead) (text : Text) :
    trim (lead ++ text) = trim text := by
  rw [trim_eq, trim_eq, dropWhile_append_of_pos hlead]

theorem trim_pad {pad : Text} (hpad : IsBlankText pad) (text : Text) :
    trim (text ++ pad) = trim text := by
  have hnil : pad.dropWhile isBlank = [] :=
    dropWhile_eq_nil_iff.mpr hpad
  have hreverse : ∀ char ∈ pad.reverse, isBlank char = true :=
    fun char hchar => hpad char (mem_reverse.mp hchar)
  have hright (text : Text) : trimRight (text ++ pad) = trimRight text := by
    rw [trimRight, List.rdropWhile, reverse_append,
      dropWhile_append_of_pos hreverse]
    rfl
  rw [trim_eq, trim_eq, dropWhile_append]
  split
  · next hempty => rw [hnil, List.isEmpty_iff.mp hempty]
  · exact hright _

theorem exists_trim (text : Text) : ∃ lead trail, IsBlankText lead ∧
    IsBlankText trail ∧ text = lead ++ (trim text ++ trail) := by
  refine ⟨text.takeWhile isBlank,
    (text.dropWhile isBlank).rtakeWhile isBlank,
    fun _ => mem_takeWhile_imp, fun _ => mem_rtakeWhile_imp, ?_⟩
  rw [trim_eq, trimRight, List.rdropWhile, List.rtakeWhile, ← reverse_append,
    takeWhile_append_dropWhile, reverse_reverse, takeWhile_append_dropWhile]

theorem piece_blank {text : Text} (hblank : IsBlankText text) :
    piece text = [] := by
  have htrim := trim_lead hblank []
  rw [append_nil] at htrim
  rw [piece, htrim]
  rfl

theorem tokenizeFrom_blank {pad : Text} (hpad : IsBlankText pad)
    (current text : Text) :
    tokenizeFrom false (pad ++ current) text =
      tokenizeFrom false current text := by
  induction text generalizing current with
  | nil => rw [tokenizeFrom, tokenizeFrom, piece, piece, trim_lead hpad]
  | cons char text ih =>
    have hrest := ih (current ++ [char])
    rw [← append_assoc] at hrest
    rw [tokenizeFrom, tokenizeFrom, hrest, piece, piece, trim_lead hpad]

theorem tokenizeFrom_pad {pad : Text} (hpad : IsBlankText pad)
    (inQuote : Bool) (current text : Text) :
    tokenizeFrom inQuote current (text ++ pad) =
      tokenizeFrom inQuote current text := by
  induction text generalizing inQuote current with
  | nil =>
    have hplain : ∀ char ∈ pad, IsPlain char :=
      fun char hchar => isPlain_of_isBlank (hpad char hchar)
    rw [nil_append, tokenizeFrom_end hplain, tokenizeFrom, piece, piece,
      trim_pad hpad]
  | cons char text ih =>
    simp only [cons_append, tokenizeFrom, ih]

theorem tokenizeFrom_lead {lead : Text} (hlead : IsBlankText lead)
    (text : Text) :
    tokenizeFrom false [] (lead ++ text) = tokenizeFrom false [] text := by
  have hplain : ∀ char ∈ lead, IsPlain char :=
    fun char hchar => isPlain_of_isBlank (hlead char hchar)
  have hblank := tokenizeFrom_blank hlead [] text
  rwa [append_nil, ← nil_append lead, ← tokenizeFrom_plain hplain]
    at hblank

theorem tokenize_trim (text : Text) :
    tokenize (trim text) = tokenize text := by
  obtain ⟨lead, trail, hlead, htrail, htext⟩ := exists_trim text
  conv_rhs => rw [htext]
  rw [tokenize, tokenize, tokenizeFrom_lead hlead, tokenizeFrom_pad htrail]

/-- A text before an operator, a bracket or the end is cut for itself. -/
theorem tokenizeFrom_append {text rest : Text} (htext : '"' ∉ text)
    (hrest : ∀ char ∈ rest.head?, isSeperator char = true) (current : Text) :
    tokenizeFrom false current (text ++ rest) =
      tokenizeFrom false current text ++ tokenizeFrom false [] rest := by
  induction text generalizing current with
  | nil =>
    rw [nil_append]
    cases rest with
    | nil => exact (append_nil _).symm
    | cons char rest =>
      have hstep := @tokenizeFrom_seperator [] (by simp) char
        (hrest char rfl)
      simp only [nil_append, append_nil] at hstep
      rw [hstep, hstep]
      rfl
  | cons char text ih =>
    rw [mem_cons, not_or] at htext
    rw [cons_append, tokenizeFrom, tokenizeFrom,
      if_neg (Ne.symm htext.1), if_neg (Ne.symm htext.1)]
    split
    · rw [ih htext.2, append_assoc, cons_append]
    · exact ih htext.2 _

theorem tokenizeFrom_quoted {text : Text} (htext : '"' ∉ text)
    (current rest : Text) :
    tokenizeFrom true current (text ++ '"' :: rest) =
      piece (current ++ text) ++ tokenizeFrom false [] rest := by
  induction text generalizing current with
  | nil =>
    rw [append_nil]
    rfl
  | cons char text ih =>
    rw [mem_cons, not_or] at htext
    rw [cons_append, tokenizeFrom, if_neg (Ne.symm htext.1),
      Bool.not_true, Bool.and_false, if_neg Bool.false_ne_true, ih htext.2,
      append_assoc, singleton_append]

theorem spelling_cons (lexeme : Lexeme) (pad : Text)
    (rest : List (Lexeme × Text)) :
    spelling ((lexeme, pad) :: rest) =
      lexeme.text ++ (pad ++ spelling rest) := by
  rw [spelling, flatMap_cons, append_assoc]
  rfl

theorem Lexeme.seperator_of_not_isAtom {lexeme : Lexeme}
    (hatom : lexeme.isAtom = false) : ∃ char, lexeme.text = [char] ∧
      lexeme.tokens = [[char]] ∧ isSeperator char = true := by
  cases lexeme with
  | atom known => cases hatom
  | operator sign =>
    exact ⟨operatorChar sign, rfl, rfl, by cases sign <;> decide⟩
  | openBracket => exact ⟨'[', rfl, rfl, by decide⟩
  | closeBracket => exact ⟨']', rfl, rfl, by decide⟩

theorem tokenizeFrom_spelling {padded : List (Lexeme × Text)}
    (hpads : ∀ part ∈ padded, IsBlankText part.2)
    (hapart : Apart (padded.map Prod.fst)) :
    tokenizeFrom false [] (spelling padded) =
      texts (padded.map Prod.fst) := by
  induction padded with
  | nil => rfl
  | cons part padded ih =>
    obtain ⟨lexeme, pad⟩ := part
    obtain ⟨hpad, hlater⟩ := forall_mem_cons.mp hpads
    have hrest := ih hlater hapart.tail
    have hbehind : tokenizeFrom false [] (pad ++ spelling padded) =
        texts (padded.map Prod.fst) := by
      rw [tokenizeFrom_lead hpad, hrest]
    have hquotePad : '"' ∉ pad := fun hmem => absurd (hpad _ hmem) (by decide)
    rw [spelling_cons, map_cons, texts, flatMap_cons, ← texts]
    cases hatom : lexeme.isAtom with
    | false =>
      obtain ⟨char, htext, htokens, hchar⟩ :=
        Lexeme.seperator_of_not_isAtom hatom
      have hstep := @tokenizeFrom_seperator [] (by simp) char hchar []
        (pad ++ spelling padded)
      rw [nil_append, append_nil] at hstep
      rw [htext, htokens, singleton_append, hstep, hbehind]
      rfl
    | true =>
      cases lexeme with
      | atom known =>
        rw [Lexeme.text, Lexeme.tokens, Atom.text, Atom.tokens]
        cases hquoted : known.quoted with
        | true =>
          have hquote := tokenizeFrom_quoted known.unquoted []
            (pad ++ spelling padded)
          rw [nil_append, piece, known.trimmed,
            if_neg known.nonempty, hbehind] at hquote
          rw [if_pos rfl, if_pos rfl, cons_append, append_assoc,
            singleton_append, tokenizeFrom, if_pos rfl]
          exact hquote
        | false =>
          have hnext : ∀ char ∈ (spelling padded).head?,
              isSeperator char = true := by
            cases padded with
            | nil => exact fun _ hchar => by cases hchar
            | cons part padded =>
              have hfirst : part.1.isAtom = false := by
                have hboth := (isChain_cons_cons.mp hapart).1
                simpa [Lexeme.isPlain, hquoted] using hboth
              obtain ⟨char, htext, -, hchar⟩ :=
                Lexeme.seperator_of_not_isAtom hfirst
              rw [spelling_cons part.1 part.2, htext]
              simpa using hchar
          have hquote : '"' ∉ known.name ++ pad := by
            rw [mem_append, not_or]
            exact ⟨known.unquoted, hquotePad⟩
          rw [if_neg Bool.false_ne_true, if_neg Bool.false_ne_true,
            ← append_assoc, tokenizeFrom_append hquote hnext, hrest,
            tokenizeFrom_pad hpad]
          rfl
      | operator sign => cases hatom
      | openBracket => cases hatom
      | closeBracket => cases hatom

theorem Source.tokenize_text (source : Source)
    (hapart : Apart source.lexemes) :
    tokenize (trim source.text) = texts source.lexemes := by
  rw [tokenize_trim, Source.text, tokenize,
    tokenizeFrom_lead source.lead_blank,
    tokenizeFrom_spelling source.pads_blank hapart]
  rfl

section

variable {moment : Moment} (dereference : Text → Option UInt64)

theorem startsWith_plain {text : Text} (hstarts : startsPlain text = true)
    {chars : List Char} (hchars : chars.all isSeperator = true) :
    startsWith chars text = false := by
  obtain ⟨first, rest, rfl⟩ := exists_cons_of_ne_nil
    (show text ≠ [] by rintro rfl; cases hstarts)
  simp only [startsPlain, startsWith, head?_cons, Option.any_some,
    decide_eq_false_iff_not, Bool.not_eq_true'] at hstarts ⊢
  intro hmem
  rw [all_eq_true.mp hchars first hmem] at hstarts
  cases hstarts

theorem startsPlain_append {text : Text} (hstarts : startsPlain text = true)
    (rest : Text) : startsPlain (text ++ rest) = true := by
  cases text with
  | nil => cases hstarts
  | cons first text => exact hstarts

theorem handle_plain {text : Text} (hstarts : startsPlain text = true)
    (state : Substitution) :
    handle moment dereference state text = handleName moment state text := by
  have hnot := @startsWith_plain text hstarts
  rw [handle, hnot (by decide), hnot (by decide), hnot (by decide),
    hnot (by decide)]
  rfl

theorem val_of_hasSeperator {text : Text} (hdivided : HasSeperator text) :
    val text = none := by
  obtain ⟨char, hchar, hseperator⟩ := hdivided
  cases hvalue : val text with
  | none => rfl
  | some value =>
    have hplain := (isPlain_of_val hvalue char hchar).2
    rw [hseperator] at hplain
    cases hplain

end

/-! ## The substitution on items -/

section

variable (moment : Moment) (dereference : Text → Option UInt64)

def substitute (state : Substitution) : List Text → Option Substitution
  | [] => some state
  | token :: rest => substituteFrom moment dereference state token rest

theorem substitute_cons {state after : Substitution} {token : Text}
    (hhandle : handle moment dereference state token = .done after)
    (rest : List Text) :
    substitute moment dereference state (token :: rest) =
      substitute moment dereference after rest := by
  cases rest with
  | nil => exact substituteFrom_last hhandle
  | cons next rest => exact substituteFrom_next hhandle next rest

theorem substitute_error {state : Substitution} {token : Text}
    (hhandle : handle moment dereference state token = .error)
    (rest : List Text) :
    substitute moment dereference state (token :: rest) = none := by
  cases rest <;> (rw [substitute, substituteFrom, hhandle])

/-- The texts that replace the items, and whether there is a multiplication
among the tokens. -/
def Items.replaced : Items → Option (List Text × Bool)
  | nil => some ([], false)
  | atom known rest =>
    (resolve moment known.name).bind fun text =>
      rest.replaced.map fun after =>
        (List.replicate (known.tokens.length - 1) [] ++ text :: after.1,
          after.2)
  | operator sign rest =>
    rest.replaced.map fun after =>
      ([operatorChar sign] :: after.1, sign == .multiply || after.2)
  | pointer inner rest =>
    inner.replaced.bind fun inside =>
      (dereference inside.1.flatten).bind fun value =>
        rest.replaced.map fun after =>
          (inttohex value ::
            (List.replicate (inside.1.length + 1) [] ++ after.1),
            inside.2 || after.2)

def Substitution.extend (state : Substitution) (texts : List Text)
    (multiplied : Bool) : Substitution :=
  { state with
    tokens := state.tokens ++ texts
    hasMultiplication := state.hasMultiplication || multiplied }

theorem push_eq (state : Substitution) (text : Text) :
    state.push text = state.extend [text] false := by
  rw [Substitution.extend, Bool.or_false]
  rfl

theorem extend_extend (state : Substitution) (before after : List Text)
    (first second : Bool) :
    (state.extend before first).extend after second =
      state.extend (before ++ after) (first || second) := by
  simp [Substitution.extend, Bool.or_assoc]

variable {moment}

theorem handle_resolved {token text : Text}
    (hstarts : startsPlain token = true)
    (hresolve : resolve moment token = some text) (state : Substitution) :
    handle moment dereference state token =
      .done (state.extend [text] false) := by
  rw [← push_eq]
  rw [resolve] at hresolve
  rw [handle_plain dereference hstarts, handleName]
  split at hresolve
  · next hnumber =>
      obtain rfl := Option.some.inj hresolve
      rw [if_pos hnumber]
  · next hnumber =>
      rw [if_neg hnumber]
      cases hlookup : moment.lookup token with
      | address value =>
        rw [hlookup] at hresolve
        obtain rfl := Option.some.inj hresolve
        rfl
      | failure =>
        rw [hlookup] at hresolve
        cases hresolve
      | unknown left =>
        rw [hlookup] at hresolve
        cases hresolve

theorem handle_unresolved {token : Text}
    (hstarts : startsPlain token = true)
    (hnone : (resolve moment token).isNone = true) (state : Substitution) :
    handle moment dereference state token =
      match moment.lookup token with
      | .address _ => .error
      | .failure => .error
      | .unknown left => .left left := by
  rw [handle_plain dereference hstarts, handleName]
  rw [resolve] at hnone
  split at hnone
  · cases hnone
  · next hnumber =>
      rw [if_neg hnumber]
      cases hlookup : moment.lookup token with
      | address value =>
        rw [hlookup] at hnone
        cases hnone
      | failure => rfl
      | unknown left => rfl

/-- The pieces of a name leave empty tokens before the token with the whole
name. -/
theorem substituteFrom_joined {text whole : Text} {pieces : List Text}
    (hstarts : startsPlain text = true)
    (hjoined : joined moment text pieces = some whole)
    (state : Substitution) (rest : List Text) :
    startsPlain whole = true ∧
      substituteFrom moment dereference state text (pieces ++ rest) =
        substituteFrom moment dereference
          (state.extend (List.replicate pieces.length []) false) whole
          rest := by
  induction pieces generalizing text state with
  | nil =>
    obtain rfl := Option.some.inj hjoined
    exact ⟨hstarts, by simp [Substitution.extend]⟩
  | cons next pieces ih =>
    rw [joined] at hjoined
    split at hjoined
    · cases hjoined
    · next hnumber =>
        cases hlookup : moment.lookup text with
        | address value =>
          rw [hlookup] at hjoined
          cases hjoined
        | failure =>
          rw [hlookup] at hjoined
          cases hjoined
        | unknown left =>
          rw [hlookup] at hjoined
          dsimp only at hjoined
          split at hjoined
          · next hleft =>
              obtain ⟨hwhole, hstep⟩ :=
                ih (startsPlain_append hleft next) hjoined (state.push [])
              rw [push_eq, extend_extend, singleton_append,
                ← replicate_succ] at hstep
              refine ⟨hwhole, Eq.trans ?_ hstep⟩
              rw [cons_append, substituteFrom,
                handle_plain dereference hstarts, handleName,
                if_neg hnumber, hlookup, push_eq]
          · cases hjoined

theorem substituteFrom_unknown {text : Text} {rest : List Text}
    (hunknown : staysUnknown moment text rest = true)
    (state : Substitution) :
    substituteFrom moment dereference state text rest = none := by
  induction rest generalizing text state with
  | nil =>
    rw [staysUnknown, Bool.and_eq_true] at hunknown
    rw [substituteFrom, handle_unresolved dereference hunknown.1 hunknown.2]
    cases moment.lookup text <;> rfl
  | cons next rest ih =>
    rw [staysUnknown, Bool.and_eq_true, Bool.and_eq_true] at hunknown
    obtain ⟨⟨hstarts, hnone⟩, hlater⟩ := hunknown
    rw [substituteFrom, handle_unresolved dereference hstarts hnone]
    cases hlookup : moment.lookup text with
    | address value => rfl
    | failure => rfl
    | unknown left =>
      rw [hlookup] at hlater
      exact ih hlater _

theorem substitute_atom {known : Atom} {behind : List Text}
    (hreads : readsName moment known behind = true) {text : Text}
    (hresolve : resolve moment known.name = some text)
    (state : Substitution) :
    substitute moment dereference state (known.tokens ++ behind) =
      substitute moment dereference
        (state.extend
          (List.replicate (known.tokens.length - 1) [] ++ [text]) false)
        behind := by
  rw [readsName] at hreads
  cases htokens : known.tokens with
  | nil =>
    rw [htokens] at hreads
    cases hreads
  | cons first pieces =>
    rw [htokens, hresolve] at hreads
    simp only [Option.isSome_some, if_true, Bool.and_eq_true, beq_iff_eq,
      Option.map_eq_some_iff] at hreads
    obtain ⟨hstarts, whole, hjoined, hwhole⟩ := hreads
    obtain ⟨hplain, hstep⟩ := substituteFrom_joined dereference hstarts
      hjoined state behind
    refine hstep.trans ((substitute_cons moment dereference
      (handle_resolved dereference hplain hwhole _) behind).trans ?_)
    rw [extend_extend]
    rfl

theorem substitute_unknown {known : Atom} {behind : List Text}
    (hreads : readsName moment known behind = true)
    (hnone : resolve moment known.name = none) (state : Substitution) :
    substitute moment dereference state (known.tokens ++ behind) = none := by
  rw [readsName] at hreads
  cases htokens : known.tokens with
  | nil =>
    rw [htokens] at hreads
    cases hreads
  | cons first pieces =>
    rw [htokens, hnone] at hreads
    simp only [Option.isSome_none, Bool.false_eq_true, if_false,
      Bool.and_eq_true] at hreads
    exact substituteFrom_unknown dereference hreads.2 state

theorem handle_operator (sign : Operator) (state : Substitution) :
    handle moment dereference state [operatorChar sign] =
      .done (state.extend [[operatorChar sign]] (sign == .multiply)) := by
  obtain ⟨tokens, outside, multiplied⟩ := state
  cases sign <;> simp [handle, startsWith, operatorChar, Substitution.extend,
    Substitution.push]

/-- At a closing bracket the tokens behind the open one are exchanged for the
pointer. -/
theorem handle_close (state : Substitution) (inside : List Text)
    (multiplied : Bool) :
    handle moment dereference
        (Substitution.extend ⟨[], (state.tokens ++ [['[']]) :: state.outside,
          state.hasMultiplication⟩ inside multiplied) [']'] =
      match dereference inside.flatten with
      | none => .error
      | some value => .done (state.extend
          (inttohex value :: List.replicate (inside.length + 1) [])
          multiplied) := by
  rw [handle, if_neg (by decide), if_neg (by decide), if_neg (by decide),
    if_pos (by decide)]
  cases hread : dereference inside.flatten with
  | none =>
    simp only [Substitution.close, Substitution.extend, nil_append, hread]
  | some value =>
    simp only [Substitution.close, Substitution.extend, nil_append,
      dropLast_concat, hread]

theorem readsNames_append (before : List Lexeme) {after : List Lexeme}
    (hnames : ReadsNames moment (before ++ after)) :
    ReadsNames moment after := by
  induction before with
  | nil => exact hnames
  | cons lexeme before ih =>
    cases lexeme with
    | atom known => exact ih hnames.2
    | operator sign => exact ih hnames
    | openBracket => exact ih hnames
    | closeBracket => exact ih hnames

theorem substitute_items (items : Items) {rest : List Lexeme}
    (hnames : ReadsNames moment (items.lexemes ++ rest))
    (state : Substitution) :
    substitute moment dereference state (texts (items.lexemes ++ rest)) =
      (items.replaced moment dereference).bind fun after =>
        substitute moment dereference (state.extend after.1 after.2)
          (texts rest) := by
  induction items generalizing rest state with
  | nil =>
    rw [Items.replaced, Option.bind_some]
    simp [Items.lexemes, Substitution.extend]
  | atom known items ih =>
    rw [Items.replaced]
    cases hresolve : resolve moment known.name with
    | none => exact substitute_unknown dereference hnames.1 hresolve state
    | some text =>
      refine (substitute_atom dereference hnames.1 hresolve state).trans
        ((ih hnames.2 _).trans ?_)
      cases items.replaced moment dereference with
      | none => rfl
      | some after =>
        rw [Option.bind_some, extend_extend, Bool.false_or, append_assoc]
        rfl
  | operator sign items ih =>
    have hstep := substitute_cons moment dereference
      (handle_operator dereference sign state)
      (texts (items.lexemes ++ rest))
    refine (hstep.trans (ih hnames _)).trans ?_
    rw [Items.replaced]
    cases items.replaced moment dereference with
    | none => rfl
    | some after =>
      rw [Option.bind_some, extend_extend]
      rfl
  | pointer inner items ihInner ih =>
    have hopen : handle moment dereference state ['['] =
        .done ⟨[], (state.tokens ++ [['[']]) :: state.outside,
          state.hasMultiplication⟩ := rfl
    have hlexemes : (Items.pointer inner items).lexemes ++ rest =
        .openBracket :: (inner.lexemes ++
          .closeBracket :: (items.lexemes ++ rest)) := by
      simp [Items.lexemes]
    rw [hlexemes] at hnames ⊢
    have hstep := substitute_cons moment dereference hopen
      (texts (inner.lexemes ++ .closeBracket :: (items.lexemes ++ rest)))
    refine (hstep.trans (ihInner hnames _)).trans ?_
    rw [Items.replaced]
    cases inner.replaced moment dereference with
    | none => rfl
    | some inside =>
      have hclose := @handle_close moment dereference state inside.1 inside.2
      rw [Option.bind_some, Option.bind_some]
      cases hread : dereference inside.1.flatten with
      | none =>
        rw [hread] at hclose
        exact substitute_error moment dereference hclose _
      | some value =>
        rw [hread] at hclose
        have hafter := substitute_cons moment dereference hclose
          (texts (items.lexemes ++ rest))
        refine (hafter.trans (ih ?_ _)).trans ?_
        · have hbehind : ReadsNames moment
              (.closeBracket :: (items.lexemes ++ rest)) :=
            readsNames_append inner.lexemes hnames
          exact hbehind
        · rw [Option.bind_some]
          cases items.replaced moment dereference with
          | none => rfl
          | some after =>
            rw [Option.bind_some, extend_extend]
            rfl

end

end CheatEngine.Symhandler
