import CheatEngine.AssemblerRewrite
import CheatEngine.ByteStream
import CheatEngine.PascalText
import Mathlib.Data.List.DropRight

/-!
# Addresses of the symbol handler

`getAddressFromName` cuts an expression into tokens, writes the value of every
name and every pointer into its token, and then computes with the texts: first
the products, then the sums.  What the symbol tables and the target answer is
a parameter; no lookup callback is registered and there is no thread context.
-/

namespace CheatEngine.Symhandler

open AssemblerRewrite (Text val inttohex)
open List ByteStream PascalText

inductive Symbol
  | address (value : UInt64)
  | failure
  | unknown (token : Text)

/-- What the symbol tables and the target answer at one time. -/
structure Moment where
  lookup : Text → Symbol
  readprocessmemory : UInt64 → ℕ → Bool × List UInt8

def pointersize (is64Bit : Bool) : ℕ :=
  if is64Bit then 8 else 4

def isBlank (char : Char) : Bool :=
  char.toNat ≤ 32

def trimRight (text : Text) : Text :=
  text.rdropWhile isBlank

/-- `StrToQWordEx` of a dollar sign and the text, whose blanks at the end it
trims; such a text is no float either. -/
def StrToQWordEx (text : Text) : Option UInt64 :=
  val (trimRight text)

def literal (name : Text) : Option UInt64 :=
  if name.head? = some '$' ∧ (val name.tail).isSome then val name.tail
  else if (val name).isSome then val name
  else if lowerCase (name.take 2) = ['0', 'x'] ∧ name.length ≤ 255 then
    val (name.drop 2)
  else none

def isSeperator (char : Char) : Bool :=
  char ∈ ['[', ']', '+', '-', '*']

def piece (text : Text) : List Text :=
  if trim text = [] then [] else [trim text]

def tokenizeFrom (inQuote : Bool) (current : Text) : Text → List Text
  | [] => piece current
  | char :: rest =>
    if char = '"' then
      if inQuote then piece current ++ tokenizeFrom false [] rest
      else tokenizeFrom true [] rest
    else if isSeperator char && !inQuote then
      piece current ++ [char] :: tokenizeFrom false [] rest
    else tokenizeFrom inQuote (current ++ [char]) rest

def tokenize (s : Text) : List Text :=
  tokenizeFrom false [] s

def startsWith (chars : List Char) (token : Text) : Bool :=
  token.head?.any (· ∈ chars)

/-- The tokens since the last open bracket, and those up to each open
bracket. -/
structure Substitution where
  tokens : List Text
  outside : List (List Text)
  hasMultiplication : Bool

def Substitution.push (state : Substitution) (token : Text) :
    Substitution :=
  { state with tokens := state.tokens ++ [token] }

def Substitution.all (state : Substitution) : List Text :=
  state.outside.foldl (fun tokens before => before ++ tokens) state.tokens

inductive Handled
  | done (state : Substitution)
  | left (token : Text)
  | error

/-- The pointer goes where the bracket was opened, and the tokens after it
are emptied. -/
def Substitution.close (dereference : Text → Option UInt64)
    (state : Substitution) : Handled :=
  match state.outside with
  | [] => .error
  | before :: outside =>
    match dereference state.tokens.flatten with
    | none => .error
    | some a => .done
        { state with
          tokens := before.dropLast ++ inttohex a ::
            List.replicate (state.tokens.length + 1) []
          outside := outside }

def handleName (moment : Moment) (state : Substitution) (token : Text) :
    Handled :=
  if (val token).isSome then .done (state.push token)
  else
    match moment.lookup token with
    | .address value => .done (state.push (inttohex value))
    | .failure => .error
    | .unknown token => .left token

def handle (moment : Moment) (dereference : Text → Option UInt64)
    (state : Substitution) (token : Text) : Handled :=
  if startsWith ['+', '-'] token then .done (state.push token)
  else if startsWith ['*'] token then
    .done { state.push token with hasMultiplication := true }
  else if startsWith ['['] token then
    .done
      { state with
        tokens := []
        outside := (state.tokens ++ [token]) :: state.outside }
  else if startsWith [']'] token then state.close dereference
  else handleName moment state token

def substituteFrom (moment : Moment) (dereference : Text → Option UInt64)
    (state : Substitution) (token : Text) :
    List Text → Option Substitution
  | [] =>
    match handle moment dereference state token with
    | .done state => some state
    | .left _ => none
    | .error => none
  | next :: rest =>
    match handle moment dereference state token with
    | .done state => substituteFrom moment dereference state next rest
    | .left token => substituteFrom moment dereference (state.push [])
        (token ++ next) rest
    | .error => none

def removeEmpty (tokens : List Text) : List Text :=
  tokens.dropLast.filter (· ≠ []) ++ tokens.getLast?.toList

/-- The product goes into the token before, and two tokens are emptied; there
is no such token at the ends. -/
def multiplyFrom (before : Option Text) :
    List Text → Option (List Text)
  | [] => some before.toList
  | [token] =>
    if token = ['*'] then none else some (before.toList ++ [token])
  | token :: next :: rest =>
    if token = ['*'] then
      (before.bind StrToQWordEx).bind fun a =>
        (val next).bind fun b =>
          (multiplyFrom (some []) rest).map fun tokens =>
            inttohex (a * b) :: [] :: tokens
    else
      (multiplyFrom (some token) (next :: rest)).map fun tokens =>
        before.toList ++ tokens

inductive TCalculation
  | calcAddition
  | calcSubstraction
deriving DecidableEq

def TCalculation.minus : TCalculation → TCalculation
  | calcSubstraction => calcAddition
  | calcAddition => calcSubstraction

def TCalculation.calculate (result value : UInt64) : TCalculation → UInt64
  | calcAddition => result + value
  | calcSubstraction => result - value

def addFrom (result : UInt64) (nextoperation : TCalculation) :
    List Text → Option UInt64
  | [] => some result
  | token :: rest =>
    if token = [] then addFrom result nextoperation rest
    else if startsWith ['+'] token then
      addFrom result .calcAddition rest
    else if startsWith ['-'] token then
      addFrom result nextoperation.minus rest
    else
      (StrToQWordEx token).bind fun value =>
        addFrom (nextoperation.calculate result value) .calcAddition rest

def calculate (state : Substitution) : Option UInt64 :=
  (if state.hasMultiplication then
      multiplyFrom none (removeEmpty state.all)
    else some state.all).bind (addFrom 0 .calcAddition)

def isBadFormula (first : Text) (rest : List Text) : Bool :=
  startsWith ['*'] first ||
    startsWith ['*', '+', '-'] (rest.getLast?.getD first)

def evaluateTokens (moment : Moment) (dereference : Text → Option UInt64) :
    List Text → Option UInt64
  | [] => none
  | token :: rest =>
    if isBadFormula token rest then none
    else
      (substituteFrom moment dereference ⟨[], [], false⟩ token
        rest).bind calculate

def evaluate (moment : Moment) (dereference : Text → Option UInt64)
    (name : Text) : Option UInt64 :=
  match literal (trim name) with
  | some value => some value
  | none => evaluateTokens moment dereference (tokenize (trim name))

def overlay (a : UInt64) (bytes : List UInt8) : UInt64 :=
  UInt64.ofNat
    (a.toNat / 256 ^ bytes.length * 256 ^ bytes.length + leValue bytes)

def dereference (moment : Moment) (is64Bit : Bool) (a : UInt64) :
    Option UInt64 :=
  match moment.readprocessmemory a (pointersize is64Bit) with
  | (true, bytes) => some (overlay a bytes)
  | (false, _) => none

/-- The text of a pointer has one open bracket less than the text it stands
in. -/
def getAddressInside (moment : Moment) (is64Bit : Bool) :
    ℕ → Text → Option UInt64
  | 0 => evaluate moment fun _ => none
  | brackets + 1 => evaluate moment fun s =>
    (getAddressInside moment is64Bit brackets s).bind
      (dereference moment is64Bit)

def getAddressFromName (moment : Moment) (is64Bit : Bool) (name : Text) :
    Option UInt64 :=
  getAddressInside moment is64Bit (name.count '[') name

theorem trim_eq (text : Text) :
    trim text = trimRight (text.dropWhile isBlank) :=
  rfl

theorem trimRight_append {before after : Text}
    (hafter : trimRight after ≠ []) :
    trimRight (before ++ after) = before ++ trimRight after := by
  have hleft : after.reverse.dropWhile isBlank ≠ [] := by
    intro hnil
    exact hafter (by rw [trimRight, List.rdropWhile, hnil]; rfl)
  rw [trimRight, List.rdropWhile, reverse_append, dropWhile_append,
    if_neg (by simpa using hleft), reverse_append, reverse_reverse]
  rfl

theorem trim_append {first : Char} (hfirst : isBlank first = false)
    {before after : Text} (hafter : trimRight after ≠ []) :
    trim (first :: before ++ after) = first :: before ++ trimRight after := by
  rw [trim_eq, cons_append, dropWhile_cons_of_neg (by simp [hfirst]),
    ← cons_append, trimRight_append hafter]

theorem isBlank_of_hexValue {char : Char} {digit : ℕ}
    (hdigit : HexText.hexValue char = some digit) : isBlank char = false := by
  unfold HexText.hexValue at hdigit
  simp only [isBlank, decide_eq_false_iff_not]
  split_ifs at hdigit <;> omega

section

variable {token : Text} {value : UInt64}

section

variable (hvalue : val token = some value)

include hvalue

theorem val_ne_nil : token ≠ [] :=
  (AssemblerRewrite.val_eq_some hvalue).1

theorem isBlank_of_val : ∀ char ∈ token, isBlank char = false := by
  intro char hchar
  obtain ⟨digit, hdigit⟩ :=
    (AssemblerRewrite.val_eq_some hvalue).2 char hchar
  exact isBlank_of_hexValue hdigit

theorem trimRight_of_val : trimRight token = token := by
  refine rdropWhile_eq_self_iff.mpr fun hne => ?_
  rw [isBlank_of_val hvalue _ (getLast_mem hne)]
  exact Bool.false_ne_true

theorem StrToQWordEx_of_val : StrToQWordEx token = some value := by
  rw [StrToQWordEx, trimRight_of_val hvalue, hvalue]

theorem trim_of_val : trim token = token := by
  obtain ⟨first, rest, hfirst⟩ :=
    exists_cons_of_ne_nil (val_ne_nil hvalue)
  have hblank := isBlank_of_val hvalue first (by simp [hfirst])
  rw [trim_eq, hfirst, dropWhile_cons_of_neg (by simp [hblank]),
    ← hfirst, trimRight_of_val hvalue]

theorem piece_of_val : piece token = [token] := by
  rw [piece, trim_of_val hvalue, if_neg (val_ne_nil hvalue)]

end

end

def IsPlain (char : Char) : Prop :=
  char ≠ '"' ∧ isSeperator char = false

instance : DecidablePred IsPlain :=
  fun _ => inferInstanceAs (Decidable (_ ∧ _))

theorem isPlain_of_hexValue {char : Char} {digit : ℕ}
    (hdigit : HexText.hexValue char = some digit) : IsPlain char := by
  obtain ⟨hseparator, hquote, hstar, -, -⟩ :=
    AssemblerRewrite.hexValue_plain hdigit
  simp only [AssemblerRewrite.isSeparator, AssemblerRewrite.isQuote,
    Bool.or_eq_false_iff, decide_eq_false_iff_not] at hseparator hquote
  simp [IsPlain, isSeperator, hseparator, hquote, hstar]

theorem isPlain_of_val {token : Text} {value : UInt64}
    (hvalue : val token = some value) : ∀ char ∈ token, IsPlain char := by
  intro char hchar
  obtain ⟨digit, hdigit⟩ :=
    (AssemblerRewrite.val_eq_some hvalue).2 char hchar
  exact isPlain_of_hexValue hdigit

theorem tokenizeFrom_plain {text : Text}
    (htext : ∀ char ∈ text, IsPlain char) (inQuote : Bool)
    (current rest : Text) :
    tokenizeFrom inQuote current (text ++ rest) =
      tokenizeFrom inQuote (current ++ text) rest := by
  induction text generalizing current with
  | nil => rw [append_nil]; rfl
  | cons char text ih =>
    obtain ⟨⟨hquote, hseparator⟩, htext⟩ := forall_mem_cons.mp htext
    rw [cons_append, tokenizeFrom, if_neg hquote, hseparator, Bool.false_and,
      if_neg Bool.false_ne_true, ih htext, append_assoc, singleton_append]

theorem tokenizeFrom_end {text : Text} (htext : ∀ char ∈ text, IsPlain char)
    (inQuote : Bool) (current : Text) :
    tokenizeFrom inQuote current text = piece (current ++ text) := by
  have hplain := tokenizeFrom_plain htext inQuote current []
  rwa [append_nil] at hplain

theorem tokenizeFrom_seperator {text : Text}
    (htext : ∀ char ∈ text, IsPlain char) {char : Char}
    (hchar : isSeperator char = true) (current rest : Text) :
    tokenizeFrom false current (text ++ char :: rest) =
      piece (current ++ text) ++ [char] :: tokenizeFrom false [] rest := by
  have hquote : char ≠ '"' := by
    rintro rfl
    exact absurd hchar (by decide)
  rw [tokenizeFrom_plain htext, tokenizeFrom, if_neg hquote, hchar]
  rfl

section

variable (moment : Moment) (dereference : Text → Option UInt64)
  (state : Substitution)

theorem startsWith_of_val {token : Text} {value : UInt64}
    (hvalue : val token = some value) {chars : List Char}
    (hchars : chars.all isSeperator = true) :
    startsWith chars token = false := by
  obtain ⟨first, rest, rfl⟩ :=
    exists_cons_of_ne_nil (val_ne_nil hvalue)
  have hplain := (isPlain_of_val hvalue first (by simp)).2
  simp only [startsWith, head?_cons, Option.any_some, decide_eq_false_iff_not]
  intro hmem
  rw [all_eq_true.mp hchars first hmem] at hplain
  cases hplain

variable {token : Text}

theorem handle_number {value : UInt64} (hvalue : val token = some value) :
    handle moment dereference state token = .done (state.push token) := by
  have hstarts := @startsWith_of_val token value hvalue
  rw [handle, hstarts (by decide), hstarts (by decide), hstarts (by decide),
    hstarts (by decide), handleName, hvalue]
  rfl

theorem handle_sign {sign : Char} (hsign : sign ∈ ['+', '-']) :
    handle moment dereference state [sign] = .done (state.push [sign]) := by
  have hstarts : startsWith ['+', '-'] [sign] = true := by
    simpa [startsWith] using hsign
  rw [handle, if_pos hstarts]

theorem handle_multiply :
    handle moment dereference state ['*'] =
      .done { state.push ['*'] with hasMultiplication := true } :=
  rfl

variable {moment dereference state}

theorem substituteFrom_last {after : Substitution}
    (hhandle : handle moment dereference state token = .done after) :
    substituteFrom moment dereference state token [] = some after := by
  rw [substituteFrom, hhandle]

theorem substituteFrom_next {after : Substitution}
    (hhandle : handle moment dereference state token = .done after)
    (next : Text) (rest : List Text) :
    substituteFrom moment dereference state token (next :: rest) =
      substituteFrom moment dereference after next rest := by
  rw [substituteFrom, hhandle]

end

theorem addFrom_number {token : Text} {value : UInt64}
    (hvalue : val token = some value) (result : UInt64)
    (nextoperation : TCalculation) (rest : List Text) :
    addFrom result nextoperation (token :: rest) =
      addFrom (nextoperation.calculate result value) .calcAddition rest := by
  have hstarts := @startsWith_of_val token value hvalue
  rw [addFrom, if_neg (val_ne_nil hvalue), hstarts (by decide),
    if_neg Bool.false_ne_true, hstarts (by decide), if_neg Bool.false_ne_true,
    StrToQWordEx_of_val hvalue, Option.bind_some]

theorem addFrom_sign {sign : Char} (hsign : sign ∈ ['+', '-'])
    (result : UInt64) (rest : List Text) :
    addFrom result .calcAddition ([sign] :: rest) =
      addFrom result
        (if sign = '-' then .calcSubstraction else .calcAddition) rest := by
  rcases mem_pair.mp hsign with rfl | rfl <;> rfl

end CheatEngine.Symhandler
