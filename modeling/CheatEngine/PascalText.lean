import CheatEngine.HexText

/-!
# Texts of the Pascal run-time library

Integers as texts (`IntToStr`, `IntToHex`, `StrToInt`), the text of a list of
strings (`TStrings.Text`), `Trim`, `LowerCase` and `UpperCase`, and parts of a
text by position (`Copy`, `Pos`, `RPos`).
-/

namespace CheatEngine.PascalText

open List HexText

/-! ## Integers -/

def intToStr (value : ℤ) : List Char :=
  if value < 0 then
    '-' :: Nat.toDigits 10 value.natAbs
  else
    Nat.toDigits 10 value.natAbs

def skipBlanks (text : List Char) : List Char :=
  text.dropWhile (fun char => char == ' ' || char == '\t')

def takeSign : List Char → Bool × List Char
  | '-' :: rest => (true, rest)
  | '+' :: rest => (false, rest)
  | text => (false, text)

def takeBase : List Char → ℕ × List Char
  | '$' :: rest => (16, rest)
  | 'x' :: rest => (16, rest)
  | 'X' :: rest => (16, rest)
  | '0' :: 'x' :: rest => (16, rest)
  | '0' :: 'X' :: rest => (16, rest)
  | '%' :: rest => (2, rest)
  | '&' :: rest => (8, rest)
  | text => (10, text)

def parseDigits (base value : ℕ) : List Char → Option ℕ
  | [] => some value
  | char :: rest => do
      let digit ← hexValue char
      if digit < base then
        parseDigits base (value * base + digit) rest
      else
        none

def fitsLongint (negative : Bool) (base value : ℕ) : Bool :=
  if base = 10 then value < 2 ^ 31 + negative.toNat else value < 2 ^ 32

/-- `StrToInt`; it is missing where `StrToInt` raises. -/
def strToInt (text : List Char) : Option Int32 :=
  let (negative, rest) := takeSign (skipBlanks text)
  let (base, digits) := takeBase rest
  if digits = [] then
    none
  else
    (parseDigits base 0 digits).bind fun value =>
      if fitsLongint negative base value then
        some (Int32.ofInt (if negative then -value else value))
      else
        none

variable {char : Char} {text : List Char}

theorem hexValue_digit (hdigit : char.isDigit = true) :
    hexValue char = some (char.toNat - 48) ∧ char.toNat - 48 < 10 := by
  have hrange : 48 ≤ char.toNat ∧ char.toNat ≤ 57 := by
    simp only [Char.isDigit, Bool.and_eq_true, decide_eq_true_eq] at hdigit
    exact ⟨hdigit.1, hdigit.2⟩
  refine ⟨?_, by omega⟩
  rw [hexValue, if_pos hrange]

theorem parseDigits_ten (value : ℕ)
    (hdigits : ∀ char ∈ text, char.isDigit = true) :
    parseDigits 10 value text = some (Nat.ofDigitChars 10 text value) := by
  induction text generalizing value with
  | nil => rfl
  | cons char rest ih =>
    obtain ⟨hvalue, hsmall⟩ := hexValue_digit (hdigits char (by simp))
    have hrest := ih (value * 10 + (char.toNat - 48))
      (fun next hnext => hdigits next (by simp [hnext]))
    simp only [parseDigits, hvalue, Option.bind_eq_bind, Option.bind_some,
      if_pos hsmall, hrest, Nat.ofDigitChars_cons]
    rw [Nat.mul_comm 10 value]
    rfl

theorem takeBase_digits (hdigits : ∀ char ∈ text, char.isDigit = true) :
    takeBase text = (10, text) := by
  unfold takeBase
  split <;> first
    | rfl
    | exact absurd (hdigits _ mem_cons_self) (by decide)
    | exact absurd (hdigits _ (mem_cons_of_mem _ mem_cons_self))
        (by decide)

theorem toDigits_digits {value : ℕ} (hchar : char ∈ Nat.toDigits 10 value) :
    char.isDigit = true :=
  Nat.isDigit_of_mem_toDigits (by decide) (by decide) hchar

theorem takeSign_digits (hdigits : ∀ char ∈ text, char.isDigit = true) :
    takeSign text = (false, text) := by
  unfold takeSign
  split <;> first
    | rfl
    | exact absurd (hdigits _ mem_cons_self) (by decide)

theorem skipBlanks_cons {rest : List Char} (hspace : char ≠ ' ')
    (htab : char ≠ '\t') :
    skipBlanks (char :: rest) = char :: rest := by
  simp [skipBlanks, hspace, htab]

theorem skipBlanks_digits (hdigits : ∀ char ∈ text, char.isDigit = true) :
    skipBlanks text = text := by
  cases text with
  | nil => rfl
  | cons char rest =>
    have hdigit := hdigits char mem_cons_self
    apply skipBlanks_cons
    · rintro rfl
      exact absurd hdigit (by decide)
    · rintro rfl
      exact absurd hdigit (by decide)

/-- `StrToInt` reads a number that `IntToStr` wrote exactly when it is a
`longint`. -/
theorem strToInt_intToStr (value : ℤ) :
    strToInt (intToStr value) =
      if -2 ^ 31 ≤ value ∧ value < 2 ^ 31 then
        some (Int32.ofInt value)
      else
        none := by
  have hdigits : ∀ char ∈ Nat.toDigits 10 value.natAbs,
      char.isDigit = true := fun _ => toDigits_digits
  have hparse : parseDigits 10 0 (Nat.toDigits 10 value.natAbs) =
      some value.natAbs := by
    rw [parseDigits_ten 0 hdigits, Nat.ofDigitChars_ten_toDigits]
  by_cases hnegative : value < 0
  · have hskip : skipBlanks ('-' :: Nat.toDigits 10 value.natAbs) =
        '-' :: Nat.toDigits 10 value.natAbs :=
      skipBlanks_cons (by decide) (by decide)
    have hvalue : -(value.natAbs : ℤ) = value := by omega
    simp only [strToInt, intToStr, if_pos hnegative, hskip, takeSign,
      takeBase_digits hdigits, if_neg Nat.toDigits_ne_nil, hparse,
      Option.bind_some, fitsLongint, if_true, hvalue,
      decide_eq_true_eq, Bool.toNat_true]
    congr 1
    simp only [eq_iff_iff]
    omega
  · have hvalue : (value.natAbs : ℤ) = value := by omega
    simp only [strToInt, intToStr, if_neg hnegative,
      skipBlanks_digits hdigits, takeSign_digits hdigits,
      takeBase_digits hdigits, if_neg Nat.toDigits_ne_nil, hparse,
      Option.bind_some, fitsLongint, if_true, hvalue,
      decide_eq_true_eq, Bool.toNat_false, Bool.false_eq_true, if_false]
    congr 1
    simp only [eq_iff_iff]
    omega

theorem strToInt_intToStr_longint (value : Int32) :
    strToInt (intToStr value.toInt) = some value := by
  rw [strToInt_intToStr, if_pos ⟨value.le_toInt, value.toInt_lt⟩,
    Int32.ofInt_toInt]

theorem parseDigits_sixteen (value : ℕ) (text : List Char) :
    parseDigits 16 value text = parseFrom value text := by
  induction text generalizing value with
  | nil => rfl
  | cons char rest ih =>
    simp only [parseDigits, parseFrom, ih]
    cases hchar : hexValue char with
    | none => rfl
    | some digit =>
      simp [hexValue_lt hchar]

theorem strToInt_dollar (value : UInt32) (digits : ℕ) :
    strToInt ('$' :: intToHex value.toNat digits) =
      some (Int32.ofInt value.toNat) := by
  have hskip : skipBlanks ('$' :: intToHex value.toNat digits) =
      '$' :: intToHex value.toNat digits :=
    skipBlanks_cons (by decide) (by decide)
  have hparse : parseDigits 16 0 (intToHex value.toNat digits) =
      some value.toNat := by
    have hhex := parseHex_intToHex value.toNat digits
    rw [parseHex, if_neg (intToHex_ne_nil _ _)] at hhex
    rw [parseDigits_sixteen, hhex]
  have hfits : value.toNat < 4294967296 := value.toNat_lt
  simp only [strToInt, hskip, takeSign, takeBase, fitsLongint]
  simp [intToHex_ne_nil, hparse, hfits]

def isBreak (char : Char) : Bool :=
  char == '\n' || char == '\r'

def textOf (lines : List (List Char)) : List Char :=
  lines.flatMap (fun line => line ++ ['\r', '\n'])

def linesFrom (current : List Char) : List Char → List (List Char)
  | [] => if current = [] then [] else [current]
  | '\r' :: '\n' :: rest => current :: linesFrom [] rest
  | char :: rest =>
    if isBreak char then
      current :: linesFrom [] rest
    else
      linesFrom (current ++ [char]) rest

/-- The strings that assigning a text to `TStrings.Text` leaves. -/
def linesOf (text : List Char) : List (List Char) :=
  linesFrom [] text

def Unbroken (line : List Char) : Prop :=
  ∀ char ∈ line, isBreak char = false

theorem linesFrom_cons (hchar : isBreak char = false)
    (current rest : List Char) :
    linesFrom current (char :: rest) =
      linesFrom (current ++ [char]) rest := by
  have hreturn : char ≠ '\r' := by
    rintro rfl
    exact absurd hchar (by decide)
  rw [linesFrom]
  · rw [if_neg (by simp [hchar])]
  · intro more heq
    exact absurd heq hreturn

theorem linesFrom_line {line : List Char} (hline : Unbroken line)
    (current rest : List Char) :
    linesFrom current (line ++ '\r' :: '\n' :: rest) =
      (current ++ line) :: linesFrom [] rest := by
  induction line generalizing current with
  | nil => simp [linesFrom]
  | cons char line ih =>
    rw [cons_append, linesFrom_cons (hline char (by simp)),
      ih (fun next hnext => hline next (by simp [hnext]))]
    simp

theorem linesOf_textOf {lines : List (List Char)}
    (hlines : ∀ line ∈ lines, Unbroken line) :
    linesOf (textOf lines) = lines := by
  induction lines with
  | nil => rfl
  | cons line rest ih =>
    have hrest := ih (fun next hnext => hlines next (by simp [hnext]))
    have htext : textOf (line :: rest) =
        line ++ '\r' :: '\n' :: textOf rest := by simp [textOf]
    rw [linesOf, htext, linesFrom_line (hlines line (by simp))]
    simpa [linesOf] using hrest

theorem linesFrom_unbroken (text : List Char) {current : List Char}
    (hcurrent : Unbroken current) :
    ∀ line ∈ linesFrom current text, Unbroken line := by
  fun_induction linesFrom current text with
  | case1 => simp
  | case2 current hne =>
    intro line hline
    rw [mem_singleton.mp hline]
    exact hcurrent
  | case3 current rest ih =>
    intro line hline
    rcases mem_cons.mp hline with hhead | htail
    · rw [hhead]
      exact hcurrent
    · exact ih (by simp [Unbroken]) line htail
  | case4 current char rest _ _ ih =>
    intro line hline
    rcases mem_cons.mp hline with hhead | htail
    · rw [hhead]
      exact hcurrent
    · exact ih (by simp [Unbroken]) line htail
  | case5 current char rest _ hchar ih =>
    apply ih
    intro next hnext
    rcases mem_append.mp hnext with hold | hnew
    · exact hcurrent next hold
    · rw [mem_singleton.mp hnew]
      simpa using hchar

/-- Strings come back from their text exactly when none contains a line
break. -/
theorem linesOf_textOf_iff (lines : List (List Char)) :
    linesOf (textOf lines) = lines ↔ ∀ line ∈ lines, Unbroken line := by
  constructor
  · intro heq
    rw [← heq]
    exact linesFrom_unbroken _ (by simp [Unbroken])
  · exact linesOf_textOf

def trim (text : List Char) : List Char :=
  ((text.dropWhile (fun char => char.toNat ≤ 32)).reverse.dropWhile
    (fun char => char.toNat ≤ 32)).reverse

def lowerCase (text : List Char) : List Char :=
  text.map Char.toLower

def upperCase (text : List Char) : List Char :=
  text.map Char.toUpper

def copy (text : List Char) (index count : ℤ) : List Char :=
  (text.drop (index - 1).toNat).take count.toNat

def pos (char : Char) (text : List Char) : ℕ :=
  if char ∈ text then text.idxOf char + 1 else 0

def posEx (char : Char) (text : List Char) (start : ℕ) : ℕ :=
  match pos char (text.drop (start - 1)) with
  | 0 => 0
  | found + 1 => start - 1 + (found + 1)

def rpos (char : Char) (text : List Char) : ℕ :=
  if char ∈ text then text.length - text.reverse.idxOf char else 0

end CheatEngine.PascalText
