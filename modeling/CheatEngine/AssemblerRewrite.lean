import CheatEngine.HexText

/-!
# Rewriting of operands in the assembler

`rewrite` splits an operand at its brackets and signs, looks unknown names up,
and computes with neighbouring constants by editing the array of the parts.
It is compared with what a sum of constants and registers stands for.
-/

namespace CheatEngine
namespace AssemblerRewrite

open List HexText

abbrev Text := List Char

def quote : Char :=
  Char.ofNat 39

def isQuote (char : Char) : Bool :=
  char = quote || char = '"'

def isSeparator (char : Char) : Bool :=
  char = '[' || char = ']' || char = '+' || char = '-'

def quoteAfter (inQuote : Option Char) (char : Char) : Option Char :=
  if isQuote char then
    match inQuote with
    | none => some char
    | some quotechar => if char = quotechar then none else inQuote
  else
    inQuote

def flush (temp : Text) : List Text :=
  if temp.isEmpty then [] else [temp]

def splitFrom (inQuote : Option Char) (temp : Text) : Text → List Text
  | [] => flush temp
  | char :: rest =>
    if (quoteAfter inQuote char).isNone && isSeparator char then
      flush temp ++ [char] :: splitFrom (quoteAfter inQuote char) [] rest
    else
      splitFrom (quoteAfter inQuote char) (temp ++ [char]) rest

/-- `val('$'+token)` into a `qword`; a short string has 255 characters. -/
def val (token : Text) : Option UInt64 :=
  if 254 < token.length then none
  else
    (parseHex token).bind fun value =>
      if value < 2 ^ 64 then some (UInt64.ofNat value) else none

/-- `val('$'+token)` into an `integer` has no error. -/
def fitsInteger (token : Text) : Bool :=
  (val token).any fun value => value < 0x100000000

def inttohex (value : UInt64) : Text :=
  intToHex value.toNat 8

def registerNames : List (List String) :=
  [["RAX", "EAX", "AX", "AL", "MM0", "XMM0", "ST(0)", "ST", "ES", "CR0",
      "DR0"],
    ["RCX", "ECX", "CX", "CL", "MM1", "XMM1", "ST(1)", "CS", "CR1", "DR1"],
    ["RDX", "EDX", "DX", "DL", "MM2", "XMM2", "ST(2)", "SS", "CR2", "DR2"],
    ["RBX", "EBX", "BX", "BL", "MM3", "XMM3", "ST(3)", "DS", "CR3", "DR3"],
    ["SPL", "RSP", "ESP", "SP", "AH", "MM4", "XMM4", "ST(4)", "FS", "CR4",
      "DR4"],
    ["BPL", "RBP", "EBP", "BP", "CH", "MM5", "XMM5", "ST(5)", "GS", "CR5",
      "DR5"],
    ["SIL", "RSI", "ESI", "SI", "DH", "MM6", "XMM6", "ST(6)", "HS", "CR6",
      "DR6"],
    ["DIL", "RDI", "EDI", "DI", "BH", "MM7", "XMM7", "ST(7)", "IS", "CR7",
      "DR7"],
    ["R8"], ["R9"], ["R10"], ["R11"], ["R12"], ["R13"], ["R14"], ["R15"]]

/-- The number of a register; the last list that has the name counts. -/
def getreg (reg : Text) : Option ℕ :=
  (List.range registerNames.length).reverse.find? fun number =>
    (registerNames.getD number []).any fun name => name.toList = reg

section

variable (getaddressfromname : Text → Option UInt64)

/-- The part with its name looked up; `none` where the name is unknown. -/
def lookUp (token : Text) : Option Text :=
  match token with
  | [] => some token
  | first :: _ =>
    if isSeparator first || first = '*' then some token
    else if fitsInteger token || (getreg token).isSome then some token
    else (getaddressfromname token).map inttohex

def concatenates (next : Text) : Bool :=
  match next with
  | [] => false
  | first :: _ =>
    !(isQuote first || first = '[' || first = ']' || first = '(' ||
      first = ')')

def resolveFrom (token : Text) : List Text → List Text
  | [] => [(lookUp getaddressfromname token).getD token]
  | next :: rest =>
    match lookUp getaddressfromname token with
    | some token => token :: resolveFrom next rest
    | none =>
      if concatenates next then [] :: resolveFrom (token ++ next) rest
      else token :: resolveFrom next rest

def resolve : List Text → List Text
  | [] => []
  | token :: rest => resolveFrom getaddressfromname token rest

end

abbrev Edit := Text → Text → Text → Text × Text × Text

def multiply : Edit := fun before token after =>
  if token = ['*'] then
    match val before, val after with
    | some a, some b => (inttohex (a * b), [], [])
    | _, _ => (before, token, after)
  else
    (before, token, after)

def add : Edit := fun before token after =>
  match val before, val after with
  | some a, some b =>
    if token.head? = some '+' then (inttohex (a + b), [], [])
    else if token.head? = some '-' then (inttohex (a - b), [], [])
    else (before, token, after)
  | none, some b =>
    if token.head? = some '-' ∧ before ≠ ['#'] then
      (before, ['+'], inttohex (-b))
    else (before, token, after)
  | _, none => (before, token, after)

def sweepFrom (edit : Edit) (before token : Text) : List Text → List Text
  | [] => [before, token]
  | after :: rest =>
    (edit before token after).1 ::
      sweepFrom edit (edit before token after).2.1
        (edit before token after).2.2 rest

def sweep (edit : Edit) : List Text → List Text
  | before :: token :: rest => sweepFrom edit before token rest
  | tokens => tokens

def pointerNotation (getaddressfromname : Text → Option UInt64)
    (token : Text) : Option Text :=
  if 4 < token.length ∧ token.take 2 = ['[', '['] ∧
      token.getLast? = some ']' then
    (getaddressfromname ((token.drop 1).take (token.length - 2))).map
      fun address => '[' :: inttohex address ++ [']']
  else
    some token

def rewriteToken (getaddressfromname : Text → Option UInt64)
    (token : Text) : Option Text :=
  (pointerNotation getaddressfromname token).map fun token =>
    (sweep add (sweep multiply
      (resolve getaddressfromname (splitFrom none [] token)))).flatten

/-- A name that neither the assembler nor the symbol handler knows, whatever
follows it. -/
structure Unknown (getaddressfromname : Text → Option UInt64)
    (text : Text) : Prop where
  first : ∃ char rest, text = char :: rest ∧ char ≠ '*' ∧ char ≠ '(' ∧
    char ≠ ')'
  plain : ∀ char ∈ text, isSeparator char = false ∧ isQuote char = false
  noValue : ∀ rest, val (text ++ rest) = none
  noRegister : ∀ rest, getreg (text ++ rest) = none
  noSymbol : ∀ rest, getaddressfromname (text ++ rest) = none

def IsKnown (text : Text) : Prop :=
  (val text).isSome = true ∨ (getreg text).isSome = true

/-- A constant, a register, or a register that has to be looked up. -/
def IsAtom (getaddressfromname : Text → Option UInt64) (text : Text) : Prop :=
  IsKnown text ∨ Unknown getaddressfromname text

def sign (minus : Bool) : Char :=
  if minus then '-' else '+'

/-- The sign of a term is `true` for a minus. -/
abbrev Terms := List (Bool × Text)

namespace Terms

def text (terms : Terms) : Text :=
  terms.flatMap fun term => sign term.1 :: term.2

def tokens (terms : Terms) : List Text :=
  terms.flatMap fun term => [[sign term.1], term.2]

end Terms

structure Sum where
  lead : Option Bool
  first : Text
  rest : Terms
deriving DecidableEq

def atomValue (registers : Text → UInt64) (text : Text) : UInt64 :=
  if text.isEmpty then 0 else (val text).getD (registers text)

def signed (minus : Bool) (value : UInt64) : UInt64 :=
  if minus then -value else value

def Terms.value (registers : Text → UInt64) : Terms → UInt64
  | [] => 0
  | (minus, text) :: rest =>
    signed minus (atomValue registers text) + Terms.value registers rest

namespace Sum

variable (sum : Sum)

def leadText : Text :=
  sum.lead.elim [] fun minus => [sign minus]

def text : Text :=
  sum.leadText ++ sum.first ++ sum.rest.text

def tokens : List Text :=
  flush sum.leadText ++ sum.first :: sum.rest.tokens

def atoms : List Text :=
  sum.first :: sum.rest.map Prod.snd

def Valid (getaddressfromname : Text → Option UInt64) : Prop :=
  ∀ text ∈ sum.atoms, IsAtom getaddressfromname text

def value (registers : Text → UInt64) : UInt64 :=
  signed (sum.lead.getD false) (atomValue registers sum.first) +
    sum.rest.value registers

end Sum

def constants (atoms : List Text) : ℕ :=
  atoms.countP fun text => (val text).isSome

def RewritesWell (getaddressfromname : Text → Option UInt64) (sum : Sum) :
    Prop :=
  ∃ result : Sum, result.Valid getaddressfromname ∧
    rewriteToken getaddressfromname sum.text = some result.text ∧
    (∀ registers, result.value registers = sum.value registers) ∧
    constants result.atoms ≤ 1 ∧
    rewriteToken getaddressfromname result.text = some result.text

/-- At most one constant, or two next to each other that come before every
name that has to be looked up. -/
def Foldable (getaddressfromname : Text → Option UInt64)
    (atoms : List Text) : Prop :=
  constants atoms ≤ 1 ∨
    ∃ before first second after,
      atoms = before ++ first :: second :: after ∧
        (val first).isSome = true ∧ (val second).isSome = true ∧
        constants before = 0 ∧ constants after = 0 ∧
        ∀ text ∈ before, ¬ Unknown getaddressfromname text

/-- A minus sign before two constants of which the second one changes when
its sign does. -/
def SignLost (sum : Sum) : Prop :=
  sum.lead = some true ∧ (val sum.first).isSome = true ∧
    ∃ minus text rest value, sum.rest = (minus, text) :: rest ∧
      val text = some value ∧ value + value ≠ 0

theorem val_inttohex (value : UInt64) : val (inttohex value) = some value := by
  have hlt := value.toNat_lt
  have hlength : (inttohex value).length ≤ 254 := by
    unfold inttohex intToHex
    rw [hexDigits_length]
    unfold digitCount
    have hlog : Nat.log2 value.toNat < 64 := by
      by_cases hzero : value.toNat = 0
      · simp [hzero]
      · exact (Nat.log2_lt hzero).mpr hlt
    omega
  unfold val
  rw [if_neg (Nat.not_lt.mpr hlength)]
  unfold inttohex
  rw [parseHex_intToHex, Option.bind_some, if_pos hlt]
  simp

variable {char : Char} {text : Text}

theorem hexValue_plain {digit : ℕ} (hdigit : hexValue char = some digit) :
    isSeparator char = false ∧ isQuote char = false ∧ char ≠ '*' ∧
      char ≠ '(' ∧ char ≠ ')' := by
  have hne (other : Char) (hother : hexValue other = none) :
      char ≠ other := by
    rintro rfl
    rw [hother] at hdigit
    cases hdigit
  simp [isSeparator, isQuote, hne '[' (by decide), hne ']' (by decide),
    hne '+' (by decide), hne '-' (by decide), hne quote (by decide),
    hne '"' (by decide), hne '*' (by decide), hne '(' (by decide),
    hne ')' (by decide)]

theorem hexValue_of_parseFrom {start value : ℕ}
    (hvalue : parseFrom start text = some value) (hchar : char ∈ text) :
    ∃ digit, hexValue char = some digit := by
  induction text generalizing start with
  | nil => cases hchar
  | cons first rest ih =>
    rw [parseFrom, Option.bind_eq_bind, Option.bind_eq_some_iff] at hvalue
    obtain ⟨digit, hdigit, hrest⟩ := hvalue
    rcases mem_cons.mp hchar with rfl | hlater
    · exact ⟨digit, hdigit⟩
    · exact ih hrest hlater

theorem val_eq_some {value : UInt64} (hvalue : val text = some value) :
    text ≠ [] ∧ ∀ char ∈ text, ∃ digit, hexValue char = some digit := by
  unfold val at hvalue
  split at hvalue
  · cases hvalue
  · obtain ⟨number, hnumber, -⟩ := Option.bind_eq_some_iff.mp hvalue
    unfold parseHex at hnumber
    split at hnumber
    · cases hnumber
    · next hne =>
        exact ⟨hne, fun char hchar => hexValue_of_parseFrom hnumber hchar⟩

theorem val_eq_none (hchar : char ∈ text) (hdigit : hexValue char = none) :
    val text = none := by
  cases hvalue : val text with
  | none => rfl
  | some value =>
    obtain ⟨digit, hsome⟩ := (val_eq_some hvalue).2 char hchar
    rw [hdigit] at hsome
    cases hsome

theorem val_sign (minus : Bool) : val [sign minus] = none := by
  cases minus <;> decide

theorem val_nil : val [] = none := by decide

def allRegisterNames : List Text :=
  registerNames.flatten.map String.toList

theorem mem_allRegisterNames {reg : Text}
    (hreg : (getreg reg).isSome = true) : reg ∈ allRegisterNames := by
  obtain ⟨number, hnumber⟩ := Option.isSome_iff_exists.mp hreg
  have hany := find?_some hnumber
  obtain ⟨name, hname, hequal⟩ := any_eq_true.mp hany
  refine mem_map.mpr ⟨name, ?_, of_decide_eq_true hequal⟩
  rw [getD_eq_getElem?_getD] at hname
  cases hget : registerNames[number]? with
  | none =>
    rw [hget] at hname
    cases hname
  | some names =>
    rw [hget] at hname
    exact mem_flatten.mpr ⟨names, mem_of_getElem? hget, hname⟩

theorem plain_of_register :
    ∀ reg ∈ allRegisterNames, reg.all (fun char =>
        !isSeparator char && !isQuote char) = true ∧
      reg.head?.any (fun char => char ≠ '*' ∧ char ≠ '(' ∧ char ≠ ')') =
        true := by
  decide

section

variable {getaddressfromname : Text → Option UInt64} {text : Text}

section

variable (hatom : IsAtom getaddressfromname text)

include hatom

theorem IsAtom.plain :
    ∀ char ∈ text, isSeparator char = false ∧ isQuote char = false := by
  intro char hchar
  rcases hatom with (hvalue | hregister) | hunknown
  · obtain ⟨value, hvalue⟩ := Option.isSome_iff_exists.mp hvalue
    obtain ⟨digit, hdigit⟩ := (val_eq_some hvalue).2 char hchar
    exact ⟨(hexValue_plain hdigit).1, (hexValue_plain hdigit).2.1⟩
  · have hall := (plain_of_register text (mem_allRegisterNames hregister)).1
    have hplain := all_eq_true.mp hall char hchar
    simpa using hplain
  · exact hunknown.plain char hchar

theorem IsAtom.first :
    ∃ char rest, text = char :: rest ∧ char ≠ '*' ∧ char ≠ '(' ∧
      char ≠ ')' := by
  rcases hatom with (hvalue | hregister) | hunknown
  · obtain ⟨value, hvalue⟩ := Option.isSome_iff_exists.mp hvalue
    obtain ⟨hne, hdigits⟩ := val_eq_some hvalue
    obtain ⟨char, rest, rfl⟩ := exists_cons_of_ne_nil hne
    obtain ⟨digit, hdigit⟩ := hdigits char mem_cons_self
    exact ⟨char, rest, rfl, (hexValue_plain hdigit).2.2⟩
  · have hhead := (plain_of_register text (mem_allRegisterNames hregister)).2
    cases text with
    | nil => simp at hhead
    | cons char rest =>
      refine ⟨char, rest, rfl, ?_⟩
      simpa using hhead
  · exact hunknown.first

theorem IsAtom.ne_nil : text ≠ [] := by
  obtain ⟨char, rest, rfl, -⟩ := hatom.first
  exact cons_ne_nil char rest

end

theorem isKnown_inttohex (value : UInt64) : IsKnown (inttohex value) :=
  Or.inl (by rw [val_inttohex]; rfl)

theorem lookUp_inttohex (hconstants : ∀ text value, val text = some value →
      getaddressfromname text = some value) (value : UInt64) :
    lookUp getaddressfromname (inttohex value) = some (inttohex value) := by
  have hhex := val_inttohex value
  obtain ⟨hne, hdigits⟩ := val_eq_some hhex
  obtain ⟨char, rest, heq⟩ := exists_cons_of_ne_nil hne
  obtain ⟨digit, hdigit⟩ := hdigits char (by simp [heq])
  obtain ⟨hplain, -, hnoStar, -⟩ := hexValue_plain hdigit
  unfold lookUp
  rw [heq]
  simp only [hplain, hnoStar, decide_false, Bool.or_false,
    Bool.false_eq_true, if_false]
  split
  · rfl
  · rw [← heq, hconstants _ _ hhex, Option.map_some]

theorem lookUp_atom (hconstants : ∀ text value, val text = some value →
      getaddressfromname text = some value)
    (hatom : IsAtom getaddressfromname text) :
    (Unknown getaddressfromname text ∧ lookUp getaddressfromname text = none) ∨
      ¬ Unknown getaddressfromname text ∧
        ∃ found, lookUp getaddressfromname text = some found ∧
          IsKnown found ∧ val found = val text ∧
          (val text = none → found = text) ∧
          lookUp getaddressfromname found = some found := by
  obtain ⟨char, rest, rfl, hstar, -⟩ := hatom.first
  have hseparator := (hatom.plain char mem_cons_self).1
  have hspecial (tail : Text) :
      lookUp getaddressfromname (char :: tail) =
        if fitsInteger (char :: tail) || (getreg (char :: tail)).isSome then
          some (char :: tail)
        else (getaddressfromname (char :: tail)).map inttohex := by
    unfold lookUp
    simp [hseparator, hstar]
  rcases hatom with (hvalue | hregister) | hunknown
  · right
    obtain ⟨value, hvalue⟩ := Option.isSome_iff_exists.mp hvalue
    refine ⟨fun hunknown => ?_, ?_⟩
    · have hnone := hunknown.noValue []
      rw [append_nil, hvalue] at hnone
      cases hnone
    · rw [hspecial]
      split
      · next hfits =>
          refine ⟨_, rfl, Or.inl (by rw [hvalue]; rfl), rfl, fun _ => rfl, ?_⟩
          rw [hspecial, if_pos hfits]
      · rw [hconstants _ _ hvalue, Option.map_some]
        refine ⟨_, rfl, isKnown_inttohex value, ?_, ?_, ?_⟩
        · rw [val_inttohex, hvalue]
        · intro hnone
          rw [hvalue] at hnone
          cases hnone
        · exact lookUp_inttohex hconstants value
  · right
    have hname := mem_allRegisterNames hregister
    refine ⟨fun hunknown => ?_, char :: rest, ?_, Or.inr hregister,
      rfl, fun _ => rfl, ?_⟩
    · have hnone := hunknown.noRegister []
      rw [append_nil] at hnone
      rw [hnone] at hregister
      cases hregister
    · rw [hspecial, hregister, Bool.or_true, if_pos rfl]
    · rw [hspecial, hregister, Bool.or_true, if_pos rfl]
  · left
    have hvalue := hunknown.noValue []
    have hregister := hunknown.noRegister []
    have hsymbol := hunknown.noSymbol []
    rw [append_nil] at hvalue hregister hsymbol
    refine ⟨hunknown, ?_⟩
    rw [hspecial, hregister, hsymbol]
    simp [fitsInteger, hvalue]

end

/-! ## Splitting -/

theorem splitFrom_word {word : Text}
    (hplain : ∀ char ∈ word, isSeparator char = false ∧ isQuote char = false)
    (temp rest : Text) :
    splitFrom none temp (word ++ rest) =
      splitFrom none (temp ++ word) rest := by
  induction word generalizing temp with
  | nil => simp
  | cons char word ih =>
    obtain ⟨hseparator, hquote⟩ := hplain char mem_cons_self
    rw [cons_append, splitFrom, quoteAfter, hquote, hseparator]
    simp only [Bool.false_eq_true, if_false, Option.isNone_none,
      Bool.and_false]
    rw [ih (fun other hother =>
      hplain other (mem_cons_of_mem char hother)),
      append_assoc, singleton_append]

theorem splitFrom_sign (minus : Bool) (temp rest : Text) :
    splitFrom none temp (sign minus :: rest) =
      flush temp ++ [sign minus] :: splitFrom none [] rest := by
  rw [splitFrom]
  cases minus <;> rfl

theorem flush_of_ne_nil {temp : Text} (hne : temp ≠ []) :
    flush temp = [temp] := by
  unfold flush
  rw [if_neg]
  simpa using hne

section

variable {getaddressfromname : Text → Option UInt64}

theorem splitFrom_terms {terms : Terms}
    (hatoms : ∀ term ∈ terms, IsAtom getaddressfromname term.2)
    {temp : Text} (hne : temp ≠ []) :
    splitFrom none temp terms.text = temp :: terms.tokens := by
  induction terms generalizing temp with
  | nil => exact flush_of_ne_nil hne
  | cons term rest ih =>
    have hatom := hatoms term mem_cons_self
    have htext : Terms.text (term :: rest) =
        sign term.1 :: (term.2 ++ Terms.text rest) := by
      simp [Terms.text]
    have htokens : Terms.tokens (term :: rest) =
        [sign term.1] :: term.2 :: Terms.tokens rest := by
      simp [Terms.tokens]
    rw [htext, splitFrom_sign, flush_of_ne_nil hne, htokens,
      splitFrom_word hatom.plain, nil_append,
      ih (fun other hother =>
        hatoms other (mem_cons_of_mem term hother)) hatom.ne_nil]
    rfl

variable {sum : Sum}

section

variable (hvalid : sum.Valid getaddressfromname)

include hvalid

theorem Sum.first_isAtom : IsAtom getaddressfromname sum.first :=
  hvalid sum.first mem_cons_self

theorem Sum.rest_isAtom :
    ∀ term ∈ sum.rest, IsAtom getaddressfromname term.2 := fun term hterm =>
  hvalid term.2 (mem_cons_of_mem _ (mem_map_of_mem hterm))

theorem splitFrom_sum : splitFrom none [] sum.text = sum.tokens := by
  have hfirst := Sum.first_isAtom hvalid
  have hrest : splitFrom none [] (sum.first ++ sum.rest.text) =
      sum.first :: sum.rest.tokens := by
    rw [splitFrom_word hfirst.plain, nil_append,
      splitFrom_terms (Sum.rest_isAtom hvalid) hfirst.ne_nil]
  unfold Sum.text Sum.tokens Sum.leadText
  cases sum.lead with
  | none => exact hrest
  | some minus =>
    rw [append_assoc, Option.elim_some, singleton_append,
      splitFrom_sign, hrest]
    rfl

end

theorem sign_ne_atom {minus : Bool} {text : Text}
    (hatom : IsAtom getaddressfromname text) : [sign minus] ≠ text := by
  intro heq
  have hplain := (hatom.plain (sign minus) (by simp [← heq])).1
  cases minus <;> simp [sign, isSeparator] at hplain

theorem sign_injective {minus minus' : Bool}
    (heq : sign minus = sign minus') : minus = minus' := by
  cases minus <;> cases minus' <;> first | rfl | simp [sign] at heq

theorem Terms.tokens_injective {terms terms' : Terms}
    (heq : terms.tokens = terms'.tokens) : terms = terms' := by
  induction terms generalizing terms' with
  | nil =>
    cases terms' with
    | nil => rfl
    | cons term rest => simp [Terms.tokens] at heq
  | cons term rest ih =>
    cases terms' with
    | nil => simp [Terms.tokens] at heq
    | cons term' rest' =>
      simp only [Terms.tokens, flatMap_cons, cons_append,
        nil_append, List.cons.injEq, and_true] at heq
      obtain ⟨hsign, htext, hrest⟩ := heq
      rw [ih hrest, Prod.ext (sign_injective hsign) htext]

theorem Sum.text_injective {sum' : Sum}
    (hvalid : sum.Valid getaddressfromname)
    (hvalid' : sum'.Valid getaddressfromname) (heq : sum.text = sum'.text) :
    sum = sum' := by
  have htokens : sum.tokens = sum'.tokens := by
    rw [← splitFrom_sum hvalid, ← splitFrom_sum hvalid', heq]
  have hfirst := Sum.first_isAtom hvalid
  have hfirst' := Sum.first_isAtom hvalid'
  obtain ⟨lead, first, rest⟩ := sum
  obtain ⟨lead', first', rest'⟩ := sum'
  cases lead with
  | none =>
    cases lead' with
    | none =>
      obtain ⟨hhead, htail⟩ := List.cons.inj htokens
      have hfirsts : first = first' := hhead
      have hrests : rest = rest' := Terms.tokens_injective htail
      rw [hfirsts, hrests]
    | some minus =>
      exact absurd (List.cons.inj htokens).1.symm (sign_ne_atom hfirst)
  | some minus =>
    cases lead' with
    | none =>
      exact absurd (List.cons.inj htokens).1 (sign_ne_atom hfirst')
    | some minus' =>
      obtain ⟨hlead, hothers⟩ := List.cons.inj htokens
      obtain ⟨hhead, htail⟩ := List.cons.inj hothers
      have hfirsts : first = first' := hhead
      have hrests : rest = rest' := Terms.tokens_injective htail
      rw [sign_injective (List.cons.inj hlead).1, hfirsts, hrests]

end

/-! ## Looking up -/

section

variable {getaddressfromname : Text → Option UInt64}

theorem concatenates_sign (minus : Bool) :
    concatenates [sign minus] = true := by
  cases minus <;> decide

variable {text : Text}

theorem concatenates_atom (hatom : IsAtom getaddressfromname text) :
    concatenates text = true := by
  obtain ⟨char, rest, rfl, -, hopen, hclose⟩ := hatom.first
  obtain ⟨hseparator, hquote⟩ := hatom.plain char mem_cons_self
  simp only [isSeparator, Bool.or_eq_false_iff,
    decide_eq_false_iff_not] at hseparator
  simp [concatenates, hquote, hopen, hclose, hseparator]

theorem lookUp_unknown (hunknown : Unknown getaddressfromname text)
    (rest : Text) : lookUp getaddressfromname (text ++ rest) = none := by
  obtain ⟨char, tail, rfl, hstar, -⟩ := hunknown.first
  have hseparator := (hunknown.plain char mem_cons_self).1
  unfold lookUp
  rw [cons_append]
  simp only [hseparator, hstar, decide_false, Bool.or_false,
    Bool.false_eq_true, if_false]
  rw [← cons_append, hunknown.noSymbol, hunknown.noRegister]
  unfold fitsInteger
  rw [hunknown.noValue]
  rfl

theorem resolveFrom_unknown (hunknown : Unknown getaddressfromname text)
    (rest : Text) {others : List Text}
    (hothers : ∀ other ∈ others, concatenates other = true) :
    resolveFrom getaddressfromname (text ++ rest) others =
      List.replicate others.length [] ++
        [text ++ rest ++ others.flatten] := by
  induction others generalizing rest with
  | nil =>
    unfold resolveFrom
    rw [lookUp_unknown hunknown]
    simp
  | cons other others ih =>
    unfold resolveFrom
    rw [lookUp_unknown hunknown]
    simp only [hothers other mem_cons_self, if_true]
    rw [append_assoc, ih _ (fun next hnext =>
      hothers next (mem_cons_of_mem other hnext))]
    simp [replicate_succ]

theorem concatenates_tokens {terms : Terms}
    (hatoms : ∀ term ∈ terms, IsAtom getaddressfromname term.2) :
    ∀ other ∈ terms.tokens, concatenates other = true := by
  intro other hother
  obtain ⟨term, hterm, hmem⟩ := mem_flatMap.mp hother
  rcases mem_pair.mp hmem with rfl | rfl
  · exact concatenates_sign term.1
  · exact concatenates_atom (hatoms term hterm)

theorem Terms.tokens_flatten (terms : Terms) :
    terms.tokens.flatten = terms.text := by
  induction terms with
  | nil => rfl
  | cons term rest ih =>
    simp only [Terms.tokens, Terms.text, flatMap_cons, flatten_append] at ih ⊢
    rw [ih]
    simp

/-- The parts that an unknown name leaves: nothing but the whole at the
end. -/
def merged (text : Text) (rest : Terms) : List Text :=
  List.replicate rest.tokens.length [] ++ [text ++ rest.text]

def resolvedTokens (getaddressfromname : Text → Option UInt64) :
    Terms → List Text
  | [] => []
  | (minus, text) :: rest =>
    match lookUp getaddressfromname text with
    | some found =>
      [sign minus] :: found :: resolvedTokens getaddressfromname rest
    | none => [sign minus] :: merged text rest

theorem resolveFrom_merged (hunknown : Unknown getaddressfromname text)
    {rest : Terms} (hatoms : ∀ term ∈ rest, IsAtom getaddressfromname term.2) :
    resolveFrom getaddressfromname text rest.tokens = merged text rest := by
  have hresolve := resolveFrom_unknown hunknown [] (concatenates_tokens hatoms)
  rw [append_nil] at hresolve
  rw [hresolve, Terms.tokens_flatten]
  rfl

theorem lookUp_sign (minus : Bool) :
    lookUp getaddressfromname [sign minus] = some [sign minus] := by
  cases minus <;> rfl

variable (hconstants : ∀ text value, val text = some value →
  getaddressfromname text = some value)

include hconstants

theorem resolveFrom_tokens {terms : Terms}
    (hatoms : ∀ term ∈ terms, IsAtom getaddressfromname term.2)
    {token found : Text}
    (htoken : lookUp getaddressfromname token = some found) :
    resolveFrom getaddressfromname token terms.tokens =
      found :: resolvedTokens getaddressfromname terms := by
  induction terms generalizing token found with
  | nil =>
    simp [Terms.tokens, resolveFrom, htoken, resolvedTokens]
  | cons term rest ih =>
    have htokens : Terms.tokens (term :: rest) =
        [sign term.1] :: term.2 :: Terms.tokens rest := by
      simp [Terms.tokens]
    have hrest : ∀ other ∈ rest, IsAtom getaddressfromname other.2 :=
      fun other hother => hatoms other (mem_cons_of_mem term hother)
    rw [htokens, resolveFrom, htoken]
    simp only [resolveFrom, lookUp_sign]
    obtain ⟨minus, text⟩ := term
    rcases lookUp_atom hconstants (hatoms _ mem_cons_self) with
      ⟨hunknown, hnone⟩ | ⟨-, found', hfound, -⟩
    · simp only [resolvedTokens, hnone]
      rw [resolveFrom_merged hunknown hrest]
    · simp only [resolvedTokens, hfound]
      rw [ih hrest hfound]

end

end AssemblerRewrite
end CheatEngine
