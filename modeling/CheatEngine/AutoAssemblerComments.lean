import CheatEngine.AutoAssembler
import CheatEngine.PascalText

/-!
# Comments of the auto assembler

The comments of a script are removed line by line, with flags for a string and
for a comment that go on from one line to the next.
-/

namespace CheatEngine.AutoAssembler

open PascalText

def quote : Char :=
  Char.ofNat 39

structure CommentState where
  instring : Bool
  incomment : Bool
  bracecomment : Bool
deriving DecidableEq, Repr

def keep {α : Type} (char : Char) (rest : Text × α) : Text × α :=
  (char :: rest.1, rest.2)

section

variable (architecture : SystemArchitecture)

def isBrace (brace char : Char) : Bool :=
  char = brace && architecture ≠ .archArm

/-- A line from some character on; the first character may have been
overwritten with a blank, since the end of a comment clears the slash behind
it. -/
@[grind =]
def removeFrom (state : CommentState) (overwritten : Bool) :
    Text → Text × CommentState
  | [] => ([], state)
  | written :: rest =>
    let char := if overwritten then ' ' else written
    if state.incomment then
      if state.bracecomment && isBrace architecture '}' char then
        keep ' ' (removeFrom { state with incomment := false } false rest)
      else if !state.bracecomment && char = '*' &&
          rest.head? = some '/' then
        keep ' ' (removeFrom { state with incomment := false } true rest)
      else
        keep ' ' (removeFrom state false rest)
    else
      let instring := if char = quote then !state.instring
        else state.instring
      let char := if char = '\t' then ' ' else char
      if instring then
        keep char (removeFrom { state with instring } false rest)
      else if char = '/' && rest.head? = some '/' then
        ([], { state with instring })
      else if isBrace architecture '{' char ||
          (char = '/' && rest.head? = some '*') then
        keep ' ' (removeFrom
          { instring, incomment := true, bracecomment := char = '{' }
          false rest)
      else
        keep char (removeFrom { state with instring } false rest)

def removeLines (state : CommentState) : List Text → List Text
  | [] => []
  | line :: rest =>
    let removed := removeFrom architecture state false line
    trim removed.1 :: removeLines removed.2 rest

def removecomments (code : List Text) : List Text :=
  removeLines architecture ⟨false, false, false⟩ code

end

inductive LexState
  | code
  | text
  | brace
  | star
deriving DecidableEq, Repr

/-- What comes after a character of the code that opens no two-character
comment. -/
def codeNext (char : Char) : LexState :=
  if char = '{' then .brace else if char = quote then .text else .code

def codeChar (char : Char) : Char :=
  if char = '{' ∨ char = '\t' then ' ' else char

def lexLine : LexState → Text → Text × LexState
  | state, [] => ([], state)
  | .code, '/' :: '/' :: _ => ([], .code)
  | .code, '/' :: '*' :: rest => keep ' ' (keep ' ' (lexLine .star rest))
  | .code, char :: rest => keep (codeChar char) (lexLine (codeNext char) rest)
  | .text, char :: rest =>
    keep char (lexLine (if char = quote then .code else .text) rest)
  | .brace, char :: rest =>
    keep ' ' (lexLine (if char = '}' then .code else .brace) rest)
  | .star, '*' :: '/' :: rest => keep ' ' (keep ' ' (lexLine .code rest))
  | .star, _ :: rest => keep ' ' (lexLine .star rest)

def LexState.nextLine : LexState → LexState
  | .text => .code
  | state => state

def lexLines (state : LexState) : List Text → List Text
  | [] => []
  | line :: rest =>
    let lexed := lexLine state line
    trim lexed.1 :: lexLines lexed.2.nextLine rest

def withoutComments (code : List Text) : List Text :=
  lexLines .code code

/-- No comment begins with a slash behind its opener, and no string has a
tab. -/
def PlainLine : LexState → Text → Prop
  | _, [] => True
  | .code, '/' :: '/' :: _ => True
  | .code, '/' :: '*' :: rest =>
    rest.head? ≠ some '/' ∧ PlainLine .star rest
  | .code, char :: rest => PlainLine (codeNext char) rest
  | .text, char :: rest =>
    char ≠ '\t' ∧ PlainLine (if char = quote then .code else .text) rest
  | .brace, char :: rest =>
    PlainLine (if char = '}' then .code else .brace) rest
  | .star, '*' :: '/' :: rest => PlainLine .code rest
  | .star, _ :: rest => PlainLine .star rest

/-- Besides, no string is open at the end of a line with lines behind it. -/
def PlainLines (state : LexState) : List Text → Prop
  | [] => True
  | line :: rest =>
    PlainLine state line ∧
      ((lexLine state line).2 = .text → rest = []) ∧
        PlainLines (lexLine state line).2.nextLine rest

def Plain (code : List Text) : Prop :=
  PlainLines .code code

/-! ## The flags -/

def Flags : LexState → CommentState → Prop
  | .code, state => state.instring = false ∧ state.incomment = false
  | .text, state => state.instring = true ∧ state.incomment = false
  | .brace, state => state.instring = false ∧ state.incomment = true ∧
      state.bracecomment = true
  | .star, state => state.instring = false ∧ state.incomment = true ∧
      state.bracecomment = false

/-- The line becomes the same text, and the flags stay those of the state. -/
def Follows (removed : Text × CommentState) (lexed : Text × LexState) :
    Prop :=
  removed.1 = lexed.1 ∧ Flags lexed.2 removed.2

theorem Follows.keep {removed : Text × CommentState}
    {lexed : Text × LexState} (hfollows : Follows removed lexed)
    (char : Char) : Follows (keep char removed) (keep char lexed) :=
  ⟨congrArg _ hfollows.1, hfollows.2⟩

section

variable (bracecomment : Bool) (rest : Text)

theorem removeFrom_text {char : Char} (htab : char ≠ '\t') :
    removeFrom .archX86 ⟨true, false, bracecomment⟩ false (char :: rest) =
      keep char (removeFrom .archX86 ⟨char ≠ quote, false, bracecomment⟩
        false rest) := by
  by_cases hquote : char = quote
  · subst hquote
    have hslash : quote ≠ '/' := by decide
    have hopener : quote ≠ '{' := by decide
    simp [removeFrom, htab, isBrace, hslash, hopener]
  · simp [removeFrom, htab, hquote]

theorem removeFrom_brace (char : Char) :
    removeFrom .archX86 ⟨false, true, true⟩ false (char :: rest) =
      keep ' ' (removeFrom .archX86 ⟨false, char ≠ '}', true⟩ false
        rest) := by
  by_cases hend : char = '}'
  · simp [removeFrom, isBrace, hend]
  · simp [removeFrom, isBrace, hend]

theorem removeFrom_star {char : Char}
    (hend : ¬ (char = '*' ∧ rest.head? = some '/')) :
    removeFrom .archX86 ⟨false, true, false⟩ false (char :: rest) =
      keep ' ' (removeFrom .archX86 ⟨false, true, false⟩ false rest) := by
  have hclosed : (decide (char = '*') && decide (rest.head? = some '/')) =
      false := by
    simpa using hend
  simp [removeFrom, hclosed]

theorem removeFrom_starEnd :
    removeFrom .archX86 ⟨false, true, false⟩ false ('*' :: '/' :: rest) =
      keep ' ' (keep ' '
        (removeFrom .archX86 ⟨false, false, false⟩ false rest)) := by
  have hquote : ' ' ≠ quote := by decide
  simp [removeFrom, isBrace, hquote]

theorem removeFrom_slashes :
    removeFrom .archX86 ⟨false, false, bracecomment⟩ false
        ('/' :: '/' :: rest) =
      ([], ⟨false, false, bracecomment⟩) := by
  have hquote : '/' ≠ quote := by decide
  simp [removeFrom, hquote]

theorem removeFrom_starOpener (hrest : rest.head? ≠ some '/') :
    removeFrom .archX86 ⟨false, false, bracecomment⟩ false
        ('/' :: '*' :: rest) =
      keep ' ' (keep ' '
        (removeFrom .archX86 ⟨false, true, false⟩ false rest)) := by
  have hquote : '/' ≠ quote := by decide
  simp [removeFrom, hquote, isBrace, hrest]

end

def codeFlags (bracecomment : Bool) (char : Char) : CommentState where
  instring := char = quote
  incomment := char = '{'
  bracecomment := bracecomment || char = '{'

theorem flags_codeNext (bracecomment : Bool) (char : Char) :
    Flags (codeNext char) (codeFlags bracecomment char) := by
  by_cases hbrace : char = '{'
  · subst hbrace
    have hquote : '{' ≠ quote := by decide
    simp [Flags, codeNext, codeFlags, hquote]
  · by_cases hquote : char = quote
    · subst hquote
      simp [Flags, codeNext, codeFlags, hbrace]
    · simp [Flags, codeNext, codeFlags, hbrace, hquote]

theorem removeFrom_code (bracecomment : Bool) {char : Char} {rest : Text}
    (hslash : ¬ (char = '/' ∧ rest.head? = some '/'))
    (hstar : ¬ (char = '/' ∧ rest.head? = some '*')) :
    removeFrom .archX86 ⟨false, false, bracecomment⟩ false (char :: rest) =
      keep (codeChar char) (removeFrom .archX86
        (codeFlags bracecomment char) false rest) := by
  by_cases hbrace : char = '{'
  · subst hbrace
    have hquote : '{' ≠ quote := by decide
    simp [removeFrom, hquote, isBrace, codeChar, codeFlags]
  · by_cases hquote : char = quote
    · subst hquote
      have htab : quote ≠ '\t' := by decide
      simp [removeFrom, codeChar, codeFlags, hbrace, htab]
    · by_cases htab : char = '\t'
      · subst htab
        simp [removeFrom, codeChar, codeFlags, hquote, isBrace]
      · have hkept : removeFrom .archX86 ⟨false, false, bracecomment⟩ false
            (char :: rest) =
            if char = '/' ∧ rest.head? = some '/' then
              ([], ⟨false, false, bracecomment⟩)
            else if char = '/' ∧ rest.head? = some '*' then
              keep ' ' (removeFrom .archX86 ⟨false, true, false⟩ false rest)
            else
              keep char (removeFrom .archX86 ⟨false, false, bracecomment⟩
                false rest) := by
          simp [removeFrom, hquote, isBrace, hbrace, htab]
        rw [hkept, if_neg hslash, if_neg hstar]
        simp [codeChar, codeFlags, hquote, hbrace, htab]

theorem not_head {char first second : Char} {rest : Text}
    (hpair : ∀ tail, char = first → rest = second :: tail → False) :
    ¬ (char = first ∧ rest.head? = some second) := by
  rintro ⟨hchar, hhead⟩
  obtain ⟨tail, htail⟩ := List.head?_eq_some_iff.mp hhead
  exact hpair tail hchar htail

variable {lex : LexState} {state : CommentState}

theorem removeFrom_follows {line : Text} (hflags : Flags lex state)
    (hplain : PlainLine lex line) :
    Follows (removeFrom .archX86 state false line) (lexLine lex line) := by
  rcases state with ⟨instring, incomment, bracecomment⟩
  fun_induction lexLine lex line generalizing instring incomment bracecomment
    with
  | case1 lex => exact ⟨rfl, hflags⟩
  | case2 rest =>
    obtain ⟨rfl, rfl⟩ : instring = false ∧ incomment = false := hflags
    rw [removeFrom_slashes]
    exact ⟨rfl, rfl, rfl⟩
  | case3 rest ih =>
    obtain ⟨rfl, rfl⟩ : instring = false ∧ incomment = false := hflags
    rw [PlainLine] at hplain
    rw [removeFrom_starOpener _ _ hplain.1]
    exact ((ih hplain.2 false true false ⟨rfl, rfl, rfl⟩).keep ' ').keep ' '
  | case4 char rest hslash hstar ih =>
    obtain ⟨rfl, rfl⟩ : instring = false ∧ incomment = false := hflags
    rw [PlainLine] at hplain
    · rw [removeFrom_code bracecomment (not_head hslash) (not_head hstar)]
      exact (ih hplain _ _ _ (flags_codeNext bracecomment char)).keep _
    · exact hslash
    · exact hstar
  | case5 char rest ih =>
    obtain ⟨rfl, rfl⟩ : instring = true ∧ incomment = false := hflags
    rw [PlainLine] at hplain
    rw [removeFrom_text _ _ hplain.1]
    refine (ih hplain.2 _ _ _ ?_).keep char
    by_cases hquote : char = quote
    · simp [hquote, Flags]
    · simp [hquote, Flags]
  | case6 char rest ih =>
    obtain ⟨rfl, rfl, rfl⟩ : instring = false ∧ incomment = true ∧
      bracecomment = true := hflags
    rw [PlainLine] at hplain
    rw [removeFrom_brace]
    refine (ih hplain _ _ _ ?_).keep ' '
    by_cases hend : char = '}'
    · simp [hend, Flags]
    · simp [hend, Flags]
  | case7 rest ih =>
    obtain ⟨rfl, rfl, rfl⟩ : instring = false ∧ incomment = true ∧
      bracecomment = false := hflags
    rw [PlainLine] at hplain
    rw [removeFrom_starEnd]
    exact ((ih hplain false false false ⟨rfl, rfl⟩).keep ' ').keep ' '
  | case8 char rest hend ih =>
    obtain ⟨rfl, rfl, rfl⟩ : instring = false ∧ incomment = true ∧
      bracecomment = false := hflags
    rw [PlainLine] at hplain
    · rw [removeFrom_star _ (not_head hend)]
      exact (ih hplain false true false ⟨rfl, rfl, rfl⟩).keep ' '
    · exact hend

theorem flags_nextLine (hflags : Flags lex state) (htext : lex ≠ .text) :
    Flags lex.nextLine state := by
  cases lex with
  | code => exact hflags
  | text => exact absurd rfl htext
  | brace => exact hflags
  | star => exact hflags

theorem removeLines_eq {lines : List Text} (hflags : Flags lex state)
    (hplain : PlainLines lex lines) :
    removeLines .archX86 state lines = lexLines lex lines := by
  induction lines generalizing lex state with
  | nil => rfl
  | cons line rest ih =>
    obtain ⟨hline, hopen, hrest⟩ := hplain
    have hfollows := removeFrom_follows hflags hline
    rw [removeLines, lexLines, hfollows.1]
    by_cases htext : (lexLine lex line).2 = .text
    · rw [hopen htext]
      rfl
    · rw [ih (flags_nextLine hfollows.2 htext) hrest]

/-- On plain scripts the comments are removed as one pass from left to right
removes them. -/
theorem removecomments_eq {code : List Text} (hplain : Plain code) :
    removecomments .archX86 code = withoutComments code :=
  removeLines_eq ⟨rfl, rfl⟩ hplain

theorem removecomments_ne :
    removecomments .archX86 ["/*/ nop */".toList] = ["nop */".toList] ∧
      withoutComments ["/*/ nop */".toList] = [[]] := by
  decide

theorem removecomments_eq_nop :
    removecomments .archX86 ["nop /*x*/ //y".toList] =
      withoutComments ["nop /*x*/ //y".toList] :=
  removecomments_eq ⟨by simp [PlainLine, codeNext, quote], fun _ => rfl,
    trivial⟩

end CheatEngine.AutoAssembler
