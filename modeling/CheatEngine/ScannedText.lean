import CheatEngine.HexText

/-!
# Reading text line by line

`fgets` takes a line as far as there is room for it, and the conversions of
`sscanf` take a number or a word from the front of a text.  A conversion that
does not match leaves its variable alone.
-/

namespace CheatEngine.ScannedText

open List HexText

/-- The characters that are stored, at most `room`, and the rest of the
file. -/
def fgets : ℕ → List Char → List Char × List Char
  | 0, text => ([], text)
  | _, [] => ([], [])
  | room + 1, char :: text =>
    if char = '\n' then
      ([char], text)
    else
      let (line, rest) := fgets room text
      (char :: line, rest)

theorem fgets_length_le (room : ℕ) (text : List Char) :
    (fgets room text).2.length ≤ text.length := by
  induction text generalizing room with
  | nil => cases room <;> exact le_rfl
  | cons char text ih =>
    cases room with
    | zero => exact le_rfl
    | succ room =>
      rw [fgets]
      split
      · exact Nat.le_succ _
      · exact (ih room).trans (Nat.le_succ _)

theorem fgets_line {body : List Char} (hbody : '\n' ∉ body) (room : ℕ)
    (more : List Char) :
    fgets room (body ++ '\n' :: more) =
      if body.length < room then
        (body ++ ['\n'], more)
      else
        (body.take room, body.drop room ++ '\n' :: more) := by
  induction body generalizing room with
  | nil => cases room <;> rfl
  | cons char body ih =>
    have hchar : ¬ char = '\n' := fun heq =>
      hbody (heq ▸ mem_cons_self)
    have hrest : '\n' ∉ body := fun hmem =>
      hbody (mem_cons_of_mem _ hmem)
    cases room with
    | zero => rfl
    | succ room =>
      rw [cons_append, fgets, if_neg hchar, ih hrest]
      by_cases hroom : body.length < room
      · simp [hroom]
      · simp [hroom]

def isSpace (char : Char) : Bool :=
  char == ' ' || (9 ≤ char.toNat && char.toNat ≤ 13)

def skipSpaces (text : List Char) : List Char :=
  text.dropWhile isSpace

def isHexDigit (char : Char) : Bool :=
  (hexValue char).isSome

def scanSign : List Char → Bool × List Char
  | '+' :: text => (false, text)
  | '-' :: text => (true, text)
  | text => (false, text)

def skipHexPrefix : List Char → List Char
  | '0' :: 'x' :: text => text
  | '0' :: 'X' :: text => text
  | text => text

def saturated (negative : Bool) (value : ℕ) : UInt64 :=
  if value < 2 ^ 64 then
    if negative then -UInt64.ofNat value else UInt64.ofNat value
  else
    UInt64.ofNat (2 ^ 64 - 1)

/-- `%llx`: the number and the text behind it.  As the standard has it, `0x`
without digits does not match; glibc reads 0 there. -/
def scanHex (text : List Char) : Option (UInt64 × List Char) :=
  let (negative, unsigned) := scanSign (skipSpaces text)
  let digits := skipHexPrefix unsigned
  (parseHex (digits.takeWhile isHexDigit)).map fun value =>
    (saturated negative value, digits.dropWhile isHexDigit)

def scanWord (text : List Char) : Option (List Char) :=
  match (skipSpaces text).takeWhile (fun char => !isSpace char) with
  | [] => none
  | word => some word

def lowerHex (value : UInt64) : List Char :=
  (intToHex value.toNat 8).map Char.toLower

theorem hexValue_toLower {char : Char}
    (hchar : char ∈ "0123456789ABCDEF".toList) :
    hexValue char.toLower = hexValue char ∧ isSpace char.toLower = false ∧
      char.toLower ≠ 'x' ∧ char.toLower ≠ 'X' ∧ char.toLower ≠ '+' ∧
      char.toLower ≠ '-' ∧ char.toLower ≠ '\n' ∧
      isHexDigit char.toLower = true := by
  have hall : "0123456789ABCDEF".toList.all fun char =>
      hexValue char.toLower = hexValue char ∧ isSpace char.toLower = false ∧
        char.toLower ≠ 'x' ∧ char.toLower ≠ 'X' ∧ char.toLower ≠ '+' ∧
        char.toLower ≠ '-' ∧ char.toLower ≠ '\n' ∧
        isHexDigit char.toLower = true := by
    decide
  exact of_decide_eq_true (all_eq_true.mp hall char hchar)

theorem lowerHex_mem {value : UInt64} {char : Char}
    (hchar : char ∈ lowerHex value) :
    isSpace char = false ∧ char ≠ 'x' ∧ char ≠ 'X' ∧ char ≠ '+' ∧
      char ≠ '-' ∧ char ≠ '\n' ∧ isHexDigit char = true := by
  obtain ⟨upper, hupper, rfl⟩ := mem_map.mp hchar
  exact (hexValue_toLower (intToHex_mem hupper)).2

theorem parseFrom_map_toLower {text : List Char}
    (htext : ∀ char ∈ text, char ∈ "0123456789ABCDEF".toList) (acc : ℕ) :
    parseFrom acc (text.map Char.toLower) = parseFrom acc text := by
  induction text generalizing acc with
  | nil => rfl
  | cons char text ih =>
    have hchar := (hexValue_toLower (htext char mem_cons_self)).1
    rw [map_cons, parseFrom, parseFrom, hchar]
    exact bind_congr fun digit =>
      ih (fun other hother => htext other (mem_cons_of_mem _ hother)) _

variable (value : UInt64)

theorem lowerHex_ne_nil : lowerHex value ≠ [] := by
  rw [lowerHex, ne_eq, map_eq_nil_iff]
  exact intToHex_ne_nil _ _

theorem parseHex_lowerHex : parseHex (lowerHex value) = some value.toNat := by
  rw [parseHex, if_neg (lowerHex_ne_nil value), lowerHex,
    parseFrom_map_toLower fun char hchar => intToHex_mem hchar]
  have hparse := parseHex_intToHex value.toNat 8
  rwa [parseHex, if_neg (intToHex_ne_nil _ _)] at hparse

theorem skipHexPrefix_eq_self {text : List Char}
    (htext : ∀ char ∈ text.tail.head?, char ≠ 'x' ∧ char ≠ 'X') :
    skipHexPrefix text = text := by
  rw [skipHexPrefix.eq_def]
  split
  · exact absurd rfl (htext 'x' rfl).1
  · exact absurd rfl (htext 'X' rfl).2
  · rfl

theorem scanHex_lowerHex {next : Char} (more : List Char)
    (hnext : isHexDigit next = false) (hx : next ≠ 'x') (hX : next ≠ 'X') :
    scanHex (lowerHex value ++ next :: more) = some (value, next :: more) := by
  have hmem : ∀ char ∈ lowerHex value, _ := fun char => lowerHex_mem
  have hparse := parseHex_lowerHex value
  have hvalue := value.toNat_lt
  generalize lowerHex value = digits at hmem hparse ⊢
  have hhex : ∀ char ∈ digits, isHexDigit char = true := fun char hchar =>
    (hmem char hchar).2.2.2.2.2.2
  cases digits with
  | nil => simp [parseHex] at hparse
  | cons first digits =>
    obtain ⟨hspace, -, -, hplus, hminus, -, -⟩ :=
      hmem first mem_cons_self
    have hskip : skipSpaces ((first :: digits) ++ next :: more) =
        (first :: digits) ++ next :: more := by
      rw [skipSpaces, cons_append, dropWhile_cons_of_neg]
      rw [hspace]
      exact Bool.false_ne_true
    have hsign : scanSign ((first :: digits) ++ next :: more) =
        (false, (first :: digits) ++ next :: more) := by
      rw [scanSign.eq_def]
      split
      · rename_i heq
        exact absurd (List.cons.inj heq).1 hplus
      · rename_i heq
        exact absurd (List.cons.inj heq).1 hminus
      · rfl
    have hpart : skipHexPrefix ((first :: digits) ++ next :: more) =
        (first :: digits) ++ next :: more := by
      apply skipHexPrefix_eq_self
      cases digits with
      | nil =>
        intro char hchar
        cases hchar
        exact ⟨hx, hX⟩
      | cons second digits =>
        intro char hchar
        cases hchar
        obtain ⟨-, hsecond, hSecond, -⟩ := hmem second (by simp)
        exact ⟨hsecond, hSecond⟩
    have hends : ¬ isHexDigit next = true := by
      rw [hnext]
      exact Bool.false_ne_true
    rw [scanHex, hskip, hsign]
    dsimp only
    rw [hpart, takeWhile_append_of_pos hhex,
      dropWhile_append_of_pos hhex, takeWhile_cons_of_neg hends,
      dropWhile_cons_of_neg hends, append_nil, hparse]
    rw [Option.map_some, saturated, if_pos hvalue, if_neg Bool.false_ne_true,
      UInt64.ofNat_toNat]

end CheatEngine.ScannedText
