import CheatEngine.PascalText
import Mathlib.Data.List.TakeWhile

/-!
# Patterns of bytes with wildcards

`ConvertStringToBytes` reads the text of a pattern as pieces of one or two
characters.  A piece becomes an integer: a byte, -1 for any byte, or a mask
and a value where one of two digits is a wildcard.  `ArrayOfByteExact` compares
memory with these integers.
-/

namespace CheatEngine.AobPattern

open List HexText PascalText

def isDelimiter (char : Char) : Bool :=
  char == ' ' || char == ',' || char == '-'

/-- `copy(helpstr, j, 2)` at every second character. -/
def pieces : List Char → List (List Char)
  | [] => []
  | [digit] => [[digit]]
  | high :: low :: rest => [high, low] :: pieces rest

def words (scanvalue : List Char) : List (List Char) :=
  ((trim scanvalue).splitOnP isDelimiter).filter (· ≠ [])

def aobPieces (scanvalue : List Char) : List (List Char) :=
  (words scanvalue).flatMap pieces

def wildcard : BitVec 32 := -1

/-- An entry of `bytes`.  The mask for the nibbles that are given is in bits
8 to 15 of a negative number. -/
def convertPiece (helpstr2 : List Char) : BitVec 32 :=
  match strToInt ('$' :: helpstr2) with
  | some value => value.toBitVec
  | none =>
    match helpstr2 with
    | [high, low] =>
      match strToInt ['$', high] with
      | some k => 0x80000000 ||| 0xf000 ||| k.toBitVec <<< 4
      | none =>
        match strToInt ['$', low] with
        | some k => 0x80000000 ||| 0x0f00 ||| k.toBitVec
        | none => wildcard
    | _ => wildcard

/-- `ConvertStringToBytes` of a hexadecimal text with nibble wildcards. -/
def convertStringToBytes (scanvalue : List Char) : List (BitVec 32) :=
  (aobPieces scanvalue).map convertPiece

def byteValue (byte : UInt8) : BitVec 32 :=
  BitVec.ofNat 32 byte.toNat

/-- One turn of the loop of `ArrayOfByteExact`. -/
def exactTurn (tofind : BitVec 32) (byte : UInt8) : Bool :=
  tofind = wildcard || byteValue byte = tofind

/-- One turn of the loop of `ArrayOfByteExact_NibbleWildcardSupport`. -/
def nibbleTurn (tofind : BitVec 32) (byte : UInt8) : Bool :=
  if tofind = wildcard then true
  else if tofind.slt 0#32 then
    byteValue byte &&& (tofind >>> 8 &&& 0xff) = tofind &&& 0xff
  else
    byteValue byte = tofind

def nibbleSupport (arraytofind : List (BitVec 32)) : Bool :=
  arraytofind.any fun tofind => tofind.slt 0#32 && tofind ≠ wildcard

/-- The routine that `configurescanroutine` chooses, on the bytes at an
address. -/
def arrayOfByteExact (arraytofind : List (BitVec 32))
    (newvalue : List UInt8) : Bool :=
  let turn :=
    if nibbleSupport arraytofind then nibbleTurn else exactTurn
  (arraytofind.zip newvalue).all fun pair => turn pair.1 pair.2

/-- A hexadecimal digit stands for itself, any other character for any
digit. -/
def digitAccepts (char : Char) (digit : ℕ) : Bool :=
  match hexValue char with
  | some value => digit = value
  | none => true

def pieceAccepts (piece : List Char) (byte : UInt8) : Bool :=
  match piece with
  | [high, low] =>
    digitAccepts high (byte.toNat / 16) &&
      digitAccepts low (byte.toNat % 16)
  | [digit] => digitAccepts digit byte.toNat
  | _ => true

def Matches (scanvalue : List Char) (value : List UInt8) : Prop :=
  ∀ pair ∈ (aobPieces scanvalue).zip value,
    pieceAccepts pair.1 pair.2 = true

theorem strToInt_hex (text : List Char) (hne : text ≠ []) :
    strToInt ('$' :: text) =
      (parseFrom 0 text).bind fun value =>
        if value < 2 ^ 32 then some (Int32.ofInt value) else none := by
  have hskip : skipBlanks ('$' :: text) = '$' :: text :=
    skipBlanks_cons (by decide) (by decide)
  have hsign : takeSign ('$' :: text) = (false, '$' :: text) := rfl
  have hbase : takeBase ('$' :: text) = (16, text) := rfl
  simp only [strToInt, hskip, hsign, hbase, if_neg hne, parseDigits_sixteen]
  apply Option.bind_congr
  intro value _
  simp [fitsLongint]

theorem strToInt_digit (char : Char) :
    strToInt ['$', char] =
      (hexValue char).map fun digit : ℕ => Int32.ofInt digit := by
  rw [strToInt_hex _ (cons_ne_nil _ _), parseFrom]
  cases hchar : hexValue char with
  | none => rfl
  | some digit =>
    have hlt := hexValue_lt hchar
    simp only [parseFrom, Option.bind_eq_bind, Option.bind_some,
      Option.map_some, Nat.zero_mul, Nat.zero_add]
    rw [if_pos (by omega)]

theorem strToInt_digits (high low : Char) :
    strToInt ['$', high, low] =
      (hexValue high).bind fun first : ℕ =>
        (hexValue low).map fun second : ℕ =>
          Int32.ofInt (first * 16 + second : ℕ) := by
  rw [strToInt_hex _ (cons_ne_nil _ _), parseFrom]
  cases hhigh : hexValue high with
  | none => rfl
  | some first =>
    simp only [parseFrom, Option.bind_eq_bind, Option.bind_some,
      Nat.zero_mul, Nat.zero_add]
    cases hlow : hexValue low with
    | none => rfl
    | some second =>
      have hfirst := hexValue_lt hhigh
      have hsecond := hexValue_lt hlow
      simp only [Option.bind_some, Option.map_some]
      rw [if_pos (by omega)]

theorem nibbleTurn_byte {value : ℕ} (hvalue : value < 256) (byte : UInt8) :
    nibbleTurn (Int32.ofInt value).toBitVec byte =
      decide (byte.toNat = value) := by
  have hentry : (Int32.ofInt value).toBitVec = BitVec.ofNat 32 value := by
    rw [Int32.toBitVec_ofInt, BitVec.ofInt_natCast]
  have hbyte := byte.toNat_lt
  have hother : BitVec.ofNat 32 value ≠ wildcard := by
    intro heq
    have hnat := congrArg BitVec.toNat heq
    rw [BitVec.toNat_ofNat, Nat.mod_eq_of_lt (by omega)] at hnat
    have hall : wildcard.toNat = 4294967295 := by decide
    omega
  have hsign : (BitVec.ofNat 32 value).slt 0#32 = false := by
    rw [BitVec.slt_zero_eq_msb, BitVec.msb_eq_decide, BitVec.toNat_ofNat,
      Nat.mod_eq_of_lt (by omega), decide_eq_false_iff_not]
    omega
  rw [nibbleTurn, hentry, if_neg hother, hsign]
  apply decide_eq_decide.mpr
  rw [byteValue, ← BitVec.toNat_inj, BitVec.toNat_ofNat, BitVec.toNat_ofNat,
    Nat.mod_eq_of_lt (by omega), Nat.mod_eq_of_lt (by omega)]

theorem nibbleTurn_high (high : Fin 16) (byte : UInt8) :
    nibbleTurn (0x80000000 ||| 0xf000 |||
        (Int32.ofInt (high.val : ℕ)).toBitVec <<< 4) byte =
      decide (byte.toNat / 16 = high.val) := by
  cases byte with
  | ofBitVec bits => revert bits high; decide +kernel

theorem nibbleTurn_low (low : Fin 16) (byte : UInt8) :
    nibbleTurn (0x80000000 ||| 0x0f00 |||
        (Int32.ofInt (low.val : ℕ)).toBitVec) byte =
      decide (byte.toNat % 16 = low.val) := by
  cases byte with
  | ofBitVec bits => revert bits low; decide +kernel

variable {piece : List Char}

theorem nibbleTurn_convertPiece
    (hpiece : piece.length = 1 ∨ piece.length = 2) (byte : UInt8) :
    nibbleTurn (convertPiece piece) byte = pieceAccepts piece byte := by
  have hbyte := byte.toNat_lt
  match piece, hpiece with
  | [digit], _ =>
    unfold convertPiece
    rw [strToInt_digit]
    cases hdigit : hexValue digit with
    | none =>
      simp only [Option.map_none, pieceAccepts, digitAccepts, hdigit]
      exact if_pos rfl
    | some value =>
      have hlt := hexValue_lt hdigit
      simp only [Option.map_some, pieceAccepts, digitAccepts, hdigit]
      exact nibbleTurn_byte (by omega) byte
  | [high, low], _ =>
    rw [convertPiece, strToInt_digits]
    cases hhigh : hexValue high with
    | none =>
      simp only [Option.bind_none, strToInt_digit, hhigh,
        Option.map_none, pieceAccepts, digitAccepts, Bool.true_and]
      cases hlow : hexValue low with
      | none => exact if_pos rfl
      | some second => exact nibbleTurn_low ⟨second, hexValue_lt hlow⟩ byte
    | some first =>
      have hfirst := hexValue_lt hhigh
      simp only [Option.bind_some, strToInt_digit, hhigh,
        Option.map_some, pieceAccepts, digitAccepts]
      cases hlow : hexValue low with
      | none =>
        simp only [Option.map_none, Bool.and_true]
        exact nibbleTurn_high ⟨first, hfirst⟩ byte
      | some second =>
        have hsecond := hexValue_lt hlow
        simp only [Option.map_some]
        rw [nibbleTurn_byte (by omega), ← Bool.decide_and]
        apply decide_eq_decide.mpr
        omega

theorem length_mem_pieces {word : List Char} (hpiece : piece ∈ pieces word) :
    piece.length = 1 ∨ piece.length = 2 := by
  induction word using pieces.induct with
  | case1 => cases hpiece
  | case2 digit =>
    rw [pieces, mem_singleton] at hpiece
    exact .inl (congrArg List.length hpiece)
  | case3 high low rest ih =>
    rw [pieces] at hpiece
    rcases mem_cons.mp hpiece with rfl | hrest
    · exact .inr rfl
    · exact ih hrest

theorem length_mem_aobPieces {scanvalue : List Char}
    (hpiece : piece ∈ aobPieces scanvalue) :
    piece.length = 1 ∨ piece.length = 2 := by
  obtain ⟨word, -, hword⟩ := mem_flatMap.mp hpiece
  exact length_mem_pieces hword

theorem exactTurn_eq {arraytofind : List (BitVec 32)}
    (hsupport : nibbleSupport arraytofind = false) {tofind : BitVec 32}
    (htofind : tofind ∈ arraytofind) (byte : UInt8) :
    exactTurn tofind byte = nibbleTurn tofind byte := by
  rw [nibbleSupport, any_eq_false] at hsupport
  have hentry := hsupport tofind htofind
  unfold exactTurn nibbleTurn
  by_cases hwildcard : tofind = wildcard
  · rw [if_pos hwildcard, decide_eq_true hwildcard, Bool.true_or]
  · have hsign : tofind.slt 0#32 = false := by
      simpa [hwildcard] using hentry
    rw [if_neg hwildcard, decide_eq_false hwildcard, Bool.false_or, hsign]
    rfl

theorem arrayOfByteExact_iff (scanvalue : List Char) (value : List UInt8) :
    arrayOfByteExact (convertStringToBytes scanvalue) value = true ↔
      Matches scanvalue value := by
  have hturn : ∀ tofind ∈ convertStringToBytes scanvalue, ∀ byte,
      (if nibbleSupport (convertStringToBytes scanvalue) then nibbleTurn
        else exactTurn) tofind byte = nibbleTurn tofind byte := by
    intro tofind htofind byte
    split
    · rfl
    · rename_i hsupport
      exact exactTurn_eq (eq_false_of_ne_true hsupport) htofind byte
  simp only [arrayOfByteExact, all_eq_true]
  unfold Matches
  conv_lhs =>
    rw [convertStringToBytes, zip_map_left, forall_mem_map]
  apply forall₂_congr
  intro pair hpair
  have hpiece := (of_mem_zip hpair).1
  have hmem : convertPiece pair.1 ∈ convertStringToBytes scanvalue :=
    mem_map_of_mem hpiece
  rw [← nibbleTurn_convertPiece (length_mem_aobPieces hpiece), ← hturn _ hmem]
  rfl

/-- The high and the low digit that a piece asks for, if it does.  A single
digit is the low one after a 0. -/
def placeDigits : List Char → Option ℕ × Option ℕ
  | [high, low] => (hexValue high, hexValue low)
  | [digit] => ((hexValue digit).map fun _ => 0, hexValue digit)
  | _ => (none, none)

def NibbleFits (digit : Option ℕ) (nibble : ℕ) : Prop :=
  ∀ value ∈ digit, nibble = value

theorem digitAccepts_iff (char : Char) (digit : ℕ) :
    digitAccepts char digit = true ↔ NibbleFits (hexValue char) digit := by
  unfold digitAccepts NibbleFits
  cases hexValue char <;> simp

theorem pieceAccepts_iff (hpiece : piece.length = 1 ∨ piece.length = 2)
    (byte : UInt8) :
    pieceAccepts piece byte = true ↔
      NibbleFits (placeDigits piece).1 (byte.toNat / 16) ∧
        NibbleFits (placeDigits piece).2 (byte.toNat % 16) := by
  match piece, hpiece with
  | [digit], _ =>
    rw [pieceAccepts, digitAccepts_iff, placeDigits]
    unfold NibbleFits
    cases hdigit : hexValue digit with
    | none => simp
    | some value =>
      have hvalue := hexValue_lt hdigit
      simp only [Option.map_some, Option.mem_some_iff, forall_eq']
      omega
  | [high, low], _ =>
    rw [pieceAccepts, Bool.and_eq_true, digitAccepts_iff,
      digitAccepts_iff, placeDigits]

/-- The routine for a pattern accepts a block if and only if every nibble is
the digit of the pattern at its place or has a wildcard there. -/
theorem arrayOfByteExact_iff_nibbles (scanvalue : List Char)
    (block : List UInt8) :
    arrayOfByteExact (convertStringToBytes scanvalue) block = true ↔
      ∀ (i : ℕ) (piece : List Char) (byte : UInt8),
        (aobPieces scanvalue)[i]? = some piece → block[i]? = some byte →
          NibbleFits (placeDigits piece).1 (byte.toNat / 16) ∧
            NibbleFits (placeDigits piece).2 (byte.toNat % 16) := by
  rw [arrayOfByteExact_iff, Matches, forall_mem_iff_getElem]
  constructor
  · intro hall i piece byte hpiece hbyte
    have hzip : ((aobPieces scanvalue).zip block)[i]? = some (piece, byte) :=
      getElem?_zip_eq_some.mpr ⟨hpiece, hbyte⟩
    obtain ⟨hlt, hget⟩ := List.getElem?_eq_some_iff.mp hzip
    have haccepts := hall i hlt
    rw [hget] at haccepts
    exact (pieceAccepts_iff
      (length_mem_aobPieces (mem_of_getElem? hpiece)) byte).mp haccepts
  · intro hall i hlt
    obtain ⟨hpiece, hbyte⟩ := getElem?_zip_eq_some.mp
      (getElem?_eq_getElem hlt)
    exact (pieceAccepts_iff
      (length_mem_aobPieces (mem_of_getElem? hpiece)) _).mpr
        (hall i _ _ hpiece hbyte)

def markText (length : ℕ) : List Char :=
  '0' :: '1' :: List.replicate (2 * (length - 1)) '*'

theorem pieces_stars (count : ℕ) :
    pieces (List.replicate (2 * count) '*') =
      List.replicate count ['*', '*'] := by
  induction count with
  | zero => rfl
  | succ count ih =>
    rw [Nat.mul_succ, replicate_succ, replicate_succ, pieces,
      ih, replicate_succ]

theorem aobPieces_markText (length : ℕ) :
    aobPieces (markText length) =
      ['0', '1'] :: List.replicate (length - 1) ['*', '*'] := by
  have hvisible : ∀ char ∈ markText length,
      ¬ char.toNat ≤ 32 ∧ isDelimiter char = false := by
    intro char hchar
    rcases mem_cons.mp hchar with rfl | hchar
    · decide
    rcases mem_cons.mp hchar with rfl | hchar
    · decide
    rw [eq_of_mem_replicate hchar]
    decide
  have htrim : trim (markText length) = markText length := by
    have hfront : (markText length).dropWhile
        (fun char => decide (char.toNat ≤ 32)) = markText length := rfl
    have hback : (markText length).reverse.dropWhile
        (fun char => decide (char.toNat ≤ 32)) =
          (markText length).reverse := by
      rw [dropWhile_eq_self_iff]
      intro hpos hfirst
      have hmem := getElem_mem hpos
      exact (hvisible _ (mem_reverse.mp hmem)).1
        (of_decide_eq_true hfirst)
    rw [trim, hfront, hback, reverse_reverse]
  rw [aobPieces, words, htrim,
    splitOnP_eq_singleton fun char hchar => (hvisible char hchar).2,
    filter_cons_of_pos (by simp [markText]), filter_nil,
    flatMap_singleton, markText, pieces, pieces_stars]

theorem length_convertStringToBytes_markText {length : ℕ} (hpos : 0 < length) :
    (convertStringToBytes (markText length)).length = length := by
  rw [convertStringToBytes, length_map, aobPieces_markText,
    length_cons, length_replicate]
  omega

theorem matches_markText (length : ℕ) (first : UInt8) (rest : List UInt8) :
    Matches (markText length) (first :: rest) ↔ first = 1 := by
  rw [Matches, aobPieces_markText, zip_cons_cons, forall_mem_cons]
  constructor
  · rintro ⟨hfirst, -⟩
    cases first with
    | ofBitVec bits => revert bits; decide +kernel
  · rintro rfl
    refine ⟨by decide, fun pair hpair => ?_⟩
    rw [eq_of_mem_replicate (of_mem_zip hpair).1]
    rfl

end CheatEngine.AobPattern
