import CheatEngine.SymhandlerAddress
import CheatEngine.PointerscanRecord

/-!
# The two evaluators of pointer expressions

`ParseAsPointer` cuts a pointer expression at its brackets.
`GetAddressFromPointer` stores what stands behind a closing bracket as an
offset of 32 bits.  It is compared with `getAddressFromName`, which computes
with the pointer and the same text.
-/

namespace CheatEngine.Symhandler

open AssemblerRewrite (Text val inttohex)
open List ByteStream PascalText

structure Parsing where
  currentlevel : ℤ
  prolog : Bool
  temps : Text
  ispointer : Bool
  list : List Text

def levelText (temps : Text) : Text :=
  if temps = [] then ['+', '0'] else temps

/-- A character that is no open bracket and stands behind the prolog. -/
def Parsing.define (state : Parsing) (char : Char) : Option Parsing :=
  if char = ']' then
    if state.currentlevel - 1 < 0 then none
    else some
      { state with
        currentlevel := state.currentlevel - 1
        prolog := false
        temps := []
        list := state.list ++ [levelText state.temps] }
  else some { state with prolog := false, temps := state.temps ++ [char] }

def Parsing.step (state : Parsing) (char : Char) : Option Parsing :=
  if char = '[' then
    if state.prolog then some
      { state with currentlevel := state.currentlevel + 1, ispointer := true }
    else none
  else if state.prolog && (char = Char.ofNat 8 || char = ' ') then some state
  else state.define char

def Parsing.finish (state : Parsing) : Option (List Text) :=
  if 0 < state.currentlevel then none
  else if state.ispointer then some (state.list ++ [levelText state.temps])
  else none

def ParseAsPointer (s : Text) : Option (List Text) :=
  (s.foldlM Parsing.step ⟨0, true, [], false, []⟩).bind Parsing.finish

def storedOffset (part : Text) : Option (BitVec 32) :=
  (StrToQWordEx part.tail).map fun value =>
    if part.head? = some '-' then -value.toBitVec.setWidth 32
    else value.toBitVec.setWidth 32

def addOffset (realaddress : UInt64) (offset : BitVec 32) : UInt64 :=
  realaddress + UInt64.ofBitVec (offset.signExtend 64)

def readPointer (moment : Moment) (is64Bit : Bool) (address : UInt64) :
    Option UInt64 :=
  match moment.readprocessmemory address (pointersize is64Bit) with
  | (true, bytes) =>
    if bytes.length = pointersize is64Bit then
      some (UInt64.ofNat (leValue bytes))
    else none
  | (false, _) => none

def followOffsets (is64Bit : Bool) :
    (ℕ → Moment) → UInt64 → List (BitVec 32) → Option UInt64
  | _, realaddress, [] => some realaddress
  | moments, realaddress, offset :: rest =>
    (readPointer (moments 0) is64Bit realaddress).bind fun pointer =>
      followOffsets is64Bit (fun time => moments (time + 1))
        (addOffset pointer offset) rest

def GetAddressFromPointer (is64Bit : Bool) (moments : ℕ → Moment)
    (s : Text) : Option UInt64 :=
  match ParseAsPointer s with
  | none => none
  | some [] => none
  | some (base :: parts) =>
    (getAddressFromName (moments 0) is64Bit base).bind fun baseaddress =>
      (parts.mapM storedOffset).bind fun offsets =>
        followOffsets is64Bit (fun time => moments (time + 1))
          baseaddress offsets

def followTexts (is64Bit : Bool) :
    (ℕ → Moment) → UInt64 → List Text → Option UInt64
  | _, address, [] => some address
  | moments, address, part :: rest =>
    (readPointer (moments 0) is64Bit address).bind fun pointer =>
      (getAddressFromName (moments 0) is64Bit
          (inttohex pointer ++ part)).bind fun next =>
        followTexts is64Bit (fun time => moments (time + 1)) next rest

def getAddressByLevels (is64Bit : Bool) (moments : ℕ → Moment)
    (s : Text) : Option UInt64 :=
  match ParseAsPointer s with
  | none => none
  | some [] => none
  | some (base :: parts) =>
    (getAddressFromName (moments 0) is64Bit base).bind fun baseaddress =>
      followTexts is64Bit (fun time => moments (time + 1)) baseaddress parts

def BothSucceed (is64Bit : Bool) (moments : ℕ → Moment) (s : Text)
    (first second : UInt64) : Prop :=
  GetAddressFromPointer is64Bit moments s = some first ∧
    getAddressByLevels is64Bit moments s = some second

/-- Whatever the symbol tables and the target answer, the evaluators return
the same address when they succeed. -/
def Agree (is64Bit : Bool) (s : Text) : Prop :=
  ∀ moments first second, BothSucceed is64Bit moments s first second →
    first = second

def signedOffset (part : Text) : Option UInt64 :=
  (StrToQWordEx part.tail).map fun value =>
    if part.head? = some '-' then -value else value

def OffsetFits (part : Text) : Prop :=
  (part.head? = some '+' ∨ part.head? = some '-') ∧
    (signedOffset part).all fun offset =>
      -2 ^ 31 ≤ offset.toBitVec.toInt ∧ offset.toBitVec.toInt < 2 ^ 31

instance (part : Text) : Decidable (OffsetFits part) :=
  inferInstanceAs (Decidable (_ ∧ _))

def OffsetsFit (s : Text) : Prop :=
  ∀ parts, ParseAsPointer s = some parts →
    ∀ part ∈ parts.tail, OffsetFits part

/-! ## A pointer before a text -/

variable {parts : List Text} (pointer : UInt64) (is64Bit : Bool)

theorem inttohex_two :
    ∃ first second rest, inttohex pointer = first :: second :: rest ∧
      first ∈ "0123456789ABCDEF".toList ∧
      second ∈ "0123456789ABCDEF".toList := by
  have hlength : 2 ≤ (inttohex pointer).length := by
    rw [inttohex, HexText.intToHex, HexText.hexDigits_length,
      HexText.digitCount]
    omega
  have hmem (char : Char) (hchar : char ∈ inttohex pointer) :
      char ∈ "0123456789ABCDEF".toList :=
    HexText.intToHex_mem hchar
  rcases htext : inttohex pointer with _ | ⟨first, _ | ⟨second, rest⟩⟩
  · simp [htext] at hlength
  · simp [htext] at hlength
  · exact ⟨first, second, rest, rfl, hmem first (by simp [htext]),
      hmem second (by simp [htext])⟩

theorem literal_inttohex (rest : Text) :
    literal (inttohex pointer ++ rest) = val (inttohex pointer ++ rest) := by
  obtain ⟨first, second, tail, htext, hfirst, hsecond⟩ :=
    inttohex_two pointer
  have hdollar : "0123456789ABCDEF".toList.all (· ≠ '$') = true := by decide
  have hx : "0123456789ABCDEF".toList.all (·.toLower ≠ 'x') = true := by
    decide
  simp only [all_eq_true, decide_eq_true_eq] at hdollar hx
  have hnot : lowerCase ((first :: second :: (tail ++ rest)).take 2) ≠
      ['0', 'x'] := by
    simp [lowerCase, hx second hsecond]
  rw [htext, cons_append, cons_append, literal,
    if_neg (by simp [hdollar first hfirst])]
  cases hvalue : val (first :: second :: (tail ++ rest)) with
  | none => rw [if_neg (by simp), if_neg (fun hboth => hnot hboth.1)]
  | some value => rw [if_pos (by simp)]

theorem trim_inttohex {rest : Text} (hrest : trimRight rest ≠ []) :
    trim (inttohex pointer ++ rest) =
      inttohex pointer ++ trimRight rest := by
  have hvalue := AssemblerRewrite.val_inttohex pointer
  obtain ⟨first, tail, htext⟩ :=
    exists_cons_of_ne_nil (val_ne_nil hvalue)
  have hblank := isBlank_of_val hvalue first (by simp [htext])
  rw [htext, trim_append hblank hrest]

section

variable (moment : Moment) (dereference : Text → Option UInt64)

theorem evaluate_level (pointer : UInt64) {rest : Text}
    (hrest : trimRight rest ≠ []) :
    evaluate moment dereference (inttohex pointer ++ rest) =
      match val (inttohex pointer ++ trimRight rest) with
      | some value => some value
      | none => evaluateTokens moment dereference
          (tokenize (inttohex pointer ++ trimRight rest)) := by
  cases hvalue : val (inttohex pointer ++ trimRight rest) with
  | none => rw [evaluate, trim_inttohex pointer hrest, literal_inttohex, hvalue]
  | some value =>
    rw [evaluate, trim_inttohex pointer hrest, literal_inttohex, hvalue]

variable {pointer value : UInt64} {digits : Text}
  (hdigits : val digits = some value)
include hdigits

theorem tokenize_seperator {char : Char} (hchar : isSeperator char = true) :
    tokenize (inttohex pointer ++ char :: digits) =
      [inttohex pointer, [char], digits] := by
  have hpointer := AssemblerRewrite.val_inttohex pointer
  rw [tokenize, tokenizeFrom_seperator (isPlain_of_val hpointer) hchar,
    tokenizeFrom_end (isPlain_of_val hdigits), nil_append,
    nil_append, piece_of_val hpointer, piece_of_val hdigits]
  rfl

theorem tokenize_quote :
    tokenize (inttohex pointer ++ '"' :: digits) = [digits] := by
  have hpointer := AssemblerRewrite.val_inttohex pointer
  rw [tokenize, tokenizeFrom_plain (isPlain_of_val hpointer), tokenizeFrom,
    if_pos rfl, if_neg Bool.false_ne_true,
    tokenizeFrom_end (isPlain_of_val hdigits), nil_append,
    piece_of_val hdigits]

theorem tokenize_plain {char : Char} (hchar : IsPlain char) :
    tokenize (inttohex pointer ++ char :: digits) =
      [inttohex pointer ++ char :: digits] := by
  have hpointer := AssemblerRewrite.val_inttohex pointer
  have hright := trimRight_of_val hdigits
  have hends : trimRight (char :: digits) = char :: digits := by
    have happend := @trimRight_append [char] digits
      (by rw [hright]; exact val_ne_nil hdigits)
    rwa [hright] at happend
  have hplain : ∀ next ∈ inttohex pointer ++ char :: digits,
      IsPlain next := by
    intro next hnext
    rcases mem_append.mp hnext with hbefore | hafter
    · exact isPlain_of_val hpointer next hbefore
    · rcases mem_cons.mp hafter with rfl | hlater
      · exact hchar
      · exact isPlain_of_val hdigits next hlater
  have htrim := trim_inttohex pointer (hends ▸ cons_ne_nil _ _)
  rw [hends] at htrim
  rw [tokenize, tokenizeFrom_end hplain, nil_append, piece, htrim,
    if_neg (by simp)]

theorem evaluateTokens_number :
    evaluateTokens moment dereference [digits] = some value := by
  have hbad : isBadFormula digits [] = false := by
    rw [isBadFormula, startsWith_of_val hdigits (by decide), getLast?_nil,
      Option.getD_none, startsWith_of_val hdigits (by decide), Bool.or_false]
  rw [evaluateTokens, hbad, if_neg Bool.false_ne_true,
    substituteFrom_last (handle_number moment dereference _ hdigits)]
  refine (addFrom_number hdigits 0 .calcAddition []).trans ?_
  rw [TCalculation.calculate, UInt64.zero_add, addFrom]

theorem evaluateTokens_sign {sign : Char} (hsign : sign ∈ ['+', '-']) :
    evaluateTokens moment dereference [inttohex pointer, [sign], digits] =
      some (pointer + if sign = '-' then -value else value) := by
  have hpointer := AssemblerRewrite.val_inttohex pointer
  have hbad : isBadFormula (inttohex pointer) [[sign], digits] = false := by
    rw [isBadFormula, startsWith_of_val hpointer (by decide)]
    exact startsWith_of_val hdigits (by decide)
  rw [evaluateTokens, hbad, if_neg Bool.false_ne_true,
    substituteFrom_next (handle_number moment dereference _ hpointer),
    substituteFrom_next (handle_sign moment dereference _ hsign),
    substituteFrom_last (handle_number moment dereference _ hdigits)]
  refine (addFrom_number hpointer 0 .calcAddition [[sign], digits]).trans ?_
  rw [addFrom_sign hsign, addFrom_number hdigits, addFrom,
    TCalculation.calculate, UInt64.zero_add]
  split
  · rw [TCalculation.calculate, UInt64.sub_eq_add_neg]
  · rw [TCalculation.calculate]

theorem evaluateTokens_multiply :
    evaluateTokens moment dereference [inttohex pointer, ['*'], digits] =
      some (pointer * value) := by
  have hpointer := AssemblerRewrite.val_inttohex pointer
  have hproduct := AssemblerRewrite.val_inttohex (pointer * value)
  have hbad : isBadFormula (inttohex pointer) [['*'], digits] = false := by
    rw [isBadFormula, startsWith_of_val hpointer (by decide)]
    exact startsWith_of_val hdigits (by decide)
  have hempty : removeEmpty [inttohex pointer, ['*'], digits] =
      [inttohex pointer, ['*'], digits] := by
    simp [removeEmpty, val_ne_nil hpointer]
  have hnot : inttohex pointer ≠ ['*'] := by
    intro hstar
    rw [hstar, AssemblerRewrite.val_eq_none mem_cons_self (by decide)]
      at hpointer
    cases hpointer
  rw [evaluateTokens, hbad, if_neg Bool.false_ne_true,
    substituteFrom_next (handle_number moment dereference _ hpointer),
    substituteFrom_next (handle_multiply moment dereference _),
    substituteFrom_last (handle_number moment dereference _ hdigits)]
  have hproducts : multiplyFrom none [inttohex pointer, ['*'], digits] =
      some [inttohex (pointer * value), [], []] := by
    rw [multiplyFrom, if_neg hnot, multiplyFrom, if_pos rfl, Option.bind_some,
      StrToQWordEx_of_val hpointer, Option.bind_some, hdigits]
    rfl
  have hcalculate : calculate
      ⟨[inttohex pointer, ['*'], digits], [], true⟩ =
        addFrom 0 .calcAddition [inttohex (pointer * value), [], []] := by
    rw [calculate, if_pos rfl, Substitution.all, foldl_nil, hempty,
      hproducts, Option.bind_some]
  refine hcalculate.trans ?_
  rw [addFrom_number hproduct, TCalculation.calculate, UInt64.zero_add]
  rfl

end

theorem exists_dereference (moment : Moment) (is64Bit : Bool) (name : Text) :
    ∃ dereference, getAddressFromName moment is64Bit name =
      evaluate moment dereference name := by
  rw [getAddressFromName]
  cases name.count '[' with
  | zero => exact ⟨_, rfl⟩
  | succ brackets => exact ⟨_, rfl⟩

section

variable (moment : Moment) (is64Bit : Bool) (pointer : UInt64)
  {text : Text} {value : UInt64}
  (hvalue : StrToQWordEx text = some value)
include hvalue

theorem trimRight_part (char : Char) :
    trimRight (char :: text) = char :: trimRight text := by
  exact @trimRight_append [char] text (val_ne_nil hvalue)

theorem level_eq (char : Char) :
    ∃ dereference,
      getAddressFromName moment is64Bit (inttohex pointer ++ char :: text) =
        match val (inttohex pointer ++ char :: trimRight text) with
        | some value => some value
        | none => evaluateTokens moment dereference
            (tokenize (inttohex pointer ++ char :: trimRight text)) := by
  obtain ⟨dereference, hname⟩ := exists_dereference moment is64Bit
    (inttohex pointer ++ char :: text)
  have htrim := trimRight_part hvalue char
  rw [hname, evaluate_level moment dereference pointer
    (by rw [htrim]; exact cons_ne_nil _ _), htrim]
  exact ⟨dereference, rfl⟩

theorem level_tokens {char : Char} (hchar : HexText.hexValue char = none) :
    ∃ dereference,
      getAddressFromName moment is64Bit (inttohex pointer ++ char :: text) =
        evaluateTokens moment dereference
          (tokenize (inttohex pointer ++ char :: trimRight text)) := by
  have hlevel := level_eq moment is64Bit pointer hvalue char
  rwa [AssemblerRewrite.val_eq_none
    (mem_append_right _ mem_cons_self) hchar] at hlevel

theorem level_sign {sign : Char} (hsign : sign ∈ ['+', '-']) :
    getAddressFromName moment is64Bit (inttohex pointer ++ sign :: text) =
      some (pointer + if sign = '-' then -value else value) := by
  have hhex : HexText.hexValue sign = none := by
    rcases mem_pair.mp hsign with rfl | rfl <;> decide
  have hseperator : isSeperator sign = true := by
    rcases mem_pair.mp hsign with rfl | rfl <;> decide
  obtain ⟨dereference, hlevel⟩ :=
    level_tokens moment is64Bit pointer hvalue hhex
  rw [hlevel, tokenize_seperator hvalue hseperator,
    evaluateTokens_sign moment dereference hvalue hsign]

theorem level_multiply :
    getAddressFromName moment is64Bit (inttohex pointer ++ '*' :: text) =
      some (pointer * value) := by
  obtain ⟨dereference, hlevel⟩ :=
    @level_tokens moment is64Bit pointer text value hvalue '*' (by decide)
  rw [hlevel, tokenize_seperator hvalue (by decide),
    evaluateTokens_multiply moment dereference hvalue]

theorem level_quote :
    getAddressFromName moment is64Bit (inttohex pointer ++ '"' :: text) =
      some value := by
  obtain ⟨dereference, hlevel⟩ :=
    @level_tokens moment is64Bit pointer text value hvalue '"' (by decide)
  rw [hlevel, tokenize_quote hvalue,
    evaluateTokens_number moment dereference hvalue]

end

theorem storedOffset_eq (part : Text) :
    storedOffset part =
      (signedOffset part).map fun offset => offset.toBitVec.setWidth 32 := by
  rw [storedOffset, signedOffset, Option.map_map]
  congr 1
  funext value
  simp only [Function.comp_apply]
  split
  · rw [UInt64.toBitVec_neg, BitVec.setWidth_neg_of_le (by decide)]
  · rfl

theorem addOffset_eq_iff (offset : UInt64) :
    addOffset pointer (offset.toBitVec.setWidth 32) = pointer + offset ↔
      -2 ^ 31 ≤ offset.toBitVec.toInt ∧ offset.toBitVec.toInt < 2 ^ 31 := by
  rw [addOffset, UInt64.add_right_inj,
    ← Pointerscan.Record.signExtend_setWidth_iff, ← UInt64.toBitVec_inj]

section

variable {part : Text} {offset : UInt64}
  (hoffset : signedOffset part = some offset)
include hoffset

theorem exists_value_of_signedOffset : ∃ value,
    StrToQWordEx part.tail = some value ∧
      offset = if part.head? = some '-' then -value else value := by
  obtain ⟨value, hvalue, heq⟩ := Option.map_eq_some_iff.mp hoffset
  exact ⟨value, hvalue, heq.symm⟩

theorem offsetFits_iff :
    OffsetFits part ↔
      (part.head? = some '+' ∨ part.head? = some '-') ∧
        -2 ^ 31 ≤ offset.toBitVec.toInt ∧
        offset.toBitVec.toInt < 2 ^ 31 := by
  rw [OffsetFits, hoffset, Option.all_some, decide_eq_true_iff]

theorem level_signed (moment : Moment) (is64Bit : Bool) (pointer : UInt64)
    (hsign : part.head? = some '+' ∨ part.head? = some '-') :
    getAddressFromName moment is64Bit (inttohex pointer ++ part) =
      some (pointer + offset) := by
  obtain ⟨value, hvalue, heq⟩ := exists_value_of_signedOffset hoffset
  cases part with
  | nil => simp at hsign
  | cons sign text =>
    have hmem : sign ∈ ['+', '-'] := by
      simpa [head?_cons] using hsign
    rw [tail_cons] at hvalue
    rw [level_sign moment is64Bit pointer hvalue hmem, heq]
    simp

theorem level_of_fits (moment : Moment) (is64Bit : Bool) (pointer : UInt64)
    (hfits : OffsetFits part) :
    getAddressFromName moment is64Bit (inttohex pointer ++ part) =
      some (addOffset pointer (offset.toBitVec.setWidth 32)) := by
  obtain ⟨hsign, hbounds⟩ := (offsetFits_iff hoffset).mp hfits
  rw [level_signed hoffset moment is64Bit pointer hsign,
    (addOffset_eq_iff pointer offset).mpr hbounds]

end

theorem mapM_cons_some {part : Text} {offsets : List (BitVec 32)}
    (hoffsets : (part :: parts).mapM storedOffset = some offsets) :
    ∃ offset rest, signedOffset part = some offset ∧
      parts.mapM storedOffset = some rest ∧
      offset.toBitVec.setWidth 32 :: rest = offsets := by
  rw [mapM_cons, Option.bind_eq_bind, Option.bind_eq_some_iff] at hoffsets
  obtain ⟨stored, hstored, hoffsets⟩ := hoffsets
  rw [Option.bind_eq_bind, Option.bind_eq_some_iff] at hoffsets
  obtain ⟨rest, hrest, hcons⟩ := hoffsets
  rw [storedOffset_eq, Option.map_eq_some_iff] at hstored
  obtain ⟨offset, hoffset, rfl⟩ := hstored
  exact ⟨offset, rest, hoffset, hrest, Option.some.inj hcons⟩

theorem followTexts_of_fits (hfits : ∀ part ∈ parts, OffsetFits part)
    {offsets : List (BitVec 32)}
    (hoffsets : parts.mapM storedOffset = some offsets)
    (moments : ℕ → Moment) (address : UInt64) :
    followTexts is64Bit moments address parts =
      followOffsets is64Bit moments address offsets := by
  induction parts generalizing offsets moments address with
  | nil =>
    obtain rfl : [] = offsets := by simpa using hoffsets
    rfl
  | cons part parts ih =>
    obtain ⟨hpart, hparts⟩ := forall_mem_cons.mp hfits
    obtain ⟨offset, rest, hoffset, hrest, rfl⟩ := mapM_cons_some hoffsets
    rw [followTexts, followOffsets]
    congr 1
    funext pointer
    rw [level_of_fits hoffset _ is64Bit pointer hpart, Option.bind_some,
      ih hparts hrest]

/-! ## Offsets that do not fit -/

def answering (symbol : UInt64) (read : UInt64 → UInt64) : Moment where
  lookup _ := .address symbol
  readprocessmemory address size := (true, leBytes size (read address).toNat)

theorem readPointer_answering (symbol : UInt64) {read : UInt64 → UInt64}
    (is64Bit : Bool) {address : UInt64} (hsmall : (read address).toNat < 2) :
    readPointer (answering symbol read) is64Bit address =
      some (read address) := by
  have hfits : (read address).toNat < 256 ^ pointersize is64Bit := by
    cases is64Bit <;> exact lt_of_lt_of_le hsmall (by decide)
  simp only [readPointer, answering, leBytes_length, if_true,
    leValue_leBytes, Nat.mod_eq_of_lt hfits, UInt64.ofNat_toNat]

theorem parseFrom_last {before : Text} {last : Char} {start value : ℕ}
    (hvalue : HexText.parseFrom start (before ++ [last]) = some value) :
    HexText.hexValue last = some (value % 16) := by
  induction before generalizing start with
  | nil =>
    obtain ⟨digit, hdigit, heq⟩ := Option.bind_eq_some_iff.mp hvalue
    have hlt := HexText.hexValue_lt hdigit
    obtain rfl : start * 16 + digit = value := Option.some.inj heq
    rw [hdigit]
    congr 1
    omega
  | cons char before ih =>
    obtain ⟨digit, -, hrest⟩ := Option.bind_eq_some_iff.mp hvalue
    exact ih hrest

theorem val_last {before : Text} {last : Char} {value : UInt64}
    (hvalue : val (before ++ [last]) = some value) :
    HexText.hexValue last = some (value.toNat % 16) := by
  rw [val] at hvalue
  split at hvalue
  · cases hvalue
  · obtain ⟨number, hnumber, hsmall⟩ := Option.bind_eq_some_iff.mp hvalue
    rw [HexText.parseHex, if_neg (by simp)] at hnumber
    split at hsmall
    · next hlt =>
        obtain rfl : UInt64.ofNat number = value := Option.some.inj hsmall
        rw [UInt64.toNat_ofNat_of_lt' hlt]
        exact parseFrom_last hnumber
    · cases hsmall

theorem val_mod_sixteen {first second digits : Text} (hdigits : digits ≠ [])
    {value other : UInt64} (hvalue : val (first ++ digits) = some value)
    (hother : val (second ++ digits) = some other) :
    value.toNat % 16 = other.toNat % 16 := by
  have hlast := dropLast_concat_getLast hdigits
  rw [← hlast, ← append_assoc] at hvalue hother
  exact Option.some.inj ((val_last hvalue).symm.trans (val_last hother))

theorem startsWith_inttohex (rest : Text) (chars : List Char)
    (hchars : chars.all isSeperator = true) :
    startsWith chars (inttohex pointer ++ rest) = false := by
  have hpointer := AssemblerRewrite.val_inttohex pointer
  rw [startsWith, head?_append_of_ne_nil _ (val_ne_nil hpointer)]
  exact startsWith_of_val hpointer hchars

theorem evaluateTokens_known (symbol : UInt64) (read : UInt64 → UInt64)
    (dereference : Text → Option UInt64) {token : Text}
    (hstarts : ∀ chars : List Char, chars.all isSeperator = true →
      startsWith chars token = false) (hvalue : val token = none) :
    evaluateTokens (answering symbol read) dereference [token] =
      some symbol := by
  have hbad : isBadFormula token [] = false := by
    rw [isBadFormula, hstarts _ (by decide), getLast?_nil,
      Option.getD_none, hstarts _ (by decide), Bool.or_false]
  have hhandle : handle (answering symbol read) dereference ⟨[], [], false⟩
      token = .done ⟨[inttohex symbol], [], false⟩ := by
    rw [handle, hstarts _ (by decide), hstarts _ (by decide),
      hstarts _ (by decide), hstarts _ (by decide), handleName, hvalue]
    rfl
  rw [evaluateTokens, hbad, if_neg Bool.false_ne_true,
    substituteFrom_last hhandle]
  refine (addFrom_number (AssemblerRewrite.val_inttohex symbol) 0
    .calcAddition []).trans ?_
  rw [TCalculation.calculate, UInt64.zero_add, addFrom]

section

variable (is64Bit : Bool) {char : Char} {text : Text} {value : UInt64}
  (hvalue : StrToQWordEx text = some value)
include hvalue

/-- A level whose text is one name or number can differ from any offset,
because it cannot add one to both a zero and a one. -/
theorem exists_level_plain (hchar : IsPlain char) (offset : BitVec 32) :
    ∃ pointer symbol next : UInt64, pointer.toNat < 2 ∧
      (∀ read, getAddressFromName (answering symbol read) is64Bit
        (inttohex pointer ++ char :: text) = some next) ∧
      next ≠ addOffset pointer offset := by
  have hnumber {pointer next : UInt64}
      (hnext : val (inttohex pointer ++ char :: trimRight text) = some next)
      (symbol : UInt64) (read : UInt64 → UInt64) :
      getAddressFromName (answering symbol read) is64Bit
        (inttohex pointer ++ char :: text) = some next := by
    obtain ⟨dereference, hlevel⟩ :=
      level_eq (answering symbol read) is64Bit pointer hvalue char
    rw [hlevel, hnext]
  have hname {pointer : UInt64}
      (hnone : val (inttohex pointer ++ char :: trimRight text) = none)
      (symbol : UInt64) (read : UInt64 → UInt64) :
      getAddressFromName (answering symbol read) is64Bit
        (inttohex pointer ++ char :: text) = some symbol := by
    obtain ⟨dereference, hlevel⟩ :=
      level_eq (answering symbol read) is64Bit pointer hvalue char
    rw [hlevel, hnone]
    dsimp only
    rw [tokenize_plain hvalue hchar]
    exact evaluateTokens_known symbol read dereference
      (startsWith_inttohex pointer _) hnone
  have hother (symbol : UInt64) : symbol + 1 ≠ symbol := by
    intro heq
    exact absurd (UInt64.add_eq_left.mp heq) (by decide)
  cases hzero : val (inttohex 0 ++ char :: trimRight text) with
  | none =>
    exact ⟨0, addOffset 0 offset + 1, _, by decide, hname hzero _, hother _⟩
  | some first =>
    cases hone : val (inttohex 1 ++ char :: trimRight text) with
    | none =>
      exact ⟨1, addOffset 1 offset + 1, _, by decide, hname hone _, hother _⟩
    | some second =>
      have hmod := val_mod_sixteen (cons_ne_nil _ _) hzero hone
      by_cases hfirst : first = addOffset 0 offset
      · refine ⟨1, 0, second, by decide, hnumber hone 0, ?_⟩
        rintro rfl
        rw [hfirst, addOffset, addOffset, UInt64.toNat_add,
          UInt64.toNat_add] at hmod
        simp at hmod
        omega
      · exact ⟨0, 0, first, by decide, hnumber hzero 0, hfirst⟩

theorem exists_level_unsigned (hplus : char ≠ '+') (hminus : char ≠ '-')
    (hopen : char ≠ '[') (hclose : char ≠ ']') :
    ∃ pointer symbol next : UInt64, pointer.toNat < 2 ∧
      (∀ read, getAddressFromName (answering symbol read) is64Bit
        (inttohex pointer ++ char :: text) = some next) ∧
      next ≠ addOffset pointer (value.toBitVec.setWidth 32) := by
  by_cases hstar : char = '*'
  · subst hstar
    have hlevel (pointer : UInt64) (read : UInt64 → UInt64) :=
      level_multiply (answering 0 read) is64Bit pointer hvalue
    by_cases hzero : (value.toBitVec.setWidth 32).signExtend 64 = 0#64
    · refine ⟨1, 0, _, by decide, hlevel 1, ?_⟩
      rw [UInt64.one_mul, addOffset, hzero]
      rintro rfl
      exact absurd hzero (by decide)
    · refine ⟨0, 0, _, by decide, hlevel 0, ?_⟩
      rw [UInt64.zero_mul, addOffset, UInt64.zero_add]
      intro heq
      exact hzero (congrArg UInt64.toBitVec heq).symm
  · by_cases hquote : char = '"'
    · subst hquote
      have hlevel (pointer : UInt64) (read : UInt64 → UInt64) :=
        level_quote (answering 0 read) is64Bit pointer hvalue
      by_cases hzero : value = addOffset 0 (value.toBitVec.setWidth 32)
      · refine ⟨1, 0, _, by decide, hlevel 1, ?_⟩
        intro hone
        have hboth := hzero.symm.trans hone
        rw [addOffset, addOffset, UInt64.add_left_inj] at hboth
        exact absurd hboth (by decide)
      · exact ⟨0, 0, _, by decide, hlevel 0, hzero⟩
    · have hchar : IsPlain char := by
        simp [IsPlain, isSeperator, hplus, hminus, hopen, hclose, hstar,
          hquote]
      exact exists_level_plain is64Bit hvalue hchar _

end

theorem exists_level {part : Text} {offset : UInt64}
    (hoffset : signedOffset part = some offset)
    (hbracket : '[' ∉ part ∧ ']' ∉ part) :
    ∃ pointer symbol next : UInt64, pointer.toNat < 2 ∧
      (∀ read, getAddressFromName (answering symbol read) is64Bit
        (inttohex pointer ++ part) = some next) ∧
      (¬OffsetFits part →
        next ≠ addOffset pointer (offset.toBitVec.setWidth 32)) := by
  by_cases hsign : part.head? = some '+' ∨ part.head? = some '-'
  · refine ⟨0, 0, _, by decide,
      fun read => level_signed hoffset _ is64Bit 0 hsign, ?_⟩
    intro hnot heq
    exact hnot ((offsetFits_iff hoffset).mpr
      ⟨hsign, (addOffset_eq_iff 0 offset).mp heq.symm⟩)
  · rw [not_or] at hsign
    obtain ⟨value, hvalue, heq⟩ := exists_value_of_signedOffset hoffset
    rw [if_neg hsign.2] at heq
    subst heq
    cases part with
    | nil =>
      have hnone : StrToQWordEx [] = none := by decide
      rw [tail_nil, hnone] at hvalue
      cases hvalue
    | cons char text =>
      obtain ⟨pointer, symbol, next, hsmall, hlevel, hne⟩ :=
        exists_level_unsigned is64Bit hvalue
          (by simpa using hsign.1) (by simpa using hsign.2)
          (by rintro rfl; simp at hbracket)
          (by rintro rfl; simp at hbracket)
      exact ⟨pointer, symbol, next, hsmall, hlevel, fun _ => hne⟩

section

variable (is64Bit : Bool)

def startingWith (now : Moment) (later : ℕ → Moment) : ℕ → Moment
  | 0 => now
  | time + 1 => later time

theorem exists_step {part : Text} {offset : UInt64}
    (hoffset : signedOffset part = some offset)
    (hbracket : '[' ∉ part ∧ ']' ∉ part) {first second : UInt64}
    {later : Prop} (hdiffer : first ≠ second ∨ ¬OffsetFits part ∨ later) :
    ∃ now pointer other next, readPointer now is64Bit first = some pointer ∧
      readPointer now is64Bit second = some other ∧
      getAddressFromName now is64Bit (inttohex other ++ part) = some next ∧
      (addOffset pointer (offset.toBitVec.setWidth 32) ≠ next ∨ later) := by
  by_cases hapart : OffsetFits part ∧ first ≠ second
  · obtain ⟨hfits, hne⟩ := hapart
    let read (address : UInt64) : UInt64 := if address = first then 0 else 1
    have hfirst : read first = 0 := if_pos rfl
    have hsecond : read second = 1 := if_neg (Ne.symm hne)
    refine ⟨answering 0 read, 0, 1, _, ?_, ?_,
      level_of_fits hoffset _ is64Bit 1 hfits, Or.inl ?_⟩
    · rw [readPointer_answering 0 is64Bit (by rw [hfirst]; decide), hfirst]
    · rw [readPointer_answering 0 is64Bit (by rw [hsecond]; decide), hsecond]
    · intro heq
      rw [addOffset, addOffset, UInt64.add_left_inj] at heq
      exact absurd heq (by decide)
  · obtain ⟨pointer, symbol, next, hsmall, hlevel, hne⟩ :=
      exists_level is64Bit hoffset hbracket
    have hread (address : UInt64) :
        readPointer (answering symbol fun _ => pointer) is64Bit address =
          some pointer :=
      readPointer_answering symbol is64Bit hsmall
    refine ⟨_, pointer, pointer, next, hread first, hread second, hlevel _, ?_⟩
    by_cases hfits : OffsetFits part
    · right
      have hsame : first = second := by
        by_contra hnot
        exact hapart ⟨hfits, hnot⟩
      exact (hdiffer.resolve_left (not_not_intro hsame)).resolve_left
        (not_not_intro hfits)
    · exact Or.inl (hne hfits).symm

theorem exists_moments {parts : List Text} {offsets : List (BitVec 32)}
    (hoffsets : parts.mapM storedOffset = some offsets)
    (hbrackets : ∀ part ∈ parts, '[' ∉ part ∧ ']' ∉ part)
    {first second : UInt64}
    (hdiffer : first ≠ second ∨ ∃ part ∈ parts, ¬OffsetFits part) :
    ∃ moments address other,
      followOffsets is64Bit moments first offsets = some address ∧
      followTexts is64Bit moments second parts = some other ∧
      address ≠ other := by
  induction parts generalizing offsets first second with
  | nil =>
    obtain rfl : [] = offsets := by simpa using hoffsets
    have hne : first ≠ second := hdiffer.resolve_right (by simp)
    exact ⟨fun _ => answering 0 id, first, second, rfl, rfl, hne⟩
  | cons part parts ih =>
    obtain ⟨hbracket, hbrackets⟩ := forall_mem_cons.mp hbrackets
    obtain ⟨offset, rest, hoffset, hrest, rfl⟩ := mapM_cons_some hoffsets
    rw [exists_mem_cons_iff] at hdiffer
    obtain ⟨now, pointer, other, next, hfirst, hsecond, hnext, hapart⟩ :=
      exists_step is64Bit hoffset hbracket hdiffer
    obtain ⟨later, address, last, haddress, hlast, hne⟩ :=
      ih hrest hbrackets hapart
    refine ⟨startingWith now later, address, last, ?_, ?_, hne⟩
    · rw [followOffsets]
      exact (congrArg (Option.bind · _) hfirst).trans haddress
    · rw [followTexts]
      refine (congrArg (Option.bind · _) hsecond).trans ?_
      exact (congrArg (Option.bind · _) hnext).trans hlast

end

def NoBracket (text : Text) : Prop :=
  '[' ∉ text ∧ ']' ∉ text

structure Parsing.NoBrackets (state : Parsing) : Prop where
  temps : NoBracket state.temps
  list : ∀ part ∈ state.list, NoBracket part

theorem noBracket_levelText {temps : Text} (htemps : NoBracket temps) :
    NoBracket (levelText temps) := by
  rw [levelText]
  split
  · exact ⟨by decide, by decide⟩
  · exact htemps

theorem noBracket_append_levelText {list : List Text} {temps : Text}
    (hlist : ∀ part ∈ list, NoBracket part) (htemps : NoBracket temps) :
    ∀ part ∈ list ++ [levelText temps], NoBracket part := by
  intro part hpart
  rcases mem_append.mp hpart with hold | hnew
  · exact hlist part hold
  · rw [mem_singleton.mp hnew]
    exact noBracket_levelText htemps

theorem Parsing.NoBrackets.step {state next : Parsing} {char : Char}
    (hstate : state.NoBrackets) (hstep : state.step char = some next) :
    next.NoBrackets := by
  obtain ⟨htemps, hlist⟩ := hstate
  rw [Parsing.step] at hstep
  split at hstep
  · split at hstep
    · obtain rfl := Option.some.inj hstep
      exact ⟨htemps, hlist⟩
    · cases hstep
  · next hopen =>
      split at hstep
      · obtain rfl := Option.some.inj hstep
        exact ⟨htemps, hlist⟩
      · rw [Parsing.define] at hstep
        split at hstep
        · split at hstep
          · cases hstep
          · obtain rfl := Option.some.inj hstep
            exact ⟨⟨not_mem_nil, not_mem_nil⟩,
              noBracket_append_levelText hlist htemps⟩
        · next hclose =>
            obtain rfl := Option.some.inj hstep
            refine ⟨⟨?_, ?_⟩, hlist⟩
            · simpa [htemps.1] using Ne.symm hopen
            · simpa [htemps.2] using Ne.symm hclose

theorem Parsing.NoBrackets.run {state final : Parsing} {s : Text}
    (hstate : state.NoBrackets)
    (hrun : s.foldlM Parsing.step state = some final) :
    final.NoBrackets := by
  induction s generalizing state with
  | nil =>
    obtain rfl : state = final := by simpa using hrun
    exact hstate
  | cons char s ih =>
    rw [foldlM_cons, Option.bind_eq_bind, Option.bind_eq_some_iff] at hrun
    obtain ⟨next, hstep, hrest⟩ := hrun
    exact ih (hstate.step hstep) hrest

theorem ParseAsPointer_noBracket {s : Text}
    (hparse : ParseAsPointer s = some parts) :
    ∀ part ∈ parts, NoBracket part := by
  obtain ⟨final, hrun, hfinish⟩ := Option.bind_eq_some_iff.mp hparse
  have hstart : Parsing.NoBrackets ⟨0, true, [], false, []⟩ :=
    ⟨⟨not_mem_nil, not_mem_nil⟩, by simp⟩
  obtain ⟨htemps, hlist⟩ := hstart.run hrun
  rw [Parsing.finish] at hfinish
  split at hfinish
  · cases hfinish
  · split at hfinish
    · obtain rfl := Option.some.inj hfinish
      exact noBracket_append_levelText hlist htemps
    · cases hfinish

theorem bothSucceed_iff (moments : ℕ → Moment) (s : Text)
    (first second : UInt64) :
    BothSucceed is64Bit moments s first second ↔
      ∃ base parts baseaddress offsets,
        ParseAsPointer s = some (base :: parts) ∧
        getAddressFromName (moments 0) is64Bit base = some baseaddress ∧
        parts.mapM storedOffset = some offsets ∧
        followOffsets is64Bit (fun time => moments (time + 1)) baseaddress
          offsets = some first ∧
        followTexts is64Bit (fun time => moments (time + 1)) baseaddress
          parts = some second := by
  rw [BothSucceed, GetAddressFromPointer, getAddressByLevels]
  match ParseAsPointer s with
  | none => simp
  | some [] => simp
  | some (base :: parts) =>
    simp only [Option.bind_eq_some_iff, Option.some.injEq, List.cons.injEq]
    constructor
    · rintro ⟨⟨baseaddress, hbase, offsets, hoffsets, hfirst⟩,
        other, hother, hsecond⟩
      obtain rfl := Option.some.inj (hbase.symm.trans hother)
      exact ⟨base, parts, baseaddress, offsets, ⟨rfl, rfl⟩, hbase,
        hoffsets, hfirst, hsecond⟩
    · rintro ⟨_, _, baseaddress, offsets, ⟨rfl, rfl⟩, hbase, hoffsets,
        hfirst, hsecond⟩
      exact ⟨⟨baseaddress, hbase, offsets, hoffsets, hfirst⟩,
        baseaddress, hbase, hsecond⟩

/-- On a text for which both can succeed, the evaluators always agree exactly
when every offset fits. -/
theorem agree_iff (is64Bit : Bool) (s : Text)
    (hboth : ∃ moments first second,
      BothSucceed is64Bit moments s first second) :
    Agree is64Bit s ↔ OffsetsFit s := by
  constructor
  · intro hagree parts hparse
    by_contra hnot
    push Not at hnot
    obtain ⟨moments, first, second, hboth⟩ := hboth
    obtain ⟨base, tail, baseaddress, offsets, hsome, hbase, hoffsets, -⟩ :=
      (bothSucceed_iff ..).mp hboth
    obtain rfl := Option.some.inj (hparse.symm.trans hsome)
    have hbrackets := ParseAsPointer_noBracket hparse
    obtain ⟨later, address, other, haddress, hother, hne⟩ :=
      @exists_moments is64Bit tail offsets hoffsets
        (fun part hpart => hbrackets part (mem_cons_of_mem _ hpart))
        baseaddress baseaddress (Or.inr hnot)
    exact hne (hagree (startingWith (moments 0) later) address other
      ((bothSucceed_iff ..).mpr ⟨base, tail, baseaddress, offsets, hparse,
        hbase, hoffsets, haddress, hother⟩))
  · intro hfits moments first second hboth
    obtain ⟨base, parts, baseaddress, offsets, hparse, -, hoffsets, hfirst,
      hsecond⟩ := (bothSucceed_iff ..).mp hboth
    have hparts : ∀ part ∈ parts, OffsetFits part := hfits _ hparse
    have heq := followTexts_of_fits is64Bit hparts hoffsets
      (fun time => moments (time + 1)) baseaddress
    rw [heq, hfirst] at hsecond
    exact Option.some.inj hsecond

def twoLevels : Text :=
  ['[', '[', '1', '0', '0', ']', '+', '8', ']', '-', '4']

theorem agree_iff_twoLevels :
    (∃ moments first second, BothSucceed false moments twoLevels first
      second) ∧ (Agree false twoLevels ↔ OffsetsFit twoLevels) := by
  have hboth : ∃ moments first second,
      BothSucceed false moments twoLevels first second :=
    ⟨fun _ => answering 0 fun _ => 1, 0xfffffffffffffffd,
      0xfffffffffffffffd, by decide +kernel, by decide +kernel⟩
  exact ⟨hboth, agree_iff false twoLevels hboth⟩

theorem not_agree :
    ¬ Agree true ['[', '1', '0', '0', ']', '+', '8', '0', '0', '0', '0',
      '0', '0', '0'] := by
  intro hagree
  have hequal := hagree (fun _ => answering 0 fun _ => 0)
    0xffffffff80000000 0x80000000 ⟨by decide +kernel, by decide +kernel⟩
  exact absurd hequal (by decide)

end CheatEngine.Symhandler
