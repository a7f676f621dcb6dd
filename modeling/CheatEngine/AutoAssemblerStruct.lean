import CheatEngine.AutoAssembler
import CheatEngine.PascalText
import Mathlib.Data.List.GetD

/-!
# STRUCT blocks of the auto assembler

A STRUCT block is read line by line with a running offset.  When its end is
found its lines are deleted and DEFINE lines for the offsets of its labels are
inserted in its place.
-/

namespace CheatEngine.AutoAssembler

open List HexText PascalText TokenText

/-! ## The source -/

inductive StructReason
  | isAReservedWord (elementname : Text)
  | noIdeaWhatXis (token : Text)
  | noEndFound
  | unnamed
deriving DecidableEq

structure StructError where
  structname : Text
  line : ℕ
  reason : StructReason
deriving DecidableEq

/-- What a token that declares a size begins, with the size of one copy. -/
inductive SizeToken
  | reserve (bytesize : Int32)
  | define (bytesize : Int32)
  | malformed
  | unknown
deriving DecidableEq

def bytesizeOf (char : Char) : Option Int32 :=
  if char = 'B' then some 1
  else if char = 'W' then some 2
  else if char = 'D' then some 4
  else if char = 'Q' then some 8
  else none

def sizeToken : Text → SizeToken
  | ['R', 'E', 'S', char] =>
    match bytesizeOf char with
    | some bytesize => .reserve bytesize
    | none => .malformed
  | ['D', char] =>
    match bytesizeOf char with
    | some bytesize => .define bytesize
    | none => .malformed
  | 'R' :: _ => .malformed
  | 'D' :: _ => .malformed
  | _ => .unknown

/-- The loop over the tokens of a line; `more` is the size that another `?`
adds. -/
@[grind =]
def readSizes (more : Option Int32) (currentOffset : Int32) :
    List Text → Except StructReason Int32
  | [] => .ok currentOffset
  | token :: rest =>
    if more ≠ none ∧ token = ['?'] then
      readSizes more (currentOffset + more.getD 0) rest
    else
      match sizeToken (upperCase token) with
      | .reserve bytesize =>
        match rest with
        | [] => .error .unnamed
        | count :: rest =>
          match strToInt count with
          | none => .error .unnamed
          | some count =>
            readSizes none (currentOffset + bytesize * count) rest
      | .define bytesize =>
        match rest with
        | [] => .error .unnamed
        | _ :: rest =>
          readSizes (some bytesize) (currentOffset + bytesize) rest
      | .malformed => .error .unnamed
      | .unknown => .error (.noIdeaWhatXis (upperCase token))

def tokenizeStruct (line : Text) : List Text :=
  tokens (· ≠ ' ') line

def isEnd (token : Text) : Bool :=
  upperCase token = "ENDSTRUCT".toList || upperCase token = "ENDS".toList

structure StructState where
  currentOffset : Int32
  elements : List (Text × Int32)
deriving DecidableEq

section

variable (isOpcode : Text → Bool)

/-- A line of the block that is not its end; `isOpcode` knows the names of
the opcodes. -/
def readLine (state : StructState) :
    List Text → Except StructReason StructState
  | [] => .ok state
  | first :: rest =>
    if first.getLast? = some ':' then
      if isOpcode first.dropLast then
        .error (.isAReservedWord first.dropLast)
      else
        (readSizes none state.currentOffset rest).map fun currentOffset =>
          ⟨currentOffset,
            state.elements ++ [(first.dropLast, state.currentOffset)]⟩
    else
      (readSizes none state.currentOffset (first :: rest)).map
        fun currentOffset => { state with currentOffset }

def readBlock (structname : Text) (lastlinenr : ℕ) (state : StructState) :
    List Text → Except StructError (StructState × List Text)
  | [] => .error ⟨structname, lastlinenr + 1, .noEndFound⟩
  | line :: rest =>
    let tokens := tokenizeStruct line
    if (tokens.head?.map isEnd).getD false then
      .ok (state, rest)
    else
      match readLine isOpcode state tokens with
      | .error reason => .error ⟨structname, lastlinenr + 2, reason⟩
      | .ok next => readBlock structname (lastlinenr + 1) next rest

end

def offsetText (offset : Int32) : Text :=
  intToHex offset.toInt64.toUInt64.toNat 1

def defineLine (name value : Text) : Text :=
  "define(".toList ++ name ++ [','] ++ value ++ [')']

def insertDefines (structname : Text) (state : StructState)
    (code : List Text) : List Text :=
  defineLine (structname ++ "_size".toList)
      (offsetText state.currentOffset) ::
    state.elements.foldl
      (fun code element =>
        defineLine (structname ++ ['.'] ++ element.1)
            (offsetText element.2) ::
          defineLine element.1 (offsetText element.2) :: code)
      code

def structName (line : Text) : Text :=
  trim (copy line 7 line.length)

def replaceStructWithDefines (isOpcode : Text → Bool) (code : List Text)
    (linenr : ℕ) : Option StructError × List Text :=
  let structname := structName (code.getD linenr [])
  match readBlock isOpcode structname linenr ⟨0, []⟩
      (code.drop (linenr + 1)) with
  | .error error => (some error, code)
  | .ok (state, rest) =>
    (none, code.take linenr ++ insertDefines structname state rest)

section

variable (mark : Text → Prop) (copies : Int32 → Prop)

/-- The tokens declare sizes with this sum: `res` tokens with a number of
copies and `d` tokens with marks, one for each copy. -/
inductive Declares : List Text → ℤ → Prop
  | nil : Declares [] 0
  | reserve {token number : Text} {rest : List Text} {bytesize count : Int32}
      {total : ℤ}
      (htoken : sizeToken (upperCase token) = .reserve bytesize)
      (hnumber : strToInt number = some count) (hcount : copies count)
      (hrest : Declares rest total) :
      Declares (token :: number :: rest)
        (bytesize.toInt * count.toInt + total)
  | define {token first : Text} {more : ℕ} {rest : List Text}
      {bytesize : Int32} {total : ℤ}
      (htoken : sizeToken (upperCase token) = .define bytesize)
      (hfirst : mark first) (hrest : Declares rest total) :
      Declares (token :: first :: (List.replicate more ['?'] ++ rest))
        (bytesize.toInt * (more + 1) + total)

/-- A line may start with a label, which is no opcode. -/
inductive DeclaresLine (isOpcode : Text → Bool) :
    List Text → Option Text → ℤ → Prop
  | nil : DeclaresLine isOpcode [] none 0
  | sizes {first : Text} {rest : List Text} {total : ℤ}
      (hfirst : first.getLast? ≠ some ':') (hend : isEnd first = false)
      (hsizes : Declares mark copies (first :: rest) total) :
      DeclaresLine isOpcode (first :: rest) none total
  | label {first : Text} {rest : List Text} {total : ℤ}
      (hfirst : first.getLast? = some ':')
      (hopcode : isOpcode first.dropLast = false)
      (hsizes : Declares mark copies rest total) :
      DeclaresLine isOpcode (first :: rest) (some first.dropLast) total

/-- The lines of a block from an offset on, with the offsets of the labels
and the offset behind them. -/
inductive Body (isOpcode : Text → Bool) :
    ℤ → List Text → List (Text × ℤ) → ℤ → Prop
  | nil {offset : ℤ} : Body isOpcode offset [] [] offset
  | line {offset size total : ℤ} {line : Text} {label : Option Text}
      {rest : List Text} {elements : List (Text × ℤ)}
      (hline : DeclaresLine mark copies isOpcode (tokenizeStruct line) label
        size)
      (hrest : Body isOpcode (offset + size) rest elements total) :
      Body isOpcode offset (line :: rest)
        ((label.map fun name => (name, offset)).toList ++ elements) total

def HasBlock (isOpcode : Text → Bool) (lines : List Text)
    (elements : List (Text × ℤ)) (total : ℤ) (rest : List Text) : Prop :=
  ∃ body endLine, lines = body ++ endLine :: rest ∧
    ((tokenizeStruct endLine).head?.map isEnd).getD false = true ∧
      Body mark copies isOpcode 0 body elements total

end

/-- Every `d` token has a mark behind it, and no number of copies is
negative. -/
def WellFormedBlock (isOpcode : Text → Bool) (lines : List Text)
    (elements : List (Text × ℤ)) (total : ℤ) (rest : List Text) : Prop :=
  HasBlock (fun token => token = ['?']) (fun count => 0 ≤ count.toInt)
    isOpcode lines elements total rest

/-- Any token may stand behind a `d` token, and any integer behind a `res`
token. -/
def LooseBlock (isOpcode : Text → Bool) (lines : List Text) : Prop :=
  ∃ elements total rest,
    HasBlock (fun _ => True) (fun _ => True) isOpcode lines elements total rest

/-- The definitions of the offsets, the total first and then the labels from
the last one on. -/
def definitions (structname : Text) (elements : List (Text × ℤ))
    (total : ℤ) : List Text :=
  defineLine (structname ++ "_size".toList) (intToHex total.toNat 1) ::
    elements.reverse.flatMap fun element =>
      [defineLine (structname ++ ['.'] ++ element.1)
          (intToHex element.2.toNat 1),
        defineLine element.1 (intToHex element.2.toNat 1)]

/-- A well-formed block with a total below 2^31 is replaced by the
definitions; where there is none an error is raised and the code stays. -/
def ReplacesBlock (isOpcode : Text → Bool) (before : List Text)
    (line : Text) (after : List Text) : Prop :=
  let code := before ++ line :: after
  let result := replaceStructWithDefines isOpcode code before.length
  (∀ elements total rest,
      WellFormedBlock isOpcode after elements total rest → total < 2 ^ 31 →
        result = (none,
          before ++ definitions (structName line) elements total ++ rest)) ∧
    ((¬ ∃ elements total rest,
        WellFormedBlock isOpcode after elements total rest) →
      result.1 ≠ none ∧ result.2 = code)

theorem sizeToken_mark : sizeToken (upperCase ['?']) = .unknown := by
  decide

theorem readSizes_marks (bytesize currentOffset : Int32) (more : ℕ)
    (rest : List Text) :
    readSizes (some bytesize) currentOffset
        (List.replicate more ['?'] ++ rest) =
      readSizes (some bytesize)
        (currentOffset + Int32.ofInt (bytesize.toInt * more)) rest := by
  induction more generalizing currentOffset with
  | zero => simp
  | succ more ih =>
    have hmark : (some bytesize ≠ none ∧ ['?'] = ['?']) :=
      ⟨Option.some_ne_none bytesize, rfl⟩
    rw [replicate_succ, cons_append, readSizes, if_pos hmark,
      Option.getD_some, ih, Int32.add_assoc]
    congr 2
    rw [Nat.cast_succ, mul_add, mul_one, Int32.ofInt_add,
      Int32.ofInt_toInt, Int32.add_comm]

theorem readSizes_none {tokens : List Text}
    (hfirst : tokens.head? ≠ some ['?']) (more : Option Int32)
    (currentOffset : Int32) :
    readSizes more currentOffset tokens =
      readSizes none currentOffset tokens := by
  rcases tokens with _ | ⟨token, rest⟩
  · rfl
  · have htoken : token ≠ ['?'] := by simpa using hfirst
    rw [readSizes, readSizes, if_neg fun hmark => htoken hmark.2,
      if_neg fun hmark => htoken hmark.2]

section

variable {mark : Text → Prop} {copies : Int32 → Prop}

variable {tokens : List Text} {total : ℤ} {label : Option Text} {size : ℤ}

theorem Declares.head_ne (hdeclares : Declares mark copies tokens total) :
    tokens.head? ≠ some ['?'] := by
  have hmark := sizeToken_mark
  cases hdeclares with
  | nil => simp
  | reserve htoken =>
    intro heq
    obtain rfl := Option.some.inj heq
    rw [hmark] at htoken
    cases htoken
  | define htoken =>
    intro heq
    obtain rfl := Option.some.inj heq
    rw [hmark] at htoken
    cases htoken

theorem readSizes_token (token : Text) (currentOffset : Int32)
    (rest : List Text) :
    readSizes none currentOffset (token :: rest) =
      match sizeToken (upperCase token) with
      | .reserve bytesize =>
        match rest with
        | [] => .error .unnamed
        | count :: rest =>
          match strToInt count with
          | none => .error .unnamed
          | some count =>
            readSizes none (currentOffset + bytesize * count) rest
      | .define bytesize =>
        match rest with
        | [] => .error .unnamed
        | _ :: rest =>
          readSizes (some bytesize) (currentOffset + bytesize) rest
      | .malformed => .error .unnamed
      | .unknown => .error (.noIdeaWhatXis (upperCase token)) := by
  rw [readSizes, if_neg fun hmark => hmark.1 rfl]

theorem readSizes_declares (hdeclares : Declares mark copies tokens total)
    (currentOffset : Int32) :
    readSizes none currentOffset tokens =
      .ok (currentOffset + Int32.ofInt total) := by
  induction hdeclares generalizing currentOffset with
  | nil => simp [readSizes]
  | reserve htoken hnumber hcount hrest ih =>
    rw [readSizes_token, htoken]
    simp only [hnumber]
    rw [ih, Int32.ofInt_add, Int32.ofInt_mul, Int32.ofInt_toInt,
      Int32.ofInt_toInt, Int32.add_assoc]
  | @define token first more rest bytesize total htoken hfirst hrest ih =>
    rw [readSizes_token, htoken]
    dsimp only
    rw [readSizes_marks, readSizes_none hrest.head_ne, ih, mul_add, mul_one,
      add_comm (bytesize.toInt * more), Int32.ofInt_add, Int32.ofInt_add,
      Int32.ofInt_toInt, Int32.add_assoc, Int32.add_assoc, Int32.add_assoc]

theorem readSizes_ok {more : Option Int32} {currentOffset offset : Int32}
    (hok : readSizes more currentOffset tokens = .ok offset) :
    ∃ marks rest total, tokens = List.replicate marks ['?'] ++ rest ∧
      (more = none → marks = 0) ∧
        Declares (fun _ => True) (fun _ => True) rest total := by
  fun_induction readSizes more currentOffset tokens with
  | case1 more currentOffset => exact ⟨0, [], 0, rfl, fun _ => rfl, .nil⟩
  | case2 more currentOffset token rest hmark ih =>
    obtain ⟨marks, others, total, rfl, -, hrest⟩ := ih hok
    refine ⟨marks + 1, others, total, ?_, ?_, hrest⟩
    · rw [hmark.2]
      rfl
    · exact fun hnone => absurd hnone hmark.1
  | case3 | case4 | case6 | case8 | case9 => cases hok
  | case5 more currentOffset token hmark bytesize htoken number rest count
      hnumber ih =>
      obtain ⟨marks, others, total, rfl, hzero, hrest⟩ := ih hok
      rw [hzero rfl]
      exact ⟨0, _, _, rfl, fun _ => rfl,
        .reserve htoken hnumber trivial hrest⟩
  | case7 more currentOffset token hmark bytesize htoken first rest ih =>
    obtain ⟨marks, others, total, rfl, -, hrest⟩ := ih hok
    exact ⟨0, _, _, rfl, fun _ => rfl, .define htoken trivial hrest⟩

/-! ## The lines of a block -/

variable {isOpcode : Text → Bool}

theorem isEnd_of_label {first : Text} (hfirst : first.getLast? = some ':') :
    isEnd first = false := by
  have hlast : (upperCase first).getLast? = some ':' := by
    rw [upperCase, getLast?_map, hfirst]
    rfl
  rw [isEnd, Bool.or_eq_false_iff, decide_eq_false_iff_not,
    decide_eq_false_iff_not]
  refine ⟨fun heq => ?_, fun heq => ?_⟩
  · rw [heq] at hlast
    revert hlast
    decide
  · rw [heq] at hlast
    revert hlast
    decide

theorem DeclaresLine.not_end
    (hline : DeclaresLine mark copies isOpcode tokens label size) :
    (tokens.head?.map isEnd).getD false = false := by
  cases hline with
  | nil => rfl
  | sizes hfirst hend => exact hend
  | label hfirst => exact isEnd_of_label hfirst

theorem readLine_declares
    (hline : DeclaresLine mark copies isOpcode tokens label size)
    (state : StructState) :
    readLine isOpcode state tokens =
      .ok ⟨state.currentOffset + Int32.ofInt size,
        state.elements ++
          (label.map fun name => (name, state.currentOffset)).toList⟩ := by
  cases hline with
  | nil => simp [readLine]
  | sizes hfirst hend hsizes =>
    rw [readLine, if_neg hfirst, readSizes_declares hsizes]
    simp [Except.map]
  | label hfirst hopcode hsizes =>
    rw [readLine, if_pos hfirst, hopcode, readSizes_declares hsizes]
    rfl

theorem readLine_ok {state next : StructState}
    (hend : (tokens.head?.map isEnd).getD false = false)
    (hok : readLine isOpcode state tokens = .ok next) :
    ∃ label size, DeclaresLine (fun _ => True) (fun _ => True) isOpcode
      tokens label size := by
  rcases tokens with _ | ⟨first, rest⟩
  · exact ⟨none, 0, .nil⟩
  · rw [readLine] at hok
    split_ifs at hok with hfirst hopcode
    · cases hsizes : readSizes none state.currentOffset rest with
      | error reason =>
        rw [hsizes] at hok
        cases hok
      | ok offset =>
        obtain ⟨marks, others, total, rfl, hzero, hrest⟩ :=
          readSizes_ok hsizes
        rw [hzero rfl]
        exact ⟨_, total,
          .label hfirst (Bool.eq_false_of_not_eq_true hopcode) hrest⟩
    · cases hsizes : readSizes none state.currentOffset (first :: rest) with
      | error reason =>
        rw [hsizes] at hok
        cases hok
      | ok offset =>
        obtain ⟨marks, others, total, heq, hzero, hrest⟩ :=
          readSizes_ok hsizes
        rw [hzero rfl] at heq
        rw [replicate_zero, nil_append] at heq
        rw [← heq] at hrest
        exact ⟨none, total, .sizes hfirst hend hrest⟩

theorem readBlock_body {offset : ℤ} {body : List Text}
    {elements : List (Text × ℤ)}
    (hbody : Body mark copies isOpcode offset body elements total)
    {endLine : Text}
    (hend : ((tokenizeStruct endLine).head?.map isEnd).getD false = true)
    (structname : Text) (lastlinenr : ℕ) (before : List (Text × Int32))
    (rest : List Text) :
    readBlock isOpcode structname lastlinenr
        ⟨Int32.ofInt offset, before⟩ (body ++ endLine :: rest) =
      .ok (⟨Int32.ofInt total, before ++ elements.map fun element =>
        (element.1, Int32.ofInt element.2)⟩, rest) := by
  induction hbody generalizing lastlinenr before with
  | nil =>
    rw [nil_append, readBlock, if_pos hend]
    simp
  | @line offset size total line label rest elements hline hrest ih =>
    rw [cons_append, readBlock, hline.not_end, readLine_declares hline]
    dsimp only
    rw [if_neg Bool.false_ne_true, ← Int32.ofInt_add, ih,
      map_append, List.append_assoc]
    cases label <;> rfl

theorem readBlock_ok {structname : Text} {lastlinenr : ℕ}
    {state last : StructState} {lines rest : List Text}
    (hok : readBlock isOpcode structname lastlinenr state lines =
      .ok (last, rest)) (offset : ℤ) :
    ∃ body endLine elements total, lines = body ++ endLine :: rest ∧
      ((tokenizeStruct endLine).head?.map isEnd).getD false = true ∧
        Body (fun _ => True) (fun _ => True) isOpcode offset body elements
          total := by
  induction lines generalizing lastlinenr state offset with
  | nil => cases hok
  | cons line lines ih =>
    rw [readBlock] at hok
    cases hend : ((tokenizeStruct line).head?.map isEnd).getD false with
    | true =>
      rw [hend] at hok
      obtain ⟨-, rfl⟩ := Prod.mk.inj (Except.ok.inj hok)
      exact ⟨[], line, [], offset, rfl, hend, .nil⟩
    | false =>
      rw [hend] at hok
      simp only [Bool.false_eq_true, if_false] at hok
      cases hline : readLine isOpcode state (tokenizeStruct line) with
      | error reason =>
        rw [hline] at hok
        cases hok
      | ok next =>
        rw [hline] at hok
        obtain ⟨label, size, hdeclares⟩ := readLine_ok hend hline
        obtain ⟨body, endLine, elements, total, rfl, hlast, hbody⟩ :=
          ih hok (offset + size)
        exact ⟨line :: body, endLine, _, total, rfl, hlast,
          .line hdeclares hbody⟩

theorem bytesizeOf_nonneg {char : Char} {bytesize : Int32}
    (hbytesize : bytesizeOf char = some bytesize) : 0 ≤ bytesize.toInt := by
  unfold bytesizeOf at hbytesize
  split_ifs at hbytesize
  all_goals
    obtain rfl := Option.some.inj hbytesize
    decide

theorem sizeToken_nonneg {token : Text} {bytesize : Int32}
    (htoken : sizeToken token = .reserve bytesize ∨
      sizeToken token = .define bytesize) : 0 ≤ bytesize.toInt := by
  unfold sizeToken at htoken
  split at htoken
  · next char =>
      cases hbytesize : bytesizeOf char with
      | none => simp [hbytesize] at htoken
      | some found =>
        simp only [hbytesize, SizeToken.reserve.injEq, reduceCtorEq,
          or_false] at htoken
        exact htoken ▸ bytesizeOf_nonneg hbytesize
  · next char =>
      cases hbytesize : bytesizeOf char with
      | none => simp [hbytesize] at htoken
      | some found =>
        simp only [hbytesize, SizeToken.define.injEq, reduceCtorEq,
          false_or] at htoken
        exact htoken ▸ bytesizeOf_nonneg hbytesize
  all_goals simp at htoken

theorem Declares.nonneg
    (hdeclares : Declares mark (fun count => 0 ≤ count.toInt) tokens total) :
    0 ≤ total := by
  induction hdeclares with
  | nil => exact le_refl 0
  | reserve htoken hnumber hcount hrest ih =>
    have hsize := sizeToken_nonneg (.inl htoken)
    exact add_nonneg (mul_nonneg hsize hcount) ih
  | define htoken hfirst hrest ih =>
    have hsize := sizeToken_nonneg (.inr htoken)
    exact add_nonneg (mul_nonneg hsize (by positivity)) ih

theorem DeclaresLine.nonneg
    (hline : DeclaresLine mark (fun count => 0 ≤ count.toInt) isOpcode
      tokens label size) : 0 ≤ size := by
  cases hline with
  | nil => exact le_refl 0
  | sizes _ _ hsizes => exact hsizes.nonneg
  | label _ _ hsizes => exact hsizes.nonneg

theorem Body.offsets {offset : ℤ} {body : List Text}
    {elements : List (Text × ℤ)}
    (hbody : Body mark (fun count => 0 ≤ count.toInt) isOpcode offset body
      elements total) :
    offset ≤ total ∧
      ∀ element ∈ elements, offset ≤ element.2 ∧ element.2 ≤ total := by
  induction hbody with
  | nil => exact ⟨le_refl _, fun _ hmem => absurd hmem not_mem_nil⟩
  | @line offset size total line label rest elements hline hrest ih =>
    have hsize := hline.nonneg
    refine ⟨by omega, fun element hmem => ?_⟩
    rcases mem_append.mp hmem with hmem | hmem
    · cases label with
      | none => exact absurd hmem not_mem_nil
      | some name =>
        obtain rfl := mem_singleton.mp hmem
        have hle : offset ≤ total := by omega
        exact ⟨le_refl _, hle⟩
    · have hbounds := ih.2 element hmem
      exact ⟨by omega, hbounds.2⟩

end

theorem toUInt64_toNat {offset : Int64} (hlow : 0 ≤ offset.toInt) :
    offset.toUInt64.toNat = offset.toInt.toNat := by
  change offset.toBitVec.toNat = offset.toBitVec.toInt.toNat
  change 0 ≤ offset.toBitVec.toInt at hlow
  have hlt := offset.toBitVec.isLt
  rw [BitVec.toInt_eq_toNat_cond] at hlow ⊢
  split at hlow <;> omega

theorem offsetText_eq {offset : ℤ} (hlow : 0 ≤ offset)
    (hhigh : offset < 2 ^ 31) :
    offsetText (Int32.ofInt offset) = intToHex offset.toNat 1 := by
  have htoInt : (Int32.ofInt offset).toInt64.toInt = offset := by
    rw [Int32.toInt_toInt64, Int32.toInt_ofInt_of_le (by omega) hhigh]
  rw [offsetText, toUInt64_toNat (by rwa [htoInt]), htoInt]

variable {elements : List (Text × ℤ)}

theorem foldl_defines {structname : Text}
    (helements : ∀ element ∈ elements, 0 ≤ element.2 ∧ element.2 < 2 ^ 31)
    (code : List Text) :
    (elements.map fun element => (element.1, Int32.ofInt element.2)).foldl
        (fun code element =>
          defineLine (structname ++ ['.'] ++ element.1)
              (offsetText element.2) ::
            defineLine element.1 (offsetText element.2) :: code)
        code =
      (elements.reverse.flatMap fun element =>
        [defineLine (structname ++ ['.'] ++ element.1)
            (intToHex element.2.toNat 1),
          defineLine element.1 (intToHex element.2.toNat 1)]) ++ code := by
  induction elements generalizing code with
  | nil => rfl
  | cons element rest ih =>
    rw [forall_mem_cons] at helements
    have htext := offsetText_eq helements.1.1 helements.1.2
    rw [map_cons, foldl_cons, ih helements.2, htext,
      reverse_cons, flatMap_append]
    simp

theorem insertDefines_eq {structname : Text} {total : ℤ} (hlow : 0 ≤ total)
    (hhigh : total < 2 ^ 31)
    (helements : ∀ element ∈ elements, 0 ≤ element.2 ∧ element.2 ≤ total)
    (rest : List Text) :
    insertDefines structname
        ⟨Int32.ofInt total, elements.map fun element =>
          (element.1, Int32.ofInt element.2)⟩ rest =
      definitions structname elements total ++ rest := by
  have hbounds : ∀ element ∈ elements,
      0 ≤ element.2 ∧ element.2 < 2 ^ 31 := by
    intro element hmem
    have helement := helements element hmem
    exact ⟨helement.1, by omega⟩
  rw [insertDefines, foldl_defines hbounds, offsetText_eq hlow hhigh]
  rfl

theorem replaceStructWithDefines_eq (isOpcode : Text → Bool)
    (before : List Text) (line : Text) (after : List Text) :
    replaceStructWithDefines isOpcode (before ++ line :: after) before.length =
      match readBlock isOpcode (structName line) before.length ⟨0, []⟩
          after with
      | .error error => (some error, before ++ line :: after)
      | .ok (state, rest) =>
        (none, before ++ insertDefines (structName line) state rest) := by
  rw [replaceStructWithDefines, getD_append_right _ _ _ _ (le_refl _),
    Nat.sub_self, take_left, append_cons before,
    ← length_singleton (a := line), ← length_append, drop_left]
  rfl

theorem readBlock_of_hasBlock {mark : Text → Prop} {copies : Int32 → Prop}
    {isOpcode : Text → Bool} {lines : List Text} {total : ℤ}
    {rest : List Text}
    (hblock : HasBlock mark copies isOpcode lines elements total rest)
    (structname : Text) (linenr : ℕ) :
    readBlock isOpcode structname linenr ⟨0, []⟩ lines =
      .ok (⟨Int32.ofInt total, elements.map fun element =>
        (element.1, Int32.ofInt element.2)⟩, rest) := by
  obtain ⟨body, endLine, rfl, hend, hbody⟩ := hblock
  exact readBlock_body hbody hend structname linenr [] rest

/-- A block is replaced if and only if, when it can be read with any token as
a mark and any number of copies, it is well formed. -/
theorem replacesBlock_iff (isOpcode : Text → Bool) (before : List Text)
    (line : Text) (after : List Text) :
    ReplacesBlock isOpcode before line after ↔
      (LooseBlock isOpcode after → ∃ elements total rest,
        WellFormedBlock isOpcode after elements total rest) := by
  unfold ReplacesBlock
  dsimp only
  rw [replaceStructWithDefines_eq]
  constructor
  · rintro ⟨-, hraises⟩ ⟨elements, total, rest, hblock⟩
    by_contra hnone
    have hraised := (hraises hnone).1
    rw [readBlock_of_hasBlock hblock] at hraised
    exact hraised rfl
  · intro hcondition
    refine ⟨?_, fun hnone => ?_⟩
    · intro elements total rest hblock hhigh
      rw [readBlock_of_hasBlock hblock]
      obtain ⟨body, endLine, -, -, hbody⟩ := hblock
      have hoffsets := hbody.offsets
      dsimp only
      rw [insertDefines_eq hoffsets.1 hhigh hoffsets.2, List.append_assoc]
    · cases hread : readBlock isOpcode (structName line) before.length
          ⟨0, []⟩ after with
      | error error => exact ⟨Option.some_ne_none error, rfl⟩
      | ok last =>
        exfalso
        obtain ⟨body, endLine, elements, total, hlines, hend, hbody⟩ :=
          readBlock_ok hread 0
        exact hnone (hcondition
          ⟨elements, total, last.2, body, endLine, hlines, hend, hbody⟩)

theorem not_declares_number :
    ¬ ∃ total, Declares (fun token => token = ['?'])
      (fun count => 0 ≤ count.toInt) ["db".toList, "5".toList] total := by
  have htoken : sizeToken (upperCase "db".toList) = .define 1 := by decide
  rintro ⟨total, hdeclares⟩
  generalize htokens : ["db".toList, "5".toList] = tokens at hdeclares
  cases hdeclares with
  | nil => cases htokens
  | reserve hreserve =>
    obtain ⟨rfl, -⟩ := List.cons.inj htokens
    rw [htoken] at hreserve
    cases hreserve
  | define _ hfirst =>
    obtain ⟨-, hrest⟩ := List.cons.inj htokens
    obtain ⟨rfl, -⟩ := List.cons.inj hrest
    exact absurd hfirst (by decide)

theorem not_wellFormed_number :
    ¬ ∃ elements total rest, WellFormedBlock (fun _ => false)
      ["db 5".toList, "endstruct".toList] elements total rest := by
  rintro ⟨elements, total, rest, body, endLine, hlines, hend, hbody⟩
  have htokens : tokenizeStruct "db 5".toList =
      ["db".toList, "5".toList] := by
    decide
  cases hbody with
  | nil =>
    obtain ⟨rfl, -⟩ := List.cons.inj hlines
    rw [htokens] at hend
    revert hend
    decide
  | line hline =>
    obtain ⟨rfl, -⟩ := List.cons.inj hlines
    rw [htokens] at hline
    cases hline with
    | sizes _ _ hsizes => exact not_declares_number ⟨_, hsizes⟩
    | label hfirst => exact absurd hfirst (by decide)

theorem not_replacesBlock :
    replaceStructWithDefines (fun _ => false)
        ["struct s".toList, "db 5".toList, "endstruct".toList] 0 =
        (none, ["define(s_size,1)".toList]) ∧
      ¬ ReplacesBlock (fun _ => false) [] "struct s".toList
        ["db 5".toList, "endstruct".toList] := by
  have hresult : replaceStructWithDefines (fun _ => false)
      ["struct s".toList, "db 5".toList, "endstruct".toList] 0 =
      (none, ["define(s_size,1)".toList]) := by
    decide
  refine ⟨hresult, fun hreplaces => ?_⟩
  have hraises := (hreplaces.2 not_wellFormed_number).1
  exact hraises (congrArg Prod.fst hresult)

end CheatEngine.AutoAssembler
