import CheatEngine.SignedExpressions
import Mathlib.Data.BitVec

/-!
# The passes of the address parser

The tokenizer stores which tokens are values and which are separators, and
the values and the separators in two arrays of their own.  Three passes then
shrink these arrays, and the values that remain are added.
-/

namespace CheatEngine.AddressParser

open SignedExpressions
open List hiding Chain

/-! ## The source -/

inductive Kind
  | seperator
  | value
deriving DecidableEq, Repr

abbrev TSeperator := Operator

structure TAddressParser where
  total : List Kind
  values : List (BitVec 64)
  seperators : List TSeperator
deriving DecidableEq

inductive Simplified
  | unchanged
  | changed (parser : TAddressParser)
  | outside
deriving DecidableEq

def removeAt {α : Type*} (xs : List α) (index : Nat) : List α :=
  if index < xs.length then xs.eraseIdx index else xs.dropLast

/-- Removes a separator and the value after it.  The loop that moves the
rest down does not run when there is one token behind these two. -/
def removeTwo (total : List Kind) (index : Nat) : List Kind :=
  if index + 4 ≤ total.length then
    total.take index ++ total.drop (index + 2)
  else
    total.take (total.length - 2)

def simplify1Loop (parser : TAddressParser) :
    List Kind → Nat → Nat → Simplified
  | [], _, _ => .unchanged
  | .seperator :: rest, scount, vcount =>
    match parser.seperators[scount]? with
    | none => .outside
    | some .minus =>
      match parser.values[vcount]? with
      | none => .outside
      | some value => .changed
          { parser with
            values := parser.values.set vcount (-value)
            seperators := parser.seperators.set scount .plus }
    | some _ => simplify1Loop parser rest (scount + 1) vcount
  | .value :: rest, scount, vcount =>
    simplify1Loop parser rest scount (vcount + 1)

def simplify1 (parser : TAddressParser) : Simplified :=
  simplify1Loop parser parser.total 0 0

def simplify2Loop (parser : TAddressParser) :
    List Kind → Nat → Nat → Simplified
  | .seperator :: .seperator :: _, i, scount =>
    match parser.seperators[scount]? with
    | none => .outside
    | some .plus => .changed
        { parser with
          seperators := removeAt parser.seperators scount
          total := removeAt parser.total i }
    | some _ => .changed
        { parser with
          seperators := removeAt parser.seperators (scount + 1)
          total := removeAt parser.total (i + 1) }
  | .seperator :: .value :: rest, i, scount =>
    simplify2Loop parser (.value :: rest) (i + 1) (scount + 1)
  | .value :: next :: rest, i, scount =>
    simplify2Loop parser (next :: rest) (i + 1) scount
  | _, _, _ => .unchanged

/-- Finds two separators next to each other and removes one of them. -/
def simplify2 (parser : TAddressParser) : Simplified :=
  simplify2Loop parser parser.total 0 0

def multiplyValues (parser : TAddressParser) (i scount vcount : Nat) :
    Simplified :=
  match vcount with
  | 0 => .outside
  | previous + 1 =>
    match parser.values[previous]?, parser.values[vcount]? with
    | some first, some second => .changed
        { total := removeTwo parser.total i
          values :=
            removeAt (parser.values.set previous (first * second)) vcount
          seperators := removeAt parser.seperators scount }
    | _, _ => .outside

def simplify3Loop (parser : TAddressParser) :
    List Kind → Nat → Nat → Nat → Simplified
  | [], _, _, _ => .unchanged
  | .seperator :: rest, i, scount, vcount =>
    match parser.seperators[scount]? with
    | none => .outside
    | some .multiply => multiplyValues parser i scount vcount
    | some _ => simplify3Loop parser rest (i + 1) (scount + 1) vcount
  | .value :: rest, i, scount, vcount =>
    simplify3Loop parser rest (i + 1) scount (vcount + 1)

def simplify3 (parser : TAddressParser) : Simplified :=
  simplify3Loop parser parser.total 0 0 0

inductive Failure
  | invalidAddress
  | outside
deriving DecidableEq, Repr

def whileChanged (simplify : TAddressParser → Simplified) :
    Nat → TAddressParser → Option (Except Failure TAddressParser)
  | 0, _ => none
  | turns + 1, parser =>
    match simplify parser with
    | .unchanged => some (.ok parser)
    | .changed next => whileChanged simplify turns next
    | .outside => some (.error .outside)

def kind : Token (BitVec 64) → Kind
  | .value _ => .value
  | .operator _ => .seperator

def value? : Token (BitVec 64) → Option (BitVec 64)
  | .value value => some value
  | .operator _ => none

def seperator? : Token (BitVec 64) → Option TSeperator
  | .value _ => none
  | .operator operator => some operator

def ofTokens (tokens : List (Token (BitVec 64))) : TAddressParser where
  total := tokens.map kind
  values := tokens.filterMap value?
  seperators := tokens.filterMap seperator?

def initial (tokens : List (Token (BitVec 64))) : TAddressParser :=
  ofTokens (.value 0 :: .operator .plus :: tokens)

def thenWhileChanged (simplify : TAddressParser → Simplified)
    (turns : Nat) : Option (Except Failure TAddressParser) →
    Option (Except Failure TAddressParser)
  | some (.ok parser) => whileChanged simplify turns parser
  | other => other

def getaddress (turns : Nat) (tokens : List (Token (BitVec 64))) :
    Option (Except Failure (BitVec 64)) :=
  let first := whileChanged simplify1 turns (initial tokens)
  let second := thenWhileChanged simplify2 turns first
  let third := thenWhileChanged simplify3 turns second
  third.map fun result => result.map fun parser => parser.values.sum

def scount (tokens : List (Token (BitVec 64))) : Nat :=
  (tokens.filterMap seperator?).length

def vcount (tokens : List (Token (BitVec 64))) : Nat :=
  (tokens.filterMap value?).length

def operatorTokens (operators : List TSeperator) :
    List (Token (BitVec 64)) :=
  operators.map .operator

section

variable (before after : List (Token (BitVec 64)))

@[simp]
theorem scount_append :
    scount (before ++ after) = scount before + scount after := by
  rw [scount, filterMap_append, length_append]
  rfl

@[simp]
theorem vcount_append :
    vcount (before ++ after) = vcount before + vcount after := by
  rw [vcount, filterMap_append, length_append]
  rfl

variable (operator : TSeperator) (operators : List TSeperator)
  (value : BitVec 64)

@[simp]
theorem values_value :
    (.value value :: after).filterMap value? =
      value :: after.filterMap value? :=
  rfl

@[simp]
theorem values_operator :
    (.operator operator :: after).filterMap value? = after.filterMap value? :=
  rfl

@[simp]
theorem seperators_value :
    (.value value :: after).filterMap seperator? =
      after.filterMap seperator? :=
  rfl

@[simp]
theorem seperators_operator :
    (.operator operator :: after).filterMap seperator? =
      operator :: after.filterMap seperator? :=
  rfl

@[simp]
theorem values_operatorTokens :
    (operatorTokens operators).filterMap value? = [] := by
  rw [operatorTokens, filterMap_map]
  exact filterMap_eq_nil_iff.mpr fun _ _ => rfl

@[simp]
theorem seperators_operatorTokens :
    (operatorTokens operators).filterMap seperator? = operators := by
  rw [operatorTokens, filterMap_map]
  exact filterMap_some

theorem seperators_at :
    (ofTokens (before ++ .operator operator :: after)).seperators[
      scount before]? = some operator := by
  simp [ofTokens, scount]

theorem values_at :
    (ofTokens (before ++ operatorTokens operators ++
      .value value :: after)).values[vcount before]? = some value := by
  simp [ofTokens, vcount]

end

theorem loop_skip {α β : Type*} {loop : List α → List α → β} {all : List α}
    {passed : α → Prop}
    (hstep : ∀ done element rest, done ++ element :: rest = all →
      passed element →
      loop done (element :: rest) = loop (done ++ [element]) rest)
    (done before after : List α) (hall : done ++ (before ++ after) = all)
    (hpassed : ∀ element ∈ before, passed element) :
    loop done (before ++ after) = loop (done ++ before) after := by
  induction before generalizing done with
  | nil => rw [append_nil, nil_append]
  | cons element before ih =>
    obtain ⟨hfirst, hlater⟩ := forall_mem_cons.mp hpassed
    have hnext : done ++ [element] ++ (before ++ after) = all := by
      rw [← hall, append_assoc, singleton_append, cons_append]
    have hfirstStep := hstep done element (before ++ after) hall hfirst
    rw [cons_append, hfirstStep, ih (done ++ [element]) hnext hlater,
      append_assoc, singleton_append]

variable {token : Token (BitVec 64)}
  {operations : List (Operation (BitVec 64))} {chain : Chain}
  (expression : Expression (BitVec 64)) (first value : BitVec 64)
  (operator : Operator)

theorem simplify1Loop_step (done rest : List (Token (BitVec 64)))
    (hminus : token ≠ .operator .minus) :
    simplify1Loop (ofTokens (done ++ token :: rest))
        ((token :: rest).map kind) (scount done) (vcount done) =
      simplify1Loop (ofTokens (done ++ token :: rest)) (rest.map kind)
        (scount (done ++ [token])) (vcount (done ++ [token])) := by
  rw [map_cons, scount_append, vcount_append]
  cases token with
  | value value => rfl
  | operator operator =>
    rw [kind, simplify1Loop, seperators_at]
    cases operator with
    | minus => exact absurd rfl hminus
    | plus => rfl
    | multiply => rfl

theorem simplify1_skip {before after : List (Token (BitVec 64))}
    (hminus : Token.operator .minus ∉ before) :
    simplify1 (ofTokens (before ++ after)) =
      simplify1Loop (ofTokens (before ++ after)) (after.map kind)
        (scount before) (vcount before) := by
  refine @loop_skip _ _ (fun done rest => simplify1Loop
    (ofTokens (before ++ after)) (rest.map kind) (scount done) (vcount done))
    _ (· ≠ .operator .minus) ?_ [] before after rfl
    (fun token htoken => ne_of_mem_of_not_mem htoken hminus)
  intro done token rest hall htoken
  rw [nil_append] at hall
  rw [← hall]
  exact simplify1Loop_step done rest htoken

theorem simplify1_unchanged {tokens : List (Token (BitVec 64))}
    (hminus : Token.operator .minus ∉ tokens) :
    simplify1 (ofTokens tokens) = .unchanged := by
  have hskip := @simplify1_skip tokens [] hminus
  rw [append_nil] at hskip
  exact hskip

theorem simplify1_changed {before : List (Token (BitVec 64))}
    (after : List (Token (BitVec 64))) (operators : List TSeperator)
    (value : BitVec 64) (hminus : Token.operator .minus ∉ before) :
    simplify1 (ofTokens (before ++ .operator .minus ::
        (operatorTokens operators ++ .value value :: after))) =
      .changed (ofTokens (before ++ .operator .plus ::
        (operatorTokens operators ++ .value (-value) :: after))) := by
  have hvalue := values_at before after (.minus :: operators) value
  rw [append_assoc, operatorTokens, map_cons,
    cons_append, ← operatorTokens] at hvalue
  rw [simplify1_skip hminus, map_cons, kind, simplify1Loop, seperators_at]
  dsimp only
  rw [hvalue]
  simp [ofTokens, scount, vcount, kind]

theorem removeAt_append {α : Type*} (before after : List α) (element : α) :
    removeAt (before ++ element :: after) before.length =
      before ++ after := by
  rw [removeAt, if_pos (by simp), eraseIdx_append_of_length_le (by rfl),
    Nat.sub_self]
  rfl

theorem remove_operator (before after : List (Token (BitVec 64)))
    (operator : TSeperator) :
    let parser := ofTokens (before ++ .operator operator :: after)
    { parser with
      seperators := removeAt parser.seperators (scount before)
      total := removeAt parser.total before.length } =
      ofTokens (before ++ after) := by
  have hseperators := removeAt_append (before.filterMap seperator?)
    (after.filterMap seperator?) operator
  have htotal := removeAt_append (before.map kind) (after.map kind)
    .seperator
  rw [length_map] at htotal
  simp [ofTokens, scount, kind, hseperators, htotal]

def Plain (operations : List (Operation (BitVec 64))) : Prop :=
  ∀ operation ∈ operations, operation.factor.signs = []

theorem simplify2Loop_skip (parser : TAddressParser)
    (hplain : Plain operations) (rest : List Kind) (i scount : Nat) :
    simplify2Loop parser
        (.value :: ((operationTokens operations).map kind ++ rest)) i scount =
      simplify2Loop parser (.value :: rest)
        (i + (operationTokens operations).length)
        (scount + operations.length) := by
  induction operations generalizing i scount with
  | nil => rfl
  | cons operation operations ih =>
    rw [Plain, forall_mem_cons] at hplain
    rcases operation with ⟨operator, signs, value⟩
    obtain ⟨rfl, hrest⟩ := hplain
    have hoperation := ih hrest (i + 2) (scount + 1)
    rw [Nat.add_assoc i, Nat.add_comm 2, Nat.add_assoc scount,
      Nat.add_comm 1] at hoperation
    exact hoperation

theorem scount_operationTokens (hplain : Plain operations)
    (first : BitVec 64) :
    scount (.value first :: operationTokens operations) =
      operations.length := by
  induction operations with
  | nil => rfl
  | cons operation operations ih =>
    rw [Plain, forall_mem_cons] at hplain
    rcases operation with ⟨operator, signs, value⟩
    obtain ⟨rfl, hrest⟩ := hplain
    exact congrArg (· + 1) (ih hrest)

theorem simplify2_unchanged (hplain : Plain operations) (first : BitVec 64) :
    simplify2 (ofTokens (.value first :: operationTokens operations)) =
      .unchanged := by
  have hskip := simplify2Loop_skip
    (ofTokens (.value first :: operationTokens operations)) hplain [] 0 0
  rw [append_nil] at hskip
  exact hskip

theorem simplify2_changed (hplain : Plain operations) (first : BitVec 64)
    (operator : TSeperator) (after : List (Token (BitVec 64))) :
    simplify2 (ofTokens (.value first :: operationTokens operations ++
        .operator operator :: .operator .plus :: after)) =
      .changed (ofTokens (.value first :: operationTokens operations ++
        .operator operator :: after)) := by
  have hskip := simplify2Loop_skip
    (ofTokens (.value first :: operationTokens operations ++
      .operator operator :: .operator .plus :: after)) hplain
    (.seperator :: .seperator :: after.map kind) 0 0
  have hcount := scount_operationTokens hplain first
  generalize hbefore : .value first :: operationTokens operations = before
    at hskip hcount ⊢
  have hat := seperators_at before (.operator .plus :: after) operator
  have hfirst := remove_operator before (.operator .plus :: after) operator
  have hsecond := remove_operator (before ++ [.operator operator]) after
    .plus
  have hlength : (operationTokens operations).length + 1 =
      before.length := by
    rw [← hbefore, length_cons]
  rw [hcount] at hat
  rw [Nat.zero_add, Nat.zero_add, simplify2Loop, simplify2Loop, hat,
    ← hcount, hlength] at hskip
  have hmap : (before ++ .operator operator :: .operator .plus ::
      after).map kind = .value :: ((operationTokens operations).map kind ++
        .seperator :: .seperator :: after.map kind) := by
    rw [← hbefore]
    exact map_append
  rw [← hmap] at hskip
  refine hskip.trans ?_
  rw [scount_append, length_append, ← append_cons, ← append_cons] at hsecond
  cases operator with
  | plus => exact congrArg _ hfirst
  | minus => exact congrArg _ hsecond
  | multiply => exact congrArg _ hsecond

theorem simplify3Loop_step (done rest : List (Token (BitVec 64)))
    (hmultiply : token ≠ .operator .multiply) :
    simplify3Loop (ofTokens (done ++ token :: rest))
        ((token :: rest).map kind) done.length (scount done) (vcount done) =
      simplify3Loop (ofTokens (done ++ token :: rest)) (rest.map kind)
        (done ++ [token]).length (scount (done ++ [token]))
        (vcount (done ++ [token])) := by
  rw [map_cons, scount_append, vcount_append, length_append]
  cases token with
  | value value => rfl
  | operator operator =>
    rw [kind, simplify3Loop, seperators_at]
    cases operator with
    | multiply => exact absurd rfl hmultiply
    | plus => rfl
    | minus => rfl

theorem simplify3_skip {before after : List (Token (BitVec 64))}
    (hmultiply : Token.operator .multiply ∉ before) :
    simplify3 (ofTokens (before ++ after)) =
      simplify3Loop (ofTokens (before ++ after)) (after.map kind)
        before.length (scount before) (vcount before) := by
  refine @loop_skip _ _ (fun done rest => simplify3Loop
    (ofTokens (before ++ after)) (rest.map kind) done.length (scount done)
    (vcount done)) _ (· ≠ .operator .multiply) ?_ [] before after rfl
    (fun token htoken => ne_of_mem_of_not_mem htoken hmultiply)
  intro done token rest hall htoken
  rw [nil_append] at hall
  rw [← hall]
  exact simplify3Loop_step done rest htoken

theorem simplify3_unchanged {tokens : List (Token (BitVec 64))}
    (hmultiply : Token.operator .multiply ∉ tokens) :
    simplify3 (ofTokens tokens) = .unchanged := by
  have hskip := @simplify3_skip tokens [] hmultiply
  rw [append_nil] at hskip
  exact hskip

theorem removeTwo_append (before after : List Kind) (first second : Kind)
    (hafter : after.length ≠ 1) :
    removeTwo (before ++ first :: second :: after) before.length =
      before ++ after := by
  rw [removeTwo]
  split_ifs with hlong
  · rw [take_left, drop_append]
    simp
  · have hnil : after = [] := by
      apply length_eq_zero_iff.mp
      rw [length_append, length_cons, length_cons] at hlong
      omega
    subst hnil
    simp

theorem multiplyValues_changed (before after : List (Token (BitVec 64)))
    (first second : BitVec 64) (hafter : after.length ≠ 1) :
    multiplyValues
        (ofTokens (before ++ .value first :: .operator .multiply ::
          .value second :: after))
        (before.length + 1) (scount before) (vcount before + 1) =
      .changed (ofTokens (before ++ .value (first * second) :: after)) := by
  have htotal := removeTwo_append (before.map kind ++ [.value])
    (after.map kind) .seperator .value (by rwa [length_map])
  have hvalues := removeAt_append
    (before.filterMap value? ++ [first * second])
    (after.filterMap value?) second
  have hseperators := removeAt_append (before.filterMap seperator?)
    (after.filterMap seperator?) .multiply
  simp only [append_assoc, cons_append, nil_append, length_append, length_cons,
    length_nil, length_map, Nat.zero_add] at htotal hvalues
  simp [multiplyValues, ofTokens, scount, vcount, kind, htotal, hvalues,
    hseperators]

theorem simplify3_changed {before : List (Token (BitVec 64))}
    (after : List (Token (BitVec 64))) (first second : BitVec 64)
    (hmultiply : Token.operator .multiply ∉ before)
    (hafter : after.length ≠ 1) :
    simplify3 (ofTokens (before ++ .value first :: .operator .multiply ::
        .value second :: after)) =
      .changed (ofTokens (before ++ .value (first * second) :: after)) := by
  have hnone : Token.operator .multiply ∉ before ++ [.value first] := by
    simpa using hmultiply
  have hchanged := multiplyValues_changed before after first second hafter
  rw [append_cons] at hchanged ⊢
  rw [simplify3_skip hnone, map_cons, kind, simplify3Loop,
    seperators_at, scount_append, vcount_append, length_append]
  exact hchanged

abbrev Chain := BitVec 64 × List (Operation (BitVec 64))

def Chain.tokens (chain : Chain) : List (Token (BitVec 64)) :=
  .value chain.1 :: operationTokens chain.2

def Chain.parser (chain : Chain) : TAddressParser :=
  ofTokens chain.tokens

def Chain.result (chain : Chain) : BitVec 64 :=
  operationResult chain.1 chain.2

/-- A pass either finds nothing, or it changes the arrays to those of a
smaller chain with the same value. -/
structure Pass (simplify : TAddressParser → Simplified)
    (size : Chain → Nat) (Keeps Done : Chain → Prop) : Prop where
  step : ∀ chain, Keeps chain →
    (simplify chain.parser = .unchanged ∧ Done chain) ∨
      ∃ next : Chain, simplify chain.parser = .changed next.parser ∧
        Keeps next ∧ size next < size chain ∧ next.result = chain.result

theorem Pass.finishes {simplify : TAddressParser → Simplified}
    {size : Chain → Nat} {Keeps Done : Chain → Prop}
    (hpass : Pass simplify size Keeps Done) (turns : Nat) (chain : Chain)
    (hkeeps : Keeps chain) (hturns : size chain < turns) :
    ∃ last : Chain,
      whileChanged simplify turns chain.parser = some (.ok last.parser) ∧
        Keeps last ∧ Done last ∧ last.result = chain.result := by
  induction turns generalizing chain with
  | zero => exact absurd hturns (Nat.not_lt_zero _)
  | succ turns ih =>
    rcases hpass.step chain hkeeps with
      ⟨hunchanged, hdone⟩ | ⟨next, hchanged, hnext, hsize, hresult⟩
    · refine ⟨chain, ?_, hkeeps, hdone, rfl⟩
      rw [whileChanged, hunchanged]
    · obtain ⟨last, hlast, hlastKeeps, hdone, hlastResult⟩ :=
        ih next hnext (by omega)
      refine ⟨last, ?_, hlastKeeps, hdone, hlastResult.trans hresult⟩
      rw [whileChanged, hchanged]
      exact hlast

theorem first_operation (holds : Operation (BitVec 64) → Prop)
    (operations : List (Operation (BitVec 64))) :
    (∀ operation ∈ operations, ¬ holds operation) ∨
      ∃ before operation after,
        operations = before ++ operation :: after ∧ holds operation ∧
          ∀ operation ∈ before, ¬ holds operation := by
  classical
  cases hfind : operations.find? fun operation => holds operation with
  | none =>
    left
    simpa using hfind
  | some operation =>
    right
    rw [find?_eq_some_iff_append] at hfind
    obtain ⟨hholds, before, after, heq, hbefore⟩ := hfind
    refine ⟨before, operation, after, heq, by simpa using hholds, ?_⟩
    intro other hother
    simpa using hbefore other hother

theorem mem_operationTokens :
    token ∈ operationTokens operations ↔
      ∃ operation ∈ operations, token ∈ operation.tokens :=
  mem_flatMap

theorem signTokens_eq (signs : List Sign) :
    signTokens signs = operatorTokens (signs.map Sign.operator) := by
  rw [operatorTokens, map_map]
  rfl

def minuses (chain : Chain) : Nat :=
  chain.tokens.count (.operator .minus)

def AtMost (bound : Nat) (chain : Chain) : Prop :=
  chain.tokens.length ≤ bound

def WithoutMinus (chain : Chain) : Prop :=
  Token.operator .minus ∉ chain.tokens

theorem accumulate_minus (signs : List Sign) (value : BitVec 64)
    (state : BitVec 64 × BitVec 64) :
    Operation.accumulate state ⟨.minus, ⟨signs, value⟩⟩ =
      Operation.accumulate state ⟨.plus, ⟨signs, -value⟩⟩ :=
  Prod.ext rfl (applySigns_neg signs value).symm

theorem result_minus (before after : List Sign) (value : BitVec 64) :
    Factor.result ⟨before ++ .minus :: after, value⟩ =
      Factor.result ⟨before ++ .plus :: after, -value⟩ := by
  rw [Factor.result, Factor.result, applySigns_append, applySigns_append]
  exact congrArg _ (applySigns_neg after value).symm

theorem accumulate_congr {operator : Operator}
    {factor other : Factor (BitVec 64)} (heq : factor.result = other.result)
    (state : BitVec 64 × BitVec 64) :
    Operation.accumulate state ⟨operator, factor⟩ =
      Operation.accumulate state ⟨operator, other⟩ := by
  rw [Operation.accumulate, Operation.accumulate, heq]

theorem tokens_middle (signs : List Sign)
    (before after : List (Operation (BitVec 64))) :
    Chain.tokens (first, before ++ ⟨operator, ⟨signs, value⟩⟩ :: after) =
      Chain.tokens (first, before) ++ .operator operator ::
        (operatorTokens (signs.map Sign.operator) ++
          .value value :: operationTokens after) := by
  simp [Chain.tokens, operationTokens, Operation.tokens, Factor.tokens,
    signTokens_eq]

theorem tokens_sign (front back : List Sign) (sign : Sign)
    (before after : List (Operation (BitVec 64))) :
    Chain.tokens (first,
        before ++ ⟨operator, ⟨front ++ sign :: back, value⟩⟩ :: after) =
      (Chain.tokens (first, before) ++ .operator operator ::
        operatorTokens (front.map Sign.operator)) ++
          .operator sign.operator ::
            (operatorTokens (back.map Sign.operator) ++
              .value value :: operationTokens after) := by
  rw [tokens_middle, map_append, operatorTokens, map_append]
  simp [operatorTokens]

theorem minus_mem_signs {operator : Operator} {signs : List Sign}
    {value : BitVec 64} (hoperator : operator ≠ .minus)
    (hminus : Token.operator .minus ∈
      Operation.tokens ⟨operator, ⟨signs, value⟩⟩) :
    Sign.minus ∈ signs := by
  rw [Operation.tokens, Factor.tokens, signTokens] at hminus
  simp only [mem_cons, mem_append, mem_map,
    not_mem_nil, Token.operator.injEq, reduceCtorEq, or_false]
    at hminus
  rcases hminus with heq | ⟨sign, hsign, heq⟩
  · exact absurd heq.symm hoperator
  · cases sign with
    | minus => exact hsign
    | plus => cases heq

theorem simplify1_step {bound : Nat} {next : Chain}
    {before after : List (Token (BitVec 64))} {operators : List TSeperator}
    {value : BitVec 64} (hminus : Token.operator .minus ∉ before)
    (hchain : chain.tokens = before ++ .operator .minus ::
      (operatorTokens operators ++ .value value :: after))
    (hnext : next.tokens = before ++ .operator .plus ::
      (operatorTokens operators ++ .value (-value) :: after))
    (hbound : AtMost bound chain) :
    simplify1 chain.parser = .changed next.parser ∧ AtMost bound next ∧
      minuses next < minuses chain := by
  refine ⟨?_, ?_, ?_⟩
  · rw [Chain.parser, Chain.parser, hchain, hnext]
    exact simplify1_changed after operators value hminus
  · rw [AtMost, hchain] at hbound
    rw [AtMost, hnext]
    simpa using hbound
  · rw [minuses, minuses, hchain, hnext]
    simp

theorem pass_simplify1 (bound : Nat) :
    Pass simplify1 minuses (AtMost bound) WithoutMinus where
  step := by
    rintro ⟨first, operations⟩ hbound
    rcases first_operation (Token.operator .minus ∈ ·.tokens) operations with
      hnone | ⟨before, operation, after, rfl, hminus, hbefore⟩
    · left
      have hwithout : WithoutMinus (first, operations) := by
        simpa [WithoutMinus, Chain.tokens, mem_operationTokens] using hnone
      exact ⟨simplify1_unchanged hwithout, hwithout⟩
    · right
      have hnone : Token.operator .minus ∉
          Chain.tokens (first, before) := by
        simpa [Chain.tokens, mem_operationTokens] using hbefore
      rcases operation with ⟨operator, signs, value⟩
      by_cases hoperator : operator = .minus
      · subst hoperator
        have hstep := simplify1_step hnone
          (tokens_middle first value .minus signs before after)
          (tokens_middle first (-value) .plus signs before after) hbound
        have hresult := operationResult_exchange
          (accumulate_minus signs value) first before after
        exact ⟨_, hstep.1, hstep.2.1, hstep.2.2, hresult.symm⟩
      · have hsign := minus_mem_signs hoperator hminus
        obtain ⟨front, back, rfl, hfront⟩ :=
          eq_append_cons_of_mem hsign
        have hnoneFront : Token.operator .minus ∉
            Chain.tokens (first, before) ++ .operator operator ::
              operatorTokens (front.map Sign.operator) := by
          have hsigns : Operator.minus ∉ front.map Sign.operator := by
            rw [mem_map]
            rintro ⟨sign, hmem, heq⟩
            cases sign with
            | minus => exact hfront hmem
            | plus => cases heq
          simpa [hnone, operatorTokens, eq_comm, hoperator] using hsigns
        have hstep := simplify1_step hnoneFront
          (tokens_sign first value operator front back .minus before after)
          (tokens_sign first (-value) operator front back .plus before after)
          hbound
        have hresult := operationResult_exchange
          (@accumulate_congr operator _ _ (result_minus front back value))
          first before after
        exact ⟨_, hstep.1, hstep.2.1, hstep.2.2, hresult.symm⟩

theorem tokens_plus (signs : List Sign)
    (before after : List (Operation (BitVec 64))) :
    Chain.tokens (first,
        before ++ ⟨operator, ⟨.plus :: signs, value⟩⟩ :: after) =
      Chain.tokens (first, before) ++ .operator operator ::
        .operator .plus :: (operatorTokens (signs.map Sign.operator) ++
          .value value :: operationTokens after) :=
  tokens_middle first value operator (.plus :: signs) before after

theorem simplify2_plus {bound : Nat} {first value : BitVec 64}
    {operator : Operator} {signs : List Sign}
    {before after : List (Operation (BitVec 64))} (hplain : Plain before) :
    let chain : Chain :=
      (first, before ++ ⟨operator, ⟨.plus :: signs, value⟩⟩ :: after)
    let next : Chain :=
      (first, before ++ ⟨operator, ⟨signs, value⟩⟩ :: after)
    AtMost bound chain ∧ WithoutMinus chain →
      simplify2 chain.parser = .changed next.parser ∧
        (AtMost bound next ∧ WithoutMinus next) ∧
          next.tokens.length < chain.tokens.length := by
  intro chain next
  have hchain := tokens_plus first value operator signs before after
  have hnext := tokens_middle first value operator signs before after
  have hchanged := simplify2_changed hplain first operator
    (operatorTokens (signs.map Sign.operator) ++
      .value value :: operationTokens after)
  simp only [Chain.parser, AtMost, WithoutMinus, chain, next, hchain, hnext]
  rintro ⟨hbound, hwithout⟩
  refine ⟨hchanged, ⟨?_, ?_⟩, ?_⟩
  · rw [length_append, length_cons] at hbound ⊢
    exact (Nat.add_le_add_left (Nat.le_succ _) _).trans hbound
  · rw [mem_append, mem_cons] at hwithout ⊢
    rintro (hmem | heq | hmem)
    · exact hwithout (.inl hmem)
    · exact hwithout (.inr (.inl heq))
    · exact hwithout (.inr (.inr (mem_cons_of_mem _ hmem)))
  · rw [length_append, length_append]
    exact Nat.add_lt_add_left (Nat.lt_succ_self _) _

theorem pass_simplify2 (bound : Nat) :
    Pass simplify2 (fun chain => chain.tokens.length)
      (fun chain => AtMost bound chain ∧ WithoutMinus chain)
      fun chain => Plain chain.2 where
  step := by
    rintro ⟨first, operations⟩ hkeeps
    rcases first_operation (·.factor.signs ≠ []) operations with
      hnone | ⟨before, operation, after, rfl, hsigns, hbefore⟩
    · left
      have hplain : Plain operations := by simpa [Plain] using hnone
      exact ⟨simplify2_unchanged hplain first, hplain⟩
    · right
      have hplain : Plain before := by simpa [Plain] using hbefore
      rcases operation with ⟨operator, signs, value⟩
      rcases signs with _ | ⟨sign, signs⟩
      · exact absurd rfl hsigns
      · cases sign with
        | minus =>
          exfalso
          apply hkeeps.2
          rw [tokens_middle]
          simp [Sign.operator, operatorTokens]
        | plus =>
          have hstep := simplify2_plus hplain hkeeps
          have hresult := operationResult_exchange
            (@accumulate_congr operator ⟨.plus :: signs, value⟩
              ⟨signs, value⟩ rfl) first before after
          exact ⟨_, hstep.1, hstep.2.1, hstep.2.2, hresult.symm⟩

def Signless (chain : Chain) : Prop :=
  ∀ operation ∈ chain.2,
    operation.operator ≠ .minus ∧ operation.factor.signs = []

def Summed (chain : Chain) : Prop :=
  ∀ operation ∈ chain.2,
    operation.operator = .plus ∧ operation.factor.signs = []

theorem signless_of_plain (hwithout : WithoutMinus chain)
    (hplain : Plain chain.2) : Signless chain := by
  intro operation hmem
  refine ⟨fun hminus => hwithout ?_, hplain operation hmem⟩
  apply mem_cons_of_mem
  refine mem_operationTokens.mpr ⟨operation, hmem, ?_⟩
  rw [Operation.tokens, hminus]
  exact mem_cons_self

theorem plain_tokens {operation : Operation (BitVec 64)}
    (hsigns : operation.factor.signs = []) :
    operation.tokens =
      [.operator operation.operator, .value operation.factor.value] := by
  rw [Operation.tokens, Factor.tokens, hsigns]
  rfl

theorem operationTokens_length (hplain : Plain operations) :
    (operationTokens operations).length ≠ 1 := by
  cases operations with
  | nil => exact Nat.zero_ne_one
  | cons operation operations =>
    rw [Plain, forall_mem_cons] at hplain
    rw [operationTokens_cons, plain_tokens hplain.1]
    simp

theorem multiply_not_mem {first : BitVec 64} (hplain : Plain operations)
    (hoperators : ∀ operation ∈ operations, ¬ operation.operator = .multiply) :
    Token.operator .multiply ∉ Chain.tokens (first, operations) := by
  rw [Chain.tokens, mem_cons, not_or]
  refine ⟨by rintro ⟨⟩, fun hmem => ?_⟩
  obtain ⟨operation, hoperation, htoken⟩ := mem_operationTokens.mp hmem
  rw [plain_tokens (hplain operation hoperation)] at htoken
  have hmultiply : Operator.multiply = operation.operator := by
    simpa using htoken
  exact hoperators operation hoperation hmultiply.symm

theorem simplify3_first {first value : BitVec 64}
    {after : List (Operation (BitVec 64))} (hplain : Plain after) :
    simplify3 (Chain.parser (first, ⟨.multiply, ⟨[], value⟩⟩ :: after)) =
      .changed (Chain.parser (first * value, after)) :=
  @simplify3_changed [] (operationTokens after) first value
    not_mem_nil (operationTokens_length hplain)

theorem tokens_value (before after : List (Operation (BitVec 64))) :
    Chain.tokens (first, before ++ ⟨operator, ⟨[], value⟩⟩ :: after) =
      (Chain.tokens (first, before) ++ [.operator operator]) ++
        .value value :: operationTokens after := by
  rw [tokens_middle, ← append_cons]
  rfl

theorem simplify3_next {first value factor : BitVec 64}
    {before after : List (Operation (BitVec 64))}
    (hbefore : Token.operator .multiply ∉ Chain.tokens (first, before))
    (hplain : Plain after) :
    simplify3 (Chain.parser (first, before ++ ⟨.plus, ⟨[], value⟩⟩ ::
        ⟨.multiply, ⟨[], factor⟩⟩ :: after)) =
      .changed (Chain.parser (first,
        before ++ ⟨.plus, ⟨[], value * factor⟩⟩ :: after)) := by
  rw [Chain.parser, Chain.parser, tokens_value, tokens_value]
  apply simplify3_changed (operationTokens after) value factor
  · simpa using hbefore
  · exact operationTokens_length hplain

theorem pass_simplify3 :
    Pass simplify3 (fun chain => chain.2.length) Signless Summed where
  step := by
    rintro ⟨first, operations⟩ hsignless
    have hplain : Plain operations := fun operation hmem =>
      (hsignless operation hmem).2
    rcases first_operation (·.operator = .multiply) operations with
      hnone | ⟨before, operation, after, rfl, hmultiply, hbefore⟩
    · left
      refine ⟨simplify3_unchanged (multiply_not_mem hplain hnone), ?_⟩
      intro operation hmem
      refine ⟨?_, hplain operation hmem⟩
      have hminus := (hsignless operation hmem).1
      have hmultiply := hnone operation hmem
      cases hoperator : operation.operator with
      | plus => rfl
      | minus => exact absurd hoperator hminus
      | multiply => exact absurd hoperator hmultiply
    · right
      rcases operation with ⟨operator, signs, factor⟩
      obtain rfl : signs = [] := hplain ⟨operator, signs, factor⟩ (by simp)
      obtain rfl : operator = .multiply := hmultiply
      have hafter : Plain after := fun operation hmem =>
        hplain operation (by simp [hmem])
      rcases eq_nil_or_concat' before with
        rfl | ⟨front, ⟨operator, signs, value⟩, rfl⟩
      · refine ⟨(first * factor, after), simplify3_first hafter, ?_, ?_, ?_⟩
        · intro operation hmem
          exact hsignless operation (mem_cons_of_mem _ hmem)
        · exact Nat.lt_succ_self _
        · exact (operationResult_merge_first first factor after).symm
      · have hprevious := hsignless ⟨operator, signs, value⟩ (by simp)
        have hnotMultiply := hbefore ⟨operator, signs, value⟩ (by simp)
        obtain rfl : signs = [] := hprevious.2
        obtain rfl : operator = .plus := by
          cases operator with
          | plus => rfl
          | minus => exact absurd rfl hprevious.1
          | multiply => exact absurd rfl hnotMultiply
        have hfront : Token.operator .multiply ∉ Chain.tokens (first, front) :=
          multiply_not_mem
            (fun operation hmem => hplain operation (by simp [hmem]))
            fun operation hmem => hbefore operation (by simp [hmem])
        rw [append_assoc, singleton_append]
        refine ⟨_, simplify3_next hfront hafter, ?_, ?_, ?_⟩
        · intro operation hmem
          rw [mem_append, mem_cons] at hmem
          rcases hmem with hmem | rfl | hmem
          · exact hsignless operation (by simp [hmem])
          · exact ⟨Operator.noConfusion, rfl⟩
          · exact hsignless operation (by simp [hmem])
        · simp
        · exact (operationResult_merge first value factor front after).symm

theorem values_operations (operations : List (Operation (BitVec 64))) :
    (operationTokens operations).filterMap value? =
      operations.map fun operation => operation.factor.value := by
  induction operations with
  | nil => rfl
  | cons operation operations ih =>
    rw [operationTokens_cons, filterMap_append, ih,
      Operation.tokens, Factor.tokens, signTokens_eq, values_operator,
      filterMap_append, values_operatorTokens]
    rfl

theorem sum_values (hsummed : Summed chain) :
    chain.parser.values.sum = chain.result := by
  rw [Chain.result, operationResult_sum hsummed, Chain.parser, ofTokens,
    Chain.tokens, values_value, values_operations, sum_cons]

theorem initial_tokens :
    initial expression.tokens =
      Chain.parser (0, expression.operations) := by
  rw [initial, Chain.parser, Chain.tokens,
    Expression.operationTokens_operations]

theorem operations_length (operations : List (Operation (BitVec 64))) :
    operations.length ≤ (operationTokens operations).length := by
  induction operations with
  | nil => exact le_refl 0
  | cons operation operations ih =>
    rw [operationTokens_cons, Operation.tokens, length_append,
      length_cons, length_cons]
    omega

theorem getaddress_tokens :
    getaddress (expression.tokens.length + 3) expression.tokens =
      some (.ok expression.result) := by
  let chain : Chain := (0, expression.operations)
  let bound := expression.tokens.length + 2
  have hchain : chain.tokens.length = bound := by
    rw [Chain.tokens, length_cons, Expression.operationTokens_operations]
    rfl
  obtain ⟨first, hfirst, hbound, hwithout, hfirstResult⟩ :=
    (pass_simplify1 bound).finishes (bound + 1) chain
      (le_of_eq hchain)
      (Nat.lt_succ_of_le (count_le_length.trans (le_of_eq hchain)))
  obtain ⟨second, hsecond, ⟨hsecondBound, hsecondWithout⟩, hplain,
      hsecondResult⟩ :=
    (pass_simplify2 bound).finishes (bound + 1) first ⟨hbound, hwithout⟩
      (Nat.lt_succ_of_le hbound)
  have hlength : second.2.length < bound + 1 :=
    Nat.lt_succ_of_le ((operations_length second.2).trans
      ((Nat.le_succ _).trans hsecondBound))
  obtain ⟨third, hthird, -, hsummed, hthirdResult⟩ :=
    pass_simplify3.finishes (bound + 1) second
      (signless_of_plain hsecondWithout hplain) hlength
  rw [getaddress, initial_tokens, hfirst, thenWhileChanged, hsecond,
    thenWhileChanged, hthird]
  have hresult : third.parser.values.sum = expression.result := by
    rw [sum_values hsummed, hthirdResult, hsecondResult, hfirstResult]
    exact expression.operationResult_operations
  exact congrArg (some ∘ Except.ok) hresult

/-! ## Lists that are no expression -/

theorem whileChanged_ne_invalid (simplify : TAddressParser → Simplified)
    (turns : Nat) (parser : TAddressParser) :
    whileChanged simplify turns parser ≠
      some (.error .invalidAddress) := by
  induction turns generalizing parser with
  | zero => rintro ⟨⟩
  | succ turns ih =>
    rw [whileChanged]
    cases simplify parser with
    | unchanged => rintro ⟨⟩
    | changed next => exact ih next
    | outside => rintro ⟨⟩

theorem thenWhileChanged_ne_invalid (simplify : TAddressParser → Simplified)
    (turns : Nat) {outcome : Option (Except Failure TAddressParser)}
    (houtcome : outcome ≠ some (.error .invalidAddress)) :
    thenWhileChanged simplify turns outcome ≠
      some (.error .invalidAddress) := by
  rcases outcome with _ | failure | parser
  · exact houtcome
  · exact houtcome
  · exact whileChanged_ne_invalid simplify turns parser

theorem getaddress_ne_invalid (turns : Nat)
    (tokens : List (Token (BitVec 64))) :
    getaddress turns tokens ≠ some (.error .invalidAddress) := by
  have hpasses := thenWhileChanged_ne_invalid simplify3 turns
    (thenWhileChanged_ne_invalid simplify2 turns
      (whileChanged_ne_invalid simplify1 turns (initial tokens)))
  rw [getaddress]
  generalize thenWhileChanged simplify3 turns _ = third at hpasses ⊢
  rcases third with _ | failure | parser
  · rintro ⟨⟩
  · intro heq
    apply hpasses
    injection heq with heq
    injection heq with heq
    rw [heq]
  · rintro ⟨⟩

def multiplies (tokens : List (Token (BitVec 64))) : Nat :=
  tokens.count (.operator .multiply)

theorem multiplies_factor (factor : Factor (BitVec 64)) :
    multiplies factor.tokens = 0 ∧ vcount factor.tokens = 1 := by
  rw [multiplies, vcount, Factor.tokens, signTokens_eq,
    filterMap_append, values_operatorTokens]
  refine ⟨count_eq_zero.mpr fun hmem => ?_, rfl⟩
  rw [mem_append, operatorTokens, map_map, mem_map] at hmem
  rcases hmem with ⟨sign, -, heq⟩ | hmem
  · cases sign <;> cases heq
  · rw [mem_singleton] at hmem
    cases hmem

theorem multiplies_term (term : Term (BitVec 64)) :
    multiplies term.tokens < vcount term.tokens := by
  induction term with
  | single factor =>
    rw [Term.tokens, (multiplies_factor factor).1,
      (multiplies_factor factor).2]
    exact Nat.zero_lt_one
  | times term factor ih =>
    have hfactor := multiplies_factor factor
    rw [multiplies, vcount] at ih hfactor
    rw [multiplies, vcount, Term.tokens, count_append, count_cons_self,
      filterMap_append, length_append, values_operator]
    omega

theorem multiplies_lt :
    multiplies expression.tokens < vcount expression.tokens := by
  induction expression with
  | single term => exact multiplies_term term
  | add expression sign term ih =>
    have hterm := multiplies_term term
    have hsign : (Token.operator sign.operator : Token (BitVec 64)) ≠
        .operator .multiply := by
      cases sign <;> rintro ⟨⟩
    rw [multiplies, vcount] at ih hterm
    rw [multiplies, vcount, Expression.tokens, count_append,
      count_cons_of_ne hsign, filterMap_append, length_append, values_operator]
    omega

/-- The passes end inside the arrays.  An expression gives its value or is
reported, and everything else is reported. -/
def EvaluatesOrReports (tokens : List (Token (BitVec 64))) : Prop :=
  ∃ turns outcome, getaddress turns tokens = some outcome ∧
    outcome ≠ .error .outside ∧
    (∀ expression : Expression (BitVec 64), expression.tokens = tokens →
      outcome = .ok expression.result ∨
        outcome = .error .invalidAddress) ∧
    (¬ WellFormed tokens → outcome = .error .invalidAddress)

/-- Nothing is reported, so that this holds for the expressions only. -/
theorem evaluatesOrReports_iff (tokens : List (Token (BitVec 64))) :
    EvaluatesOrReports tokens ↔ WellFormed tokens := by
  constructor
  · rintro ⟨turns, outcome, houtcome, -, -, hreported⟩
    by_contra hwellFormed
    rw [hreported hwellFormed] at houtcome
    exact getaddress_ne_invalid turns tokens houtcome
  · rintro ⟨expression, rfl⟩
    have hresult := getaddress_tokens expression
    refine ⟨_, _, hresult, by rintro ⟨⟩, ?_, fun hnone => ?_⟩
    · intro other heq
      left
      have hother := getaddress_tokens other
      rw [heq, hresult] at hother
      exact Option.some.inj hother
    · exact absurd ⟨expression, rfl⟩ hnone

theorem not_evaluatesOrReports :
    getaddress 9 [.value 2, .operator .multiply, .operator .multiply,
        .value 3] = some (.ok 6) ∧
      ¬ EvaluatesOrReports [.value 2, .operator .multiply,
        .operator .multiply, .value 3] := by
  refine ⟨by decide, ?_⟩
  rintro ⟨turns, outcome, houtcome, -, -, hreported⟩
  rw [hreported ?_] at houtcome
  · exact getaddress_ne_invalid turns _ houtcome
  · rintro ⟨expression, heq⟩
    have hlt := multiplies_lt expression
    rw [heq] at hlt
    exact absurd hlt (by decide)

end CheatEngine.AddressParser
