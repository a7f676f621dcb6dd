import Mathlib.Algebra.Ring.Basic
import Mathlib.Tactic

/-!
# Expressions with signs

Sums and differences of products, where every factor may have signs before
it, as lists of tokens.  Read from left to right such a list is a list of
operations, an operator with the factor after it, and its value is a fold over
the operations.
-/

namespace CheatEngine.SignedExpressions

open List

inductive Operator
  | plus
  | minus
  | multiply
deriving DecidableEq, Repr

inductive Token (R : Type*)
  | value (value : R)
  | operator (operator : Operator)
deriving DecidableEq

inductive Sign
  | plus
  | minus
deriving DecidableEq, Repr

def Sign.operator : Sign → Operator
  | plus => .plus
  | minus => .minus

structure Factor (R : Type*) where
  signs : List Sign
  value : R

inductive Term (R : Type*)
  | single (factor : Factor R)
  | times (term : Term R) (factor : Factor R)

inductive Expression (R : Type*)
  | single (term : Term R)
  | add (expression : Expression R) (sign : Sign) (term : Term R)

section

variable {R : Type*}

def signTokens (signs : List Sign) : List (Token R) :=
  signs.map fun sign => .operator sign.operator

def Factor.tokens (factor : Factor R) : List (Token R) :=
  signTokens factor.signs ++ [.value factor.value]

def Term.tokens : Term R → List (Token R)
  | single factor => factor.tokens
  | times term factor =>
    term.tokens ++ .operator .multiply :: factor.tokens

def Expression.tokens : Expression R → List (Token R)
  | single term => term.tokens
  | add expression sign term =>
    expression.tokens ++ .operator sign.operator :: term.tokens

def WellFormed (tokens : List (Token R)) : Prop :=
  ∃ expression : Expression R, expression.tokens = tokens

end

section

variable {R : Type*} [CommRing R]

def Sign.apply : Sign → R → R
  | plus, value => value
  | minus, value => -value

def applySigns (signs : List Sign) (value : R) : R :=
  signs.foldr Sign.apply value

def Factor.result (factor : Factor R) : R :=
  applySigns factor.signs factor.value

def Term.result : Term R → R
  | single factor => factor.result
  | times term factor => term.result * factor.result

def Expression.result : Expression R → R
  | single term => term.result
  | add expression sign term =>
    expression.result + sign.apply term.result

theorem applySigns_neg (signs : List Sign) (value : R) :
    applySigns signs (-value) = -applySigns signs value := by
  induction signs with
  | nil => rfl
  | cons sign rest ih =>
    rw [applySigns, foldr_cons, ← applySigns, ih]
    cases sign <;> rfl

theorem applySigns_mul (signs : List Sign) (value factor : R) :
    applySigns signs (value * factor) = applySigns signs value * factor := by
  induction signs with
  | nil => rfl
  | cons sign rest ih =>
    rw [applySigns, foldr_cons, ← applySigns, ih]
    cases sign with
    | plus => rfl
    | minus => exact (neg_mul ..).symm

theorem applySigns_append (before after : List Sign) (value : R) :
    applySigns (before ++ after) value =
      applySigns before (applySigns after value) :=
  foldr_append ..

end

section

variable {R : Type*}

def Expression.ofTerms (term : Term R) (tail : List (Sign × Term R)) :
    Expression R :=
  tail.foldl (fun expression next => .add expression next.1 next.2)
    (.single term)

def tailTokens (tail : List (Sign × Term R)) : List (Token R) :=
  tail.flatMap fun next => .operator next.1.operator :: next.2.tokens

theorem tailTokens_cons (next : Sign × Term R) (tail : List (Sign × Term R)) :
    tailTokens (next :: tail) =
      (.operator next.1.operator :: next.2.tokens) ++ tailTokens tail :=
  flatMap_cons

theorem Expression.tokens_ofTerms (term : Term R)
    (tail : List (Sign × Term R)) :
    (ofTerms term tail).tokens = term.tokens ++ tailTokens tail := by
  have hfold : ∀ expression : Expression R,
      (tail.foldl (fun expression next => .add expression next.1 next.2)
          expression).tokens = expression.tokens ++ tailTokens tail := by
    induction tail with
    | nil => intro expression; exact (append_nil _).symm
    | cons next tail ih =>
      intro expression
      rw [foldl_cons, ih, tokens, tailTokens_cons, append_assoc]
  exact hfold (.single term)

variable [CommRing R]

def tailResult (tail : List (Sign × Term R)) : R :=
  (tail.map fun next => next.1.apply next.2.result).sum

theorem tailResult_cons (next : Sign × Term R) (tail : List (Sign × Term R)) :
    tailResult (next :: tail) =
      next.1.apply next.2.result + tailResult tail :=
  sum_cons

theorem Expression.result_ofTerms (term : Term R)
    (tail : List (Sign × Term R)) :
    (ofTerms term tail).result = term.result + tailResult tail := by
  have hfold : ∀ expression : Expression R,
      (tail.foldl (fun expression next => .add expression next.1 next.2)
          expression).result = expression.result + tailResult tail := by
    induction tail with
    | nil => intro expression; exact (add_zero _).symm
    | cons next tail ih =>
      intro expression
      rw [foldl_cons, ih, result, tailResult_cons, add_assoc]
  exact hfold (.single term)

end

theorem Term.exists_last {R : Type*} (term : Term R) :
    ∃ before value, term.tokens = before ++ [.value value] := by
  cases term with
  | single factor => exact ⟨_, factor.value, rfl⟩
  | times term factor =>
    exact ⟨term.tokens ++ .operator .multiply :: signTokens factor.signs,
      factor.value, by simp [tokens, Factor.tokens]⟩

theorem Expression.exists_last {R : Type*} (expression : Expression R) :
    ∃ before value, expression.tokens = before ++ [.value value] := by
  cases expression with
  | single term => exact term.exists_last
  | add expression sign term =>
    obtain ⟨before, value, hlast⟩ := term.exists_last
    exact ⟨expression.tokens ++ .operator sign.operator :: before, value,
      by simp [tokens, hlast]⟩

/-! ## Operations -/

structure Operation (R : Type*) where
  operator : Operator
  factor : Factor R

section

variable {R : Type*}

def Operation.tokens (operation : Operation R) : List (Token R) :=
  .operator operation.operator :: operation.factor.tokens

def operationTokens (operations : List (Operation R)) : List (Token R) :=
  operations.flatMap Operation.tokens

theorem operationTokens_append (before after : List (Operation R)) :
    operationTokens (before ++ after) =
      operationTokens before ++ operationTokens after :=
  flatMap_append

theorem operationTokens_cons (operation : Operation R)
    (rest : List (Operation R)) :
    operationTokens (operation :: rest) =
      operation.tokens ++ operationTokens rest :=
  flatMap_cons

def Term.operations (operator : Operator) : Term R → List (Operation R)
  | single factor => [⟨operator, factor⟩]
  | times term factor => term.operations operator ++ [⟨.multiply, factor⟩]

def Expression.operations : Expression R → List (Operation R)
  | single term => term.operations .plus
  | add expression sign term =>
    expression.operations ++ term.operations sign.operator

theorem Term.operationTokens_operations (operator : Operator) (term : Term R) :
    operationTokens (term.operations operator) =
      .operator operator :: term.tokens := by
  induction term with
  | single factor => exact append_nil _
  | times term factor ih =>
    rw [operations, operationTokens_append, ih]
    exact congrArg _ (congrArg _ (append_nil _))

theorem Expression.operationTokens_operations (expression : Expression R) :
    operationTokens expression.operations =
      .operator .plus :: expression.tokens := by
  induction expression with
  | single term => exact term.operationTokens_operations .plus
  | add expression sign term ih =>
    rw [operations, operationTokens_append, ih,
      term.operationTokens_operations]
    rfl

end

section

variable {R : Type*} [CommRing R]

/-- The sum of the finished products, and the product that goes on. -/
def Operation.accumulate (state : R × R) (operation : Operation R) : R × R :=
  match operation.operator with
  | .plus => (state.1 + state.2, operation.factor.result)
  | .minus => (state.1 + state.2, -operation.factor.result)
  | .multiply => (state.1, state.2 * operation.factor.result)

def operationResult (first : R) (operations : List (Operation R)) : R :=
  let state := operations.foldl Operation.accumulate (0, first)
  state.1 + state.2

theorem Term.foldl_operations (sign : Sign) (term : Term R) (state : R × R) :
    (term.operations sign.operator).foldl Operation.accumulate state =
      (state.1 + state.2, sign.apply term.result) := by
  induction term with
  | single factor => cases sign <;> rfl
  | times term factor ih =>
    rw [operations, foldl_append, ih]
    cases sign with
    | plus => rfl
    | minus => exact Prod.ext rfl (neg_mul _ _)

theorem Expression.operationResult_operations (expression : Expression R) :
    operationResult 0 expression.operations = expression.result := by
  have hsum : ∀ expression : Expression R,
      (expression.operations.foldl Operation.accumulate ((0 : R), 0)).1 +
          (expression.operations.foldl Operation.accumulate (0, 0)).2 =
        expression.result := by
    intro expression
    induction expression with
    | single term =>
      have hterm := Term.foldl_operations .plus term ((0 : R), 0)
      rw [Sign.operator] at hterm
      rw [operations, hterm, result, Sign.apply, zero_add, zero_add]
    | add expression sign term ih =>
      rw [operations, foldl_append, Term.foldl_operations, result, ← ih]
  exact hsum expression

theorem operationResult_append (first : R)
    (before after : List (Operation R)) :
    operationResult first (before ++ after) =
      let state := after.foldl Operation.accumulate
        (before.foldl Operation.accumulate (0, first))
      state.1 + state.2 := by
  rw [operationResult, foldl_append]

theorem operationResult_exchange {operation other : Operation R}
    (heq : ∀ state, Operation.accumulate state operation =
      Operation.accumulate state other)
    (first : R) (before after : List (Operation R)) :
    operationResult first (before ++ operation :: after) =
      operationResult first (before ++ other :: after) := by
  rw [operationResult_append, operationResult_append, foldl_cons,
    foldl_cons, heq]

theorem operationResult_merge (first value factor : R)
    (before after : List (Operation R)) :
    operationResult first (before ++ ⟨.plus, ⟨[], value⟩⟩ ::
        ⟨.multiply, ⟨[], factor⟩⟩ :: after) =
      operationResult first
        (before ++ ⟨.plus, ⟨[], value * factor⟩⟩ :: after) := by
  rw [operationResult_append, operationResult_append]
  rfl

theorem operationResult_merge_first (first factor : R)
    (after : List (Operation R)) :
    operationResult first (⟨.multiply, ⟨[], factor⟩⟩ :: after) =
      operationResult (first * factor) after :=
  rfl

theorem operationResult_sum {operations : List (Operation R)}
    (hplain : ∀ operation ∈ operations,
      operation.operator = .plus ∧ operation.factor.signs = []) (first : R) :
    operationResult first operations =
      first +
        (operations.map fun operation => operation.factor.value).sum := by
  have hfold : ∀ state : R × R,
      (operations.foldl Operation.accumulate state).1 +
          (operations.foldl Operation.accumulate state).2 =
        state.1 + state.2 +
          (operations.map fun operation => operation.factor.value).sum := by
    induction operations with
    | nil => intro state; exact (add_zero _).symm
    | cons operation rest ih =>
      intro state
      rw [forall_mem_cons] at hplain
      rcases operation with ⟨operator, signs, value⟩
      obtain ⟨⟨rfl, rfl⟩, hrest⟩ := hplain
      rw [foldl_cons, ih hrest, map_cons, sum_cons]
      exact add_assoc _ _ _
  rw [operationResult, hfold, zero_add]

end

end CheatEngine.SignedExpressions
