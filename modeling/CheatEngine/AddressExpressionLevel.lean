import CheatEngine.SignedExpressions
import CheatEngine.SymhandlerAddress
import Mathlib.Data.UInt

/-!
# One level of an address expression

Between brackets the symbol handler has a list of texts, each a number or an
operator.  Its passes compute the value of a well-formed expression, unless
one of a few sequences of tokens occurs.
-/

namespace CheatEngine.Symhandler

open AssemblerRewrite (Text val inttohex)
open List SignedExpressions
open scoped UInt64.CommRing

def run (result : UInt64) (nextoperation : TCalculation)
    (texts : List Text) : Option UInt64 :=
  (multiplyFrom none texts).bind (addFrom result nextoperation)

def StartsWithStar (texts : List Text) : Prop :=
  texts.head? = some ['*']

variable {texts : List Text} {rest : List (Token UInt64)} {value : UInt64}
  {tokens : List (Token UInt64)} {token : Token UInt64} {text : Text}
  (result : UInt64) (nextoperation : TCalculation)

theorem multiplyFrom_before (hstar : ¬ StartsWithStar texts)
    (before : Option Text) :
    multiplyFrom before texts =
      (multiplyFrom none texts).map fun tokens => before.toList ++ tokens := by
  have hne (token : Text) (rest : List Text)
      (htexts : texts = token :: rest) : token ≠ ['*'] := by
    rintro rfl
    exact hstar (by rw [htexts]; rfl)
  match texts with
  | [] => simp [multiplyFrom]
  | [token] =>
    rw [multiplyFrom, multiplyFrom, if_neg (hne token [] rfl),
      if_neg (hne token [] rfl)]
    rfl
  | token :: next :: rest =>
    rw [multiplyFrom, multiplyFrom, if_neg (hne token _ rfl),
      if_neg (hne token _ rfl), Option.map_map]
    rfl

theorem multiplyFrom_cons {token : Text} (hne : token ≠ ['*'])
    {rest : List Text} (hstar : ¬ StartsWithStar rest) :
    multiplyFrom none (token :: rest) =
      (multiplyFrom none rest).map fun tokens => token :: tokens := by
  match rest with
  | [] =>
    have hsingle : multiplyFrom none [token] = some [token] := by
      rw [multiplyFrom, if_neg hne]
      rfl
    exact hsingle
  | next :: rest =>
    rw [multiplyFrom, if_neg hne, multiplyFrom_before hstar, Option.map_map]
    rfl

theorem ne_star_of_val {token : Text} (hvalue : val token = some value) :
    token ≠ ['*'] := by
  rintro rfl
  rw [AssemblerRewrite.val_eq_none mem_cons_self (by decide)] at hvalue
  cases hvalue

section

variable (result : UInt64) (nextoperation : TCalculation)

variable {token : Text} {rest : List Text}

theorem run_value {value : UInt64} (hvalue : val token = some value)
    (hstar : ¬ StartsWithStar rest) :
    run result nextoperation (token :: rest) =
      run (nextoperation.calculate result value) .calcAddition rest := by
  rw [run, multiplyFrom_cons (ne_star_of_val hvalue) hstar, run]
  cases multiplyFrom none rest with
  | none => rfl
  | some tokens => exact addFrom_number hvalue result nextoperation tokens

theorem run_plus (hstar : ¬ StartsWithStar rest) :
    run result nextoperation (['+'] :: rest) =
      run result .calcAddition rest := by
  rw [run, multiplyFrom_cons (by decide) hstar, run]
  cases multiplyFrom none rest <;> rfl

theorem run_minus (hstar : ¬ StartsWithStar rest) :
    run result nextoperation (['-'] :: rest) =
      run result nextoperation.minus rest := by
  rw [run, multiplyFrom_cons (by decide) hstar, run]
  cases multiplyFrom none rest <;> rfl

theorem run_product {factor : Text} {value other : UInt64}
    (hvalue : val token = some value) (hfactor : val factor = some other)
    (hstar : ¬ StartsWithStar rest) :
    run result nextoperation (token :: ['*'] :: factor :: rest) =
      run (nextoperation.calculate result (value * other)) .calcAddition
        rest := by
  rw [run, multiplyFrom, if_neg (ne_star_of_val hvalue), multiplyFrom,
    if_pos rfl, Option.bind_some, StrToQWordEx_of_val hvalue, Option.bind_some,
    hfactor, Option.bind_some, multiplyFrom_before hstar, run]
  cases multiplyFrom none rest with
  | none => rfl
  | some tokens =>
    exact addFrom_number (AssemblerRewrite.val_inttohex _) result
      nextoperation ([] :: [] :: tokens)

theorem run_star (rest : List Text) :
    run result nextoperation (['*'] :: rest) = none := by
  cases rest <;> rfl

theorem run_no_factor (hne : token ≠ ['*']) :
    run result nextoperation [token, ['*']] = none := by
  rw [run, multiplyFrom, if_neg hne]
  rfl

theorem run_not_number (hne : token ≠ ['*'])
    (hnone : StrToQWordEx token = none) (rest : List Text) :
    run result nextoperation (token :: ['*'] :: rest) = none := by
  cases rest with
  | nil => exact run_no_factor result nextoperation hne
  | cons next rest =>
    rw [run, multiplyFrom, if_neg hne, multiplyFrom, if_pos rfl,
      Option.bind_some, hnone]
    rfl

theorem run_not_factor {factor : Text} (hne : token ≠ ['*'])
    (hnone : val factor = none) (rest : List Text) :
    run result nextoperation (token :: ['*'] :: factor :: rest) = none := by
  rw [run, multiplyFrom, if_neg hne, multiplyFrom, if_pos rfl, hnone]
  cases (some token).bind StrToQWordEx <;> rfl

end

def withoutEmpty (texts : List Text) : List Text :=
  texts.filter (· ≠ [])

theorem withoutEmpty_cons (token : Text) (rest : List Text) :
    withoutEmpty (token :: rest) =
      if token = [] then withoutEmpty rest
      else token :: withoutEmpty rest := by
  by_cases hnil : token = [] <;> simp [withoutEmpty, hnil]

theorem addFrom_withoutEmpty (texts : List Text) :
    addFrom result nextoperation (withoutEmpty texts) =
      addFrom result nextoperation texts := by
  induction texts generalizing result nextoperation with
  | nil => rfl
  | cons token rest ih =>
    rw [withoutEmpty_cons]
    split
    · next hnil => rw [ih, addFrom, if_pos hnil]
    · rw [addFrom, addFrom]
      simp only [ih]

theorem multiplyFrom_no_star (hstar : ['*'] ∉ texts) :
    multiplyFrom none texts = some texts := by
  induction texts with
  | nil => rfl
  | cons token rest ih =>
    rw [mem_cons, not_or] at hstar
    have hrest : ¬ StartsWithStar rest := by
      intro hstarts
      exact hstar.2 (mem_of_mem_head? hstarts)
    rw [multiplyFrom_cons (Ne.symm hstar.1) hrest, ih hstar.2]
    rfl

theorem multiplyFrom_empty (before : Option Text) (texts : List Text) :
    multiplyFrom before (texts ++ [[]]) =
      (multiplyFrom before texts).map fun tokens => tokens ++ [[]] := by
  fun_induction multiplyFrom before texts with
  | case1 before => simp [multiplyFrom]
  | case2 before =>
    cases hbefore : before.bind StrToQWordEx <;>
      simp [multiplyFrom, hbefore, AssemblerRewrite.val_nil]
  | case3 before token hne =>
    simp [multiplyFrom, hne]
  | case4 before next rest ih =>
    rw [cons_append, cons_append, multiplyFrom, if_pos rfl, ih]
    cases before.bind StrToQWordEx with
    | none => rfl
    | some a =>
      cases val next with
      | none => rfl
      | some b =>
        simp [Function.comp_def]
  | case5 before token next rest hne ih =>
    rw [cons_append, cons_append, multiplyFrom, if_neg hne, ← cons_append, ih]
    simp [Function.comp_def]

theorem removeEmpty_cases (texts : List Text) :
    removeEmpty texts = withoutEmpty texts ∨
      removeEmpty texts = withoutEmpty texts ++ [[]] := by
  rcases eq_nil_or_concat' texts with rfl | ⟨before, last, rfl⟩
  · exact Or.inl rfl
  · by_cases hnil : last = []
    · right
      simp [removeEmpty, withoutEmpty, hnil]
    · left
      simp [removeEmpty, withoutEmpty, hnil]

theorem calculate_eq_run {multiplied : Bool}
    (hstar : ['*'] ∈ texts → multiplied = true) :
    calculate ⟨texts, [], multiplied⟩ =
      run 0 .calcAddition (withoutEmpty texts) := by
  have hsum (tokens : List Text) :
      addFrom 0 .calcAddition (tokens ++ [[]]) =
        addFrom 0 .calcAddition tokens := by
    rw [← addFrom_withoutEmpty, ← addFrom_withoutEmpty 0 _ tokens]
    simp [withoutEmpty]
  cases multiplied with
  | false =>
    have hnot : ['*'] ∉ withoutEmpty texts := by
      intro hmem
      exact absurd (hstar (mem_of_mem_filter hmem)) (by decide)
    rw [run, multiplyFrom_no_star hnot, Option.bind_some, addFrom_withoutEmpty]
    rfl
  | true =>
    rw [calculate, if_pos rfl, run, Substitution.all, foldl_nil]
    rcases removeEmpty_cases texts with hremove | hremove
    · rw [hremove]
    · rw [hremove, multiplyFrom_empty]
      cases multiplyFrom none (withoutEmpty texts) with
      | none => rfl
      | some tokens => exact hsum tokens

def operatorChar : Operator → Char
  | .plus => '+'
  | .minus => '-'
  | .multiply => '*'

def Matches (text : Text) : Token UInt64 → Prop
  | .value value => val text = some value
  | .operator operator => text = [operatorChar operator]

theorem not_startsWithStar (hmatches : List.Forall₂ Matches texts tokens)
    (hstar : tokens.head? ≠ some (.operator .multiply)) :
    ¬ StartsWithStar texts := by
  cases hmatches with
  | nil => rintro ⟨⟩
  | @cons text token texts tokens htext _ =>
    intro hstarts
    obtain rfl : text = ['*'] := Option.some.inj hstarts
    cases token with
    | value value => exact ne_star_of_val htext rfl
    | operator operator =>
      cases operator with
      | plus => exact absurd (show ['*'] = ['+'] from htext) (by decide)
      | minus => exact absurd (show ['*'] = ['-'] from htext) (by decide)
      | multiply => exact hstar rfl

def kind : Token UInt64 → Option Operator
  | .value _ => none
  | .operator operator => some operator

/-- Neighbouring values, products of three factors, a sign after a
multiplication, and a plus after a minus. -/
def defects : List (List (Option Operator)) :=
  [[none, none], [none, some .multiply, none, some .multiply],
    [some .multiply, some .plus], [some .multiply, some .minus],
    [some .minus, some .plus]]

def Ordinary (tokens : List (Token UInt64)) : Prop :=
  ∀ defect ∈ defects, ¬ defect <:+: tokens.map kind

theorem Ordinary.tail (hordinary : Ordinary (token :: tokens)) :
    Ordinary tokens :=
  fun defect hdefect hwithin =>
    hordinary defect hdefect (hwithin.trans (suffix_cons _ _).isInfix)

theorem Ordinary.suffix {before after : List (Token UInt64)}
    (hordinary : Ordinary (before ++ after)) : Ordinary after := by
  induction before with
  | nil => exact hordinary
  | cons token before ih => exact ih hordinary.tail

theorem Ordinary.not_starts (hordinary : Ordinary tokens)
    (defect : List (Option Operator)) (hdefect : defect ∈ defects) :
    ¬ defect <+: tokens.map kind :=
  fun hstarts => hordinary defect hdefect hstarts.isInfix

theorem Ordinary.after_value (hordinary : Ordinary (.value value :: tokens)) :
    tokens = [] ∨ ∃ operator rest, tokens = .operator operator :: rest := by
  match tokens with
  | [] => exact Or.inl rfl
  | .operator operator :: rest => exact Or.inr ⟨operator, rest, rfl⟩
  | .value _ :: rest =>
    exact absurd ⟨rest.map kind, rfl⟩
      (hordinary.not_starts [none, none] (by decide))

def TCalculation.apply (value : UInt64) : TCalculation → UInt64
  | calcAddition => value
  | calcSubstraction => -value

def TCalculation.after (nextoperation : TCalculation) : Sign → TCalculation
  | .plus => calcAddition
  | .minus => nextoperation.minus

theorem calculate_eq (result value : UInt64) :
    nextoperation.calculate result value =
      result + nextoperation.apply value := by
  cases nextoperation with
  | calcAddition => rfl
  | calcSubstraction => exact UInt64.sub_eq_add_neg ..

def SignsFollow (nextoperation : TCalculation)
    (tokens : List (Token UInt64)) : Prop :=
  nextoperation = .calcSubstraction →
    tokens.head? ≠ some (.operator .plus)

theorem apply_after {nextoperation : TCalculation} {sign : Sign}
    (hfollow : SignsFollow nextoperation (.operator sign.operator :: rest))
    (value : UInt64) :
    (nextoperation.after sign).apply value =
      nextoperation.apply (sign.apply value) := by
  cases sign with
  | plus =>
    cases nextoperation with
    | calcAddition => rfl
    | calcSubstraction => exact absurd rfl (hfollow rfl)
  | minus =>
    cases nextoperation with
    | calcAddition => rfl
    | calcSubstraction => exact (neg_neg value).symm

theorem signsFollow_after {sign : Sign}
    (hordinary : Ordinary (.operator sign.operator :: rest)) :
    SignsFollow (nextoperation.after sign) rest := by
  intro hafter hhead
  cases sign with
  | plus => cases hafter
  | minus =>
    cases rest with
    | nil => cases hhead
    | cons token rest =>
      obtain rfl := Option.some.inj hhead
      exact hordinary.not_starts [some .minus, some .plus] (by decide)
        ⟨rest.map kind, rfl⟩

theorem run_sign (sign : Sign)
    (htext : Matches text (.operator sign.operator)) {rest : List Text}
    (hstar : ¬ StartsWithStar rest) :
    run result nextoperation (text :: rest) =
      run result (nextoperation.after sign) rest := by
  obtain rfl : text = [operatorChar sign.operator] := htext
  cases sign with
  | plus => exact run_plus result nextoperation hstar
  | minus => exact run_minus result nextoperation hstar

theorem run_signs {nextoperation : TCalculation} {signs : List Sign}
    (hmatches : List.Forall₂ Matches texts (signTokens signs ++ rest))
    (hordinary : Ordinary (signTokens signs ++ rest))
    (hfollow : SignsFollow nextoperation (signTokens signs ++ rest))
    (hrest : rest.head? ≠ some (.operator .multiply)) :
    ∃ after behind, List.Forall₂ Matches behind rest ∧
      SignsFollow after rest ∧
      run result nextoperation texts = run result after behind ∧
      ∀ value, TCalculation.apply value after =
        nextoperation.apply (applySigns signs value) := by
  induction signs generalizing nextoperation texts with
  | nil => exact ⟨nextoperation, texts, hmatches, hfollow, rfl, fun _ => rfl⟩
  | cons sign signs ih =>
    obtain ⟨text, tail, htext, htail, rfl⟩ :=
      forall₂_cons_right_iff.mp hmatches
    have hnext : (signTokens signs ++ rest).head? ≠
        some (.operator .multiply) := by
      cases signs with
      | nil => exact hrest
      | cons next signs => cases next <;> (rintro ⟨⟩)
    obtain ⟨after, behind, hbehind, hlater, hrun, happly⟩ :=
      ih htail hordinary.tail (signsFollow_after nextoperation hordinary)
    refine ⟨after, behind, hbehind, hlater, ?_, fun value => ?_⟩
    · rw [run_sign result nextoperation sign htext
        (not_startsWithStar htail hnext), hrun]
    · rw [happly, apply_after hfollow]
      rfl

/-! ## Terms -/

theorem Ordinary.signs_nil {signs : List Sign}
    (hordinary : Ordinary (.operator .multiply ::
      (signTokens signs ++ rest))) : signs = [] := by
  match signs with
  | [] => rfl
  | .plus :: signs =>
    exact absurd ⟨(signTokens signs ++ rest).map kind, rfl⟩
      (hordinary.not_starts [some .multiply, some .plus] (by decide))
  | .minus :: signs =>
    exact absurd ⟨(signTokens signs ++ rest).map kind, rfl⟩
      (hordinary.not_starts [some .multiply, some .minus] (by decide))

theorem Ordinary.not_third {factor : UInt64} (hordinary : Ordinary
      (.value value :: .operator .multiply :: .value factor :: rest)) :
    rest.head? ≠ some (.operator .multiply) := by
  intro hhead
  cases rest with
  | nil => cases hhead
  | cons token rest =>
    obtain rfl := Option.some.inj hhead
    exact hordinary.not_starts
      [none, some .multiply, none, some .multiply] (by decide)
      ⟨rest.map kind, rfl⟩

theorem Ordinary.term_cases {term : Term UInt64}
    (hordinary : Ordinary (term.tokens ++ rest)) :
    (∃ factor, term = .single factor) ∨
      ∃ factor value, term = .times (.single factor) ⟨[], value⟩ := by
  match term with
  | .single factor => exact Or.inl ⟨factor, rfl⟩
  | .times (.single factor) ⟨signs, value⟩ =>
    right
    have hsplit : (Term.times (.single factor) ⟨signs, value⟩).tokens ++
        rest = factor.tokens ++ .operator .multiply ::
          (signTokens signs ++ .value value :: rest) := by
      simp [Term.tokens, Factor.tokens]
    rw [hsplit] at hordinary
    obtain rfl := hordinary.suffix.signs_nil
    exact ⟨factor, value, rfl⟩
  | .times (.times term ⟨signs, value⟩) factor =>
    exfalso
    obtain ⟨before, last, hlast⟩ := term.exists_last
    have hsplit : (Term.times (.times term ⟨signs, value⟩) factor).tokens ++
        rest = before ++ .value last :: .operator .multiply ::
          (signTokens signs ++ .value value :: .operator .multiply ::
            (factor.tokens ++ rest)) := by
      simp [Term.tokens, Factor.tokens, hlast]
    rw [hsplit] at hordinary
    have hterm := hordinary.suffix
    obtain rfl := hterm.tail.signs_nil
    exact hterm.not_third rfl

def EndsTerm (rest : List (Token UInt64)) : Prop :=
  rest.head? ≠ some (.operator .multiply)

theorem run_term {nextoperation : TCalculation} {term : Term UInt64}
    (hmatches : List.Forall₂ Matches texts (term.tokens ++ rest))
    (hordinary : Ordinary (term.tokens ++ rest))
    (hfollow : SignsFollow nextoperation (term.tokens ++ rest))
    (hrest : EndsTerm rest) :
    ∃ behind, List.Forall₂ Matches behind rest ∧
      run result nextoperation texts =
        run (result + nextoperation.apply term.result) .calcAddition
          behind := by
  rcases hordinary.term_cases with ⟨⟨signs, value⟩, rfl⟩ |
    ⟨⟨signs, value⟩, factor, rfl⟩
  · have hsplit : (Term.single ⟨signs, value⟩).tokens ++ rest =
        signTokens signs ++ .value value :: rest := by
      simp [Term.tokens, Factor.tokens]
    rw [hsplit] at hmatches hordinary hfollow
    obtain ⟨after, middle, hmiddle, -, hrun, happly⟩ :=
      run_signs result hmatches hordinary hfollow (by rintro ⟨⟩)
    obtain ⟨text, behind, htext, hbehind, rfl⟩ :=
      forall₂_cons_right_iff.mp hmiddle
    refine ⟨behind, hbehind, ?_⟩
    rw [hrun, run_value result after htext
      (not_startsWithStar hbehind hrest), calculate_eq, happly]
    rfl
  · have hsplit : (Term.times (.single ⟨signs, value⟩)
        ⟨[], factor⟩).tokens ++ rest = signTokens signs ++
          .value value :: .operator .multiply :: .value factor :: rest := by
      simp [Term.tokens, Factor.tokens, signTokens]
    rw [hsplit] at hmatches hordinary hfollow
    obtain ⟨after, middle, hmiddle, -, hrun, happly⟩ :=
      run_signs result hmatches hordinary hfollow (by rintro ⟨⟩)
    obtain ⟨text, starred, htext, hstarred, rfl⟩ :=
      forall₂_cons_right_iff.mp hmiddle
    obtain ⟨star, factored, rfl, hfactored, rfl⟩ :=
      forall₂_cons_right_iff.mp hstarred
    obtain ⟨other, behind, hother, hbehind, rfl⟩ :=
      forall₂_cons_right_iff.mp hfactored
    refine ⟨behind, hbehind, ?_⟩
    have hproduct := run_product result after htext hother
      (not_startsWithStar hbehind hrest)
    have hterm : (Term.times (.single ⟨signs, value⟩) ⟨[], factor⟩).result =
        applySigns signs (value * factor) :=
      (applySigns_mul signs value factor).symm
    rw [hrun, hterm, ← happly, ← calculate_eq]
    exact hproduct

theorem endsTerm_tokens (term : Term UInt64) (rest : List (Token UInt64)) :
    EndsTerm (term.tokens ++ rest) := by
  induction term generalizing rest with
  | single factor =>
    rcases factor with ⟨signs, value⟩
    cases signs with
    | nil => rintro ⟨⟩
    | cons sign signs => cases sign <;> (rintro ⟨⟩)
  | times term factor ih =>
    rw [Term.tokens, append_assoc]
    exact ih _

theorem run_expression {expression : Expression UInt64}
    {rest : List (Token UInt64)} {texts : List Text}
    (hmatches : List.Forall₂ Matches texts (expression.tokens ++ rest))
    (hordinary : Ordinary (expression.tokens ++ rest))
    (hrest : EndsTerm rest) :
    ∃ behind, List.Forall₂ Matches behind rest ∧
      run 0 .calcAddition texts =
        run expression.result .calcAddition behind := by
  induction expression generalizing rest with
  | single term =>
    obtain ⟨behind, hbehind, hrun⟩ :=
      run_term 0 hmatches hordinary
        (show SignsFollow .calcAddition _ by rintro ⟨⟩) hrest
    refine ⟨behind, hbehind, ?_⟩
    rw [hrun, UInt64.zero_add]
    rfl
  | add expression sign term ih =>
    have hsplit : (expression.add sign term).tokens ++ rest =
        expression.tokens ++ (.operator sign.operator ::
          (term.tokens ++ rest)) := by
      simp [Expression.tokens]
    rw [hsplit] at hmatches hordinary
    obtain ⟨middle, hmiddle, hrun⟩ := ih hmatches hordinary
      (by cases sign <;> (rintro ⟨⟩))
    obtain ⟨text, termed, htext, htermed, rfl⟩ :=
      forall₂_cons_right_iff.mp hmiddle
    have hafter := hordinary.suffix
    obtain ⟨behind, hbehind, hterm⟩ := run_term expression.result htermed
      hafter.tail (signsFollow_after .calcAddition hafter) hrest
    refine ⟨behind, hbehind, ?_⟩
    rw [hrun, run_sign _ _ sign htext
      (not_startsWithStar htermed (endsTerm_tokens term rest)), hterm]
    cases sign <;> rfl

/-! ## What was computed is an expression -/

theorem exists_signs (tokens : List (Token UInt64)) :
    ∃ signs rest, tokens = signTokens signs ++ rest ∧
      ∀ sign : Sign, rest.head? ≠ some (.operator sign.operator) := by
  induction tokens with
  | nil => exact ⟨[], [], rfl, fun sign => by rintro ⟨⟩⟩
  | cons token tokens ih =>
    obtain ⟨signs, rest, heq, hrest⟩ := ih
    match token with
    | .operator .plus =>
      exact ⟨.plus :: signs, rest, by rw [heq]; rfl, hrest⟩
    | .operator .minus =>
      exact ⟨.minus :: signs, rest, by rw [heq]; rfl, hrest⟩
    | .operator .multiply =>
      exact ⟨[], .operator .multiply :: tokens, rfl,
        fun sign => by cases sign <;> (rintro ⟨⟩)⟩
    | .value value =>
      exact ⟨[], .value value :: tokens, rfl, fun sign => by rintro ⟨⟩⟩

def EndsInValue (tokens : List (Token UInt64)) : Prop :=
  ∀ before operator, tokens ≠ before ++ [.operator operator]

theorem EndsInValue.suffix {before after : List (Token UInt64)}
    (hends : EndsInValue (before ++ after)) : EndsInValue after := by
  rintro other operator rfl
  exact hends (before ++ other) operator (append_assoc ..).symm

theorem StrToQWordEx_operator (operator : Operator) :
    StrToQWordEx [operatorChar operator] = none ∧
      val [operatorChar operator] = none := by
  cases operator <;> decide

theorem run_signs_star (result : UInt64) {nextoperation : TCalculation}
    {signs : List Sign} {rest : List (Token UInt64)} {texts : List Text}
    (hmatches : List.Forall₂ Matches texts
      (signTokens signs ++ .operator .multiply :: rest)) :
    run result nextoperation texts = none := by
  induction signs generalizing nextoperation texts with
  | nil =>
    obtain ⟨star, behind, rfl, -, rfl⟩ :=
      forall₂_cons_right_iff.mp hmatches
    exact run_star result nextoperation behind
  | cons sign signs ih =>
    obtain ⟨text, behind, htext, hbehind, rfl⟩ :=
      forall₂_cons_right_iff.mp hmatches
    have hne : text ≠ ['*'] := by
      rw [show text = [operatorChar sign.operator] from htext]
      cases sign <;> decide
    cases signs with
    | nil =>
      obtain ⟨star, last, rfl, -, rfl⟩ :=
        forall₂_cons_right_iff.mp hbehind
      refine run_not_number result nextoperation hne ?_ last
      rw [show text = [operatorChar sign.operator] from htext]
      exact (StrToQWordEx_operator _).1
    | cons next signs =>
      rw [run_sign result nextoperation sign htext
        (not_startsWithStar hbehind (by cases next <;> (rintro ⟨⟩))),
        ih hbehind]

/-- When the passes compute something, the tokens are a term and more terms
with their signs. -/
def SplitsInTerms (tokens : List (Token UInt64)) : Prop :=
  ∀ result nextoperation texts value,
    List.Forall₂ Matches texts tokens → Ordinary tokens →
    SignsFollow nextoperation tokens → tokens ≠ [] → EndsInValue tokens →
    run result nextoperation texts = some value →
    ∃ (term : Term UInt64) (tail : List (Sign × Term UInt64)),
      tokens = term.tokens ++ tailTokens tail ∧
      value = result + nextoperation.apply term.result + tailResult tail

theorem exists_tail
    (ih : ∀ sign rest, tokens = .operator sign :: rest → SplitsInTerms rest)
    {result : UInt64} (hmatches : List.Forall₂ Matches texts tokens)
    (hordinary : Ordinary tokens) (hends : EndsInValue tokens)
    (hterm : EndsTerm tokens) (hvalue : tokens = [] ∨ ∃ operator rest,
      tokens = .operator operator :: rest)
    (hrun : run result .calcAddition texts = some value) :
    ∃ tail, tokens = tailTokens tail ∧
      value = result + tailResult tail := by
  rcases hvalue with rfl | ⟨operator, rest, rfl⟩
  · obtain rfl := forall₂_nil_right_iff.mp hmatches
    obtain rfl := Option.some.inj hrun
    exact ⟨[], rfl, (UInt64.add_zero result).symm⟩
  · obtain ⟨sign, rfl⟩ : ∃ sign : Sign, operator = sign.operator := by
      cases operator with
      | plus => exact ⟨.plus, rfl⟩
      | minus => exact ⟨.minus, rfl⟩
      | multiply => exact absurd rfl hterm
    obtain ⟨text, behind, htext, hbehind, rfl⟩ :=
      forall₂_cons_right_iff.mp hmatches
    have hstar : rest.head? ≠ some (.operator .multiply) := by
      intro hhead
      cases rest with
      | nil => cases hhead
      | cons token rest =>
        obtain rfl := Option.some.inj hhead
        have hnone := @run_signs_star result .calcAddition [sign] rest _
          hmatches
        rw [hnone] at hrun
        cases hrun
    rw [run_sign result _ sign htext (not_startsWithStar hbehind hstar)]
      at hrun
    have hne : rest ≠ [] := by
      rintro rfl
      exact hends [] sign.operator rfl
    obtain ⟨term, tail, rfl, hresult⟩ := ih _ rest rfl result _ behind value
      hbehind hordinary.tail (signsFollow_after .calcAddition hordinary) hne
      (@EndsInValue.suffix [.operator sign.operator] rest hends) hrun
    refine ⟨(sign, term) :: tail, (tailTokens_cons (sign, term) tail).symm, ?_⟩
    rw [hresult, tailResult_cons, UInt64.add_assoc]
    cases sign <;> rfl

theorem splitsInTerms (tokens : List (Token UInt64)) :
    SplitsInTerms tokens := by
  induction hlength : tokens.length using Nat.strong_induction_on
    generalizing tokens with
  | _ length ih =>
    subst hlength
    intro result nextoperation texts value hmatches hordinary hfollow hne
      hends hrun
    obtain ⟨signs, rest, rfl, hrest⟩ := exists_signs tokens
    match rest with
    | [] =>
      exfalso
      have hsigns : signs ≠ [] := by
        rintro rfl
        exact hne rfl
      obtain ⟨before, last, rfl⟩ :=
        (eq_nil_or_concat' signs).resolve_left hsigns
      exact hends (signTokens before) last.operator (by simp [signTokens])
    | .operator operator :: rest =>
      cases operator with
      | plus => exact absurd rfl (hrest .plus)
      | minus => exact absurd rfl (hrest .minus)
      | multiply =>
        rw [run_signs_star result hmatches] at hrun
        cases hrun
    | .value first :: rest =>
      have hvalued := hordinary.suffix
      have hlast : EndsInValue rest :=
        @EndsInValue.suffix [.value first] rest hends.suffix
      obtain ⟨after, middle, hmiddle, -, hsigns, happly⟩ :=
        run_signs result hmatches hordinary hfollow (by rintro ⟨⟩)
      obtain ⟨text, behind, htext, hbehind, rfl⟩ :=
        forall₂_cons_right_iff.mp hmiddle
      rw [hsigns] at hrun
      by_cases hproduct : rest.head? = some (.operator .multiply)
      · obtain ⟨more, rfl⟩ := head?_eq_some_iff.mp hproduct
        obtain ⟨star, factored, rfl, hfactored, rfl⟩ :=
          forall₂_cons_right_iff.mp hbehind
        match more with
        | [] => exact absurd rfl (hlast [] .multiply)
        | .operator operator :: more =>
          obtain ⟨factor, last, rfl, -, rfl⟩ :=
            forall₂_cons_right_iff.mp hfactored
          have hnone := run_not_factor result after
            (ne_star_of_val htext) (StrToQWordEx_operator operator).2
            last
          rw [show [operatorChar .multiply] = ['*'] from rfl, hnone] at hrun
          cases hrun
        | .value second :: more =>
          obtain ⟨factor, last, hfactor, hmore, rfl⟩ :=
            forall₂_cons_right_iff.mp hfactored
          have hthird : EndsTerm more := hvalued.not_third
          have hrunProduct := run_product result after htext hfactor
            (not_startsWithStar hmore hthird)
          rw [show [operatorChar .multiply] = ['*'] from rfl,
            hrunProduct] at hrun
          obtain ⟨tail, rfl, hresult⟩ := exists_tail
            (fun sign behind heq => ih behind.length
              (by simp [heq]; omega) behind rfl)
            hmore hvalued.tail.tail.tail
            (@EndsInValue.suffix
              [.operator .multiply, .value second] more hlast)
            hthird hvalued.tail.tail.after_value hrun
          refine ⟨.times (.single ⟨signs, first⟩) ⟨[], second⟩, tail, ?_, ?_⟩
          · simp [Term.tokens, Factor.tokens, signTokens]
          · rw [hresult, calculate_eq, happly, applySigns_mul]
            rfl
      · rw [run_value result after htext
          (not_startsWithStar hbehind hproduct)] at hrun
        obtain ⟨tail, rfl, hresult⟩ := exists_tail
          (fun sign behind heq => ih behind.length
            (by simp [heq]; omega) behind rfl)
          hbehind hvalued.tail hlast hproduct hvalued.after_value hrun
        refine ⟨.single ⟨signs, first⟩, tail, ?_, ?_⟩
        · simp [Term.tokens, Factor.tokens]
        · rw [hresult, calculate_eq, happly]
          rfl

def levelResult : List Text → Option UInt64
  | [] => none
  | first :: rest =>
    if isBadFormula first rest then none
    else run 0 .calcAddition (first :: rest)

theorem startsWith_operators (htext : Matches text token) :
    startsWith ['*', '+', '-'] text = (kind token).isSome := by
  cases token with
  | value value => exact startsWith_of_val htext (by decide)
  | operator operator =>
    rw [show text = [operatorChar operator] from htext]
    cases operator <;> rfl

theorem startsWith_star (htext : Matches text token) :
    startsWith ['*'] text = (kind token == some .multiply) := by
  cases token with
  | value value => exact startsWith_of_val htext (by decide)
  | operator operator =>
    rw [show text = [operatorChar operator] from htext]
    cases operator <;> rfl

theorem matches_last {first : Text} {rest : List Text}
    (hfirst : Matches first token) (hrest : List.Forall₂ Matches rest tokens) :
    Matches (rest.getLast?.getD first) (tokens.getLast?.getD token) := by
  induction hrest generalizing first token with
  | nil => exact hfirst
  | cons hnext _ ih =>
    rw [getLast?_cons, getLast?_cons]
    exact ih hnext

theorem isBadFormula_eq {first : Text} {rest : List Text}
    (hfirst : Matches first token) (hrest : List.Forall₂ Matches rest tokens) :
    isBadFormula first rest = (kind token == some .multiply ||
      (kind (tokens.getLast?.getD token)).isSome) := by
  rw [isBadFormula, startsWith_star hfirst,
    startsWith_operators (matches_last hfirst hrest)]

/-- Of an ordinary sequence of tokens, a level gets the value exactly when it
is an expression. -/
theorem levelResult_iff (hmatches : List.Forall₂ Matches texts tokens)
    (hordinary : Ordinary tokens) (value : UInt64) :
    levelResult texts = some value ↔
      ∃ expression : Expression UInt64, expression.tokens = tokens ∧
        expression.result = value := by
  cases hmatches with
  | nil =>
    refine ⟨by rintro ⟨⟩, ?_⟩
    rintro ⟨expression, hnil, -⟩
    obtain ⟨before, last, hlast⟩ := expression.exists_last
    simp [hlast] at hnil
  | @cons first token rest tokens hfirst hrest =>
    have hmatches := List.Forall₂.cons hfirst hrest
    have hbad := isBadFormula_eq hfirst hrest
    constructor
    · intro hresult
      rw [levelResult] at hresult
      split at hresult
      · cases hresult
      · next hgood =>
          rw [hbad, Bool.or_eq_true, not_or] at hgood
          have hends : EndsInValue (token :: tokens) := by
            intro before operator heq
            have hlast := congrArg List.getLast? heq
            rw [getLast?_cons, getLast?_concat] at hlast
            rw [Option.some.inj hlast] at hgood
            exact hgood.2 rfl
          obtain ⟨term, tail, htokens, hvalue⟩ := splitsInTerms _ 0
            .calcAddition _ value hmatches hordinary (by rintro ⟨⟩)
            (cons_ne_nil _ _) hends hresult
          refine ⟨.ofTerms term tail, ?_, ?_⟩
          · rw [Expression.tokens_ofTerms, htokens]
          · rw [Expression.result_ofTerms, hvalue, UInt64.zero_add]
            rfl
    · rintro ⟨expression, htokens, rfl⟩
      have hrun : run 0 .calcAddition (first :: rest) =
          some expression.result := by
        obtain ⟨behind, hbehind, hrun⟩ := @run_expression expression []
          (first :: rest) (by rwa [append_nil, htokens])
          (by rwa [append_nil, htokens]) (by rintro ⟨⟩)
        obtain rfl := forall₂_nil_right_iff.mp hbehind
        exact hrun
      rw [levelResult, hbad, if_neg, hrun]
      rw [Bool.or_eq_true, not_or]
      constructor
      · intro hstar
        cases token with
        | value value => cases hstar
        | operator operator =>
          obtain rfl : operator = .multiply := by simpa [kind] using hstar
          rw [@run_signs_star 0 .calcAddition [] tokens _ hmatches] at hrun
          cases hrun
      · obtain ⟨before, last, hlast⟩ := expression.exists_last
        have hends := congrArg List.getLast? (htokens.symm.trans hlast)
        rw [getLast?_cons, getLast?_concat] at hends
        rw [Option.some.inj hends]
        rintro ⟨⟩

end CheatEngine.Symhandler
