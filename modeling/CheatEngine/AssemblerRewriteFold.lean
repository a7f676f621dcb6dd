import CheatEngine.AssemblerRewrite

/-!
# What the assembler's rewriting computes

The two sweeps are described on the terms of a sum. Two neighbouring
constants are folded, a subtracted constant is negated, and nothing happens
from the first unknown name on.
-/

namespace CheatEngine.AssemblerRewrite

open List HexText

variable {before token : Text}

theorem multiply_other {after : Text} (htoken : token ≠ ['*']) :
    multiply before token after = (before, token, after) := by
  unfold multiply
  rw [if_neg htoken]

theorem sweepFrom_multiply {rest : List Text} (htoken : token ≠ ['*'])
    (hrest : ∀ other ∈ rest, other ≠ ['*']) :
    sweepFrom multiply before token rest = before :: token :: rest := by
  induction rest generalizing before token with
  | nil => rfl
  | cons after rest ih =>
    unfold sweepFrom
    rw [multiply_other htoken,
      ih (hrest after mem_cons_self) fun other hother =>
        hrest other (mem_cons_of_mem after hother)]

theorem sweep_multiply {tokens : List Text}
    (htokens : ∀ token ∈ tokens, token ≠ ['*']) :
    sweep multiply tokens = tokens := by
  match tokens with
  | [] => rfl
  | [before] => rfl
  | before :: token :: rest =>
    exact sweepFrom_multiply (htokens token (by simp)) fun other hother =>
      htokens other (by simp [hother])

theorem add_no_value {after : Text} (hafter : val after = none) :
    add before token after = (before, token, after) := by
  unfold add
  rw [hafter]
  cases val before <;> rfl

theorem sweepFrom_add {rest : List Text}
    (hrest : ∀ other ∈ rest, val other = none) :
    sweepFrom add before token rest = before :: token :: rest := by
  induction rest generalizing before token with
  | nil => rfl
  | cons after rest ih =>
    unfold sweepFrom
    rw [add_no_value (hrest after mem_cons_self),
      ih fun other hother => hrest other (mem_cons_of_mem after hother)]

theorem sweep_add {tokens : List Text}
    (htokens : ∀ token ∈ tokens, val token = none) :
    sweep add tokens = tokens := by
  match tokens with
  | [] => rfl
  | [before] => rfl
  | before :: token :: rest =>
    exact sweepFrom_add fun other hother =>
      htokens other (by simp [hother])

section

variable (getaddressfromname : Text → Option UInt64)

@[grind =]
def foldTerms (before : Text) : Terms → Text × Terms
  | [] => (before, [])
  | (minus, text) :: rest =>
    match lookUp getaddressfromname text with
    | none => (before, (minus, text) :: rest)
    | some found =>
      match val before, val found with
      | some a, some b =>
        (inttohex (a + signed minus b), (foldTerms [] rest).2)
      | none, some b =>
        let folded := foldTerms
          (if minus then inttohex (-b) else found) rest
        (before, (false, folded.1) :: folded.2)
      | _, none =>
        let folded := foldTerms found rest
        (before, (minus, folded.1) :: folded.2)

def foldSum (sum : Sum) : Sum :=
  match lookUp getaddressfromname sum.first with
  | none => sum
  | some found =>
    { sum with
      first := (foldTerms getaddressfromname found sum.rest).1
      rest := (foldTerms getaddressfromname found sum.rest).2 }

end

section

variable {getaddressfromname : Text → Option UInt64}

variable {before text : Text} {minus : Bool} {rest : Terms} {found : Text}
  {b : UInt64} {sum : Sum}

theorem foldTerms_unknown (hlookUp : lookUp getaddressfromname text = none) :
    foldTerms getaddressfromname before ((minus, text) :: rest) =
      (before, (minus, text) :: rest) := by
  simp only [foldTerms, hlookUp]

theorem foldTerms_constants {a : UInt64}
    (hlookUp : lookUp getaddressfromname text = some found)
    (hbefore : val before = some a) (hfound : val found = some b) :
    foldTerms getaddressfromname before ((minus, text) :: rest) =
      (inttohex (a + signed minus b),
        (foldTerms getaddressfromname [] rest).2) := by
  simp only [foldTerms, hlookUp, hbefore, hfound]

theorem foldTerms_constant
    (hlookUp : lookUp getaddressfromname text = some found)
    (hbefore : val before = none) (hfound : val found = some b) :
    foldTerms getaddressfromname before ((minus, text) :: rest) =
      (before,
        (false, (foldTerms getaddressfromname
          (if minus then inttohex (-b) else found) rest).1) ::
        (foldTerms getaddressfromname
          (if minus then inttohex (-b) else found) rest).2) := by
  simp only [foldTerms, hlookUp, hbefore, hfound]

theorem foldTerms_register
    (hlookUp : lookUp getaddressfromname text = some found)
    (hfound : val found = none) :
    foldTerms getaddressfromname before ((minus, text) :: rest) =
      (before,
        (minus, (foldTerms getaddressfromname found rest).1) ::
        (foldTerms getaddressfromname found rest).2) := by
  cases hbefore : val before <;>
    simp only [foldTerms, hlookUp, hbefore, hfound]

theorem foldTerms_fst (hbefore : val before = none) (terms : Terms) :
    (foldTerms getaddressfromname before terms).1 = before := by
  cases terms with
  | nil => rfl
  | cons term rest =>
    obtain ⟨minus, text⟩ := term
    cases hlookUp : lookUp getaddressfromname text with
    | none => rw [foldTerms_unknown hlookUp]
    | some found =>
      cases hfound : val found with
      | none => rw [foldTerms_register hlookUp hfound]
      | some b => rw [foldTerms_constant hlookUp hbefore hfound]

/-! ## The sweep on the parts -/

theorem add_constants {a : UInt64} (hbefore : val before = some a)
    (hfound : val found = some b) :
    add before [sign minus] found =
      (inttohex (a + signed minus b), [], []) := by
  unfold add
  rw [hbefore, hfound]
  cases minus with
  | false => rfl
  | true =>
    have hsub : a - b = a + signed true b :=
      UInt64.sub_eq_add_neg a b
    simp [sign, hsub]

theorem add_constant (hbefore : val before = none) (hhash : before ≠ ['#'])
    (hfound : val found = some b) :
    add before [sign minus] found =
      (before, [sign false], if minus then inttohex (-b) else found) := by
  unfold add
  rw [hbefore, hfound]
  cases minus <;> simp [sign, hhash]

theorem IsAtom.ne_star (hatom : IsAtom getaddressfromname text) :
    text ≠ ['*'] := by
  obtain ⟨char, rest, rfl, hstar, -⟩ := hatom.first
  intro heq
  exact hstar (List.cons.inj heq).1

def Settled (text : Text) : Prop :=
  text = [] ∨ IsKnown text

theorem IsKnown.ne_hash (hknown : IsKnown text) : text ≠ ['#'] := by
  intro heq
  subst heq
  revert hknown
  unfold IsKnown
  decide

theorem Settled.ne_hash (hsettled : Settled text) : text ≠ ['#'] := by
  cases hsettled with
  | inl hempty => simp [hempty]
  | inr hknown => exact hknown.ne_hash

theorem val_merged (hunknown : Unknown getaddressfromname text)
    (rest : Terms) :
    ∀ other ∈ merged text rest, val other = none := by
  intro other hother
  cases mem_append.mp hother with
  | inl hempty => rw [eq_of_mem_replicate hempty, val_nil]
  | inr hwhole => rw [mem_singleton.mp hwhole, hunknown.noValue]

theorem merged_ne_star (hunknown : Unknown getaddressfromname text)
    (rest : Terms) :
    ∀ other ∈ merged text rest, other ≠ ['*'] := by
  intro other hother
  obtain ⟨char, tail, rfl, hstar, -⟩ := hunknown.first
  cases mem_append.mp hother with
  | inl hempty => simp [eq_of_mem_replicate hempty]
  | inr hwhole =>
    rw [mem_singleton.mp hwhole]
    intro heq
    exact hstar (List.cons.inj heq).1

theorem flatten_merged (text : Text) (rest : Terms) :
    (merged text rest).flatten = text ++ rest.text := by
  simp [merged]

theorem Terms.text_cons (minus : Bool) (text : Text) (rest : Terms) :
    Terms.text ((minus, text) :: rest) =
      sign minus :: (text ++ rest.text) := by
  simp [Terms.text]

theorem sweepFrom_atom {atom : Text} {rest : List Text} :
    sweepFrom add before atom ([sign minus] :: rest) =
      before :: sweepFrom add atom [sign minus] rest := by
  rw [sweepFrom, add_no_value (val_sign minus)]

theorem resolvedTokens_cases (terms : Terms) :
    resolvedTokens getaddressfromname terms = [] ∨
      ∃ minus rest,
        resolvedTokens getaddressfromname terms = [sign minus] :: rest := by
  match terms with
  | [] => exact Or.inl rfl
  | (minus, text) :: rest =>
    right
    unfold resolvedTokens
    cases lookUp getaddressfromname text with
    | none => exact ⟨minus, _, rfl⟩
    | some found => exact ⟨minus, _, rfl⟩

theorem sweepFrom_resolved (before token : Text) (terms : Terms) :
    sweepFrom add before token (resolvedTokens getaddressfromname terms) =
      before ::
        sweep add (token :: resolvedTokens getaddressfromname terms) := by
  rcases @resolvedTokens_cases getaddressfromname terms with
    hnil | ⟨minus, rest, hcons⟩
  · rw [hnil]
    rfl
  · rw [hcons, sweepFrom_atom]
    rfl

theorem Sum.no_bracket (hvalid : sum.Valid getaddressfromname) :
    ∀ char ∈ sum.text, char ≠ '[' := by
  have hsign (minus : Bool) : sign minus ≠ '[' := by
    cases minus <;> decide
  have hatom {text : Text} (hatom : IsAtom getaddressfromname text) :
      ∀ char ∈ text, char ≠ '[' := by
    intro char hchar heq
    have hplain := (hatom.plain char hchar).1
    rw [heq] at hplain
    cases hplain
  intro char hchar
  rcases mem_append.mp hchar with hhead | hrest
  · rcases mem_append.mp hhead with hlead | hfirst
    · unfold Sum.leadText at hlead
      cases hcase : sum.lead with
      | none => simp [hcase] at hlead
      | some minus =>
        have heq : char = sign minus := by simpa [hcase] using hlead
        rw [heq]
        exact hsign minus
    · exact hatom (Sum.first_isAtom hvalid) char hfirst
  · obtain ⟨term, hterm, hchar⟩ := mem_flatMap.mp hrest
    cases mem_cons.mp hchar with
    | inl heq => rw [heq]; exact hsign term.1
    | inr htext =>
      exact hatom (Sum.rest_isAtom hvalid term hterm) char htext

variable (hconstants : ∀ text value, val text = some value →
  getaddressfromname text = some value)

include hconstants

theorem sweep_resolved {terms : Terms}
    (hatoms : ∀ term ∈ terms, IsAtom getaddressfromname term.2)
    (hsettled : Settled before) :
    (sweep add
      (before :: resolvedTokens getaddressfromname terms)).flatten =
      (foldTerms getaddressfromname before terms).1 ++
        (foldTerms getaddressfromname before terms).2.text := by
  induction terms generalizing before with
  | nil => simp [resolvedTokens, sweep, foldTerms, Terms.text]
  | cons term rest ih =>
    obtain ⟨minus, text⟩ := term
    have hrest : ∀ other ∈ rest, IsAtom getaddressfromname other.2 :=
      fun other hother => hatoms other (mem_cons_of_mem _ hother)
    rcases lookUp_atom hconstants (hatoms _ mem_cons_self) with
      ⟨hunknown, hlookUp⟩ | ⟨-, found, hlookUp, hknown, -, -, -⟩
    · rw [foldTerms_unknown hlookUp, Terms.text_cons]
      simp only [resolvedTokens, hlookUp, sweep]
      rw [sweepFrom_add (val_merged hunknown rest)]
      simp [flatten_merged]
    · simp only [resolvedTokens, hlookUp, sweep, sweepFrom]
      cases hfound : val found with
      | none =>
        rw [add_no_value hfound, foldTerms_register hlookUp hfound,
          Terms.text_cons, sweepFrom_resolved]
        simp only [flatten_cons, ih hrest (Or.inr hknown)]
        simp
      | some b =>
        cases hbefore : val before with
        | none =>
          rw [add_constant hbefore hsettled.ne_hash hfound,
            foldTerms_constant hlookUp hbefore hfound,
            Terms.text_cons, sweepFrom_resolved]
          have hnext : IsKnown
              (if minus then inttohex (-b) else found) := by
            cases minus with
            | false => exact hknown
            | true => exact isKnown_inttohex (-b)
          simp only [flatten_cons, ih hrest (Or.inr hnext)]
          simp
        | some a =>
          rw [add_constants hbefore hfound,
            foldTerms_constants hlookUp hbefore hfound, sweepFrom_resolved]
          have hempty := ih hrest (Or.inl rfl)
          rw [foldTerms_fst val_nil] at hempty
          simp only [flatten_cons, hempty]
          simp

theorem resolvedTokens_ne_star {terms : Terms}
    (hatoms : ∀ term ∈ terms, IsAtom getaddressfromname term.2) :
    ∀ token ∈ resolvedTokens getaddressfromname terms, token ≠ ['*'] := by
  induction terms with
  | nil => simp [resolvedTokens]
  | cons term rest ih =>
    obtain ⟨minus, text⟩ := term
    have hsign : [sign minus] ≠ ['*'] := by cases minus <;> decide
    have hatom := hatoms _ mem_cons_self
    rcases lookUp_atom hconstants hatom with
      ⟨hunknown, hlookUp⟩ | ⟨-, found, hlookUp, hknown, -, -, -⟩
    · simp only [resolvedTokens, hlookUp]
      intro token htoken
      cases mem_cons.mp htoken with
      | inl hfirst => rw [hfirst]; exact hsign
      | inr hlater => exact merged_ne_star hunknown rest token hlater
    · simp only [resolvedTokens, hlookUp]
      intro token htoken
      rcases mem_cons.mp htoken with hfirst | hlater
      · rw [hfirst]
        exact hsign
      · rcases mem_cons.mp hlater with hatom | hlater
        · rw [hatom]
          exact IsAtom.ne_star (Or.inl hknown :
            IsAtom getaddressfromname found)
        · exact ih (fun other hother =>
            hatoms other (mem_cons_of_mem _ hother)) token hlater

section

variable (hvalid : sum.Valid getaddressfromname)

include hvalid

theorem resolve_sum :
    resolve getaddressfromname sum.tokens =
      flush sum.leadText ++
        match lookUp getaddressfromname sum.first with
        | none => merged sum.first sum.rest
        | some found =>
          found :: resolvedTokens getaddressfromname sum.rest := by
  have hrest := Sum.rest_isAtom hvalid
  have hfirst : resolveFrom getaddressfromname sum.first sum.rest.tokens =
      match lookUp getaddressfromname sum.first with
      | none => merged sum.first sum.rest
      | some found =>
        found :: resolvedTokens getaddressfromname sum.rest := by
    rcases lookUp_atom hconstants (Sum.first_isAtom hvalid) with
      ⟨hunknown, hlookUp⟩ | ⟨-, found, hlookUp, -⟩
    · rw [hlookUp, resolveFrom_merged hunknown hrest]
    · rw [hlookUp, resolveFrom_tokens hconstants hrest hlookUp]
  unfold Sum.tokens Sum.leadText
  cases sum.lead with
  | none => exact hfirst
  | some minus =>
    change resolveFrom getaddressfromname [sign minus]
      (sum.first :: sum.rest.tokens) = _
    rw [resolveFrom, lookUp_sign]
    simp only [hfirst]
    rfl

theorem ne_star_resolve :
    ∀ token ∈ resolve getaddressfromname sum.tokens, token ≠ ['*'] := by
  rw [resolve_sum hconstants hvalid]
  intro token htoken
  rcases mem_append.mp htoken with hlead | hlater
  · unfold Sum.leadText at hlead
    cases hcase : sum.lead with
    | none => simp [hcase, flush] at hlead
    | some minus =>
      have heq : token = [sign minus] := by
        simpa [hcase, flush] using hlead
      rw [heq]
      cases minus <;> decide
  · rcases lookUp_atom hconstants (Sum.first_isAtom hvalid) with
      ⟨hunknown, hlookUp⟩ | ⟨-, found, hlookUp, hknown, -⟩
    · rw [hlookUp] at hlater
      exact merged_ne_star hunknown sum.rest token hlater
    · rw [hlookUp] at hlater
      rcases mem_cons.mp hlater with hfound | hlater
      · rw [hfound]
        exact IsAtom.ne_star (Or.inl hknown :
          IsAtom getaddressfromname found)
      · exact resolvedTokens_ne_star hconstants (Sum.rest_isAtom hvalid)
          token hlater

theorem sweep_sum :
    (sweep add (resolve getaddressfromname sum.tokens)).flatten =
      (foldSum getaddressfromname sum).text := by
  rw [resolve_sum hconstants hvalid]
  unfold foldSum Sum.text
  rcases lookUp_atom hconstants (Sum.first_isAtom hvalid) with
    ⟨hunknown, hlookUp⟩ | ⟨-, found, hlookUp, hknown, -⟩
  · have hmerged := val_merged hunknown sum.rest
    simp only [hlookUp]
    unfold Sum.leadText
    cases sum.lead with
    | none =>
      simp only [Option.elim_none, flush, isEmpty_nil, if_true, nil_append]
      rw [sweep_add hmerged, flatten_merged]
    | some minus =>
      simp only [Option.elim_some, flush, isEmpty_cons,
        Bool.false_eq_true, if_false, singleton_append]
      rw [sweep_add]
      · simp [flatten_merged]
      · intro token htoken
        cases mem_cons.mp htoken with
        | inl hsign => rw [hsign, val_sign]
        | inr hlater => exact hmerged token hlater
  · have hfold := sweep_resolved hconstants (Sum.rest_isAtom hvalid)
      (Or.inr hknown : Settled found)
    simp only [hlookUp]
    unfold Sum.leadText
    cases sum.lead with
    | none =>
      simp only [Option.elim_none, flush, isEmpty_nil, if_true, nil_append]
      exact hfold
    | some minus =>
      simp only [Option.elim_some, flush, isEmpty_cons,
        Bool.false_eq_true, if_false, singleton_append]
      change (sweepFrom add [sign minus] found
        (resolvedTokens getaddressfromname sum.rest)).flatten = _
      rw [sweepFrom_resolved, flatten_cons, hfold]
      rfl

theorem rewriteToken_sum :
    rewriteToken getaddressfromname sum.text =
      some (foldSum getaddressfromname sum).text := by
  have hpointer : pointerNotation getaddressfromname sum.text =
      some sum.text := by
    unfold pointerNotation
    rw [if_neg]
    intro ⟨_, hopen, _⟩
    have hmem : '[' ∈ sum.text :=
      mem_of_mem_take (hopen ▸ mem_cons_self)
    exact Sum.no_bracket hvalid _ hmem rfl
  unfold rewriteToken
  rw [hpointer, Option.map_some, splitFrom_sum hvalid,
    sweep_multiply (ne_star_resolve hconstants hvalid),
    sweep_sum hconstants hvalid]

end

end

/-- A term after its lookup, a constant with its sign in it. -/
structure Replaces (getaddressfromname : Text → Option UInt64)
    (minus : Bool) (text : Text) (minus' : Bool) (next : Text) : Prop where
  notUnknown : ¬ Unknown getaddressfromname text
  known : IsKnown next
  found : lookUp getaddressfromname next = some next
  constant : (val next).isSome = (val text).isSome
  negated : minus' = true → val next = none
  value : ∀ registers, signed minus' (atomValue registers next) =
    signed minus (atomValue registers text)

theorem atomValue_constant {registers : Text → UInt64} {text : Text}
    {value : UInt64} (hvalue : val text = some value) :
    atomValue registers text = value := by
  have hne := (val_eq_some hvalue).1
  simp [atomValue, hne, hvalue]

theorem negated_sum_iff (minus : Bool) (a b rest : UInt64) :
    -(a + signed minus b) + rest = -a + (signed minus b + rest) ↔
      b + b = 0 := by
  cases minus with
  | false =>
    simp only [signed, Bool.false_eq_true, if_false]
    constructor <;> intro heq <;> grind
  | true =>
    simp only [signed, if_true]
    constructor <;> intro heq <;> grind

section

variable {getaddressfromname : Text → Option UInt64}
  (hconstants : ∀ text value, val text = some value →
    getaddressfromname text = some value)

include hconstants

theorem foldTerms_step {text : Text} (hatom : IsAtom getaddressfromname text)
    (before : Text) (minus : Bool) (rest : Terms) :
    (Unknown getaddressfromname text ∧
      foldTerms getaddressfromname before ((minus, text) :: rest) =
        (before, (minus, text) :: rest)) ∨
    (∃ a b, val before = some a ∧ val text = some b ∧
      foldTerms getaddressfromname before ((minus, text) :: rest) =
        (inttohex (a + signed minus b),
          (foldTerms getaddressfromname [] rest).2)) ∨
    ∃ minus' next, Replaces getaddressfromname minus text minus' next ∧
      (val before = none ∨ val text = none) ∧
      foldTerms getaddressfromname before ((minus, text) :: rest) =
        (before, (minus', (foldTerms getaddressfromname next rest).1) ::
          (foldTerms getaddressfromname next rest).2) := by
  rcases lookUp_atom hconstants hatom with
    ⟨hunknown, hlookUp⟩ | ⟨hnot, found, hlookUp, hknown, hvalue, hsame, hagain⟩
  · exact Or.inl ⟨hunknown, foldTerms_unknown hlookUp⟩
  · right
    cases htext : val text with
    | none =>
      right
      rw [htext] at hvalue
      have hfound := hsame htext
      refine ⟨minus, found, ⟨hnot, hknown, hagain, ?_, fun _ => hvalue,
        fun registers => ?_⟩, Or.inr rfl,
        foldTerms_register hlookUp hvalue⟩
      · rw [hvalue, htext]
      · rw [hfound]
    | some b =>
      rw [htext] at hvalue
      cases hbefore : val before with
      | some a =>
        exact Or.inl ⟨a, b, rfl, rfl,
          foldTerms_constants hlookUp hbefore hvalue⟩
      | none =>
        right
        refine ⟨false, if minus then inttohex (-b) else found, ?_,
          Or.inl rfl, foldTerms_constant hlookUp hbefore hvalue⟩
        cases minus with
        | false =>
          refine ⟨hnot, hknown, hagain, ?_, by simp, fun registers => ?_⟩
          · simp [hvalue, htext]
          · simp [signed, atomValue_constant hvalue, atomValue_constant htext]
        | true =>
          refine ⟨hnot, isKnown_inttohex (-b),
            lookUp_inttohex hconstants (-b), ?_, by simp,
            fun registers => ?_⟩
          · simp [val_inttohex, htext]
          · simp [signed, atomValue_constant (val_inttohex (-b)),
              atomValue_constant htext]

theorem value_foldTerms {terms : Terms}
    (hatoms : ∀ term ∈ terms, IsAtom getaddressfromname term.2)
    (registers : Text → UInt64) (before : Text) :
    atomValue registers (foldTerms getaddressfromname before terms).1 +
        (foldTerms getaddressfromname before terms).2.value registers =
      atomValue registers before + terms.value registers := by
  induction terms generalizing before with
  | nil => rfl
  | cons term rest ih =>
    obtain ⟨minus, text⟩ := term
    have ih := ih fun other hother =>
      hatoms other (mem_cons_of_mem _ hother)
    rcases foldTerms_step hconstants (hatoms _ mem_cons_self) before
      minus rest with
      ⟨-, hfold⟩ | ⟨a, b, hbefore, htext, hfold⟩ |
        ⟨minus', next, hreplaces, -, hfold⟩
    · rw [hfold]
    · have hempty := ih []
      rw [foldTerms_fst val_nil] at hempty
      have hrest := (UInt64.add_right_inj _).mp hempty
      rw [hfold, hrest, Terms.value, atomValue_constant (val_inttohex _),
        atomValue_constant hbefore, atomValue_constant htext, UInt64.add_assoc]
    · have hnext := ih next
      rw [hfold, Terms.value, Terms.value, ← hreplaces.value registers]
      cases minus' with
      | false => exact congrArg (atomValue registers before + ·) hnext
      | true =>
        rw [foldTerms_fst (hreplaces.negated rfl)] at hnext ⊢
        rw [(UInt64.add_right_inj _).mp hnext]

theorem negated_fold_iff {terms : Terms}
    (hatoms : ∀ term ∈ terms, IsAtom getaddressfromname term.2)
    (before : Text) :
    (∀ registers,
      signed true (atomValue registers
          (foldTerms getaddressfromname before terms).1) +
        (foldTerms getaddressfromname before terms).2.value registers =
      signed true (atomValue registers before) + terms.value registers) ↔
    ¬ ((val before).isSome = true ∧
      ∃ minus text rest value, terms = (minus, text) :: rest ∧
        val text = some value ∧ value + value ≠ 0) := by
  have hsame (hfst : (foldTerms getaddressfromname before terms).1 = before)
      (registers : Text → UInt64) :
      signed true (atomValue registers
          (foldTerms getaddressfromname before terms).1) +
        (foldTerms getaddressfromname before terms).2.value registers =
      signed true (atomValue registers before) + terms.value registers := by
    have hvalue := value_foldTerms hconstants hatoms registers before
    rw [hfst] at hvalue ⊢
    rw [(UInt64.add_right_inj _).mp hvalue]
  cases terms with
  | nil => exact iff_of_true (hsame rfl) (by simp)
  | cons term rest =>
    obtain ⟨minus, text⟩ := term
    rcases foldTerms_step hconstants (hatoms _ mem_cons_self) before
      minus rest with
      ⟨hunknown, hfold⟩ | ⟨a, b, hbefore, htext, hfold⟩ |
        ⟨minus', next, -, hnone, hfold⟩
    · have hnone := hunknown.noValue []
      rw [append_nil] at hnone
      exact iff_of_true (hsame (by rw [hfold])) (by simp [hnone])
    · have hempty := fun registers => value_foldTerms hconstants
        (fun other hother =>
          hatoms other (mem_cons_of_mem _ hother)) registers []
      rw [foldTerms_fst val_nil] at hempty
      simp only [UInt64.add_right_inj] at hempty
      simp only [hfold, Terms.value, atomValue_constant hbefore,
        atomValue_constant htext, atomValue_constant (val_inttohex _), hempty]
      have hnegated (tail : UInt64) := negated_sum_iff minus a b tail
      rw [show signed true = fun value : UInt64 => -value from rfl]
      simp only [hnegated]
      simp [hbefore, htext]
    · refine iff_of_true (hsame (by rw [hfold])) ?_
      rintro ⟨hsome, _, _, _, value, hterms, htext, -⟩
      cases hterms
      cases hnone with
      | inl hbefore => simp [hbefore] at hsome
      | inr hnone => simp [hnone] at htext

theorem value_foldSum_iff {sum : Sum} (hvalid : sum.Valid getaddressfromname) :
    (∀ registers, (foldSum getaddressfromname sum).value registers =
      sum.value registers) ↔ ¬ SignLost sum := by
  have hrest := Sum.rest_isAtom hvalid
  obtain ⟨lead, first, rest⟩ := sum
  rcases lookUp_atom hconstants (Sum.first_isAtom hvalid) with
    ⟨hunknown, hlookUp⟩ | ⟨-, found, hlookUp, -, hvalue, hsame, -⟩
  · have hnone := hunknown.noValue []
    rw [append_nil] at hnone
    simp [foldSum, hlookUp, SignLost, hnone]
  · have hfound (registers : Text → UInt64) :
        atomValue registers found = atomValue registers first := by
      cases hfirst : val first with
      | none => rw [hsame hfirst]
      | some value =>
        rw [atomValue_constant hfirst,
          atomValue_constant (hvalue.trans hfirst)]
    have hfold := fun registers =>
      (value_foldTerms hconstants hrest registers found).trans
        (congrArg (· + rest.value registers) (hfound registers))
    simp only [foldSum, hlookUp, Sum.value]
    cases lead with
    | none => simpa [SignLost, signed] using hfold
    | some lead =>
      cases lead with
      | false => simpa [SignLost, signed] using hfold
      | true =>
        simp only [Option.getD_some, ← hfound]
        rw [negated_fold_iff hconstants hrest found]
        simp [SignLost, ← hvalue]

end


end CheatEngine.AssemblerRewrite
