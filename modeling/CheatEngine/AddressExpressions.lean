import CheatEngine.AddressExpressionItems

/-!
# Address expressions

When `getAddressFromName` computes what an expression means.  The symbol
handler resolves brackets from the inside out, by putting the tokens between
two brackets together to a text again and evaluating this text.
-/

namespace CheatEngine.Symhandler

open AssemblerRewrite (Text val inttohex)
open List SignedExpressions
open PascalText
open scoped UInt64.CommRing

/-! ## The text between brackets -/

variable {char : Char} {token : Token UInt64} {tokens : List (Token UInt64)}
  {is64Bit : Bool} {items : Items}

theorem toLower_ne_x {digit : ℕ}
    (hdigit : HexText.hexValue char = some digit) : char.toLower ≠ 'x' := by
  have hall : ∀ number < 103, 48 ≤ number → number ≠ 88 →
      (Char.ofNat number).toLower ≠ 'x' := by decide
  have hrange : 48 ≤ char.toNat ∧ char.toNat < 103 ∧ char.toNat ≠ 88 := by
    unfold HexText.hexValue at hdigit
    split_ifs at hdigit <;> omega
  have hchar := hall char.toNat hrange.2.1 hrange.1 hrange.2.2
  rwa [Char.ofNat_toNat] at hchar

def IsExpressionChar (char : Char) : Prop :=
  (HexText.hexValue char).isSome = true ∨ ∃ sign, char = operatorChar sign

theorem IsExpressionChar.facts (hchar : IsExpressionChar char) :
    isBlank char = false ∧ char ≠ '$' ∧ char.toLower ≠ 'x' := by
  rcases hchar with hhex | ⟨sign, rfl⟩
  · obtain ⟨digit, hdigit⟩ := Option.isSome_iff_exists.mp hhex
    refine ⟨isBlank_of_hexValue hdigit, ?_, toLower_ne_x hdigit⟩
    rintro rfl
    cases hhex
  · cases sign <;> decide

theorem Matches.chars {text : Text} (htext : Matches text token) :
    ∀ char ∈ text, IsExpressionChar char := by
  cases token with
  | value value =>
    intro char hchar
    obtain ⟨digit, hdigit⟩ :=
      (AssemblerRewrite.val_eq_some htext).2 char hchar
    exact Or.inl (by rw [hdigit]; rfl)
  | operator sign =>
    rw [show text = [operatorChar sign] from htext]
    intro char hchar
    exact Or.inr ⟨sign, mem_singleton.mp hchar⟩

theorem Matches.ne_nil {text : Text} (htext : Matches text token) :
    text ≠ [] := by
  cases token with
  | value value => exact val_ne_nil htext
  | operator sign =>
    rw [show text = [operatorChar sign] from htext]
    exact cons_ne_nil _ _

theorem handle_matches (moment : Moment) (dereference : Text → Option UInt64)
    {text : Text} (htext : Matches text token) (state : Substitution) :
    ∃ multiplied, handle moment dereference state text =
        .done (state.extend [text] multiplied) ∧
      (text = ['*'] → multiplied = true) := by
  cases token with
  | value value =>
    refine ⟨false, ?_, fun hstar => absurd hstar (ne_star_of_val htext)⟩
    rw [← push_eq]
    exact handle_number moment dereference state htext
  | operator sign =>
    obtain rfl : text = [operatorChar sign] := htext
    refine ⟨_, handle_operator dereference sign state, ?_⟩
    cases sign <;> decide

section

variable {texts : List Text} {tokens : List (Token UInt64)}
  (hmatches : List.Forall₂ Matches texts tokens)
include hmatches

theorem flatten_chars : ∀ char ∈ texts.flatten, IsExpressionChar char := by
  induction hmatches with
  | nil => simp
  | cons htext _ ih =>
    rw [flatten_cons]
    exact forall_mem_append.mpr ⟨htext.chars, ih⟩

theorem trim_flatten : trim texts.flatten = texts.flatten := by
  have hblank (char : Char) (hchar : char ∈ texts.flatten) :
      ¬ isBlank char = true := by
    rw [((flatten_chars hmatches) char hchar).facts.1]
    exact Bool.false_ne_true
  have hleft : texts.flatten.dropWhile isBlank = texts.flatten := by
    cases hflatten : texts.flatten with
    | nil => rfl
    | cons first rest =>
      exact dropWhile_cons_of_neg (hblank first (by simp [hflatten]))
  rw [trim_eq, hleft]
  exact rdropWhile_eq_self_iff.mpr fun hne =>
    hblank _ (getLast_mem hne)

theorem literal_flatten : literal texts.flatten = val texts.flatten := by
  have hchars := flatten_chars hmatches
  have hdollar : texts.flatten.head? ≠ some '$' := by
    intro hhead
    exact (hchars '$' (mem_of_mem_head? hhead)).facts.2.1 rfl
  have hx : lowerCase (texts.flatten.take 2) ≠ ['0', 'x'] := by
    intro hlower
    have hmem : 'x' ∈ lowerCase (texts.flatten.take 2) := by
      rw [hlower]
      decide
    obtain ⟨char, hchar, heq⟩ := mem_map.mp hmem
    exact (hchars char (mem_of_mem_take hchar)).facts.2.2 heq
  rw [literal, if_neg (fun hboth => hdollar hboth.1)]
  cases hvalue : val texts.flatten with
  | none => rw [if_neg (by simp), if_neg (fun hboth => hx hboth.1)]
  | some value => rw [if_pos (by simp)]

theorem tokenizeFrom_flatten (hordinary : Ordinary tokens) {current : Text}
    (hcurrent : current = [] ∨ (∃ value, val current = some value) ∧
      ∀ value, tokens.head? ≠ some (.value value)) :
    tokenizeFrom false current texts.flatten = piece current ++ texts := by
  induction hmatches generalizing current with
  | nil =>
    rw [append_nil]
    rfl
  | @cons text token texts tokens htext hrest ih =>
    rw [flatten_cons]
    cases token with
    | value value =>
      have hnil : current = [] := hcurrent.resolve_right
        fun hvalue => hvalue.2 value rfl
      subst hnil
      have hnext : ∀ value, tokens.head? ≠ some (.value value) := by
        intro other hhead
        rcases hordinary.after_value with rfl | ⟨sign, rest, rfl⟩
        · cases hhead
        · cases hhead
      rw [tokenizeFrom_plain (isPlain_of_val htext), nil_append,
        ih hordinary.tail (Or.inr ⟨⟨value, htext⟩, hnext⟩),
        piece_of_val htext, piece_blank (by simp [IsBlankText])]
      rfl
    | operator sign =>
      have hchar : isSeperator (operatorChar sign) = true := by
        cases sign <;> decide
      have hstep := @tokenizeFrom_seperator [] (by simp) _ hchar current
        texts.flatten
      rw [nil_append, append_nil] at hstep
      rw [show text = [operatorChar sign] from htext,
        singleton_append, hstep, ih hordinary.tail (Or.inl rfl)]
      rfl

theorem tokenize_flatten (hordinary : Ordinary tokens) :
    tokenize texts.flatten = texts := by
  rw [tokenize, tokenizeFrom_flatten hmatches hordinary (Or.inl rfl),
    piece_blank (by simp [IsBlankText]), nil_append]

variable (moment : Moment) (dereference : Text → Option UInt64)

theorem substitute_matches (state : Substitution) :
    ∃ multiplied, substitute moment dereference state texts =
        some (state.extend texts multiplied) ∧
      (['*'] ∈ texts → multiplied = true) := by
  induction hmatches generalizing state with
  | nil =>
    refine ⟨false, ?_, by simp⟩
    simp [substitute, Substitution.extend]
  | @cons text token texts tokens htext _ ih =>
    obtain ⟨first, hfirst, hstar⟩ :=
      handle_matches moment dereference htext state
    obtain ⟨later, hlater, hlaterStar⟩ := ih (state.extend [text] first)
    refine ⟨first || later, ?_, ?_⟩
    · rw [substitute_cons moment dereference hfirst, hlater, extend_extend]
      rfl
    · intro hmem
      rw [Bool.or_eq_true]
      rcases mem_cons.mp hmem with hhead | htail
      · exact Or.inl (hstar hhead.symm)
      · exact Or.inr (hlaterStar htail)

theorem withoutEmpty_matches : withoutEmpty texts = texts := by
  refine filter_eq_self.mpr fun text hmem => ?_
  have hne : ∀ text ∈ texts, text ≠ [] := by
    clear hmem text
    induction hmatches with
    | nil => simp
    | cons htext _ ih => exact forall_mem_cons.mpr ⟨htext.ne_nil, ih⟩
  exact decide_eq_true (hne text hmem)

theorem evaluateTokens_matches :
    evaluateTokens moment dereference texts = levelResult texts := by
  cases texts with
  | nil => rfl
  | cons first rest =>
    obtain ⟨multiplied, hsubstitute, hstar⟩ :=
      substitute_matches hmatches moment dereference ⟨[], [], false⟩
    have hrun := calculate_eq_run hstar
    rw [withoutEmpty_matches hmatches] at hrun
    rw [evaluateTokens, levelResult]
    split
    · rfl
    · exact (congrArg (Option.bind · calculate) hsubstitute).trans hrun

theorem evaluate_flatten (hordinary : Ordinary tokens) :
    evaluate moment dereference texts.flatten = levelResult texts := by
  rw [evaluate, trim_flatten hmatches, literal_flatten hmatches]
  cases hvalue : val texts.flatten with
  | none =>
    rw [tokenize_flatten hmatches hordinary]
    exact evaluateTokens_matches hmatches moment dereference
  | some value =>
    have hnot : ¬ HasSeperator texts.flatten := by
      intro hdivided
      rw [val_of_hasSeperator hdivided] at hvalue
      cases hvalue
    have hoperator (sign : Operator) (hmem : operatorChar sign ∈
        texts.flatten) : False :=
      hnot ⟨_, hmem, by cases sign <;> decide⟩
    cases hmatches with
    | nil =>
      rw [flatten_nil, AssemblerRewrite.val_nil] at hvalue
      cases hvalue
    | @cons text token texts tokens htext hrest =>
      cases token with
      | operator sign =>
        obtain rfl : text = [operatorChar sign] := htext
        exact (hoperator sign (by simp)).elim
      | value first =>
        rcases hordinary.after_value with rfl | ⟨sign, rest, rfl⟩
        · obtain rfl := forall₂_nil_right_iff.mp hrest
          rw [flatten_cons, flatten_nil, append_nil] at hvalue
          have hsingle := evaluateTokens_matches
            (List.Forall₂.cons htext List.Forall₂.nil) moment
            dereference
          rw [← hsingle, evaluateTokens_number moment dereference hvalue]
        · obtain ⟨next, others, hnext, -, rfl⟩ :=
            forall₂_cons_right_iff.mp hrest
          obtain rfl : next = [operatorChar sign] := hnext
          exact (hoperator sign (by simp)).elim

end

/-! ## Levels that are refused -/

theorem isRefused_expression (expression : Expression UInt64) :
    isRefused (expression.tokens.map kind) = false := by
  have hstart (rest : List (Token UInt64)) :
      EndsTerm (expression.tokens ++ rest) := by
    induction expression generalizing rest with
    | single term => exact endsTerm_tokens term rest
    | add expression sign term ih =>
      rw [Expression.tokens, append_assoc]
      exact ih _
  obtain ⟨before, value, hlast⟩ := expression.exists_last
  have hhead : (expression.tokens.map kind).head? ≠
      some (some .multiply) := by
    intro hhead
    rw [head?_map, Option.map_eq_some_iff] at hhead
    obtain ⟨token, htoken, hkind⟩ := hhead
    obtain rfl : token = .operator .multiply := by
      cases token with
      | value value => cases hkind
      | operator sign => exact congrArg _ (Option.some.inj hkind)
    have hends := hstart []
    rw [append_nil] at hends
    exact hends htoken
  rw [isRefused, hlast, map_append, map_singleton, getLast?_concat,
    ← map_singleton, ← map_append, ← hlast, beq_eq_false_iff_ne.mpr hhead]
  rfl

theorem exists_tokenizeFrom_last (hchar : isSeperator char = true)
    {text : Text} (htext : '"' ∉ text) (current : Text) :
    ∃ before, tokenizeFrom false current (text ++ [char]) =
      before ++ [[char]] := by
  induction text generalizing current with
  | nil =>
    have hstep := @tokenizeFrom_seperator [] (by simp) char hchar current []
    rw [append_nil, nil_append] at hstep
    exact ⟨piece current, hstep⟩
  | cons first text ih =>
    rw [mem_cons, not_or] at htext
    rw [cons_append, tokenizeFrom, if_neg (Ne.symm htext.1)]
    split
    · obtain ⟨before, hbefore⟩ := ih htext.2 []
      exact ⟨piece current ++ [first] :: before, by simp [hbefore]⟩
    · exact ih htext.2 _

theorem evaluateTokens_last (moment : Moment)
    (dereference : Text → Option UInt64) (before : List Text)
    (sign : Operator) :
    evaluateTokens moment dereference
      (before ++ [[operatorChar sign]]) = none := by
  have hlast : startsWith ['*', '+', '-'] [operatorChar sign] = true := by
    cases sign <;> rfl
  cases before with
  | nil =>
    rw [nil_append, evaluateTokens, if_pos]
    rw [isBadFormula, getLast?_nil, Option.getD_none, hlast, Bool.or_true]
  | cons first before =>
    rw [cons_append, evaluateTokens, if_pos]
    rw [isBadFormula, getLast?_concat, Option.getD_some, hlast, Bool.or_true]

theorem exists_operator_last {texts : List Text}
    (hmatches : List.Forall₂ Matches texts tokens)
    (hlast : ((tokens.map kind).getLast?.getD none).isSome = true) :
    ∃ before sign, texts = before ++ [[operatorChar sign]] := by
  induction hmatches with
  | nil => cases hlast
  | @cons text token texts tokens htext hrest ih =>
    cases hrest with
    | nil =>
      cases token with
      | value value => cases hlast
      | operator sign =>
        obtain rfl : text = [operatorChar sign] := htext
        exact ⟨[], sign, rfl⟩
    | cons hnext hrest =>
      rw [map_cons, map_cons, getLast?_cons_cons] at hlast
      obtain ⟨before, sign, hbefore⟩ := ih hlast
      exact ⟨text :: before, sign, by rw [hbefore, cons_append]⟩

theorem exists_star_first {texts : List Text}
    (hmatches : List.Forall₂ Matches texts tokens)
    (hfirst : (tokens.map kind).head? = some (some .multiply)) :
    ∃ rest, texts = ['*'] :: rest := by
  cases hmatches with
  | nil => cases hfirst
  | @cons text token texts tokens htext _ =>
    have hkind : kind token = some .multiply := Option.some.inj hfirst
    cases token with
    | value value => cases hkind
    | operator sign =>
      obtain rfl : sign = .multiply := Option.some.inj hkind
      obtain rfl : text = ['*'] := htext
      exact ⟨texts, rfl⟩

theorem evaluate_refused {texts : List Text}
    (hmatches : List.Forall₂ Matches texts tokens)
    (hrefused : isRefused (tokens.map kind) = true) (moment : Moment)
    (dereference : Text → Option UInt64) :
    evaluate moment dereference texts.flatten = none := by
  have hnone (sign : Operator) (hmem : operatorChar sign ∈ texts.flatten) :
      literal texts.flatten = none := by
    rw [literal_flatten hmatches]
    exact val_of_hasSeperator ⟨_, hmem, by cases sign <;> decide⟩
  have hquote : '"' ∉ texts.flatten := by
    intro hmem
    rcases flatten_chars hmatches '"' hmem with hhex | ⟨sign, hsign⟩
    · cases hhex
    · cases sign <;> exact absurd hsign (by decide)
  rw [evaluate, trim_flatten hmatches]
  rw [isRefused, Bool.or_eq_true, beq_iff_eq] at hrefused
  rcases hrefused with hfirst | hlast
  · obtain ⟨rest, rfl⟩ := exists_star_first hmatches hfirst
    rw [hnone .multiply (by simp [operatorChar])]
    rfl
  · obtain ⟨before, sign, rfl⟩ := exists_operator_last hmatches hlast
    rw [hnone sign (by simp)]
    have hflatten : (before ++ [[operatorChar sign]]).flatten =
        before.flatten ++ [operatorChar sign] := by
      simp
    rw [hflatten] at hquote ⊢
    obtain ⟨tokens, htokens⟩ := exists_tokenizeFrom_last
      (show isSeperator (operatorChar sign) = true by cases sign <;> decide)
      (fun hmem => hquote (mem_append_left _ hmem)) []
    rw [tokenize, htokens]
    exact evaluateTokens_last moment dereference tokens sign

/-! ## The meaning of items -/

theorem Denotes.kinds {moment : Moment}
    (hdenotes : Denotes moment is64Bit items tokens) :
    tokens.map kind = items.kinds := by
  induction hdenotes with
  | nil => rfl
  | atom _ _ ih => exact congrArg (none :: ·) ih
  | operator _ ih => exact congrArg (_ :: ·) ih
  | pointer _ _ _ _ ih => exact congrArg (none :: ·) ih

theorem Denotes.ordinary {moment : Moment}
    (hdenotes : Denotes moment is64Bit items tokens)
    (hkinds : OrdinaryKinds items.kinds) : Ordinary tokens := by
  rw [Ordinary, hdenotes.kinds]
  exact hkinds

theorem Denotes.not_refused {moment : Moment}
    {expression : Expression UInt64}
    (hdenotes : Denotes moment is64Bit items expression.tokens) :
    ¬ isRefused items.kinds = true := by
  rw [← hdenotes.kinds, isRefused_expression]
  exact Bool.false_ne_true

theorem flatten_withoutEmpty (texts : List Text) :
    (withoutEmpty texts).flatten = texts.flatten := by
  induction texts with
  | nil => rfl
  | cons text rest ih =>
    rw [withoutEmpty_cons, flatten_cons]
    split
    · next hnil => rw [ih, hnil, nil_append]
    · rw [flatten_cons, ih]

theorem withoutEmpty_append (before after : List Text) :
    withoutEmpty (before ++ after) =
      withoutEmpty before ++ withoutEmpty after :=
  filter_append ..

theorem withoutEmpty_replicate (count : ℕ) :
    withoutEmpty (List.replicate count []) = [] := by
  induction count with
  | zero => rfl
  | succ count ih =>
    rw [replicate_succ, withoutEmpty_cons, if_pos rfl, ih]

section

variable {moment : Moment} {is64Bit : Bool}

theorem dereference_eq (hreads : OrdinaryReads moment is64Bit)
    (address : UInt64) :
    dereference moment is64Bit address =
      readPointer moment is64Bit address := by
  rw [dereference, readPointer]
  rcases hread : moment.readprocessmemory address (pointersize is64Bit) with
    ⟨succeeded, bytes⟩
  cases succeeded with
  | false => rfl
  | true =>
    have hlength := hreads.complete _ _ _ hread
    have hzero : address.toNat / 256 ^ bytes.length = 0 := by
      rw [hlength]
      cases is64Bit with
      | true => exact Nat.div_eq_of_lt address.toNat_lt
      | false =>
        exact Nat.div_eq_of_lt (hreads.inside rfl address bytes hread)
    simp only [if_pos hlength, overlay, hzero, Nat.zero_mul, Nat.zero_add]

theorem val_resolve {text replacement : Text}
    (hresolve : resolve moment text = some replacement) :
    ∃ value, val replacement = some value ∧
      (literal text = val text → atomValue moment text = some value) := by
  rw [resolve] at hresolve
  cases hvalue : val text with
  | some value =>
    rw [hvalue] at hresolve
    obtain rfl : text = replacement := Option.some.inj hresolve
    refine ⟨value, hvalue, fun hnumber => ?_⟩
    rw [atomValue, hnumber]
  | none =>
    rw [hvalue, if_neg (by simp)] at hresolve
    cases hlookup : moment.lookup text with
    | address value =>
      rw [hlookup] at hresolve
      obtain rfl := Option.some.inj hresolve
      refine ⟨value, AssemblerRewrite.val_inttohex value, fun hnumber => ?_⟩
      rw [atomValue, hnumber, hlookup]
    | failure =>
      rw [hlookup] at hresolve
      cases hresolve
    | unknown left =>
      rw [hlookup] at hresolve
      cases hresolve

theorem resolve_of_atomValue {text : Text} {value : UInt64}
    (hvalue : atomValue moment text = some value)
    (hnumber : literal text = val text) :
    ∃ replacement, resolve moment text = some replacement := by
  rw [atomValue, hnumber] at hvalue
  rw [resolve]
  cases hval : val text with
  | some number => exact ⟨text, rfl⟩
  | none =>
    rw [hval] at hvalue
    cases hlookup : moment.lookup text with
    | address found => exact ⟨inttohex found, rfl⟩
    | failure =>
      rw [hlookup] at hvalue
      cases hvalue
    | unknown left =>
      rw [hlookup] at hvalue
      cases hvalue

/-- What replaces a closed level is the pointer that is read where its
expression points. -/
def Dereferences (moment : Moment) (is64Bit : Bool)
    (dereferenceText : Text → Option UInt64) : Prop :=
  (∀ texts tokens, List.Forall₂ Matches texts tokens → Ordinary tokens →
    dereferenceText texts.flatten =
      (levelResult texts).bind (readPointer moment is64Bit)) ∧
  ∀ texts tokens, List.Forall₂ Matches texts tokens →
    isRefused (tokens.map kind) = true →
    dereferenceText texts.flatten = none

section

variable {dereferenceText : Text → Option UInt64}

def NumbersPlain (lexemes : List Lexeme) : Prop :=
  ∀ known, .atom known ∈ lexemes → literal known.name = val known.name

theorem dereference_inside
    (hdereference : Dereferences moment is64Bit dereferenceText)
    {inside : List Text} {tokens : List (Token UInt64)}
    (hmatches : List.Forall₂ Matches (withoutEmpty inside) tokens)
    (hordinary : Ordinary tokens) (value : UInt64) :
    dereferenceText inside.flatten = some value ↔
      ∃ expression : Expression UInt64, expression.tokens = tokens ∧
        readPointer moment is64Bit expression.result = some value := by
  rw [← flatten_withoutEmpty, hdereference.1 _ _ hmatches hordinary,
    Option.bind_eq_some_iff]
  simp only [levelResult_iff hmatches hordinary]
  constructor
  · rintro ⟨address, ⟨expression, htokens, rfl⟩, hread⟩
    exact ⟨expression, htokens, hread⟩
  · rintro ⟨expression, htokens, hread⟩
    exact ⟨expression.result, ⟨expression, htokens, rfl⟩, hread⟩

theorem withoutEmpty_text {text : Text} {value : UInt64}
    (hvalue : val text = some value) (count : ℕ) (after : List Text) :
    withoutEmpty (List.replicate count [] ++ text :: after) =
      text :: withoutEmpty after := by
  rw [withoutEmpty_append, withoutEmpty_replicate, nil_append,
    withoutEmpty_cons, if_neg (val_ne_nil hvalue)]

theorem withoutEmpty_value (value : UInt64) (count : ℕ) (after : List Text) :
    withoutEmpty (inttohex value :: (List.replicate count [] ++ after)) =
      inttohex value :: withoutEmpty after := by
  rw [withoutEmpty_cons,
    if_neg (val_ne_nil (AssemblerRewrite.val_inttohex value)),
    withoutEmpty_append, withoutEmpty_replicate, nil_append]

variable {items : Items}

theorem exists_replaced {tokens : List (Token UInt64)}
    (hdenotes : Denotes moment is64Bit items tokens)
    (hinside : items.InsideOrdinary) (hnumbers : NumbersPlain items.lexemes)
    (hdereference : .openBracket ∈ items.lexemes →
      Dereferences moment is64Bit dereferenceText) :
    ∃ after, items.replaced moment dereferenceText = some after ∧
      List.Forall₂ Matches (withoutEmpty after.1) tokens := by
  induction hdenotes with
  | nil => exact ⟨_, rfl, List.Forall₂.nil⟩
  | @atom known rest tokens value hvalue _ ih =>
    have hnumber := hnumbers known mem_cons_self
    obtain ⟨after, hafter, hmatches⟩ := ih hinside
      (fun other hother => hnumbers other (mem_cons_of_mem _ hother))
      (fun hopen => hdereference (mem_cons_of_mem _ hopen))
    obtain ⟨text, htext⟩ := resolve_of_atomValue hvalue hnumber
    obtain ⟨number, hval, hsame⟩ := val_resolve htext
    obtain rfl := Option.some.inj (hvalue.symm.trans (hsame hnumber))
    refine ⟨(List.replicate (known.tokens.length - 1) [] ++ text :: after.1,
      after.2), ?_, ?_⟩
    · rw [Items.replaced, htext, hafter]
      rfl
    · rw [withoutEmpty_text hval]
      exact List.Forall₂.cons hval hmatches
  | @operator sign rest tokens _ ih =>
    obtain ⟨after, hafter, hmatches⟩ := ih hinside
      (fun other hother => hnumbers other (mem_cons_of_mem _ hother))
      (fun hopen => hdereference (mem_cons_of_mem _ hopen))
    refine ⟨([operatorChar sign] :: after.1, sign == .multiply || after.2),
      ?_, ?_⟩
    · rw [Items.replaced, hafter]
      rfl
    · rw [withoutEmpty_cons, if_neg (cons_ne_nil _ _)]
      exact List.Forall₂.cons rfl hmatches
  | @pointer inner rest tokens expression value hinner hread _ ihInner ih =>
    obtain ⟨hlevel, hrestInside⟩ := hinside
    obtain ⟨hkinds, hinnerInside⟩ := hlevel.resolve_left hinner.not_refused
    have hlexemes : (Items.pointer inner rest).lexemes =
        .openBracket :: (inner.lexemes ++ .closeBracket :: rest.lexemes) :=
      rfl
    have hderef := hdereference (by simp [hlexemes])
    obtain ⟨inside, hinside, hinsideMatches⟩ := ihInner hinnerInside
      (fun other hother => hnumbers other (by simp [hlexemes, hother]))
      (fun _ => hderef)
    obtain ⟨after, hafter, hmatches⟩ := ih hrestInside
      (fun other hother => hnumbers other (by simp [hlexemes, hother]))
      (fun _ => hderef)
    have hpointer : dereferenceText inside.1.flatten = some value :=
      (dereference_inside hderef hinsideMatches (hinner.ordinary hkinds)
        value).mpr ⟨expression, rfl, hread⟩
    refine ⟨(inttohex value ::
      (List.replicate (inside.1.length + 1) [] ++ after.1),
      inside.2 || after.2), ?_, ?_⟩
    · rw [Items.replaced, hinside, Option.bind_some, hpointer, hafter]
      rfl
    · rw [withoutEmpty_value]
      exact List.Forall₂.cons (AssemblerRewrite.val_inttohex value) hmatches

theorem exists_matches {after : List Text × Bool}
    (hreplaced : items.replaced moment dereferenceText = some after) :
    ∃ tokens : List (Token UInt64), tokens.map kind = items.kinds ∧
      List.Forall₂ Matches (withoutEmpty after.1) tokens := by
  induction items generalizing after with
  | nil =>
    obtain rfl : ([], false) = after := Option.some.inj hreplaced
    exact ⟨[], rfl, List.Forall₂.nil⟩
  | atom known rest ih =>
    rw [Items.replaced, Option.bind_eq_some_iff] at hreplaced
    obtain ⟨text, htext, hreplaced⟩ := hreplaced
    obtain ⟨later, hlater, rfl⟩ := Option.map_eq_some_iff.mp hreplaced
    obtain ⟨tokens, hkinds, hmatches⟩ := ih hlater
    obtain ⟨value, hval, -⟩ := val_resolve htext
    refine ⟨.value value :: tokens, congrArg (none :: ·) hkinds, ?_⟩
    rw [withoutEmpty_text hval]
    exact List.Forall₂.cons hval hmatches
  | operator sign rest ih =>
    obtain ⟨later, hlater, rfl⟩ := Option.map_eq_some_iff.mp hreplaced
    obtain ⟨tokens, hkinds, hmatches⟩ := ih hlater
    refine ⟨.operator sign :: tokens, congrArg (some sign :: ·) hkinds, ?_⟩
    rw [withoutEmpty_cons, if_neg (cons_ne_nil _ _)]
    exact List.Forall₂.cons rfl hmatches
  | pointer inner rest _ ih =>
    rw [Items.replaced, Option.bind_eq_some_iff] at hreplaced
    obtain ⟨inside, -, hreplaced⟩ := hreplaced
    obtain ⟨value, -, hreplaced⟩ := Option.bind_eq_some_iff.mp hreplaced
    obtain ⟨later, hlater, rfl⟩ := Option.map_eq_some_iff.mp hreplaced
    obtain ⟨tokens, hkinds, hmatches⟩ := ih hlater
    refine ⟨.value value :: tokens, congrArg (none :: ·) hkinds, ?_⟩
    rw [withoutEmpty_value]
    exact List.Forall₂.cons (AssemblerRewrite.val_inttohex value) hmatches

theorem not_refused_of_dereference
    (hdereference : Dereferences moment is64Bit dereferenceText)
    {inner : Items} {inside : List Text × Bool}
    (hreplaced : inner.replaced moment dereferenceText = some inside)
    {value : UInt64} (hvalue : dereferenceText inside.1.flatten = some value) :
    ¬ isRefused inner.kinds = true := by
  obtain ⟨tokens, hkinds, hmatches⟩ := exists_matches hreplaced
  rw [← hkinds]
  intro hrefused
  have hnone := hdereference.2 _ _ hmatches hrefused
  rw [flatten_withoutEmpty, hvalue] at hnone
  cases hnone

theorem denotes_of_replaced {after : List Text × Bool}
    (hreplaced : items.replaced moment dereferenceText = some after)
    (hinside : items.InsideOrdinary) (hnumbers : NumbersPlain items.lexemes)
    (hdereference : .openBracket ∈ items.lexemes →
      Dereferences moment is64Bit dereferenceText) :
    ∃ tokens, Denotes moment is64Bit items tokens ∧
      List.Forall₂ Matches (withoutEmpty after.1) tokens := by
  induction items generalizing after with
  | nil =>
    obtain rfl : ([], false) = after := Option.some.inj hreplaced
    exact ⟨[], .nil, List.Forall₂.nil⟩
  | atom known rest ih =>
    rw [Items.replaced, Option.bind_eq_some_iff] at hreplaced
    obtain ⟨text, htext, hreplaced⟩ := hreplaced
    obtain ⟨later, hlater, rfl⟩ := Option.map_eq_some_iff.mp hreplaced
    obtain ⟨tokens, hdenotes, hmatches⟩ := ih hlater hinside
      (fun other hother => hnumbers other (mem_cons_of_mem _ hother))
      (fun hopen => hdereference (mem_cons_of_mem _ hopen))
    have hnumber := hnumbers known mem_cons_self
    obtain ⟨value, hval, hvalue⟩ := val_resolve htext
    refine ⟨.value value :: tokens, .atom (hvalue hnumber) hdenotes, ?_⟩
    rw [withoutEmpty_text hval]
    exact List.Forall₂.cons hval hmatches
  | operator sign rest ih =>
    obtain ⟨later, hlater, rfl⟩ := Option.map_eq_some_iff.mp hreplaced
    obtain ⟨tokens, hdenotes, hmatches⟩ := ih hlater hinside
      (fun other hother => hnumbers other (mem_cons_of_mem _ hother))
      (fun hopen => hdereference (mem_cons_of_mem _ hopen))
    refine ⟨.operator sign :: tokens, .operator hdenotes, ?_⟩
    rw [withoutEmpty_cons, if_neg (cons_ne_nil _ _)]
    exact List.Forall₂.cons rfl hmatches
  | pointer inner rest ihInner ih =>
    obtain ⟨hlevel, hrestInside⟩ := hinside
    have hlexemes : (Items.pointer inner rest).lexemes =
        .openBracket :: (inner.lexemes ++ .closeBracket :: rest.lexemes) :=
      rfl
    have hderef := hdereference (by simp [hlexemes])
    rw [Items.replaced, Option.bind_eq_some_iff] at hreplaced
    obtain ⟨inside, hinside, hreplaced⟩ := hreplaced
    obtain ⟨value, hvalue, hreplaced⟩ :=
      Option.bind_eq_some_iff.mp hreplaced
    obtain ⟨later, hlater, rfl⟩ := Option.map_eq_some_iff.mp hreplaced
    obtain ⟨hkinds, hinnerInside⟩ := hlevel.resolve_left
      (not_refused_of_dereference hderef hinside hvalue)
    obtain ⟨innerTokens, hinner, hinsideMatches⟩ := ihInner hinside
      hinnerInside
      (fun other hother => hnumbers other (by simp [hlexemes, hother]))
      (fun _ => hderef)
    obtain ⟨tokens, hdenotes, hmatches⟩ := ih hlater hrestInside
      (fun other hother => hnumbers other (by simp [hlexemes, hother]))
      (fun _ => hderef)
    obtain ⟨expression, rfl, hread⟩ := (dereference_inside hderef
      hinsideMatches (hinner.ordinary hkinds) value).mp hvalue
    refine ⟨.value value :: tokens, .pointer hinner hread hdenotes, ?_⟩
    rw [withoutEmpty_value]
    exact List.Forall₂.cons (AssemblerRewrite.val_inttohex value) hmatches

end

end

/-! ## The outer level -/

section

variable {moment : Moment} {dereferenceText : Text → Option UInt64}

variable {items : Items}

theorem replaced_star {after : List Text × Bool}
    (hreplaced : items.replaced moment dereferenceText = some after)
    (hstar : ['*'] ∈ after.1) : after.2 = true := by
  induction items generalizing after with
  | nil =>
    obtain rfl : ([], false) = after := Option.some.inj hreplaced
    cases hstar
  | atom known rest ih =>
    rw [Items.replaced, Option.bind_eq_some_iff] at hreplaced
    obtain ⟨text, htext, hreplaced⟩ := hreplaced
    obtain ⟨later, hlater, rfl⟩ := Option.map_eq_some_iff.mp hreplaced
    obtain ⟨value, hvalue, -⟩ := val_resolve htext
    change later.2 = true
    rcases mem_append.mp hstar with hempty | hstar
    · exact absurd (eq_of_mem_replicate hempty) (by decide)
    · rcases mem_cons.mp hstar with hhead | htail
      · exact absurd hhead.symm (ne_star_of_val hvalue)
      · exact ih hlater htail
  | operator sign rest ih =>
    obtain ⟨later, hlater, rfl⟩ := Option.map_eq_some_iff.mp hreplaced
    rcases mem_cons.mp hstar with hhead | htail
    · cases sign with
      | plus => exact absurd hhead (by decide)
      | minus => exact absurd hhead (by decide)
      | multiply => rfl
    · exact Bool.or_eq_true_iff.mpr (Or.inr (ih hlater htail))
  | pointer inner rest _ ih =>
    rw [Items.replaced, Option.bind_eq_some_iff] at hreplaced
    obtain ⟨inside, -, hreplaced⟩ := hreplaced
    obtain ⟨value, -, hreplaced⟩ := Option.bind_eq_some_iff.mp hreplaced
    obtain ⟨later, hlater, rfl⟩ := Option.map_eq_some_iff.mp hreplaced
    refine Bool.or_eq_true_iff.mpr (Or.inr (ih hlater ?_))
    rcases mem_cons.mp hstar with hhead | htail
    · exact absurd hhead.symm
        (ne_star_of_val (AssemblerRewrite.val_inttohex value))
    · rcases mem_append.mp htail with hempty | hafter
      · exact absurd (eq_of_mem_replicate hempty) (by decide)
      · exact hafter

def Lexeme.isOperator : Lexeme → Bool
  | operator _ => true
  | _ => false

theorem Items.last_isOperator (items : Items) {lexeme : Lexeme}
    {sort : Option Operator} (hsort : lexeme.isOperator = sort.isSome) :
    (items.lexemes.getLast?.getD lexeme).isOperator =
      (items.kinds.getLast?.getD sort).isSome := by
  induction items generalizing lexeme sort with
  | nil => exact hsort
  | atom known rest ih =>
    rw [Items.lexemes, getLast?_cons, Items.kinds, getLast?_cons]
    exact ih rfl
  | operator sign rest ih =>
    rw [Items.lexemes, getLast?_cons, Items.kinds, getLast?_cons]
    exact ih rfl
  | pointer inner rest _ ih =>
    rw [Items.lexemes, getLast?_cons, getLast?_append,
      getLast?_cons, Items.kinds, getLast?_cons]
    exact ih rfl

theorem tokens_ne_nil {known : Atom} {behind : List Text}
    (hreads : readsName moment known behind = true) : known.tokens ≠ [] := by
  intro hnil
  rw [readsName, hnil] at hreads
  cases hreads

theorem startsWith_last {lexemes : List Lexeme}
    (hnames : ReadsNames moment lexemes) (hends : EndsPlain lexemes) :
    startsWith ['*', '+', '-'] ((texts lexemes).getLast?.getD []) =
      (lexemes.getLast?.getD .openBracket).isOperator := by
  rcases eq_nil_or_concat' lexemes with rfl | ⟨before, last, rfl⟩
  · rfl
  · have htexts : texts (before ++ [last]) = texts before ++ last.tokens := by
      simp [texts]
    rw [htexts, getLast?_append, getLast?_concat, Option.getD_some]
    cases last with
    | atom known =>
      have hne := tokens_ne_nil (readsNames_append _ hnames).1
      have hlast := getLast?_eq_some_getLast hne
      have hplain := hends known getLast?_concat _ hlast
      rw [Lexeme.tokens, hlast]
      exact hplain
    | operator sign => cases sign <;> rfl
    | openBracket => rfl
    | closeBracket => rfl

theorem isBadFormula_texts (hnames : ReadsNames moment items.lexemes)
    (hends : EndsPlain items.lexemes) {first : Text} {rest : List Text}
    (htexts : texts items.lexemes = first :: rest) :
    isBadFormula first rest = isRefused items.kinds := by
  have hfirst : startsWith ['*'] first =
      (items.kinds.head? == some (some .multiply)) := by
    cases items with
    | nil => cases htexts
    | atom known items =>
      obtain ⟨hreads, -⟩ := hnames
      have hhead : (known.tokens ++ texts items.lexemes).head? =
          some first := by
        rw [show known.tokens ++ texts items.lexemes = first :: rest from
          htexts]
        rfl
      rw [readsName] at hreads
      cases htokens : known.tokens with
      | nil =>
        rw [htokens] at hreads
        cases hreads
      | cons start pieces =>
        rw [htokens] at hreads hhead
        obtain rfl := Option.some.inj hhead
        exact startsWith_plain (Bool.and_eq_true_iff.mp hreads).1 (by decide)
    | operator sign items =>
      obtain ⟨rfl, -⟩ := List.cons.inj htexts
      cases sign <;> rfl
    | pointer inner items =>
      obtain ⟨rfl, -⟩ := List.cons.inj htexts
      rfl
  have hlast := startsWith_last hnames hends
  rw [htexts, getLast?_cons, Option.getD_some,
    @Items.last_isOperator items .openBracket none rfl] at hlast
  rw [isBadFormula, isRefused, hfirst, hlast]

/-- The check of the formula sees the same in the tokens and in the texts that
replace them. -/
theorem isBadFormula_items (hnames : ReadsNames moment items.lexemes)
    (hends : EndsPlain items.lexemes) {first text : Text}
    {rest others : List Text}
    {token : Token UInt64} {tokens : List (Token UInt64)}
    (htexts : texts items.lexemes = first :: rest)
    (hkinds : (token :: tokens).map kind = items.kinds)
    (htext : Matches text token)
    (hothers : List.Forall₂ Matches others tokens) :
    isBadFormula first rest = isBadFormula text others := by
  rw [isBadFormula_texts hnames hends htexts, isBadFormula_eq htext hothers,
    ← hkinds, isRefused, getLast?_map, getLast?_cons]
  rfl

theorem evaluateTokens_refused (hnames : ReadsNames moment items.lexemes)
    (hends : EndsPlain items.lexemes)
    (hrefused : isRefused items.kinds = true) :
    evaluateTokens moment dereferenceText (texts items.lexemes) = none := by
  cases htexts : texts items.lexemes with
  | nil => rfl
  | cons first rest =>
    rw [evaluateTokens, isBadFormula_texts hnames hends htexts,
      if_pos hrefused]

theorem substitute_all {items : Items}
    (hnames : ReadsNames moment items.lexemes) (state : Substitution) :
    substitute moment dereferenceText state (texts items.lexemes) =
      (items.replaced moment dereferenceText).map fun after =>
        state.extend after.1 after.2 := by
  have hitems := @substitute_items moment dereferenceText items []
    (by rwa [append_nil]) state
  rw [append_nil] at hitems
  rw [hitems]
  cases items.replaced moment dereferenceText <;> rfl

theorem evaluateTokens_none (hnames : ReadsNames moment items.lexemes)
    (hreplaced : items.replaced moment dereferenceText = none) :
    evaluateTokens moment dereferenceText (texts items.lexemes) = none := by
  have hsubstitute := @substitute_all moment dereferenceText items hnames
    ⟨[], [], false⟩
  rw [hreplaced] at hsubstitute
  cases htexts : texts items.lexemes with
  | nil => rfl
  | cons first rest =>
    rw [htexts] at hsubstitute
    rw [evaluateTokens]
    split
    · rfl
    · exact congrArg (Option.bind · calculate) hsubstitute

theorem evaluateTokens_items (hnames : ReadsNames moment items.lexemes)
    (hends : EndsPlain items.lexemes)
    {after : List Text × Bool}
    (hreplaced : items.replaced moment dereferenceText = some after)
    {tokens : List (Token UInt64)} (hkinds : tokens.map kind = items.kinds)
    (hmatches : List.Forall₂ Matches (withoutEmpty after.1) tokens) :
    evaluateTokens moment dereferenceText (texts items.lexemes) =
      levelResult (withoutEmpty after.1) := by
  have hsubstitute := @substitute_all moment dereferenceText items hnames
    ⟨[], [], false⟩
  have hrun := calculate_eq_run (replaced_star hreplaced)
  rw [hreplaced] at hsubstitute
  cases htexts : texts items.lexemes with
  | nil =>
    cases items with
    | nil =>
      obtain rfl : ([], false) = after := Option.some.inj hreplaced
      rfl
    | atom known rest =>
      exact absurd (append_eq_nil_iff.mp htexts).1
        (tokens_ne_nil hnames.1)
    | operator sign rest => cases htexts
    | pointer inner rest => cases htexts
  | cons first rest =>
    rw [htexts] at hsubstitute
    cases hempty : withoutEmpty after.1 with
    | nil =>
      rw [hempty] at hmatches
      obtain rfl := forall₂_nil_left_iff.mp hmatches
      cases items with
      | nil => cases htexts
      | atom known rest => cases hkinds
      | operator sign rest => cases hkinds
      | pointer inner rest => cases hkinds
    | cons text others =>
      rw [hempty] at hmatches hrun
      cases hmatches with
      | cons htext hothers =>
        rw [evaluateTokens, levelResult,
          isBadFormula_items hnames hends htexts hkinds htext hothers]
        split
        · rfl
        · exact (congrArg (Option.bind · calculate) hsubstitute).trans hrun

end

/-! ## Brackets without a partner -/

inductive Unclosed : List Lexeme → Prop
  | last (items : Items) : Unclosed (.openBracket :: items.lexemes)
  | more (items : Items) {rest : List Lexeme} (hrest : Unclosed rest) :
      Unclosed (.openBracket :: (items.lexemes ++ rest))

theorem exists_items (lexemes : List Lexeme) :
    ∃ (items : Items) (rest : List Lexeme),
      lexemes = items.lexemes ++ rest ∧
        (rest = [] ∨ (∃ after, rest = .closeBracket :: after) ∨
          Unclosed rest) := by
  induction hlength : lexemes.length using Nat.strong_induction_on
    generalizing lexemes with
  | _ length ih =>
    subst hlength
    match lexemes with
    | [] => exact ⟨.nil, [], rfl, Or.inl rfl⟩
    | .atom known :: lexemes =>
      obtain ⟨items, rest, rfl, hrest⟩ := ih lexemes.length (by simp)
        lexemes rfl
      exact ⟨.atom known items, rest, rfl, hrest⟩
    | .operator sign :: lexemes =>
      obtain ⟨items, rest, rfl, hrest⟩ := ih lexemes.length (by simp)
        lexemes rfl
      exact ⟨.operator sign items, rest, rfl, hrest⟩
    | .closeBracket :: lexemes =>
      exact ⟨.nil, _, rfl, Or.inr (Or.inl ⟨lexemes, rfl⟩)⟩
    | .openBracket :: lexemes =>
      obtain ⟨inner, rest, rfl, hrest⟩ := ih lexemes.length (by simp)
        lexemes rfl
      rcases hrest with rfl | ⟨after, rfl⟩ | hunclosed
      · refine ⟨.nil, _, rfl, Or.inr (Or.inr ?_)⟩
        rw [append_nil]
        exact .last inner
      · obtain ⟨items, rest, rfl, hrest⟩ := ih after.length
          (by simp; omega) after rfl
        exact ⟨.pointer inner items, rest, by simp [Items.lexemes], hrest⟩
      · exact ⟨.nil, _, rfl, Or.inr (Or.inr (.more inner hunclosed))⟩

theorem mem_multiplyFrom (before : Option Text) (texts : List Text)
    {tokens : List Text} (htokens : multiplyFrom before texts = some tokens)
    (hmem : before = some ['['] ∨ ['['] ∈ texts) : ['['] ∈ tokens := by
  fun_induction multiplyFrom before texts generalizing tokens with
  | case1 before =>
    obtain rfl := Option.some.inj htokens
    simpa using hmem
  | case2 before => cases htokens
  | case3 before token hne =>
    obtain rfl := Option.some.inj htokens
    simpa [eq_comm] using hmem
  | case4 before next rest ih =>
    obtain ⟨a, ha, htokens⟩ := Option.bind_eq_some_iff.mp htokens
    obtain ⟨b, hb, htokens⟩ := Option.bind_eq_some_iff.mp htokens
    obtain ⟨later, hlater, rfl⟩ := Option.map_eq_some_iff.mp htokens
    obtain ⟨first, hfirst, ha⟩ := Option.bind_eq_some_iff.mp ha
    have hrest : ['['] ∈ rest := by
      rcases hmem with rfl | hmem
      · obtain rfl := Option.some.inj hfirst
        cases ha
      · rcases mem_cons.mp hmem with hstar | hmem
        · exact absurd hstar (by decide)
        · rcases mem_cons.mp hmem with rfl | hmem
          · cases hb
          · exact hmem
    have hin := ih hlater (Or.inr hrest)
    exact mem_cons_of_mem _ (mem_cons_of_mem _ hin)
  | case5 before token next rest hne ih =>
    obtain ⟨later, hlater, rfl⟩ := Option.map_eq_some_iff.mp htokens
    rcases hmem with rfl | hmem
    · exact mem_append_left _ (by simp)
    · refine mem_append_right _ (ih hlater ?_)
      rcases mem_cons.mp hmem with rfl | hmem
      · exact Or.inl rfl
      · exact Or.inr hmem

theorem addFrom_bracket {texts : List Text} (hmem : ['['] ∈ texts)
    (result : UInt64) (nextoperation : TCalculation) :
    addFrom result nextoperation texts = none := by
  induction texts generalizing result nextoperation with
  | nil => cases hmem
  | cons token rest ih =>
    rcases mem_cons.mp hmem with rfl | htail
    · rfl
    · rw [addFrom]
      split
      · exact ih htail _ _
      · split
        · exact ih htail _ _
        · split
          · exact ih htail _ _
          · cases StrToQWordEx token with
            | none => rfl
            | some value => exact ih htail _ _

theorem calculate_bracket {state : Substitution}
    (hmem : ['['] ∈ state.all) : calculate state = none := by
  rw [calculate]
  split
  · have hleft : ['['] ∈ removeEmpty state.all := by
      have hkept : ['['] ∈ withoutEmpty state.all :=
        mem_filter.mpr ⟨hmem, by decide⟩
      rcases removeEmpty_cases state.all with hremove | hremove
      · rwa [hremove]
      · rw [hremove]
        exact mem_append_left _ hkept
    cases htokens : multiplyFrom none (removeEmpty state.all) with
    | none => rfl
    | some tokens =>
      exact addFrom_bracket (mem_multiplyFrom _ _ htokens (Or.inr hleft))
        0 .calcAddition
  · exact addFrom_bracket hmem 0 .calcAddition

theorem mem_foldl_outside {outside : List (List Text)} {before : List Text}
    (hbefore : before ∈ outside) {text : Text} (htext : text ∈ before)
    (tokens : List Text) :
    text ∈ outside.foldl (fun tokens before => before ++ tokens) tokens := by
  induction outside generalizing tokens with
  | nil => cases hbefore
  | cons first rest ih =>
    have hkept : ∀ (rest : List (List Text)) (tokens : List Text),
        text ∈ tokens →
        text ∈ rest.foldl (fun tokens before => before ++ tokens)
          tokens := by
      intro rest
      induction rest with
      | nil => exact fun tokens hmem => hmem
      | cons next rest ih =>
        exact fun tokens hmem => ih _ (mem_append_right _ hmem)
    rcases mem_cons.mp hbefore with rfl | hrest
    · exact hkept rest _ (mem_append_left _ htext)
    · exact ih hrest _

section

variable {moment : Moment} {dereferenceText : Text → Option UInt64}

theorem substitute_unclosed {lexemes : List Lexeme}
    (hunclosed : Unclosed lexemes) (hnames : ReadsNames moment lexemes)
    (state : Substitution) {after : Substitution}
    (hsubstitute : substitute moment dereferenceText state (texts lexemes) =
      some after) :
    ∃ before ∈ after.outside, ['['] ∈ before := by
  have hopen (state : Substitution) (rest : List Lexeme) :
      substitute moment dereferenceText state (texts (.openBracket :: rest)) =
        substitute moment dereferenceText
          ⟨[], (state.tokens ++ [['[']]) :: state.outside,
            state.hasMultiplication⟩ (texts rest) :=
    substitute_cons moment dereferenceText rfl (texts rest)
  induction hunclosed generalizing state with
  | last items =>
    rw [hopen, substitute_all hnames] at hsubstitute
    obtain ⟨replaced, -, rfl⟩ := Option.map_eq_some_iff.mp hsubstitute
    exact ⟨_, mem_cons_self, by simp⟩
  | more items hrest ih =>
    rw [hopen, substitute_items dereferenceText items hnames,
      Option.bind_eq_some_iff] at hsubstitute
    obtain ⟨replaced, -, hsubstitute⟩ := hsubstitute
    exact ih (readsNames_append items.lexemes hnames) _
      hsubstitute

theorem evaluateTokens_unmatched {items : Items} {rest : List Lexeme}
    (hnames : ReadsNames moment (items.lexemes ++ rest))
    (hrest : (∃ after, rest = .closeBracket :: after) ∨ Unclosed rest) :
    evaluateTokens moment dereferenceText
      (texts (items.lexemes ++ rest)) = none := by
  have hitems := substitute_items dereferenceText items hnames
    ⟨[], [], false⟩
  have hcalculate : (substitute moment dereferenceText ⟨[], [], false⟩
      (texts (items.lexemes ++ rest))).bind calculate = none := by
    rw [hitems, Option.bind_assoc, Option.bind_eq_none_iff]
    intro replaced _
    rcases hrest with ⟨after, rfl⟩ | hunclosed
    · have herror := @substitute_error moment dereferenceText
        (Substitution.extend ⟨[], [], false⟩ replaced.1 replaced.2) [']'] rfl
        (texts after)
      exact congrArg (Option.bind · calculate) herror
    · cases hsubstitute : substitute moment dereferenceText
          (Substitution.extend ⟨[], [], false⟩ replaced.1 replaced.2)
          (texts rest) with
      | none => rfl
      | some after =>
        obtain ⟨before, hbefore, hbracket⟩ := substitute_unclosed hunclosed
          (readsNames_append _ hnames) _ hsubstitute
        exact calculate_bracket
          (mem_foldl_outside hbefore hbracket after.tokens)
  cases htexts : texts (items.lexemes ++ rest) with
  | nil => rfl
  | cons first others =>
    rw [htexts] at hcalculate
    rw [evaluateTokens]
    split
    · rfl
    · exact hcalculate

end

/-! ## The whole expression -/

theorem isPlain_of_literal {text : Text} {value : UInt64}
    (hliteral : literal text = some value) :
    ∀ char ∈ text, IsPlain char := by
  rw [literal] at hliteral
  split at hliteral
  · next hdollar =>
      obtain ⟨tail, rfl⟩ := head?_eq_some_iff.mp hdollar.1
      exact forall_mem_cons.mpr
        ⟨⟨by decide, by decide⟩, isPlain_of_val hliteral⟩
  · split at hliteral
    · exact isPlain_of_val hliteral
    · split at hliteral
      · next hprefixed =>
          intro char hchar
          rw [← take_append_drop 2 text] at hchar
          rcases mem_append.mp hchar with hfirst | hafter
          · have hlower : char.toLower ∈ ['0', 'x'] := by
              rw [← hprefixed.1]
              exact mem_map_of_mem hfirst
            have hne (other : Char) (hother : other.toLower ∉ ['0', 'x']) :
                char ≠ other := by
              rintro rfl
              exact hother hlower
            simp [IsPlain, isSeperator, hne '"' (by decide),
              hne '[' (by decide), hne ']' (by decide), hne '+' (by decide),
              hne '-' (by decide), hne '*' (by decide)]
          · exact isPlain_of_val hliteral char hafter
      · cases hliteral

theorem val_of_literal {text : Text} (hliteral : literal text = none) :
    val text = none := by
  rw [literal] at hliteral
  split at hliteral
  · next hdollar => rw [hliteral] at hdollar; cases hdollar.2
  · split at hliteral
    · exact hliteral
    · next hnone => simpa using hnone

theorem ordinary_single (value : UInt64) : Ordinary [.value value] := by
  intro defect hdefect hwithin
  have hlength := hwithin.length_le
  have hlong : ∀ defect ∈ defects, 2 ≤ defect.length := by decide
  have htwo := hlong defect hdefect
  simp only [map_cons, map_nil, length_cons, length_nil] at hlength
  omega

theorem expression_single (moment : Moment) (value other : UInt64) :
    (∃ expression : Expression UInt64, expression.tokens = [.value value] ∧
      expression.result = other) ↔ value = other := by
  have hval := AssemblerRewrite.val_inttohex value
  have hmatches : List.Forall₂ Matches [inttohex value] [.value value] :=
    .cons hval .nil
  have hlevel := evaluateTokens_number moment (fun _ => none) hval
  rw [evaluateTokens_matches hmatches] at hlevel
  rw [← levelResult_iff hmatches (ordinary_single value), hlevel,
    Option.some.injEq]

section

variable {moment : Moment} {is64Bit : Bool} {source : Source}

theorem exists_dereferences (hreads : OrdinaryReads moment is64Bit)
    (name : Text) :
    ∃ dereferenceText,
      getAddressFromName moment is64Bit name =
        evaluate moment dereferenceText name ∧
      ('[' ∈ name → Dereferences moment is64Bit dereferenceText) := by
  rw [getAddressFromName]
  cases hcount : name.count '[' with
  | zero =>
    refine ⟨_, rfl, fun hmem => ?_⟩
    exact absurd hmem (count_eq_zero.mp hcount)
  | succ brackets =>
    have hread : dereference moment is64Bit = readPointer moment is64Bit :=
      funext (dereference_eq hreads)
    have hinside : ∃ dereferenceText,
        getAddressInside moment is64Bit brackets =
          evaluate moment dereferenceText := by
      cases brackets with
      | zero => exact ⟨_, rfl⟩
      | succ brackets => exact ⟨_, rfl⟩
    obtain ⟨dereferenceText, hinside⟩ := hinside
    refine ⟨_, rfl, fun _ => ⟨?_, ?_⟩⟩
    · intro texts tokens hmatches hordinary
      have hlevel := evaluate_flatten hmatches moment dereferenceText hordinary
      rw [hinside, hread]
      exact congrArg (Option.bind · (readPointer moment is64Bit)) hlevel
    · intro texts tokens hmatches hrefused
      have hlevel := evaluate_refused hmatches hrefused moment dereferenceText
      rw [hinside]
      exact congrArg (Option.bind · (dereference moment is64Bit)) hlevel

theorem Source.bracket_mem (hopen : .openBracket ∈ source.lexemes) :
    '[' ∈ source.text := by
  obtain ⟨part, hpart, hfirst⟩ := mem_map.mp hopen
  refine mem_append_right _ (mem_flatMap.mpr ⟨part, hpart, ?_⟩)
  rw [hfirst]
  exact mem_append_left _ mem_cons_self

theorem Lexeme.plain_of_text {lexeme : Lexeme}
    (hplain : ∀ char ∈ lexeme.text, IsPlain char) :
    ∃ known : Atom, lexeme = .atom known ∧ known.quoted = false := by
  cases hatom : lexeme.isAtom with
  | false =>
    obtain ⟨char, htext, -, hchar⟩ := Lexeme.seperator_of_not_isAtom hatom
    have hnot := (hplain char (by simp [htext])).2
    rw [hchar] at hnot
    cases hnot
  | true =>
    cases lexeme with
    | atom known =>
      refine ⟨known, rfl, ?_⟩
      cases hquoted : known.quoted with
      | false => rfl
      | true =>
        rw [Lexeme.text, Atom.text, if_pos hquoted] at hplain
        exact absurd rfl (hplain '"' mem_cons_self).1
    | operator sign => cases hatom
    | openBracket => cases hatom
    | closeBracket => cases hatom

theorem Source.trim_text {known : Atom}
    (hlexemes : source.lexemes = [.atom known])
    (hquoted : known.quoted = false) : trim source.text = known.name := by
  obtain ⟨⟨lexeme, pad⟩, rest, hpadded, hfirst, hrest⟩ :=
    map_eq_cons_iff.mp hlexemes
  obtain rfl := map_eq_nil_iff.mp hrest
  obtain rfl : lexeme = .atom known := hfirst
  have hpad : IsBlankText pad :=
    source.pads_blank (.atom known, pad) (by simp [hpadded])
  have hspelling : spelling [(.atom known, pad)] = known.name ++ pad := by
    rw [spelling_cons, Lexeme.text, Atom.text, hquoted, spelling,
      flatMap_nil, append_nil]
    rfl
  rw [Source.text, trim_lead source.lead_blank, hpadded, hspelling,
    trim_pad hpad, known.trimmed]

theorem Source.single_of_literal (hapart : Apart source.lexemes)
    {value : UInt64} (hliteral : literal (trim source.text) = some value) :
    ∃ known : Atom, source.lexemes = [.atom known] ∧
      known.quoted = false := by
  have hchars : ∀ char ∈ source.text, IsPlain char := by
    obtain ⟨lead, trail, hlead, htrail, htext⟩ := exists_trim source.text
    rw [htext]
    refine forall_mem_append.mpr ⟨fun char hchar =>
      isPlain_of_isBlank (hlead char hchar), forall_mem_append.mpr
        ⟨isPlain_of_literal hliteral, fun char hchar =>
          isPlain_of_isBlank (htrail char hchar)⟩⟩
  have hatoms : ∀ lexeme ∈ source.lexemes,
      ∃ known : Atom, lexeme = .atom known ∧ known.quoted = false := by
    intro lexeme hmem
    obtain ⟨part, hpart, rfl⟩ := mem_map.mp hmem
    refine Lexeme.plain_of_text fun char hchar => hchars char ?_
    exact mem_append_right _ (mem_flatMap.mpr
      ⟨part, hpart, mem_append_left _ hchar⟩)
  cases hlexemes : source.lexemes with
  | nil =>
    have htext : trim source.text = [] := by
      have hlead := trim_lead source.lead_blank []
      rw [append_nil] at hlead
      rw [Source.text, map_eq_nil_iff.mp hlexemes, spelling,
        flatMap_nil, append_nil, hlead]
      rfl
    rw [htext] at hliteral
    cases hliteral
  | cons first rest =>
    rw [hlexemes] at hatoms hapart
    obtain ⟨known, rfl, hquoted⟩ := hatoms first mem_cons_self
    cases rest with
    | nil => exact ⟨known, rfl, hquoted⟩
    | cons second rest =>
      obtain ⟨other, rfl, -⟩ := hatoms second (by simp)
      have hboth := (isChain_cons_cons.mp hapart).1
      simp [Lexeme.isPlain, Lexeme.isAtom, hquoted] at hboth

theorem Items.eq_of_lexemes {items other : Items} {rest others : List Lexeme}
    (hrest : ∀ first ∈ rest.head?, first = .closeBracket)
    (hothers : ∀ first ∈ others.head?, first = .closeBracket)
    (heq : items.lexemes ++ rest = other.lexemes ++ others) :
    items = other ∧ rest = others := by
  induction items generalizing other rest others with
  | nil =>
    rw [show rest = other.lexemes ++ others from heq] at hrest ⊢
    cases other with
    | nil => exact ⟨rfl, rfl⟩
    | atom known other => cases hrest _ rfl
    | operator sign other => cases hrest _ rfl
    | pointer inner other => cases hrest _ rfl
  | atom known items ih =>
    cases other with
    | nil =>
      rw [← show _ = others from heq] at hothers
      cases hothers _ rfl
    | atom found other =>
      obtain ⟨hfirst, htail⟩ := List.cons.inj heq
      obtain rfl := Lexeme.atom.inj hfirst
      obtain ⟨rfl, hsame⟩ := ih hrest hothers htail
      exact ⟨rfl, hsame⟩
    | operator sign other => cases heq
    | pointer inner other => cases heq
  | operator sign items ih =>
    cases other with
    | nil =>
      rw [← show _ = others from heq] at hothers
      cases hothers _ rfl
    | operator found other =>
      obtain ⟨hfirst, htail⟩ := List.cons.inj heq
      obtain rfl := Lexeme.operator.inj hfirst
      obtain ⟨rfl, hsame⟩ := ih hrest hothers htail
      exact ⟨rfl, hsame⟩
    | atom known other => cases heq
    | pointer inner other => cases heq
  | pointer inner items ihInner ih =>
    cases other with
    | nil =>
      rw [← show _ = others from heq] at hothers
      cases hothers _ rfl
    | pointer found other =>
      simp only [Items.lexemes, cons_append, append_assoc] at heq
      obtain ⟨rfl, hbehind⟩ := ihInner (by simp) (by simp)
        (List.cons.inj heq).2
      obtain ⟨rfl, hsame⟩ := ih hrest hothers (List.cons.inj hbehind).2
      exact ⟨rfl, hsame⟩
    | atom known other => cases heq
    | operator sign other => cases heq

theorem means_atom {known : Atom} {value : UInt64}
    (hliteral : literal known.name = some value) (other : UInt64) :
    Means moment is64Bit [.atom known] other ↔ value = other := by
  have hatom : atomValue moment known.name = some value := by
    rw [atomValue, hliteral]
  rw [← expression_single moment value other]
  constructor
  · rintro ⟨items, expression, hlexemes, hdenotes, hresult⟩
    refine ⟨expression, ?_, hresult⟩
    obtain ⟨rfl, -⟩ := @Items.eq_of_lexemes items (.atom known .nil) [] []
      (by simp) (by simp) (by rw [hlexemes]; rfl)
    generalize expression.tokens = tokens at hdenotes
    cases hdenotes with
    | atom hvalue hrest =>
      cases hrest
      obtain rfl := Option.some.inj (hatom.symm.trans hvalue)
      rfl
  · rintro ⟨expression, htokens, hresult⟩
    refine ⟨.atom known .nil, expression, rfl, ?_, hresult⟩
    rw [htokens]
    exact .atom hatom .nil

theorem Source.numbersPlain (hnumbers : PlainNumbers source.lexemes)
    (hliteral : literal (trim source.text) = none) :
    NumbersPlain source.lexemes := by
  intro known hknown
  rcases hnumbers known hknown with hplain | ⟨hsingle, hquoted⟩
  · exact hplain
  · rw [Source.trim_text hsingle hquoted] at hliteral
    rw [hliteral, val_of_literal hliteral]

end

def ofLexemes (lexemes : List Lexeme) : Source where
  lead := []
  padded := lexemes.map fun lexeme => (lexeme, [])
  lead_blank := by simp [IsBlankText]
  pads_blank := by simp [IsBlankText]

def two : Atom :=
  ⟨['2'], false, by decide, by decide, by decide⟩

def three : Atom :=
  ⟨['3'], false, by decide, by decide, by decide⟩

def four : Atom :=
  ⟨['4'], false, by decide, by decide, by decide⟩

/-- A module with an operator in its name. -/
def library (quoted : Bool) : Atom :=
  ⟨"foo-1.dll".toList, quoted, by decide, by decide, by decide⟩

def oneModule : Moment where
  lookup text :=
    if text = "foo-1.dll".toList then .address 0x400000 else .unknown text
  readprocessmemory _ size := (true, ByteStream.leBytes size 0x400010)

theorem ordinaryReads_oneModule : OrdinaryReads oneModule true where
  complete address size bytes hread := by
    obtain ⟨-, rfl⟩ := Prod.mk.inj hread
    exact ByteStream.leBytes_length ..
  inside hfalse := by cases hfalse

end CheatEngine.Symhandler
