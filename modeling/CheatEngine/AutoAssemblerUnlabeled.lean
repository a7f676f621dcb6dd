import CheatEngine.AutoAssembler
import CheatEngine.PascalText
import CheatEngine.TokenSubstitution
import Mathlib.Data.List.GetD

/-!
# Unnamed labels of the auto assembler

A first pass names the labels that have no name and numbers all labels, a
second one replaces the tokens for the next and the last label.  The second
pass tests whether a line has the text of such a token before it replaces
the tokens.
-/

namespace CheatEngine.AutoAssembler

open List PascalText TokenText

inductive UnlabeledError
  | forwardJumpWithNoLabelDefined
  | codeDefinedWithoutSpecifyingTheAddressItBelongsTo
deriving DecidableEq, Repr

def randomLabel : Text :=
  "RandomLabel".toList

def randomName (random : ℕ → Fin 26) (count : ℕ) : Text :=
  randomLabel ++
    (List.range 9).map fun letter =>
      Char.ofNat (65 + random (9 * count + letter))

def declarationOf (label : Text) : Text :=
  "label(".toList ++ label ++ [')']

def endsWithColon (currentline : Text) : Bool :=
  1 < currentline.length && currentline.getLast? = some ':'

structure Numbered where
  code : List Text
  labels : List Text
deriving DecidableEq

/-- The first pass; `inserted` are the lines at the top, `walked` those
behind them that have been read. -/
def numberLabels (random : ℕ → Fin 26) (count : ℕ)
    (inserted walked labels : List Text) : List Text → Numbered
  | [] => ⟨inserted ++ walked, labels⟩
  | currentline :: rest =>
    if currentline = ['@', '@', ':'] then
      let label := randomName random count
      numberLabels random (count + 1)
        (declarationOf label :: inserted)
        (walked ++ [label ++ [':']]) (labels ++ [label]) rest
    else if endsWithColon currentline then
      numberLabels random count inserted (walked ++ [currentline])
        (labels ++ [currentline.dropLast]) rest
    else
      numberLabels random count inserted (walked ++ [currentline]) labels
        rest

/-- The label after the last one that was seen has the number `next`. -/
def seenLabel (labels : List Text) (next : ℕ) (name : Text) : ℕ :=
  match (labels.drop next).findIdx? fun label =>
      upperCase name = upperCase label with
  | some found => next + found + 1
  | none => next

def hasText (text currentline : Text) : Bool :=
  decide (text <:+: lowerCase currentline)

def replaceBoth (lower upper label currentline : Text) : Text :=
  replacetoken (replacetoken currentline lower label) upper label

def replaceUnlabeled (labels : List Text) (next : ℕ) :
    List Text → Except UnlabeledError (List Text)
  | [] => .ok []
  | currentline :: rest =>
    if endsWithColon currentline then
      (replaceUnlabeled labels
        (seenLabel labels next currentline.dropLast) rest).map
          (currentline :: ·)
    else if hasText ['@', 'f'] currentline then
      match labels[next]? with
      | none => .error .forwardJumpWithNoLabelDefined
      | some label => (replaceUnlabeled labels next rest).map
          (replaceBoth ['@', 'f'] ['@', 'F'] label currentline :: ·)
    else if hasText ['@', 'b'] currentline then
      if next = 0 then
        .error .codeDefinedWithoutSpecifyingTheAddressItBelongsTo
      else
        (replaceUnlabeled labels next rest).map
          (replaceBoth ['@', 'b'] ['@', 'B'] (labels.getD (next - 1) [])
            currentline :: ·)
    else
      (replaceUnlabeled labels next rest).map (currentline :: ·)

def unlabeledlabels (random : ℕ → Fin 26) (code : List Text) :
    Except UnlabeledError (List Text) :=
  let numbered := numberLabels random 0 [] [] [] code
  replaceUnlabeled numbered.labels 0 numbered.code

def labelOf (line : Text) : Option Text :=
  if endsWithColon line then some line.dropLast else none

def named (random : ℕ → Fin 26) (count : ℕ) : List Text → List Text
  | [] => []
  | line :: rest =>
    if line = ['@', '@', ':'] then
      (randomName random count ++ [':']) ::
        named random (count + 1) rest
    else
      line :: named random count rest

def declarations (random : ℕ → Fin 26) (count : ℕ) : List Text → List Text
  | [] => []
  | line :: rest =>
    if line = ['@', '@', ':'] then
      declarationOf (randomName random count) ::
        declarations random (count + 1) rest
    else
      declarations random count rest

def firstLabel (lines : List Text) : Option Text :=
  (lines.filterMap labelOf).head?

def IsForward (token : Text) : Prop :=
  token = ['@', 'f'] ∨ token = ['@', 'F']

def IsBack (token : Text) : Prop :=
  token = ['@', 'b'] ∨ token = ['@', 'B']

instance (token : Text) : Decidable (IsForward token) :=
  inferInstanceAs (Decidable (_ ∨ _))

instance (token : Text) : Decidable (IsBack token) :=
  inferInstanceAs (Decidable (_ ∨ _))

def image (previous next : Option Text) (token : Text) : Text :=
  if IsForward token then
    next.getD token
  else if IsBack token then
    previous.getD token
  else
    token

/-- The lines between the labels rewritten, each with the label before it
and the one after it. -/
def eachLine (rewritten : Option Text → Option Text → Text → Text)
    (previous : Option Text) : List Text → List Text
  | [] => []
  | line :: rest =>
    match labelOf line with
    | some label => line :: eachLine rewritten (some label) rest
    | none => rewritten previous (firstLabel rest) line ::
        eachLine rewritten previous rest

def withLabel (previous next : Option Text) (line : Text) : Text :=
  substitute isTokenChar (image previous next) line

/-- Some line between the labels, with the label before it and the one after
it, has a property. -/
def SomeLine (holds : Option Text → Option Text → Text → Prop)
    (previous : Option Text) : List Text → Prop
  | [] => False
  | line :: rest =>
    match labelOf line with
    | some label => SomeLine holds (some label) rest
    | none => holds previous (firstLabel rest) line ∨
        SomeLine holds previous rest

def HasToken (line : Text) (kind : Text → Prop) : Prop :=
  ∃ token ∈ tokens isTokenChar line, kind token

def MissesLabel (previous next : Option Text) (line : Text) : Prop :=
  (HasToken line IsForward ∧ next = none) ∨
    (HasToken line IsBack ∧ previous = none)

/-- An error is raised if and only if some token has no label; otherwise
every token gets its label, and the new labels are declared. -/
def LabelsReplaced (random : ℕ → Fin 26) (code : List Text) : Prop :=
  match unlabeledlabels random code with
  | .error _ => SomeLine MissesLabel none (named random 0 code)
  | .ok result => ¬ SomeLine MissesLabel none (named random 0 code) ∧
      result = (declarations random 0 code).reverse ++
        eachLine withLabel none (named random 0 code)

def TextMissesLabel (previous next : Option Text) (line : Text) : Prop :=
  if hasText ['@', 'f'] line then
    next = none
  else
    hasText ['@', 'b'] line ∧ previous = none

/-- The line has the text of a forward token, so that a back token, which has
another label, is left as it is. -/
def KeepsBack (previous _next : Option Text) (line : Text) : Prop :=
  hasText ['@', 'f'] line ∧
    HasToken line fun token => IsBack token ∧ previous ≠ some token

def TextsAreTokens (lines : List Text) : Prop :=
  (SomeLine TextMissesLabel none lines ↔ SomeLine MissesLabel none lines) ∧
    (¬ SomeLine MissesLabel none lines → ¬ SomeLine KeepsBack none lines)

/-- The label that is put in place of the first spelling of a token has the
second spelling in its own text, which is then replaced again. -/
def ReplacedAgain (previous next : Option Text) (line : Text) : Prop :=
  if hasText ['@', 'f'] line then
    ['@', 'f'] ∈ tokens isTokenChar line ∧
      ∃ label ∈ next, replacetoken label ['@', 'F'] label ≠ label
  else
    ['@', 'b'] ∈ tokens isTokenChar line ∧
      ∃ label ∈ previous, replacetoken label ['@', 'B'] label ≠ label

theorem labelOf_colon {name : Text} (hname : name ≠ []) :
    labelOf (name ++ [':']) = some name := by
  have hcolon : endsWithColon (name ++ [':']) = true := by
    have hlength := length_pos_iff.mpr hname
    simp [endsWithColon, hlength]
  rw [labelOf, if_pos hcolon]
  exact congrArg some dropLast_concat

variable {lines : List Text} {previous : Option Text} {token : Text}
  (random : ℕ → Fin 26) (seen : List Text) (count : ℕ)

theorem randomName_ne_nil : randomName random count ≠ [] :=
  append_ne_nil_of_left_ne_nil (by decide) _

theorem numberLabels_eq (inserted walked labels code : List Text) :
    numberLabels random count inserted walked labels code =
      ⟨(declarations random count code).reverse ++ inserted ++
          (walked ++ named random count code),
        labels ++ (named random count code).filterMap labelOf⟩ := by
  induction code generalizing count inserted walked labels with
  | nil => simp [numberLabels, declarations, named]
  | cons line rest ih =>
    rw [numberLabels, declarations, named]
    by_cases hunnamed : line = ['@', '@', ':']
    · have hlabel := labelOf_colon (randomName_ne_nil random count)
      rw [if_pos hunnamed, if_pos hunnamed, if_pos hunnamed, ih,
        filterMap_cons, hlabel, reverse_cons]
      simp
    · rw [if_neg hunnamed, if_neg hunnamed, if_neg hunnamed, ih, ih,
        filterMap_cons]
      cases hcolon : endsWithColon line with
      | true => simp [labelOf, hcolon]
      | false => simp [labelOf, hcolon]

theorem toLower_ne_at {char : Char} (hchar : char ≠ '@') :
    char.toLower ≠ '@' := by
  unfold Char.toLower
  split
  · next hupper =>
      intro heq
      have hlow : 65 ≤ char.toNat := hupper.1
      have hhigh : char.toNat ≤ 90 := hupper.2
      have hnat := congrArg Char.toNat heq
      simp at hnat
      omega
  · exact hchar

theorem hasText_false {line : Text} (hline : '@' ∉ line) (letter : Char) :
    hasText ['@', letter] line = false := by
  rw [hasText, decide_eq_false_iff_not]
  intro hwithin
  have hmem : '@' ∈ lowerCase line := hwithin.subset mem_cons_self
  obtain ⟨char, hchar, hlower⟩ := mem_map.mp hmem
  exact toLower_ne_at (fun heq => hline (heq ▸ hchar)) hlower

theorem at_notMem_randomName : '@' ∉ randomName random count := by
  have hletters : ∀ letter : Fin 26, Char.ofNat (65 + letter) ≠ '@' := by
    decide
  unfold randomName
  intro hmem
  rcases mem_append.mp hmem with hname | hletter
  · exact absurd hname (by decide)
  · obtain ⟨letter, -, hletter⟩ := mem_map.mp hletter
    exact hletters _ hletter

theorem declaration_plain {random : ℕ → Fin 26} {count : ℕ}
    {code : List Text} :
    ∀ line ∈ declarations random count code,
      endsWithColon line = false ∧ '@' ∉ line := by
  induction code generalizing count with
  | nil => exact fun _ hmem => absurd hmem not_mem_nil
  | cons line rest ih =>
    rw [declarations]
    split_ifs
    · rw [forall_mem_cons]
      refine ⟨⟨?_, ?_⟩, ih⟩
      · have hlast : (declarationOf (randomName random count)).getLast? =
            some ')' :=
          getLast?_concat
        rw [endsWithColon, hlast]
        exact Bool.and_false _
      · unfold declarationOf
        intro hmem
        rcases mem_append.mp hmem with hmem | hlast
        · rcases mem_append.mp hmem with hfirst | hname
          · exact absurd hfirst (by decide)
          · exact at_notMem_randomName random count hname
        · exact absurd hlast (by decide)
    · exact ih

theorem replaceUnlabeled_declarations (labels : List Text) (next : ℕ)
    (hplain : ∀ line ∈ lines, endsWithColon line = false ∧ '@' ∉ line)
    (code : List Text) :
    replaceUnlabeled labels next (lines ++ code) =
      (replaceUnlabeled labels next code).map (lines ++ ·) := by
  induction lines with
  | nil =>
    rw [nil_append]
    cases replaceUnlabeled labels next code <;> rfl
  | cons line rest ih =>
    rw [forall_mem_cons] at hplain
    have hforward := hasText_false hplain.1.2 'f'
    have hback := hasText_false hplain.1.2 'b'
    rw [cons_append, replaceUnlabeled, hplain.1.1, ih hplain.2]
    rw [hforward, hback]
    cases replaceUnlabeled labels next code <;> rfl

/-! ## The second pass -/

def replacedLine (previous next : Option Text) (line : Text) : Text :=
  if hasText ['@', 'f'] line then
    replaceBoth ['@', 'f'] ['@', 'F'] (next.getD []) line
  else if hasText ['@', 'b'] line then
    replaceBoth ['@', 'b'] ['@', 'B'] (previous.getD []) line
  else
    line

theorem seenLabel_next (rest : List Text) (label : Text) :
    seenLabel (seen ++ label :: rest) seen.length label =
      (seen ++ [label]).length := by
  rw [seenLabel, drop_left, findIdx?_cons, decide_eq_true rfl, length_append]
  rfl

theorem getElem?_firstLabel (lines : List Text) :
    (seen ++ lines.filterMap labelOf)[seen.length]? = firstLabel lines := by
  rw [getElem?_append_right (Nat.le_refl _), Nat.sub_self, firstLabel,
    head?_eq_getElem?]

theorem getD_getLast (labels : List Text) (hseen : seen ≠ []) :
    (seen ++ labels).getD (seen.length - 1) [] = seen.getLast?.getD [] := by
  rcases eq_nil_or_concat' seen with rfl | ⟨front, last, rfl⟩
  · exact absurd rfl hseen
  · rw [getLast?_concat, length_append, length_singleton, Nat.add_sub_cancel,
      List.append_assoc, getD_append_right _ _ _ _ (Nat.le_refl _), Nat.sub_self]
    rfl

/-- How the second pass ends on lines with these labels seen before. -/
def Ends (previous : Option Text) (lines : List Text) :
    Except UnlabeledError (List Text) → Prop
  | .error _ => SomeLine TextMissesLabel previous lines
  | .ok result => ¬ SomeLine TextMissesLabel previous lines ∧
      result = eachLine replacedLine previous lines

theorem Ends.label {line label : Text} {rest : List Text}
    (hlabel : labelOf line = some label)
    {outcome : Except UnlabeledError (List Text)}
    (hends : Ends (some label) rest outcome) :
    Ends previous (line :: rest) (outcome.map (line :: ·)) := by
  cases outcome with
  | error error =>
    rw [Except.map, Ends, SomeLine, hlabel]
    exact hends
  | ok result =>
    rw [Except.map, Ends, SomeLine, eachLine, hlabel]
    exact ⟨hends.1, congrArg _ hends.2⟩

theorem Ends.line {line : Text} {previous : Option Text}
    {rest : List Text} (hlabel : labelOf line = none)
    (hfound : ¬ TextMissesLabel previous (firstLabel rest) line)
    {outcome : Except UnlabeledError (List Text)}
    (hends : Ends previous rest outcome) :
    Ends previous (line :: rest) (outcome.map
      (replacedLine previous (firstLabel rest) line :: ·)) := by
  cases outcome with
  | error error =>
    rw [Except.map, Ends, SomeLine, hlabel]
    exact .inr hends
  | ok result =>
    rw [Except.map, Ends, SomeLine, eachLine, hlabel]
    refine ⟨?_, congrArg _ hends.2⟩
    rintro (hmisses | hmisses)
    · exact hfound hmisses
    · exact hends.1 hmisses

theorem Ends.misses {line : Text} {previous : Option Text}
    {rest : List Text} (hlabel : labelOf line = none)
    (hmisses : TextMissesLabel previous (firstLabel rest) line)
    (error : UnlabeledError) :
    Ends previous (line :: rest) (.error error) := by
  rw [Ends, SomeLine, hlabel]
  exact .inl hmisses

theorem replaceUnlabeled_ends (lines : List Text) :
    Ends seen.getLast? lines
      (replaceUnlabeled (seen ++ lines.filterMap labelOf) seen.length
        lines) := by
  induction lines generalizing seen with
  | nil => exact ⟨id, rfl⟩
  | cons line rest ih =>
    rw [replaceUnlabeled, filterMap_cons]
    cases hcolon : endsWithColon line with
    | true =>
      have hlabel : labelOf line = some line.dropLast := by
        rw [labelOf, if_pos hcolon]
      have hnext := ih (seen ++ [line.dropLast])
      rw [getLast?_concat, List.append_assoc] at hnext
      rw [hlabel]
      dsimp only
      rw [if_pos rfl, seenLabel_next]
      exact hnext.label hlabel
    | false =>
      have hlabel : labelOf line = none := by
        rw [labelOf, hcolon]
        rfl
      have hline := (ih seen).line hlabel
      have hmisses := @Ends.misses line seen.getLast? rest hlabel
      unfold TextMissesLabel at hline hmisses
      unfold replacedLine at hline
      rw [hlabel]
      dsimp only
      rw [if_neg Bool.false_ne_true, getElem?_firstLabel]
      cases hforward : hasText ['@', 'f'] line with
      | true =>
        rw [hforward, if_pos rfl, if_pos rfl] at hline
        rw [hforward, if_pos rfl] at hmisses
        rw [if_pos rfl]
        cases hfirst : firstLabel rest with
        | none => exact hmisses hfirst _
        | some label =>
          rw [hfirst] at hline
          exact hline (Option.some_ne_none label)
      | false =>
        rw [hforward, if_neg Bool.false_ne_true,
          if_neg Bool.false_ne_true] at hline
        rw [hforward, if_neg Bool.false_ne_true] at hmisses
        rw [if_neg Bool.false_ne_true]
        cases hback : hasText ['@', 'b'] line with
        | true =>
          rw [hback, if_pos rfl] at hline
          rw [hback] at hmisses
          rw [if_pos rfl]
          by_cases hseen : seen = []
          · rw [if_pos (by rw [hseen]; rfl)]
            apply hmisses
            rw [hseen]
            exact ⟨rfl, rfl⟩
          · have hlength : ¬ seen.length = 0 :=
              fun hzero => hseen (length_eq_zero_iff.mp hzero)
            rw [if_neg hlength, getD_getLast seen _ hseen]
            apply hline
            rintro ⟨-, hnone⟩
            exact hseen (getLast?_eq_none_iff.mp hnone)
        | false =>
          rw [hback] at hline
          rw [if_neg Bool.false_ne_true]
          exact hline fun hmissed => Bool.false_ne_true hmissed.1

theorem unlabeledlabels_eq (code : List Text) :
    unlabeledlabels random code =
      (replaceUnlabeled ((named random 0 code).filterMap labelOf) 0
        (named random 0 code)).map
          ((declarations random 0 code).reverse ++ ·) := by
  rw [unlabeledlabels, numberLabels_eq, append_nil, nil_append, nil_append]
  apply replaceUnlabeled_declarations
  intro line hline
  exact declaration_plain line (mem_reverse.mp hline)

/-! ## Texts and tokens -/

theorem hasText_of_token {line text : Text}
    (htoken : token ∈ tokens isTokenChar line)
    (htext : lowerCase token = text) : hasText text line = true := by
  rw [hasText, decide_eq_true_iff, ← htext]
  exact (tokens_within htoken).map Char.toLower

theorem hasText_of_forward {line : Text} (hforward : HasToken line IsForward) :
    hasText ['@', 'f'] line = true := by
  obtain ⟨token, htoken, rfl | rfl⟩ := hforward
  · exact hasText_of_token htoken (by decide)
  · exact hasText_of_token htoken (by decide)

theorem hasText_of_back {line : Text} (hback : HasToken line IsBack) :
    hasText ['@', 'b'] line = true := by
  obtain ⟨token, htoken, rfl | rfl⟩ := hback
  · exact hasText_of_token htoken (by decide)
  · exact hasText_of_token htoken (by decide)

theorem replaceBoth_eq {lower upper label line : Text}
    (hclosed : lower ∈ tokens isTokenChar line →
      replacetoken label upper label = label) :
    replaceBoth lower upper label line =
      substitute isTokenChar
        (fun token => if token = lower ∨ token = upper then label
          else token) line := by
  rw [replaceBoth, replacetoken, replacetoken, replaceToken_eq_substitute,
    replaceToken_eq_substitute, substitute_substitute]
  apply substitute_congr
  intro token htoken
  rw [replacetoken, replaceToken_eq_substitute] at hclosed
  obtain ⟨hne, hword⟩ := tokens_word htoken
  by_cases hlower : token = lower
  · rw [replaced, if_pos hlower, if_pos (.inl hlower)]
    exact hclosed (hlower ▸ htoken)
  · rw [replaced, if_neg hlower, substitute_word _ hne hword, replaced]
    simp only [hlower, false_or]

theorem not_forward_of_back (hback : IsBack token) : ¬ IsForward token := by
  rcases hback with rfl | rfl
  · decide
  · decide

theorem image_forward (previous : Option Text) {label : Text}
    (hforward : IsForward token) :
    image previous (some label) token = label := by
  rw [image, if_pos hforward]
  rfl

theorem image_back (next : Option Text) {label : Text} (hback : IsBack token) :
    image (some label) next token = label := by
  rw [image, if_neg (not_forward_of_back hback), if_pos hback]
  rfl

theorem image_back_none (next : Option Text) (hback : IsBack token) :
    image none next token = token := by
  rw [image, if_neg (not_forward_of_back hback), if_pos hback]
  rfl

theorem image_other (previous next : Option Text)
    (hforward : ¬ IsForward token) (hback : ¬ IsBack token) :
    image previous next token = token := by
  rw [image, if_neg hforward, if_neg hback]

/-- Without an error the line is one substitution, which leaves the back
tokens if the line has the text of a forward one. -/
theorem replacedLine_eq {next : Option Text} {line : Text}
    (hclosed : ¬ ReplacedAgain previous next line)
    (hfound : ¬ TextMissesLabel previous next line) :
    replacedLine previous next line =
      withLabel (if hasText ['@', 'f'] line then none else previous) next
        line := by
  unfold TextMissesLabel at hfound
  unfold ReplacedAgain at hclosed
  unfold replacedLine withLabel
  cases hforward : hasText ['@', 'f'] line with
  | true =>
    rw [hforward, if_pos rfl] at hfound hclosed
    obtain ⟨label, rfl⟩ := Option.ne_none_iff_exists'.mp hfound
    rw [if_pos rfl, if_pos rfl, Option.getD_some, replaceBoth_eq fun htoken =>
      by_contra fun hopen => hclosed ⟨htoken, label, rfl, hopen⟩]
    apply substitute_congr
    intro token htoken
    by_cases hkind : IsForward token
    · rw [image_forward none hkind]
      exact if_pos hkind
    · refine (if_neg hkind).trans ?_
      by_cases hback : IsBack token
      · exact (image_back_none _ hback).symm
      · exact (image_other _ _ hkind hback).symm
  | false =>
    have hnone : ∀ token ∈ tokens isTokenChar line, ¬ IsForward token := by
      intro token htoken hkind
      rw [hasText_of_forward ⟨token, htoken, hkind⟩] at hforward
      cases hforward
    rw [hforward, if_neg Bool.false_ne_true] at hfound hclosed
    rw [if_neg Bool.false_ne_true, if_neg Bool.false_ne_true]
    cases htext : hasText ['@', 'b'] line with
    | true =>
      have hsome : previous ≠ none := fun hnone => hfound ⟨htext, hnone⟩
      obtain ⟨label, rfl⟩ := Option.ne_none_iff_exists'.mp hsome
      rw [if_pos rfl, Option.getD_some, replaceBoth_eq fun htoken =>
        by_contra fun hopen => hclosed ⟨htoken, label, rfl, hopen⟩]
      apply substitute_congr
      intro token htoken
      by_cases hback : IsBack token
      · rw [image_back next hback]
        exact if_pos hback
      · refine (if_neg hback).trans ?_
        exact (image_other _ _ (hnone token htoken) hback).symm
    | false =>
      rw [if_neg Bool.false_ne_true, substitute_id]
      intro token htoken
      apply image_other _ _ (hnone token htoken)
      intro hback
      rw [hasText_of_back ⟨token, htoken, hback⟩] at htext
      cases htext

theorem length_of_back (hback : IsBack token) : token.length = 2 := by
  rcases hback with rfl | rfl <;> rfl

theorem image_congr (previous other next : Option Text)
    (hback : ¬ IsBack token) :
    image previous next token = image other next token := by
  rw [image, image, if_neg hback, if_neg hback]

/-- If back tokens are left and the text is still the same, they are left
rightly, because either none of the images is longer or none is shorter. -/
theorem images_eq {label : Text} {next : Option Text} {line : Text}
    (heq : withLabel none next line = withLabel (some label) next line) :
    ∀ token ∈ tokens isTokenChar line,
      image none next token = image (some label) next token := by
  by_cases hlong : 2 ≤ label.length
  · apply substitute_inj _ heq
    intro token _
    by_cases hback : IsBack token
    · rw [image_back_none next hback, image_back next hback,
        length_of_back hback]
      exact hlong
    · rw [image_congr none (some label) next hback]
  · have hlengths : ∀ token ∈ tokens isTokenChar line,
        (image (some label) next token).length ≤
          (image none next token).length := by
      intro token _
      by_cases hback : IsBack token
      · rw [image_back_none next hback, image_back next hback,
          length_of_back hback]
        exact Nat.le_of_not_le hlong
      · rw [image_congr none (some label) next hback]
    exact fun token htoken =>
      (substitute_inj hlengths heq.symm token htoken).symm

theorem withLabel_none_iff {next : Option Text} {line : Text}
    (hprevious : HasToken line IsBack → previous ≠ none) :
    withLabel none next line = withLabel previous next line ↔
      ¬ HasToken line fun token =>
        IsBack token ∧ previous ≠ some token := by
  constructor
  · rintro heq ⟨token, htoken, hback, hne⟩
    obtain ⟨label, rfl⟩ :=
      Option.ne_none_iff_exists'.mp (hprevious ⟨token, htoken, hback⟩)
    have himage := images_eq heq token htoken
    rw [image_back_none next hback, image_back next hback] at himage
    exact hne (congrArg some himage.symm)
  · intro hkept
    apply substitute_congr
    intro token htoken
    by_cases hback : IsBack token
    · have hown : previous = some token := by
        by_contra hne
        exact hkept ⟨token, htoken, hback, hne⟩
      rw [hown, image_back_none next hback, image_back next hback]
    · exact image_congr none previous next hback

theorem replacedLine_eq_iff {next : Option Text} {line : Text}
    (hclosed : ¬ ReplacedAgain previous next line)
    (hfound : ¬ TextMissesLabel previous next line)
    (hlabeled : ¬ MissesLabel previous next line) :
    replacedLine previous next line = withLabel previous next line ↔
      ¬ KeepsBack previous next line := by
  rw [replacedLine_eq hclosed hfound, KeepsBack]
  cases hforward : hasText ['@', 'f'] line with
  | true =>
    rw [if_pos rfl, withLabel_none_iff]
    · simp
    · exact fun hback hnone => hlabeled (.inr ⟨hback, hnone⟩)
  | false => simp

/-! ## All lines -/

theorem eachLine_eq_iff (first second : Option Text → Option Text →
    Text → Text) (previous : Option Text) (lines : List Text) :
    eachLine first previous lines = eachLine second previous lines ↔
      ¬ SomeLine (fun previous next line =>
        first previous next line ≠ second previous next line)
        previous lines := by
  induction lines generalizing previous with
  | nil => simp [eachLine, SomeLine]
  | cons line rest ih =>
    rw [eachLine, eachLine, SomeLine]
    cases labelOf line with
    | some label => simp [ih]
    | none => simp [ih]

theorem someLine_congr
    {first second bad : Option Text → Option Text → Text → Prop}
    (hlocal : ∀ previous next line, ¬ bad previous next line →
      (first previous next line ↔ second previous next line))
    (hbad : ¬ SomeLine bad previous lines) :
    SomeLine first previous lines ↔ SomeLine second previous lines := by
  induction lines generalizing previous with
  | nil => exact Iff.rfl
  | cons line rest ih =>
    rw [SomeLine] at hbad
    rw [SomeLine, SomeLine]
    cases hlabel : labelOf line with
    | some label =>
      rw [hlabel] at hbad
      exact ih hbad
    | none =>
      rw [hlabel] at hbad
      dsimp only at hbad ⊢
      rw [not_or] at hbad
      rw [hlocal _ _ _ hbad.1, ih hbad.2]

theorem someLine_or {first second : Option Text → Option Text → Text → Prop}
    (hor : SomeLine (fun previous next line =>
      first previous next line ∨ second previous next line)
      previous lines) :
    SomeLine first previous lines ∨ SomeLine second previous lines := by
  induction lines generalizing previous with
  | nil => exact hor.elim
  | cons line rest ih =>
    rw [SomeLine] at hor
    rw [SomeLine, SomeLine]
    cases hlabel : labelOf line with
    | some label =>
      rw [hlabel] at hor
      exact ih hor
    | none =>
      rw [hlabel] at hor
      rcases hor with (hfirst | hsecond) | hrest
      · exact .inl (.inl hfirst)
      · exact .inr (.inl hsecond)
      · exact (ih hrest).imp .inr .inr

theorem lines_eq_iff
    (hclosed : ¬ SomeLine ReplacedAgain none lines)
    (hfound : ¬ SomeLine TextMissesLabel none lines)
    (hlabeled : ¬ SomeLine MissesLabel none lines) :
    eachLine replacedLine none lines = eachLine withLabel none lines ↔
      ¬ SomeLine KeepsBack none lines := by
  rw [eachLine_eq_iff, not_iff_not]
  apply someLine_congr _ fun hor => (someLine_or hor).elim hclosed fun hor =>
    (someLine_or hor).elim hfound hlabeled
  intro previous next line hbad
  rw [not_or, not_or] at hbad
  obtain ⟨hclosed, hfound, hlabeled⟩ := hbad
  rw [Ne, replacedLine_eq_iff hclosed hfound hlabeled, not_not]

/-- The labels are replaced rightly if and only if the texts that are looked
for agree with the tokens. -/
theorem labelsReplaced_iff {random : ℕ → Fin 26} {code : List Text}
    (hclosed : ¬ SomeLine ReplacedAgain none (named random 0 code)) :
    LabelsReplaced random code ↔ TextsAreTokens (named random 0 code) := by
  have hends := replaceUnlabeled_ends [] (named random 0 code)
  rw [nil_append, length_nil] at hends
  rw [LabelsReplaced, TextsAreTokens, unlabeledlabels_eq]
  cases hresult : replaceUnlabeled
      ((named random 0 code).filterMap labelOf) 0 (named random 0 code) with
  | error error =>
    rw [hresult] at hends
    change SomeLine TextMissesLabel none _ at hends
    simp only [Except.map, hends, true_iff]
    tauto
  | ok result =>
    rw [hresult] at hends
    obtain ⟨hfound, rfl⟩ := hends
    change ¬ SomeLine TextMissesLabel none _ at hfound
    have hlines := lines_eq_iff hclosed hfound
    rw [iff_false_left hfound, Except.map]
    simp only [append_cancel_left_eq]
    constructor
    · rintro ⟨hlabeled, heq⟩
      exact ⟨hlabeled, fun _ => (hlines hlabeled).mp heq⟩
    · rintro ⟨hlabeled, hkept⟩
      exact ⟨hlabeled, (hlines hlabeled).mpr (hkept hlabeled)⟩

theorem not_labelsReplaced :
    unlabeledlabels (fun _ => 0) ["call @foo".toList] =
        .error .forwardJumpWithNoLabelDefined ∧
      ¬ LabelsReplaced (fun _ => 0) ["call @foo".toList] := by
  have hraised : unlabeledlabels (fun _ => 0) ["call @foo".toList] =
      .error .forwardJumpWithNoLabelDefined := by
    decide
  have htokens : tokens isTokenChar "call @foo".toList =
      ["call".toList, "@foo".toList] := by
    decide
  refine ⟨hraised, fun hreplaced => ?_⟩
  rw [LabelsReplaced, hraised] at hreplaced
  rcases hreplaced with (⟨⟨token, htoken, hkind⟩, -⟩ |
    ⟨⟨token, htoken, hkind⟩, -⟩) | hnone
  · rw [htokens] at htoken
    revert hkind
    revert token
    decide
  · rw [htokens] at htoken
    revert hkind
    revert token
    decide
  · exact hnone

theorem labelsReplaced_iff_back :
    LabelsReplaced (fun _ => 0) ["start:".toList, "jmp @b".toList] ↔
      TextsAreTokens
        (named (fun _ => 0) 0 ["start:".toList, "jmp @b".toList]) := by
  apply labelsReplaced_iff
  change ¬ (ReplacedAgain (some "start".toList) none "jmp @b".toList ∨ False)
  unfold ReplacedAgain
  decide

end CheatEngine.AutoAssembler
