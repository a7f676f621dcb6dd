import CheatEngine.AssemblerRewriteFold

/-!
# When the assembler's rewriting keeps a sum

The folded sum is valid again, has at most one constant exactly for the
foldable sums, and is not changed by a second rewriting.
-/

namespace CheatEngine.AssemblerRewrite

open List

variable {getaddressfromname : Text → Option UInt64}

/-! ## Counting the constants -/

theorem constants_cons (text : Text) (atoms : List Text) :
    constants (text :: atoms) =
      constants atoms + if (val text).isSome then 1 else 0 := by
  unfold constants
  rw [countP_cons]

variable {text : Text}

theorem constants_cons_none (hnone : val text = none) (atoms : List Text) :
    constants (text :: atoms) = constants atoms := by
  simp [constants_cons, hnone]

theorem constants_cons_some (hsome : (val text).isSome = true)
    (atoms : List Text) :
    constants (text :: atoms) = constants atoms + 1 := by
  simp [constants_cons, hsome]

theorem Unknown.val_eq_none (hunknown : Unknown getaddressfromname text) :
    val text = none := by
  have hnone := hunknown.noValue []
  rwa [append_nil] at hnone

theorem foldable_constant (hsome : (val text).isSome = true)
    (atoms : List Text) :
    Foldable getaddressfromname (text :: atoms) ↔
      constants atoms.tail = 0 := by
  constructor
  · rintro (hcount | ⟨before, first, second, after, heq, -, -, hbefore,
      hafter, -⟩)
    · rw [constants_cons_some hsome] at hcount
      have hzero : constants atoms = 0 := by omega
      cases atoms with
      | nil => rfl
      | cons other rest =>
        rw [constants_cons] at hzero
        exact Nat.eq_zero_of_add_eq_zero_right hzero
    · cases before with
      | nil =>
        cases heq
        exact hafter
      | cons other before =>
        cases heq
        rw [constants_cons_some hsome] at hbefore
        cases hbefore
  · intro htail
    cases atoms with
    | nil =>
      left
      rw [constants_cons_some hsome]
      rfl
    | cons second after =>
      rw [tail_cons] at htail
      cases hsecond : val second with
      | none =>
        left
        rw [constants_cons_some hsome, constants_cons_none hsecond, htail]
      | some value =>
        right
        exact ⟨[], text, second, after, rfl, hsome,
          by rw [hsecond]; rfl, rfl, htail, by simp⟩

theorem foldable_register (hnone : val text = none)
    (hnot : ¬ Unknown getaddressfromname text) (atoms : List Text) :
    Foldable getaddressfromname (text :: atoms) ↔
      Foldable getaddressfromname atoms := by
  unfold Foldable
  rw [constants_cons_none hnone]
  refine or_congr_right ⟨?_, ?_⟩
  · rintro ⟨before, first, second, after, heq, hfirst, hsecond, hbefore,
      hafter, hknown⟩
    cases before with
    | nil =>
      cases heq
      rw [hnone] at hfirst
      cases hfirst
    | cons other before =>
      cases heq
      rw [constants_cons_none hnone] at hbefore
      exact ⟨before, first, second, after, rfl, hfirst, hsecond, hbefore,
        hafter, fun name hname =>
          hknown name (mem_cons_of_mem _ hname)⟩
  · rintro ⟨before, first, second, after, rfl, hfirst, hsecond, hbefore,
      hafter, hknown⟩
    refine ⟨text :: before, first, second, after, rfl, hfirst, hsecond, ?_,
      hafter, ?_⟩
    · rw [constants_cons_none hnone, hbefore]
    · intro name hname
      cases mem_cons.mp hname with
      | inl heq => rwa [heq]
      | inr hlater => exact hknown name hlater

theorem foldable_unknown (hunknown : Unknown getaddressfromname text)
    (atoms : List Text) :
    Foldable getaddressfromname (text :: atoms) ↔
      constants atoms ≤ 1 := by
  have hnone := hunknown.val_eq_none
  unfold Foldable
  rw [constants_cons_none hnone]
  refine or_iff_left ?_
  rintro ⟨before, first, second, after, heq, hfirst, -, -, -, hknown⟩
  cases before with
  | nil =>
    cases heq
    rw [hnone] at hfirst
    cases hfirst
  | cons other before =>
    cases heq
    exact hknown text mem_cons_self hunknown

def foldedAtoms (getaddressfromname : Text → Option UInt64) (before : Text)
    (terms : Terms) : List Text :=
  (foldTerms getaddressfromname before terms).1 ::
    (foldTerms getaddressfromname before terms).2.map Prod.snd

section

variable (hconstants : ∀ text value, val text = some value →
  getaddressfromname text = some value)

include hconstants

variable {terms : Terms}

section

variable (hatoms : ∀ term ∈ terms, IsAtom getaddressfromname term.2)

include hatoms

theorem constants_foldedAtoms_eq_zero (before : Text) :
    constants (foldedAtoms getaddressfromname before terms) = 0 ↔
      constants (before :: terms.map Prod.snd) = 0 := by
  induction terms generalizing before with
  | nil => rfl
  | cons term rest ih =>
    obtain ⟨minus, text⟩ := term
    have ih := ih fun other hother =>
      hatoms other (mem_cons_of_mem _ hother)
    unfold foldedAtoms at ih ⊢
    rcases foldTerms_step hconstants (hatoms _ mem_cons_self) before
      minus rest with
      ⟨-, hfold⟩ | ⟨a, b, hbefore, -, hfold⟩ |
        ⟨minus', next, hreplaces, -, hfold⟩
    · rw [hfold]
    · rw [hfold]
      simp [constants_cons, val_inttohex, hbefore]
    · have hnext := ih next
      simp only [hfold, map_cons]
      rw [constants_cons, Nat.add_eq_zero_iff, hnext, constants_cons next,
        constants_cons before, constants_cons text, hreplaces.constant]
      simp

theorem constants_foldedAtoms_constant {before : Text}
    (hbefore : (val before).isSome = true) :
    constants (foldedAtoms getaddressfromname before terms) ≤ 1 ↔
      constants (terms.map Prod.snd).tail = 0 := by
  cases terms with
  | nil =>
    change constants [before] ≤ 1 ↔ constants [] = 0
    rw [constants_cons_some hbefore]
    simp [constants]
  | cons term rest =>
    obtain ⟨minus, text⟩ := term
    have hzero := constants_foldedAtoms_eq_zero hconstants
      fun other hother => hatoms other (mem_cons_of_mem _ hother)
    unfold foldedAtoms at hzero ⊢
    rw [map_cons, tail_cons]
    rcases foldTerms_step hconstants (hatoms _ mem_cons_self) before
      minus rest with
      ⟨hunknown, hfold⟩ | ⟨a, b, -, -, hfold⟩ |
        ⟨minus', next, hreplaces, hnone, hfold⟩
    · rw [hfold, map_cons, constants_cons_some hbefore,
        constants_cons_none hunknown.val_eq_none]
      omega
    · have hempty := hzero []
      rw [foldTerms_fst val_nil, constants_cons_none val_nil,
        constants_cons_none val_nil] at hempty
      simp only [hfold]
      rw [constants_cons_some (by rw [val_inttohex]; rfl), ← hempty]
      omega
    · have htext : val text = none := by
        cases hnone with
        | inl hnone => simp [hnone] at hbefore
        | inr htext => exact htext
      have hnext : val next = none := by
        have hsame := hreplaces.constant
        rw [htext] at hsame
        simpa using hsame
      have hrest := hzero next
      rw [constants_cons_none hnext] at hrest
      simp only [hfold, map_cons]
      rw [constants_cons_some hbefore, ← hrest]
      omega

theorem constants_foldedAtoms {before : Text} (hbefore : val before = none) :
    constants (foldedAtoms getaddressfromname before terms) ≤ 1 ↔
      Foldable getaddressfromname (terms.map Prod.snd) := by
  induction terms generalizing before with
  | nil =>
    change constants [before] ≤ 1 ↔ Foldable getaddressfromname []
    rw [constants_cons_none hbefore]
    simp [Foldable, constants]
  | cons term rest ih =>
    obtain ⟨minus, text⟩ := term
    have hrest : ∀ other ∈ rest, IsAtom getaddressfromname other.2 :=
      fun other hother => hatoms other (mem_cons_of_mem _ hother)
    rw [map_cons]
    rcases foldTerms_step hconstants (hatoms _ mem_cons_self) before
      minus rest with
      ⟨hunknown, hfold⟩ | ⟨a, b, hsome, -, hfold⟩ |
        ⟨minus', next, hreplaces, -, hfold⟩
    · unfold foldedAtoms
      rw [hfold, map_cons, constants_cons_none hbefore,
        constants_cons_none hunknown.val_eq_none, foldable_unknown hunknown]
    · rw [hbefore] at hsome
      cases hsome
    · have hfolded : foldedAtoms getaddressfromname before
          ((minus, text) :: rest) =
          before :: foldedAtoms getaddressfromname next rest := by
        unfold foldedAtoms
        rw [hfold]
        rfl
      have hsame := hreplaces.constant
      rw [hfolded, constants_cons_none hbefore]
      cases htext : val text with
      | none =>
        have hnext : val next = none := by simpa [htext] using hsame
        rw [ih hrest hnext, foldable_register htext hreplaces.notUnknown]
      | some value =>
        have hnext : (val next).isSome = true := by
          rw [hsame, htext]
          rfl
        rw [constants_foldedAtoms_constant hconstants hrest hnext,
          foldable_constant (by rw [htext]; rfl)]

end

theorem constants_foldSum_iff {sum : Sum}
    (hvalid : sum.Valid getaddressfromname) :
    constants (foldSum getaddressfromname sum).atoms ≤ 1 ↔
      Foldable getaddressfromname sum.atoms := by
  have hrest := Sum.rest_isAtom hvalid
  unfold foldSum Sum.atoms
  rcases lookUp_atom hconstants (Sum.first_isAtom hvalid) with
    ⟨hunknown, hlookUp⟩ | ⟨hnot, found, hlookUp, -, hvalue, -, -⟩
  · simp only [hlookUp]
    rw [foldable_unknown hunknown, constants_cons_none hunknown.val_eq_none]
  · simp only [hlookUp]
    cases hfirst : val sum.first with
    | none =>
      rw [foldable_register hfirst hnot]
      exact constants_foldedAtoms hconstants hrest (hvalue.trans hfirst)
    | some value =>
      have hfound : (val found).isSome = true := by
        rw [hvalue, hfirst]
        rfl
      rw [foldable_constant (by rw [hfirst]; rfl)]
      exact constants_foldedAtoms_constant hconstants hrest hfound

end

/-! ## Rewriting again -/

/-- Terms that folding leaves alone when there is nothing to add. -/
inductive Normal (getaddressfromname : Text → Option UInt64) : Terms → Prop
  | nil : Normal getaddressfromname []
  | unknown {minus : Bool} {text : Text} {rest : Terms} :
      lookUp getaddressfromname text = none →
      Normal getaddressfromname ((minus, text) :: rest)
  | known {minus : Bool} {text : Text} {rest : Terms} :
      lookUp getaddressfromname text = some text →
      (minus = true → val text = none) →
      Normal getaddressfromname rest →
      Normal getaddressfromname ((minus, text) :: rest)

theorem foldTerms_normal {terms : Terms}
    (hnormal : Normal getaddressfromname terms) {before : Text}
    (hcount : constants (before :: terms.map Prod.snd) ≤ 1) :
    foldTerms getaddressfromname before terms = (before, terms) := by
  induction hnormal generalizing before with
  | nil => rfl
  | unknown hlookUp => exact foldTerms_unknown hlookUp
  | @known minus text rest hlookUp hminus _ ih =>
    rw [map_cons] at hcount
    have htail : constants (text :: rest.map Prod.snd) ≤ 1 := by
      rw [constants_cons] at hcount
      exact le_of_add_le_left hcount
    cases htext : val text with
    | none => rw [foldTerms_register hlookUp htext, ih htail]
    | some value =>
      have hplus : minus = false := by
        cases minus with
        | false => rfl
        | true => simp [hminus rfl] at htext
      cases hbefore : val before with
      | none =>
        rw [hplus, foldTerms_constant hlookUp hbefore htext]
        simp only [Bool.false_eq_true, if_false]
        rw [ih htail]
      | some value =>
        rw [constants_cons_some (by rw [hbefore]; rfl),
          constants_cons_some (by rw [htext]; rfl)] at hcount
        omega

section

variable (hconstants : ∀ text value, val text = some value →
  getaddressfromname text = some value)

include hconstants

variable {terms : Terms}

section

variable (hatoms : ∀ term ∈ terms, IsAtom getaddressfromname term.2)

include hatoms

theorem foldTerms_front (before : Text) :
    (foldTerms getaddressfromname before terms).1 = before ∨
      ∃ value, (foldTerms getaddressfromname before terms).1 =
        inttohex value := by
  cases terms with
  | nil => exact Or.inl rfl
  | cons term rest =>
    obtain ⟨minus, text⟩ := term
    rcases foldTerms_step hconstants (hatoms _ mem_cons_self) before
      minus rest with
      ⟨-, hfold⟩ | ⟨a, b, -, -, hfold⟩ | ⟨minus', next, -, -, hfold⟩
    · rw [hfold]
      exact Or.inl rfl
    · rw [hfold]
      exact Or.inr ⟨_, rfl⟩
    · rw [hfold]
      exact Or.inl rfl

theorem known_foldTerms {before : Text} (hknown : IsKnown before) :
    IsKnown (foldTerms getaddressfromname before terms).1 := by
  rcases foldTerms_front hconstants hatoms before with hsame | ⟨value, hhex⟩
  · rwa [hsame]
  · rw [hhex]
    exact isKnown_inttohex value

theorem lookUp_foldTerms {before : Text}
    (hlookUp : lookUp getaddressfromname before = some before) :
    lookUp getaddressfromname (foldTerms getaddressfromname before terms).1 =
      some (foldTerms getaddressfromname before terms).1 := by
  rcases foldTerms_front hconstants hatoms before with hsame | ⟨value, hhex⟩
  · rwa [hsame]
  · rw [hhex]
    exact lookUp_inttohex hconstants value

theorem normal_foldTerms (before : Text) :
    Normal getaddressfromname (foldTerms getaddressfromname before terms).2 ∧
      ∀ term ∈ (foldTerms getaddressfromname before terms).2,
        IsAtom getaddressfromname term.2 := by
  induction terms generalizing before with
  | nil => exact ⟨Normal.nil, by simp [foldTerms]⟩
  | cons term rest ih =>
    obtain ⟨minus, text⟩ := term
    have hrest : ∀ other ∈ rest, IsAtom getaddressfromname other.2 :=
      fun other hother => hatoms other (mem_cons_of_mem _ hother)
    rcases foldTerms_step hconstants (hatoms _ mem_cons_self) before
      minus rest with
      ⟨hunknown, hfold⟩ | ⟨a, b, -, -, hfold⟩ |
        ⟨minus', next, hreplaces, -, hfold⟩
    · have hlookUp := lookUp_unknown hunknown []
      rw [append_nil] at hlookUp
      rw [hfold]
      exact ⟨Normal.unknown hlookUp, hatoms⟩
    · rw [hfold]
      exact ih hrest []
    · obtain ⟨hnormal, hfolded⟩ := ih hrest next
      rw [hfold]
      constructor
      · refine Normal.known
          (lookUp_foldTerms hconstants hrest hreplaces.found) ?_ hnormal
        intro hminus
        have hnone := hreplaces.negated hminus
        rw [foldTerms_fst hnone, hnone]
      · intro other hother
        cases mem_cons.mp hother with
        | inl heq =>
          rw [heq]
          exact Or.inl (known_foldTerms hconstants hrest hreplaces.known)
        | inr hlater => exact hfolded other hlater

end

theorem valid_foldSum {sum : Sum} (hvalid : sum.Valid getaddressfromname) :
    (foldSum getaddressfromname sum).Valid getaddressfromname := by
  have hrest := Sum.rest_isAtom hvalid
  unfold foldSum
  rcases lookUp_atom hconstants (Sum.first_isAtom hvalid) with
    ⟨-, hlookUp⟩ | ⟨-, found, hlookUp, hknown, -⟩
  · simpa only [hlookUp] using hvalid
  · simp only [hlookUp]
    intro text htext
    cases mem_cons.mp htext with
    | inl heq =>
      rw [heq]
      exact Or.inl (known_foldTerms hconstants hrest hknown)
    | inr hlater =>
      obtain ⟨term, hterm, rfl⟩ := mem_map.mp hlater
      exact (normal_foldTerms hconstants hrest found).2 term hterm

theorem foldSum_foldSum {sum : Sum} (hvalid : sum.Valid getaddressfromname)
    (hcount : constants (foldSum getaddressfromname sum).atoms ≤ 1) :
    foldSum getaddressfromname (foldSum getaddressfromname sum) =
      foldSum getaddressfromname sum := by
  have hrest := Sum.rest_isAtom hvalid
  rcases lookUp_atom hconstants (Sum.first_isAtom hvalid) with
    ⟨-, hlookUp⟩ | ⟨-, found, hlookUp, -, -, -, hagain⟩
  · have hsame : foldSum getaddressfromname sum = sum := by
      simp only [foldSum, hlookUp]
    rw [hsame, hsame]
  · have hsum : foldSum getaddressfromname sum =
        { sum with
          first := (foldTerms getaddressfromname found sum.rest).1
          rest := (foldTerms getaddressfromname found sum.rest).2 } := by
      simp only [foldSum, hlookUp]
    rw [hsum] at hcount ⊢
    have hfront := lookUp_foldTerms hconstants hrest hagain
    have hnormal := (normal_foldTerms hconstants hrest found).1
    simp only [foldSum, hfront, foldTerms_normal hnormal hcount]

/-- Rewriting keeps a sum as it should exactly when its constants can be
folded into one without losing a sign. -/
theorem rewritesWell_iff {sum : Sum} (hvalid : sum.Valid getaddressfromname) :
    RewritesWell getaddressfromname sum ↔
      Foldable getaddressfromname sum.atoms ∧ ¬ SignLost sum := by
  have hrewrite := rewriteToken_sum hconstants hvalid
  have hfolded := valid_foldSum hconstants hvalid
  constructor
  · rintro ⟨result, hresult, htext, hvalue, hcount, -⟩
    have heq : result = foldSum getaddressfromname sum :=
      Sum.text_injective hresult hfolded
        (Option.some.inj (htext.symm.trans hrewrite))
    rw [heq] at hvalue hcount
    exact ⟨(constants_foldSum_iff hconstants hvalid).mp hcount,
      (value_foldSum_iff hconstants hvalid).mp hvalue⟩
  · rintro ⟨hfoldable, hsign⟩
    have hcount := (constants_foldSum_iff hconstants hvalid).mpr hfoldable
    refine ⟨foldSum getaddressfromname sum, hfolded, hrewrite,
      (value_foldSum_iff hconstants hvalid).mpr hsign, hcount, ?_⟩
    rw [rewriteToken_sum hconstants hfolded,
      foldSum_foldSum hconstants hvalid hcount]

end

theorem rewritesWell_offsets :
    RewritesWell val
      { lead := none
        first := "EBX".toList
        rest := [(true, "10".toList), (false, "20".toList)] } := by
  refine (rewritesWell_iff (fun _ _ hvalue => hvalue) ?_).mpr ⟨?_, ?_⟩
  · intro text htext
    simp only [Sum.atoms, map_cons, map_nil, mem_cons,
      not_mem_nil, or_false] at htext
    left
    rcases htext with rfl | rfl | rfl
    · exact Or.inr (by decide)
    · exact Or.inl (by decide)
    · exact Or.inl (by decide)
  · right
    refine ⟨["EBX".toList], "10".toList, "20".toList, [], rfl, by decide,
      by decide, by decide, rfl, ?_⟩
    intro text htext hunknown
    rw [mem_singleton.mp htext] at hunknown
    have hnone := hunknown.noRegister []
    revert hnone
    decide
  · simp [SignLost]

theorem rewritesWell_signs :
    ¬ (∀ sum : Sum, sum.Valid val → RewritesWell val sum) ∧
    rewriteToken val "-10+20".toList = some "-00000030".toList ∧
    rewriteToken val "10+20+30".toList = some "00000030+30".toList := by
  refine ⟨fun hall => ?_, by decide, by decide⟩
  obtain ⟨result, hresult, htext, hvalue, -⟩ := hall
    { lead := some true
      first := "10".toList
      rest := [(false, "20".toList)] } (by
      intro text htext
      simp only [Sum.atoms, map_cons, map_nil, mem_cons,
        not_mem_nil, or_false] at htext
      rcases htext with rfl | rfl
      · exact Or.inl (Or.inl (by decide))
      · exact Or.inl (Or.inl (by decide)))
  have hnew : (⟨some true, "00000030".toList, []⟩ : Sum).Valid val := by
    intro text htext
    rw [mem_singleton.mp htext]
    exact Or.inl (Or.inl (by decide))
  have hsame : result = ⟨some true, "00000030".toList, []⟩ := by
    refine Sum.text_injective hresult hnew ?_
    refine Option.some.inj (htext.symm.trans ?_)
    decide
  have hzero := hvalue fun _ => 0
  rw [hsame] at hzero
  revert hzero
  decide

end CheatEngine.AssemblerRewrite
