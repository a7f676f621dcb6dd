import CheatEngine.AutoAssembler
import CheatEngine.PascalText

/-!
# DEFINE lines of the auto assembler

A `DEFINE(name,value)` line gives a name a value.  The defines of a script are
kept in an array that is searched by name without regard to case.
-/

namespace CheatEngine.AutoAssembler

open List PascalText

def isDefine (currentline : Text) : Bool :=
  upperCase (copy currentline 1 7) = "DEFINE(".toList

def parseDefine (currentline : Text) : Option (Text × Text) :=
  let a := pos '(' currentline
  let b := pos ',' currentline
  let c := rpos ')' currentline
  if 0 < a ∧ 0 < b ∧ 0 < c then
    some (trim (copy currentline (a + 1) (b - a - 1)),
      copy currentline (b + 1) (c - b - 1))
  else
    none

def sameName (left right : Text) : Bool :=
  upperCase left = upperCase right

def overwriteLast (defines : List Define) (whatever : Text) : List Define :=
  defines.modify (defines.length - 1) ({ · with whatever })

def define (defines : List Define) (name whatever : Text) : List Define :=
  if defines.any fun entry => sameName entry.name name then
    overwriteLast defines whatever
  else
    defines ++ [⟨name, whatever⟩]

/-- `none` where the line raises an exception or is no DEFINE line. -/
def executeDefine (defines : List Define) (currentline : Text) :
    Option (List Define) :=
  if isDefine currentline then
    (parseDefine currentline).map fun written =>
      define defines written.1 (replaceDefines defines written.2)
  else
    none

def executeDefines (defines : List Define) (lines : List Text) :
    Option (List Define) :=
  lines.foldlM executeDefine defines

/-! ## A map from names to values -/

def valueOf (defines : List Define) (name : Text) : Option Text :=
  (defines.find? fun entry => sameName entry.name name).map Define.whatever

def OneEntryPerName (defines : List Define) : Prop :=
  (defines.map fun entry => upperCase entry.name).Nodup

structure ActsAsMap (before after : List Define) (name whatever : Text) :
    Prop where
  defined : valueOf after name = some whatever
  others : ∀ other, sameName other name = false →
    valueOf after other = valueOf before other
  unique : OneEntryPerName after

/-- The name is new, or it is the name of the last entry, or writing the value
to the last entry changes nothing because both have that value already. -/
def Redefinable (defines : List Define) (name whatever : Text) : Prop :=
  ∀ value, valueOf defines name = some value →
    ∃ last, defines.getLast? = some last ∧
      (sameName last.name name = true ∨
        value = whatever ∧ last.whatever = whatever)

theorem sameName_iff {left right : Text} :
    sameName left right = true ↔ upperCase left = upperCase right := by
  simp [sameName]

variable {defines : List Define} {name : Text}

theorem valueOf_eq_none :
    valueOf defines name = none ↔
      (defines.any fun entry => sameName entry.name name) = false := by
  simp [valueOf]

theorem valueOf_append (left right : List Define) (name : Text) :
    valueOf (left ++ right) name =
      (valueOf left name).or (valueOf right name) := by
  unfold valueOf
  rw [find?_append]
  cases left.find? fun entry => sameName entry.name name <;> rfl

theorem valueOf_single (entry : Define) (name : Text) :
    valueOf [entry] name =
      if sameName entry.name name then some entry.whatever else none := by
  unfold valueOf
  rw [find?_singleton]
  split <;> rfl

theorem overwriteLast_append (defines : List Define) (last : Define)
    (whatever : Text) :
    overwriteLast (defines ++ [last]) whatever =
      defines ++ [{ last with whatever }] := by
  unfold overwriteLast
  rw [length_append, length_singleton, Nat.add_sub_cancel]
  induction defines with
  | nil => rfl
  | cons entry defines ih => simp [ih]

theorem OneEntryPerName.valueOf_last {last : Define}
    (hunique : OneEntryPerName (defines ++ [last]))
    (hname : sameName last.name name = true) :
    valueOf defines name = none := by
  rw [valueOf_eq_none, any_eq_false]
  intro entry hentry hsame
  unfold OneEntryPerName at hunique
  rw [map_append, nodup_append] at hunique
  have hne := hunique.2.2 (upperCase entry.name)
    (mem_map.mpr ⟨entry, hentry, rfl⟩) (upperCase last.name) (by simp)
  rw [sameName_iff] at hname hsame
  exact hne (hsame.trans hname.symm)

theorem oneEntryPerName_define (hunique : OneEntryPerName defines)
    (name whatever : Text) :
    OneEntryPerName (define defines name whatever) := by
  unfold define
  split
  · rcases eq_nil_or_concat defines with rfl | ⟨initial, last, rfl⟩
    · exact hunique
    · rw [concat_eq_append] at hunique ⊢
      rw [overwriteLast_append]
      simpa [OneEntryPerName] using hunique
  · next hnew =>
      unfold OneEntryPerName at hunique ⊢
      rw [map_append, nodup_append]
      refine ⟨hunique, by simp, ?_⟩
      intro left hleft right hright heq
      obtain ⟨entry, hentry, rfl⟩ := mem_map.mp hleft
      simp only [map_cons, map_nil, mem_singleton] at hright
      apply hnew
      rw [any_eq_true]
      exact ⟨entry, hentry, sameName_iff.mpr (heq.trans hright)⟩

theorem actsAsMap_new (hunique : OneEntryPerName defines) (whatever : Text)
    (hnew : valueOf defines name = none) :
    ActsAsMap defines (define defines name whatever) name whatever := by
  have hdefine : define defines name whatever =
      defines ++ [⟨name, whatever⟩] := by
    unfold define
    rw [valueOf_eq_none.mp hnew]
    rfl
  refine ⟨?_, ?_, oneEntryPerName_define hunique name whatever⟩
  · rw [hdefine, valueOf_append, hnew, valueOf_single]
    simp [sameName]
  · intro other hother
    have hdifferent : sameName name other = false := by
      simpa [sameName, eq_comm] using hother
    rw [hdefine, valueOf_append, valueOf_single, hdifferent]
    simp

theorem actsAsMap_again_iff {initial : List Define} {last : Define}
    (hunique : OneEntryPerName (initial ++ [last])) {value : Text}
    (whatever : Text)
    (hfound : valueOf (initial ++ [last]) name = some value) :
    ActsAsMap (initial ++ [last])
        (define (initial ++ [last]) name whatever) name whatever ↔
      sameName last.name name = true ∨
        value = whatever ∧ last.whatever = whatever := by
  have hdefine : define (initial ++ [last]) name whatever =
      initial ++ [{ last with whatever }] := by
    unfold define
    rw [if_pos, overwriteLast_append]
    rw [← Bool.not_eq_false]
    intro hnone
    rw [valueOf_eq_none.mpr hnone] at hfound
    simp at hfound
  rw [valueOf_append, valueOf_single] at hfound
  constructor
  · intro hacts
    by_cases hlast : sameName last.name name = true
    · exact Or.inl hlast
    · right
      have hdefined := hacts.defined
      rw [hdefine, valueOf_append, valueOf_single, if_neg hlast,
        Option.or_none] at hdefined
      rw [if_neg hlast, Option.or_none, hdefined] at hfound
      have hothers := hacts.others last.name (by simpa using hlast)
      have hself : sameName last.name last.name = true := by simp [sameName]
      rw [hdefine, valueOf_append, valueOf_append, hunique.valueOf_last hself,
        valueOf_single, valueOf_single, if_pos hself, if_pos hself] at hothers
      simp only [Option.none_or, Option.some.injEq] at hfound hothers
      exact ⟨hfound.symm, hothers.symm⟩
  · intro hcondition
    refine ⟨?_, ?_, oneEntryPerName_define hunique name whatever⟩
    · rw [hdefine, valueOf_append, valueOf_single]
      rcases hcondition with hlast | ⟨hvalue, -⟩
      · rw [hunique.valueOf_last hlast, if_pos hlast, Option.none_or]
      · by_cases hlast : sameName last.name name = true
        · rw [hunique.valueOf_last hlast, if_pos hlast, Option.none_or]
        · rw [if_neg hlast, Option.or_none] at hfound ⊢
          rw [hfound, hvalue]
    · intro other hother
      rw [hdefine, valueOf_append, valueOf_append, valueOf_single,
        valueOf_single]
      rcases hcondition with hlast | ⟨-, hvalue⟩
      · have hdifferent : sameName last.name other = false := by
          rw [sameName_iff] at hlast
          simpa [sameName, hlast, eq_comm] using hother
        simp [hdifferent]
      · rw [hvalue]

theorem actsAsMap_iff (hunique : OneEntryPerName defines)
    (name whatever : Text) :
    ActsAsMap defines (define defines name whatever) name whatever ↔
      Redefinable defines name whatever := by
  unfold Redefinable
  cases hfound : valueOf defines name with
  | none => simp [actsAsMap_new hunique whatever hfound]
  | some value =>
    rcases eq_nil_or_concat defines with rfl | ⟨initial, last, rfl⟩
    · simp [valueOf] at hfound
    · rw [concat_eq_append] at hunique hfound ⊢
      rw [actsAsMap_again_iff hunique whatever hfound]
      simp

theorem oneEntryPerName_executeDefine {before after : List Define}
    {line : Text} (hunique : OneEntryPerName before)
    (hline : executeDefine before line = some after) :
    OneEntryPerName after := by
  unfold executeDefine at hline
  split at hline
  · obtain ⟨written, -, rfl⟩ := Option.map_eq_some_iff.mp hline
    exact oneEntryPerName_define hunique _ _
  · simp at hline

theorem oneEntryPerName_executeDefines {before after : List Define}
    {lines : List Text} (hunique : OneEntryPerName before)
    (hrun : executeDefines before lines = some after) :
    OneEntryPerName after := by
  induction lines generalizing before with
  | nil =>
    simp only [executeDefines, foldlM_nil, Option.pure_def,
      Option.some.injEq] at hrun
    exact hrun ▸ hunique
  | cons line lines ih =>
    simp only [executeDefines, foldlM_cons, Option.bind_eq_bind,
      Option.bind_eq_some_iff] at hrun
    obtain ⟨middle, hline, hrest⟩ := hrun
    exact ih (oneEntryPerName_executeDefine hunique hline) hrest

/-- After any DEFINE lines, the next one acts as on a map exactly when it
does not redefine a name other than the last one to another value. -/
theorem executeDefine_actsAsMap_iff {lines : List Text}
    {before after : List Define} {line name written : Text}
    (hrun : executeDefines [] lines = some before)
    (hparse : parseDefine line = some (name, written))
    (hline : executeDefine before line = some after) :
    ActsAsMap before after name (replaceDefines before written) ↔
      Redefinable before name (replaceDefines before written) := by
  have hunique := oneEntryPerName_executeDefines
    (show OneEntryPerName [] from nodup_nil) hrun
  unfold executeDefine at hline
  split at hline
  · rw [hparse, Option.map_some, Option.some.injEq] at hline
    rw [← hline]
    exact actsAsMap_iff hunique name _
  · simp at hline

theorem executeDefine_actsAsMap_last :
    ActsAsMap [⟨['a'], ['1']⟩] [⟨['a'], "1+2".toList⟩] ['A'] "1+2".toList ↔
      Redefinable [⟨['a'], ['1']⟩] ['A'] "1+2".toList :=
  executeDefine_actsAsMap_iff
    (show executeDefines [] ["define(a,1)".toList] = some _ by decide)
    (show parseDefine "DEFINE(A,a+2)".toList =
      some (['A'], "a+2".toList) by decide)
    (by decide)

theorem not_executeDefine_actsAsMap :
    ¬ ∀ lines before after line name written,
      executeDefines [] lines = some before →
      parseDefine line = some (name, written) →
      executeDefine before line = some after →
      ActsAsMap before after name (replaceDefines before written) := by
  intro hacts
  have hstep := hacts ["DEFINE(a,1)".toList, "DEFINE(b,2)".toList]
    [⟨['a'], ['1']⟩, ⟨['b'], ['2']⟩] [⟨['a'], ['1']⟩, ⟨['b'], ['3']⟩]
    "DEFINE(A,3)".toList ['A'] ['3'] (by decide) (by decide) (by decide)
  have hdefined := hstep.defined
  revert hdefined
  decide

end CheatEngine.AutoAssembler
