import CheatEngine.AssemblerLine

/-!
# The loop over the opcode table emits one form

Two kinds of forms do not end the loop.  In the table no entry after theirs
has the same mnemonic and takes the same parameters.
-/

namespace CheatEngine
namespace Assembler

open List

namespace Opcode

variable (opcode : Opcode)

def continues : Bool :=
  opcode.paramtype1 = .parR16 && opcode.paramtype2 = .parImm8 ||
    opcode.paramtype1 = .parRm32 &&
      (opcode.paramtype2 = .parMm || opcode.paramtype2 = .parXmm)

def excludes (later : Opcode) : Bool :=
  !later.norexw &&
    if opcode.paramtype1 = .parR16 then
      later.paramtype1 = .parR32 ||
        later.paramtype1 = .parR16 && later.paramtype2 = .parRm16
    else
      later.paramtype1 = .parXmm ||
        later.paramtype1 = .parRm32 && opcode.paramtype2 = .parMm &&
          later.paramtype2 = .parXmm

end Opcode

/-- Every entry that may be followed by another form excludes the rest of its
mnemonic. -/
def emitsOnce : List Opcode → Bool
  | [] => true
  | opcode :: rest =>
    (!opcode.continues || !opcode.norexw &&
      (rest.takeWhile fun later =>
        later.mnemonic = opcode.mnemonic).all opcode.excludes) &&
      emitsOnce rest

theorem emitsOnce_opcodes : emitsOnce opcodes = true := by
  decide +kernel

theorem emitsOnce_drop {table : List Opcode} (honce : emitsOnce table = true)
    (count : ℕ) : emitsOnce (table.drop count) = true := by
  induction count generalizing table with
  | zero => exact honce
  | succ count ih =>
    cases table with
    | nil => rfl
    | cons opcode rest =>
      rw [emitsOnce, Bool.and_eq_true] at honce
      exact ih honce.2

namespace Line

def Holds (property : Form → Prop) (form : Option Form) : Prop :=
  ∀ found, form = some found → property found

section

variable {property : Form → Prop}

theorem holds_some {form : Form} (hform : property form) :
    Holds property (some form) := by
  intro found hfound
  rwa [← Option.some.inj hfound]

variable {form : Option Form}

theorem holds_given {condition : Bool}
    (hform : condition = true → Holds property form) :
    Holds property (given condition form) := by
  intro found hfound
  cases condition with
  | false => cases hfound
  | true => exact hform rfl found hfound

theorem holds_orElse {other : Option Form} (hform : Holds property form)
    (hother : Holds property other) :
    Holds property (form <|> other) := by
  intro found hfound
  cases form with
  | none => exact hother found hfound
  | some first => exact hform found hfound

theorem holds_map {α : Type} {entry : Option α} {form : α → Form}
    (hform : ∀ k, property (form k)) : Holds property (entry.map form) := by
  intro found hfound
  obtain ⟨k, -, rfl⟩ := Option.map_eq_some_iff.mp hfound
  exact hform k

theorem holds_ite {condition : Prop} [Decidable condition]
    {other : Option Form} (hform : condition → Holds property form)
    (hother : ¬ condition → Holds property other) :
    Holds property (if condition then form else other) := by
  by_cases hcondition : condition
  · rw [if_pos hcondition]
    exact hform hcondition
  · rw [if_neg hcondition]
    exact hother hcondition

theorem holds_none : Holds property none := by
  intro found hfound
  cases hfound

end

def ContinuesWith (line : Line) (opcode : Opcode) : Prop :=
  opcode.paramtype1 = .parR16 ∧ opcode.paramtype2 = .parImm8 ∧
      line.paramtype1 = .ttRegister16Bit ∧ line.paramtype2 = .ttValue ∨
    opcode.paramtype1 = .parRm32 ∧
      (line.paramtype1.isrm32 = true ∨ line.oldParamtype1.isrm32 = true) ∧
      (opcode.paramtype2 = .parMm ∧ line.paramtype2 = .ttRegisterMM ∨
        opcode.paramtype2 = .parXmm ∧ line.paramtype2 = .ttRegisterXMM)

variable (line : Line) (opcode : Opcode)

theorem selectRm32_exits (hparam : opcode.paramtype1 = .parRm32) :
    Holds (fun form => form.exits = true ∨ line.ContinuesWith opcode)
      (line.selectRm32 opcode) := by
  refine holds_given fun hfirst => ?_
  repeat' refine holds_orElse ?_ ?_
  all_goals refine holds_given fun hsecond => ?_
  rotate_right
  · refine holds_given fun _ => holds_some (Or.inr (Or.inr ⟨hparam, ?_, ?_⟩))
    · simpa using hfirst
    · simpa using hsecond
  all_goals
    repeat'
      first
        | exact holds_some (Or.inl rfl)
        | exact holds_map fun _ => Or.inl rfl
        | refine holds_orElse ?_ ?_
        | refine holds_given fun _ => ?_

theorem selectR16_exits (hparam : opcode.paramtype1 = .parR16) :
    Holds (fun form => form.exits = true ∨ line.ContinuesWith opcode)
      (line.selectR16 opcode) := by
  refine holds_given fun hfirst => ?_
  refine holds_orElse ?_ (holds_orElse ?_ (holds_orElse ?_ ?_))
  rotate_left 2
  · refine holds_given fun hsecond => holds_given fun _ => ?_
    refine holds_orElse
      (holds_given fun _ => holds_map fun _ => Or.inl rfl)
      (holds_some (Or.inr (Or.inl ⟨hparam, ?_⟩)))
    have hfirst := of_decide_eq_true hfirst
    simp only [secondIsValue, Bool.and_eq_true, decide_eq_true_eq] at hsecond
    exact ⟨hsecond.1, hfirst, hsecond.2⟩
  all_goals
    repeat'
      first
        | exact holds_some (Or.inl rfl)
        | exact holds_map fun _ => Or.inl rfl
        | refine holds_orElse ?_ ?_
        | refine holds_given fun _ => ?_

theorem select_exits :
    Holds (fun form => form.exits = true ∨ line.ContinuesWith opcode)
      (line.select opcode) := by
  unfold select
  split
  case h_20 hparam => exact line.selectR16_exits opcode hparam
  case h_27 hparam => exact line.selectRm32_exits opcode hparam
  all_goals
    first
      | with_reducible exact holds_none
      | simp only [selectNoparam, selectImm8, selectImm16, selectImm32,
          selectMoffs8, selectMoffs16, selectMoffs32, select3, selectAl,
          selectAx, selectEax, selectDx, selectSegment, selectR8, selectR32,
          selectSreg, selectSystem, selectRm8, selectRm16, selectMm,
          selectStore, selectXmm, selectMemory, storeXmm, selectM32,
          selectM64, selectM128, selectRel8, selectRel32, selectSt0,
          selectSt, moffs, alternative]
  all_goals
    repeat'
      first
        | with_reducible refine holds_orElse ?_ ?_
        | with_reducible refine holds_given fun _ => ?_
        | with_reducible refine holds_ite (fun _ => ?_) fun _ => ?_
        | exact holds_map fun _ => Or.inl rfl
        | exact holds_some (Or.inl rfl)

/-! ## One form -/

variable {line opcode}

theorem select_excluded (hold : line.oldParamtype1 = line.paramtype1)
    (hcontinues : line.ContinuesWith opcode) {later : Opcode}
    (hexcludes : opcode.excludes later = true) : line.select later = none := by
  unfold Opcode.excludes at hexcludes
  rw [Bool.and_eq_true] at hexcludes
  have hkind := hexcludes.2
  rcases hcontinues with ⟨hparam, -, hfirst, hsecond⟩ |
    ⟨hparam, hfirst, hsecond⟩
  · simp only [hparam, if_true, Bool.or_eq_true, Bool.and_eq_true,
      decide_eq_true_eq] at hkind
    rcases hkind with hr32 | ⟨hr16, hrm16⟩
    · simp [select, hr32, selectR32, given, hfirst]
    · simp [select, hr16, selectR16, given, noSecond, secondIs,
        secondIsValue, hrm16, hsecond, TokenType.isrm16]
  · have hisrm32 : line.paramtype1.isrm32 = true := by
      rcases hfirst with hfirst | hfirst
      · exact hfirst
      · rwa [hold] at hfirst
    have hnotXmm : line.paramtype1 ≠ .ttRegisterXMM := by
      intro hxmm
      rw [hxmm] at hisrm32
      cases hisrm32
    simp only [hparam, reduceCtorEq, if_false, Bool.or_eq_true,
      Bool.and_eq_true, decide_eq_true_eq] at hkind
    rcases hkind with hxmm | ⟨⟨hrm32, hmm⟩, hxmm⟩
    · simp [select, hxmm, selectXmm, given, hnotXmm]
    · have hmm2 : line.paramtype2 = .ttRegisterMM := by
        rcases hsecond with ⟨-, hmm2⟩ | ⟨hxmm', -⟩
        · exact hmm2
        · rw [hmm] at hxmm'
          cases hxmm'
      simp [select, hrm32, selectRm32, given, noSecond, secondIsOne,
        secondIs, secondIsValue, hxmm, hmm2]

theorem forms_selectFrom_excluded {mnemonic : Text} {rest : List Opcode}
    (hnone : ∀ later ∈ rest.takeWhile fun later =>
      later.mnemonic.toList = mnemonic,
      later.norexw = false ∧ line.select later = none)
    (selection : Selection) :
    (line.selectFrom mnemonic selection rest).forms = selection.forms := by
  induction rest generalizing selection with
  | nil => rfl
  | cons later rest ih =>
    unfold selectFrom
    by_cases hmnemonic : later.mnemonic.toList = mnemonic
    · rw [if_neg (not_not.mpr hmnemonic)]
      simp only [takeWhile_cons, hmnemonic, decide_true] at hnone
      have hrest := fun other hother =>
        hnone other (mem_cons_of_mem later hother)
      obtain ⟨hnorexw, hselect⟩ := hnone later mem_cons_self
      by_cases hinvalid : line.isInvalid later = true
      · rw [if_pos hinvalid, ih hrest]
      · rw [if_neg hinvalid]
        rw [current, if_neg (by rw [hnorexw]; decide), hselect]
        exact ih hrest _
    · rw [if_pos hmnemonic]

theorem continues_of_continuesWith (hcontinues : line.ContinuesWith opcode) :
    opcode.continues = true := by
  unfold Opcode.continues
  rcases hcontinues with ⟨hparam, hsecond, -⟩ | ⟨hparam, -, hsecond⟩
  · simp [hparam, hsecond]
  · rcases hsecond with ⟨hmm, -⟩ | ⟨hxmm, -⟩
    · simp [hparam, hmm]
    · simp [hparam, hxmm]

theorem select_excluded_all (hold : line.oldParamtype1 = line.paramtype1)
    (hcontinues : line.ContinuesWith opcode) {mnemonic : Text}
    (hmnemonic : opcode.mnemonic.toList = mnemonic) {rest : List Opcode}
    (hexcludes : (rest.takeWhile fun later =>
      later.mnemonic = opcode.mnemonic).all opcode.excludes = true) :
    ∀ later ∈ rest.takeWhile fun later => later.mnemonic.toList = mnemonic,
      later.norexw = false ∧ line.select later = none := by
  have hsame : (fun later : Opcode =>
      decide (later.mnemonic.toList = mnemonic)) =
      fun later => decide (later.mnemonic = opcode.mnemonic) := by
    funext later
    rw [← hmnemonic, decide_eq_decide, String.toList_inj]
  intro later hlater
  rw [hsame] at hlater
  have hexcludes := all_eq_true.mp hexcludes later hlater
  have hnorexw := (Bool.and_eq_true _ _ ▸ hexcludes).1
  exact ⟨by simpa using hnorexw, select_excluded hold hcontinues hexcludes⟩

def entryForm (line : Line) (opcode : Opcode) : Option Form :=
  if line.isInvalid opcode then none
  else (line.current opcode).select opcode

theorem entryForm_eq_some {line : Line} {opcode : Opcode} {form : Form} :
    line.entryForm opcode = some form ↔
      line.isInvalid opcode = false ∧
        (line.current opcode).select opcode = some form := by
  unfold entryForm
  cases line.isInvalid opcode with
  | true => simp
  | false => simp

/-- The loop emits the form of the first entry with the mnemonic that has
one, and no other. -/
theorem forms_selectFrom {mnemonic : Text} {table : List Opcode}
    (hold : line.oldParamtype1 = line.paramtype1)
    (honce : emitsOnce table = true) {selection : Selection}
    (hempty : selection.forms = []) :
    (line.selectFrom mnemonic selection table).forms =
      ((table.takeWhile fun opcode => opcode.mnemonic.toList = mnemonic
        ).findSome? line.entryForm).toList := by
  induction table generalizing selection with
  | nil => exact hempty
  | cons opcode rest ih =>
    rw [emitsOnce, Bool.and_eq_true] at honce
    unfold selectFrom
    by_cases hmnemonic : opcode.mnemonic.toList = mnemonic
    · rw [if_neg (not_not.mpr hmnemonic), takeWhile_cons,
        if_pos (decide_eq_true hmnemonic), findSome?_cons, entryForm]
      cases hinvalid : line.isInvalid opcode with
      | true =>
        rw [if_pos rfl, if_pos rfl]
        exact ih honce.2 hempty
      | false =>
        rw [if_neg Bool.false_ne_true, if_neg Bool.false_ne_true]
        cases hselect : (line.current opcode).select opcode with
        | none => exact ih honce.2 hempty
        | some form =>
          have hforms : selection.forms ++ [form] = [form] := by
            rw [hempty, nil_append]
          cases hexits : form.exits with
          | true => simp [hexits, hforms]
          | false =>
            have hcontinues :=
              (select_exits _ _ form hselect).resolve_left
                (by rw [hexits]; decide)
            have hrest := honce.1
            rw [continues_of_continuesWith hcontinues] at hrest
            simp only [Bool.not_true, Bool.false_or,
              Bool.and_eq_true, Bool.not_eq_true'] at hrest
            have hcurrent : line.current opcode = line := by
              rw [current, if_neg (by rw [hrest.1]; decide)]
            rw [hcurrent] at hcontinues
            have hnone := select_excluded_all hold hcontinues hmnemonic hrest.2
            simp only [hexits, Bool.false_eq_true, if_false]
            rw [forms_selectFrom_excluded hnone, hforms]
            rfl
    · rw [if_pos hmnemonic, takeWhile_cons, if_neg (by simpa using hmnemonic)]
      exact hempty

end Line

/-! ## What a line is assembled from -/

structure Prepared.Fresh (prepared : Prepared) (is64Bit : Bool)
    (address : UInt64) : Prop where
  lineIs64Bit : prepared.line.is64Bit = is64Bit
  lineAddress : prepared.line.address = address
  oldParamtype1 : prepared.line.oldParamtype1 = prepared.line.paramtype1
  is64Bit : prepared.state.is64Bit = is64Bit
  relativeAddressLocation : prepared.state.relativeAddressLocation = none
  needsAddressSwitchPrefix :
    prepared.state.needsAddressSwitchPrefix = false

/-- The bytes come from one form, which the loop emits. -/
structure FormAssembled (prepared : Prepared) (skiprangecheck : Bool)
    (form : Form) (bytes : List UInt8) : Prop where
  fromTable :
    prepared.line.opcodes.findSome? prepared.line.entryForm = some form
  finished : ∃ emitted selection,
    emit (prepared.state, prepared.bytes) form = .ok emitted ∧
      finish emitted.1 selection prepared.line.address skiprangecheck
        emitted.2 = .ok bytes

section

variable {convertHexStrToRealStr : Text → Text}
  {getOpcodesIndex : Text → Option ℕ} {is64Bit : Bool}
  {assemblerPreference : AssemblerPreference} {address : UInt64}
  {tokens : List Text}

theorem adjustTypes_state (state : State) (paramtype1 paramtype2 : TokenType) :
    (adjustTypes state paramtype1 paramtype2).1.is64Bit = state.is64Bit ∧
      (adjustTypes state paramtype1 paramtype2).1.relativeAddressLocation =
        state.relativeAddressLocation ∧
      (adjustTypes state paramtype1 paramtype2).1.needsAddressSwitchPrefix =
        state.needsAddressSwitchPrefix := by
  unfold adjustTypes State.setRexW
  simp only
  repeat' split
  all_goals exact ⟨rfl, rfl, rfl⟩

variable {prepared : Prepared}

theorem prepare_fresh
    (hprepare : prepare convertHexStrToRealStr getOpcodesIndex is64Bit
      assemblerPreference address tokens = some prepared) :
    prepared.Fresh is64Bit address := by
  unfold prepare at hprepare
  simp only at hprepare
  split at hprepare
  · cases hprepare
  · cases hprepare
    constructor <;> simp [adjustTypes_state]

theorem prepare_opcodes {j : ℕ}
    (hprepare : prepare convertHexStrToRealStr getOpcodesIndex is64Bit
      assemblerPreference address tokens = some prepared)
    (hindex : getOpcodesIndex prepared.mnemonic = some j) :
    prepared.line.opcodes = (opcodes.drop j).takeWhile fun opcode =>
      opcode.mnemonic.toList = prepared.mnemonic := by
  unfold prepare at hprepare
  simp only at hprepare
  split at hprepare
  · cases hprepare
  · cases hprepare
    simp only at hindex
    simp only [hindex]

theorem prepare_opcodes_none
    (hprepare : prepare convertHexStrToRealStr getOpcodesIndex is64Bit
      assemblerPreference address tokens = some prepared)
    (hindex : getOpcodesIndex prepared.mnemonic = none) :
    prepared.line.opcodes = [] := by
  unfold prepare at hprepare
  simp only at hprepare
  split at hprepare
  · cases hprepare
  · cases hprepare
    simp only at hindex
    simp only [hindex]

theorem finish_of_assembled {finished : Except Text (List UInt8)}
    {bytes : List UInt8}
    (hfinished : (finished >>= fun bytes => .ok (some bytes)) =
      Except.ok (some bytes)) : finished = .ok bytes := by
  cases finished with
  | error text => cases hfinished
  | ok found =>
    cases hfinished
    rfl

theorem assemble_cases {skiprangecheck : Bool} {bytes : List UInt8}
    (hassemble : assemble convertHexStrToRealStr getOpcodesIndex is64Bit
      assemblerPreference address skiprangecheck tokens =
        .ok (some bytes)) :
    ∃ prepared,
      prepare convertHexStrToRealStr getOpcodesIndex is64Bit
        assemblerPreference address tokens = some prepared ∧
      (prepared.isFar = true ∧
          bytes = farBytes (prepared.mnemonic = "JMP".toList) prepared.line.v ∨
        prepared.isFar = false ∧
          ∃ form, FormAssembled prepared skiprangecheck form bytes) := by
  unfold assemble at hassemble
  cases hprepare : prepare convertHexStrToRealStr getOpcodesIndex is64Bit
      assemblerPreference address tokens with
  | none =>
    rw [hprepare] at hassemble
    cases hassemble
  | some prepared =>
    have hfresh := prepare_fresh hprepare
    rw [hprepare] at hassemble
    simp only at hassemble
    refine ⟨prepared, rfl, ?_⟩
    cases hfar : prepared.isFar with
    | true =>
      rw [hfar, if_pos rfl] at hassemble
      cases hassemble
      exact Or.inl ⟨rfl, rfl⟩
    | false =>
      right
      rw [hfar, if_neg Bool.false_ne_true] at hassemble
      refine ⟨rfl, ?_⟩
      cases hindex : getOpcodesIndex prepared.mnemonic with
      | none =>
        rw [hindex] at hassemble
        cases hassemble
      | some j =>
        rw [hindex] at hassemble
        simp only at hassemble
        have hforms := @Line.forms_selectFrom prepared.line
          prepared.mnemonic _ hfresh.oldParamtype1
          (emitsOnce_drop emitsOnce_opcodes j) {} rfl
        rw [← prepare_opcodes hprepare hindex] at hforms
        rw [hforms] at hassemble
        cases hform : prepared.line.opcodes.findSome?
            prepared.line.entryForm with
        | none =>
          rw [hform] at hassemble
          cases hassemble
        | some form =>
          refine ⟨form, hform, ?_⟩
          rw [hform] at hassemble
          simp only [Option.toList_some, isEmpty_cons, Bool.false_eq_true,
            if_false, foldlM_cons, foldlM_nil, bind_pure] at hassemble
          cases hemit : emit (prepared.state, prepared.bytes) form
              with
          | error text =>
            rw [hemit] at hassemble
            cases hassemble
          | ok emitted =>
            rw [hemit] at hassemble
            refine ⟨emitted, prepared.line.selectFrom
              prepared.mnemonic {} (opcodes.drop j), rfl, ?_⟩
            rw [hfresh.lineAddress]
            exact finish_of_assembled hassemble

end

end Assembler
end CheatEngine
