import CheatEngine.AssemblerSelection

/-!
# The entry that a form is emitted with

A branch emits the entry it looks at, or another one with the same mnemonic
that takes a value.  A register is only added to an opcode that says so.
-/

namespace CheatEngine
namespace Assembler

namespace Opcode

variable (opcode : Opcode)

def takesValue : Bool :=
  opcode.paramtype1 = .parImm16 || opcode.paramtype1 = .parImm32 ||
    opcode.paramtype1 = .parRel32 || opcode.paramtype2 = .parImm8 ||
    opcode.paramtype2 = .parImm16 || opcode.paramtype2 = .parImm32 ||
    opcode.paramtype3 = .parImm16 || opcode.paramtype3 = .parImm32

def addsRegister : Bool :=
  opcode.opcode1 = .eoPrb || opcode.opcode1 = .eoPrw ||
    opcode.opcode1 = .eoPrd || opcode.opcode1 = .eoPi ||
    opcode.paramtype1 = .parSt

/-- The entry that exchanges a register with `AX`. -/
def exchangesAx : Bool :=
  opcode.paramtype1 = .parAx && opcode.paramtype2 = .parR16

end Opcode

namespace Line

/-- Where the opcode of a form and the register added to it come from. -/
def FromEntry (line : Line) (opcode : Opcode) (form : Form) : Prop :=
  match form.operand with
  | .none => form.opcode = opcode ∨
      form.opcode ∈ line.opcodes ∧ form.opcode.takesValue = true
  | .modrm _ _ => form.opcode = opcode ∨
      form.opcode ∈ line.opcodes ∧ form.opcode.takesValue = true
  | .plus _ => form.opcode = opcode ∧ opcode.addsRegister = true
  | .plusWithoutRex _ => form.opcode = opcode ∧ opcode.exchangesAx = true ∧
      line.parameter1 = "AX".toList ∧ line.paramtype2 = .ttRegister16Bit

variable {line : Line} {opcode : Opcode}

variable {form : Form} {reg : Text}

theorem FromEntry.opcode_eq (hfrom : line.FromEntry opcode form) :
    form.opcode = opcode ∨
      form.opcode ∈ line.opcodes ∧ form.opcode.takesValue = true := by
  unfold FromEntry at hfrom
  split at hfrom
  · exact hfrom
  · exact hfrom
  · exact Or.inl hfrom.1
  · exact Or.inl hfrom.1

theorem FromEntry.addsRegister (hfrom : line.FromEntry opcode form)
    (hplus : form.operand = .plus reg) :
    form.opcode.addsRegister = true := by
  unfold FromEntry at hfrom
  rw [hplus] at hfrom
  rw [hfrom.1]
  exact hfrom.2

theorem FromEntry.exchangesAx (hfrom : line.FromEntry opcode form)
    (hplus : form.operand = .plusWithoutRex reg) :
    opcode.exchangesAx = true ∧ line.parameter1 = "AX".toList ∧
      line.paramtype2 = .ttRegister16Bit := by
  unfold FromEntry at hfrom
  rw [hplus] at hfrom
  exact hfrom.2

theorem holds_alternative {property : Form → Prop}
    {condition : Opcode → Bool} {form : Opcode → Form}
    (hform : ∀ k ∈ line.opcodes, condition k = true → property (form k)) :
    Holds property (line.alternative condition form) := by
  intro found hfound
  obtain ⟨k, hk, rfl⟩ := Option.map_eq_some_iff.mp hfound
  exact hform k (List.mem_of_find?_eq_some hk) (List.find?_some hk)

theorem holds_takesValue {condition : Opcode → Bool} {form : Opcode → Form}
    (hcondition : ∀ k, condition k = true → k.takesValue = true)
    (hform : ∀ k, k.takesValue = true → k ∈ line.opcodes →
      line.FromEntry opcode (form k)) :
    Holds (line.FromEntry opcode) (line.alternative condition form) :=
  holds_alternative fun k hk hfound =>
    hform k (hcondition k hfound) hk

theorem holds_withPlus {kind : ExtraOpcode} {immediate : List UInt8}
    (hkind : kind ∈ [.eoPrb, .eoPrw, .eoPrd, .eoPi]) :
    Holds (line.FromEntry opcode)
      (given (opcode.opcode1 = kind)
        (some (withPlus opcode reg immediate))) := by
  refine holds_given fun hgiven => holds_some ⟨rfl, ?_⟩
  rw [decide_eq_true_eq] at hgiven
  fin_cases hkind <;> simp [Opcode.addsRegister, hgiven]

theorem selectAx_fromEntry (hparam : opcode.paramtype1 = .parAx) :
    Holds (line.FromEntry opcode) (line.selectAx opcode) := by
  unfold selectAx
  refine holds_given fun hfirst => ?_
  repeat' refine holds_orElse ?_ ?_
  all_goals refine holds_given fun hsecond => ?_
  case refine_2.refine_2.refine_1 =>
    refine holds_given fun _ => holds_given fun _ => holds_some ?_
    simp only [Bool.and_eq_true, decide_eq_true_eq] at hfirst hsecond
    refine ⟨rfl, ?_, hfirst, hsecond.2⟩
    simp [Opcode.exchangesAx, hparam, hsecond.1]
  all_goals
    first
      | exact holds_some (Or.inl rfl)
      | refine holds_given fun _ => ?_
  · exact holds_given fun _ => holds_some (Or.inl rfl)
  · exact holds_map fun _ => Or.inl rfl

theorem selectR32_fromEntry :
    Holds (line.FromEntry opcode) (line.selectR32 opcode) := by
  unfold selectR32
  refine holds_given fun _ => ?_
  refine holds_orElse ?_ ?_
  · refine holds_given fun _ => ?_
    refine holds_ite (fun hplus => ?_) fun _ => holds_some (Or.inl rfl)
    exact holds_some ⟨rfl, by simp [Opcode.addsRegister, hplus]⟩
  · repeat'
      first
        | with_reducible refine holds_orElse ?_ ?_
        | with_reducible exact holds_withPlus (by decide)
        | (with_reducible refine holds_takesValue ?_ fun _ htakes hmem => ?_
           · simp +contextual [Opcode.takesValue]
           · exact Or.inr ⟨hmem, htakes⟩)
        | with_reducible refine holds_given fun _ => ?_
        | exact holds_some (Or.inl rfl)

theorem selectSt_fromEntry (hparam : opcode.paramtype1 = .parSt) :
    Holds (line.FromEntry opcode) (line.selectSt opcode) := by
  have hadds : opcode.addsRegister = true := by
    simp [Opcode.addsRegister, hparam]
  unfold selectSt
  refine holds_given fun _ => holds_orElse ?_ ?_
  · exact holds_given fun _ => holds_some ⟨rfl, hadds⟩
  · exact holds_given fun _ => holds_given fun _ =>
      holds_given fun _ => holds_some ⟨rfl, hadds⟩

theorem selectR16_fromEntry :
    Holds (line.FromEntry opcode) (line.selectR16 opcode) := by
  unfold selectR16
  repeat'
    first
      | with_reducible refine holds_orElse ?_ ?_
      | with_reducible exact holds_withPlus (by decide)
      | (with_reducible refine holds_takesValue ?_ fun _ htakes hmem => ?_
         · simp +contextual [Opcode.takesValue]
         · exact Or.inr ⟨hmem, htakes⟩)
      | with_reducible refine holds_given fun _ => ?_
      | exact holds_some (Or.inl rfl)

/-- Every form is emitted with the entry of the branch or with another one
that takes a value. -/
theorem select_fromEntry :
    Holds (line.FromEntry opcode) (line.select opcode) := by
  unfold select
  split
  case h_10 hparam => exact selectAx_fromEntry hparam
  case h_20 => exact selectR16_fromEntry
  case h_21 => exact selectR32_fromEntry
  case h_42 hparam => exact selectSt_fromEntry hparam
  all_goals
    first
      | with_reducible exact holds_none
      | simp only [selectNoparam, selectImm8, selectImm16, selectImm32,
          selectMoffs8, selectMoffs16, selectMoffs32, select3, selectAl,
          selectEax, selectDx, selectSegment, selectR8, selectSreg,
          selectSystem, selectRm8, selectRm16, selectRm32, selectMm,
          selectStore, selectXmm, selectMemory, storeXmm, selectM32,
          selectM64, selectM128, selectRel8, selectRel32, selectSt0, moffs]
  all_goals
    repeat'
      first
        | with_reducible refine holds_orElse ?_ ?_
        | with_reducible exact holds_withPlus (by decide)
        | (with_reducible refine holds_takesValue ?_ fun _ htakes hmem => ?_
           · simp +contextual [Opcode.takesValue, isRel32]
           · exact Or.inr ⟨hmem, htakes⟩)
        | with_reducible refine holds_given fun _ => ?_
        | with_reducible refine holds_ite (fun _ => ?_) fun _ => ?_
        | exact holds_map fun _ => Or.inl rfl
        | exact holds_some (Or.inl rfl)

end Line

end Assembler
end CheatEngine
