import CheatEngine.AssemblerLine

/-!
# The bytes and the state after a form

An operand sets bits of the REX prefix, may leave an address that is relative,
and appends bytes; the place of the REX prefix is settled before it.
-/

namespace CheatEngine
namespace Assembler

open List PascalText

def IsRexBits (rexPrefix : UInt8) : Prop := rexPrefix &&& 0xb0 = 0

instance (rexPrefix : UInt8) : Decidable (IsRexBits rexPrefix) :=
  inferInstanceAs (Decidable (_ = _))

structure State.OnlyRex (before after : State) : Prop where
  is64Bit : after.is64Bit = before.is64Bit
  rexPrefixLocation : after.rexPrefixLocation = before.rexPrefixLocation
  relativeAddressLocation :
    after.relativeAddressLocation = before.relativeAddressLocation
  rexPrefix : IsRexBits before.rexPrefix → IsRexBits after.rexPrefix

namespace State.OnlyRex

variable {first second third state : State}

theorem refl (state : State) : state.OnlyRex state :=
  ⟨rfl, rfl, rfl, id⟩

theorem trans (hfirst : first.OnlyRex second)
    (hsecond : second.OnlyRex third) : first.OnlyRex third :=
  ⟨hsecond.is64Bit.trans hfirst.is64Bit,
    hsecond.rexPrefixLocation.trans hfirst.rexPrefixLocation,
    hsecond.relativeAddressLocation.trans hfirst.relativeAddressLocation,
    fun hbits => hsecond.rexPrefix (hfirst.rexPrefix hbits)⟩

theorem ite {condition : Prop} [Decidable condition]
    (hsecond : first.OnlyRex second) :
    first.OnlyRex (if condition then second else first) := by
  split
  · exact hsecond
  · exact refl first

end State.OnlyRex

theorem isRexBits_set (rexPrefix mask bit : UInt8)
    (hmask : mask ∈ [0xf7, 0xfb, 0xfd, 0xfe]) (hbit : bit ∈ [0, 1, 2, 4, 8])
    (hbits : IsRexBits rexPrefix) :
    IsRexBits ((rexPrefix &&& mask) ||| bit) := by
  cases rexPrefix with
  | ofBitVec bits =>
    revert bits
    simp only [mem_cons, not_mem_nil, or_false] at hmask hbit
    rcases hmask with rfl | rfl | rfl | rfl <;>
      rcases hbit with rfl | rfl | rfl | rfl | rfl <;>
      decide

variable (state : State)

theorem setRexR_onlyRex : state.OnlyRex state.setRexR :=
  ⟨rfl, rfl, rfl, isRexBits_set _ _ _ (by decide) (by decide)⟩

theorem setRexX_onlyRex : state.OnlyRex state.setRexX :=
  ⟨rfl, rfl, rfl, isRexBits_set _ _ _ (by decide) (by decide)⟩

theorem setRexB_onlyRex : state.OnlyRex state.setRexB :=
  ⟨rfl, rfl, rfl, isRexBits_set _ _ _ (by decide) (by decide)⟩

theorem setRexW_onlyRex (on : Bool) : state.OnlyRex (state.setRexW on) := by
  have hclear (hbits : IsRexBits state.rexPrefix) :
      IsRexBits (state.rexPrefix &&& 0xf7) := by
    have hset := isRexBits_set _ 0xf7 0 (by decide) (by decide) hbits
    rwa [UInt8.or_zero] at hset
  unfold State.setRexW
  split
  · exact ⟨rfl, rfl, rfl, isRexBits_set _ _ _ (by decide) (by decide)⟩
  · exact ⟨rfl, rfl, rfl, hclear⟩

theorem setrm_onlyRex (modrm : UInt8) (i : ℕ) :
    state.OnlyRex (setrm state modrm i).1 :=
  (setRexB_onlyRex state).ite

theorem setsibbase_onlyRex (sib : UInt8) (i : ℕ) :
    state.OnlyRex (setsibbase state sib i).1 :=
  (setRexB_onlyRex state).ite

theorem setsibindex_onlyRex (sib : UInt8) (i : ℕ) :
    state.OnlyRex (setsibindex state sib i).1 :=
  (setRexX_onlyRex state).ite

/-! ## The memory operand -/

variable {state}

theorem ok_of_bind {α β : Type} {first : Except Text α}
    {next : α → Except Text β} {result : β}
    (hresult : (first >>= next) = .ok result) :
    ∃ value, first = .ok value ∧ next value = .ok result := by
  cases first with
  | error text => cases hresult
  | ok value => exact ⟨value, rfl, hresult⟩

theorem createsibscaleindex_onlyRex {sib : UInt8} {reg : Text}
    {result : State × UInt8}
    (hresult : createsibscaleindex state sib reg = .ok result) :
    state.OnlyRex result.1 := by
  obtain ⟨scale, -, hresult⟩ := ok_of_bind hresult
  simp only at hresult
  have hindex (i : ℕ) :=
    setsibindex_onlyRex state (setsibscale sib scale) i
  split at hresult
  · split at hresult
    · cases hresult
      exact hindex _
    · split at hresult
      · cases hresult
        have hswitch := hindex (by assumption)
        exact ⟨hswitch.1, hswitch.2, hswitch.3, hswitch.4⟩
      · cases hresult
  · split at hresult
    · cases hresult
      exact hindex _
    · cases hresult

variable {modrm : UInt8} {disp : UInt64} {result : State × List UInt8}
  {offset : ℕ} {bytes : List UInt8} {reg : ℤ}

theorem BaseArm.run_onlyRex {arm : BaseArm} {regs : Text × Text}
    (hresult : arm.run state modrm disp regs = .ok result) :
    state.OnlyRex result.1 := by
  unfold BaseArm.run at hresult
  simp only at hresult
  split at hresult
  · obtain ⟨found, hfound, hresult⟩ := ok_of_bind hresult
    cases hresult
    have hrm := setrm_onlyRex state modrm 4
    have hbase := hrm.trans (setsibbase_onlyRex _ 0 arm.number)
    exact hbase.trans (createsibscaleindex_onlyRex hfound)
  · cases hresult
    exact setrm_onlyRex state modrm arm.number

/-- The state after the bytes of an operand that stand at `offset`. -/
structure State.AfterOperand (before after : State) (offset : ℕ)
    (bytes : List UInt8) : Prop where
  is64Bit : after.is64Bit = before.is64Bit
  rexPrefixLocation : after.rexPrefixLocation = before.rexPrefixLocation
  rexPrefix : IsRexBits before.rexPrefix → IsRexBits after.rexPrefix
  relativeAddressLocation :
    after.relativeAddressLocation = before.relativeAddressLocation ∨
      after.relativeAddressLocation = some (offset + 1) ∧
        5 ≤ bytes.length ∧
        after.needsAddressSwitchPrefix = before.needsAddressSwitchPrefix

theorem State.OnlyRex.afterOperand {after : State}
    (honly : state.OnlyRex after) (offset : ℕ) (bytes : List UInt8) :
    state.AfterOperand after offset bytes :=
  ⟨honly.is64Bit, honly.rexPrefixLocation, honly.rexPrefix,
    Or.inl honly.relativeAddressLocation⟩

theorem State.AfterOperand.trans {second third : State} {more : List UInt8}
    (hfirst : state.AfterOperand second offset bytes)
    (hsecond : second.OnlyRex third)
    (hswitch : third.needsAddressSwitchPrefix =
      second.needsAddressSwitchPrefix) (hmore : bytes.length ≤ more.length) :
    state.AfterOperand third offset more := by
  refine ⟨hsecond.is64Bit.trans hfirst.is64Bit,
    hsecond.rexPrefixLocation.trans hfirst.rexPrefixLocation,
    fun hbits => hsecond.rexPrefix (hfirst.rexPrefix hbits), ?_⟩
  rw [hsecond.relativeAddressLocation]
  rw [hswitch]
  exact hfirst.relativeAddressLocation.imp id
    fun ⟨hlocation, hlength, hsame⟩ =>
      ⟨hlocation, hlength.trans hmore, hsame⟩

theorem withoutBase_afterOperand {reg1 reg2 : Text}
    {found : State × List UInt8}
    (hfound : withoutBase state modrm disp reg1 reg2 offset =
      .ok (some found)) :
    state.AfterOperand found.1 offset found.2 := by
  unfold withoutBase at hfound
  split at hfound
  · obtain ⟨index, hindex, hfound⟩ := ok_of_bind hfound
    cases hfound
    have hrm := setrm_onlyRex state modrm 4
    have hbase := hrm.trans (setsibbase_onlyRex _ 0 5)
    exact (hbase.trans (createsibscaleindex_onlyRex hindex)).afterOperand _ _
  · split at hfound
    · simp only at hfound
      have hrm := setrm_onlyRex state modrm 5
      split at hfound
      · split at hfound
        · cases hfound
          have hsib := hrm.trans (setrm_onlyRex _ modrm 4)
          have hbase := hsib.trans (setsibbase_onlyRex _ 0 5)
          exact (hbase.trans (setsibindex_onlyRex _ 0 4)).afterOperand _ _
        · cases hfound
          exact ⟨hrm.is64Bit, hrm.rexPrefixLocation, hrm.rexPrefix,
            Or.inr ⟨rfl, Nat.le_refl 5, rfl⟩⟩
      · cases hfound
        exact hrm.afterOperand _ _
    · cases hfound

theorem withBase_afterOperand {regs : Text × Text}
    {found : Option (State × List UInt8)}
    (hfound : ∀ before, found = some before →
      state.AfterOperand before.1 offset before.2)
    (hresult : withBase state modrm disp regs found = .ok result) :
    state.AfterOperand result.1 offset result.2 := by
  unfold withBase at hresult
  split at hresult
  · split at hresult
    · next hrun =>
        cases hresult
        exact (BaseArm.run_onlyRex hrun).afterOperand _ _
    · split at hresult <;> cases hresult
  · split at hresult
    · cases hresult
      exact hfound _ rfl
    · cases hresult

theorem length_addDisplacement (modrm : List UInt8) (disp : UInt64) :
    modrm.length ≤ (addDisplacement modrm disp).length := by
  unfold addDisplacement
  split
  · simp
  · simp
  · exact Nat.le_refl _

theorem setmodrm_afterOperand {address : Text}
    (hresult : setmodrm state modrm address offset = .ok result) :
    state.AfterOperand result.1 offset result.2 := by
  unfold setmodrm at hresult
  obtain ⟨parts, -, hresult⟩ := ok_of_bind hresult
  simp only at hresult
  split at hresult
  · cases hresult
  · obtain ⟨found, hfound, hresult⟩ := ok_of_bind hresult
    obtain ⟨based, hbased, hresult⟩ := ok_of_bind hresult
    cases hresult
    refine State.AfterOperand.trans (withBase_afterOperand ?_ hbased)
      (State.OnlyRex.refl _) rfl (length_addDisplacement _ _)
    rintro before rfl
    exact withoutBase_afterOperand hfound

theorem setreg_afterOperand (hresult : setreg state bytes reg = .ok result) :
    state.OnlyRex result.1 ∧
      result.1.needsAddressSwitchPrefix = state.needsAddressSwitchPrefix ∧
      result.2.length = bytes.length := by
  unfold setreg at hresult
  simp only at hresult
  split at hresult
  · split at hresult
    · cases hresult
      exact ⟨setRexR_onlyRex state, rfl, length_modifyHead⟩
    · cases hresult
  · cases hresult
    exact ⟨State.OnlyRex.refl state, rfl, length_modifyHead⟩

theorem registerModRM_onlyRex {param : Text}
    (hresult : registerModRM state param = .ok result) :
    state.OnlyRex result.1 := by
  unfold registerModRM at hresult
  simp only at hresult
  split at hresult
  · cases hresult
    exact setrm_onlyRex state (setmod 0 3) _
  · cases hresult

theorem setreg_appended {encoded : State × List UInt8}
    (hencoded : state.AfterOperand encoded.1 bytes.length encoded.2)
    (hresult : (setreg encoded.1 encoded.2 reg >>= fun withReg =>
      Except.ok (withReg.1, bytes ++ withReg.2)) = .ok result) :
    ∃ operand, result.2 = bytes ++ operand ∧
      state.AfterOperand result.1 bytes.length operand := by
  obtain ⟨withReg, hwithReg, hresult⟩ := ok_of_bind hresult
  cases hresult
  obtain ⟨honly, hswitch, hlength⟩ := setreg_afterOperand hwithReg
  exact ⟨withReg.2, rfl, hencoded.trans honly hswitch hlength.ge⟩

theorem createModRM_afterOperand {param : Text}
    (hresult : createModRM state bytes reg param = .ok result) :
    ∃ operand, result.2 = bytes ++ operand ∧
      state.AfterOperand result.1 bytes.length operand := by
  unfold createModRM at hresult
  simp only at hresult
  split at hresult
  · obtain ⟨encoded, hencoded, hresult⟩ := ok_of_bind hresult
    exact setreg_appended
      ((registerModRM_onlyRex hencoded).afterOperand _ _) hresult
  · obtain ⟨encoded, hencoded, hresult⟩ := ok_of_bind hresult
    exact setreg_appended (setmodrm_afterOperand hencoded) hresult

def Operand.Writes (operand : Operand) (opcode : Opcode)
    (written : List UInt8) : Prop :=
  match operand with
  | .none => written = opcode.opcodeBytes
  | .modrm _ _ => written = opcode.opcodeBytes
  | .plus _ => ∃ k < 8, written = incLast opcode.opcodeBytes k
  | .plusWithoutRex _ => ∃ k, written = incLast opcode.opcodeBytes k

theorem incLast_append (bytes : List UInt8) (opcode : Opcode) (k : ℕ) :
    incLast (bytes ++ opcode.opcodeBytes) k =
      bytes ++ incLast opcode.opcodeBytes k := by
  have hne : opcode.opcodeBytes ≠ [] := cons_ne_nil _ _
  unfold incLast
  rw [dropLast_append_of_ne_nil hne, append_assoc]
  congr 3
  rw [getLastD_eq_getLast?, getLastD_eq_getLast?,
    getLast?_append_of_ne_nil _ hne]

theorem emit_afterOperand {form : Form} {emitted : State × List UInt8}
    (hemit : emit (state, bytes) form = .ok emitted) :
    ∃ written operand,
      emitted.2 = bytes ++ written ++ operand ++ form.immediate ∧
        form.operand.Writes form.opcode written ∧
        (addopcode state bytes form.opcode).1.AfterOperand emitted.1
          (bytes ++ written).length operand := by
  unfold emit at hemit
  obtain ⟨result, hresult, hemit⟩ := ok_of_bind hemit
  cases hemit
  have hstart := State.OnlyRex.refl (addopcode state bytes form.opcode).1
  cases hoperand : form.operand with
  | none =>
    rw [hoperand] at hresult
    cases hresult
    refine ⟨form.opcode.opcodeBytes, [], ?_, rfl, hstart.afterOperand _ _⟩
    rw [append_nil]
    rfl
  | modrm reg param =>
    rw [hoperand] at hresult
    obtain ⟨number, -, hresult⟩ := ok_of_bind hresult
    obtain ⟨operand, hbytes, hafter⟩ := createModRM_afterOperand hresult
    refine ⟨form.opcode.opcodeBytes, operand, ?_, rfl, hafter⟩
    rw [hbytes]
    rfl
  | plus reg =>
    rw [hoperand] at hresult
    obtain ⟨k, -, hresult⟩ := ok_of_bind hresult
    cases hresult
    refine ⟨_, [], ?_, ⟨if 7 < k then k &&& 7 else k, ?_, rfl⟩, ?_⟩
    · rw [← incLast_append, append_nil]
      rfl
    · split
      · exact Nat.lt_succ_of_le Nat.and_le_right
      · omega
    · exact (hstart.trans ((setRexB_onlyRex _).ite)).afterOperand _ _
  | plusWithoutRex reg =>
    rw [hoperand] at hresult
    obtain ⟨k, -, hresult⟩ := ok_of_bind hresult
    cases hresult
    refine ⟨_, [], ?_, ⟨k, rfl⟩, hstart.afterOperand _ _⟩
    rw [← incLast_append, append_nil]
    rfl

theorem emit_plusWithoutRex {form : Form} {reg : Text}
    (hplus : form.operand = .plusWithoutRex reg)
    {emitted : State × List UInt8}
    (hemit : emit (state, bytes) form = .ok emitted) :
    emitted.1.rexPrefix = state.rexPrefix := by
  unfold emit at hemit
  obtain ⟨result, hresult, hemit⟩ := ok_of_bind hemit
  rw [hplus] at hresult
  obtain ⟨k, -, hresult⟩ := ok_of_bind hresult
  cases hresult
  cases hemit
  rfl

end Assembler
end CheatEngine
