import Mathlib.Tactic

/-!
# Memory operands of the x86

How a ModRM byte, a SIB byte, a displacement and the extension bits of a REX
prefix name a register or an address, and the address that a sum of
registers and a displacement stands for.
-/

namespace CheatEngine
namespace X86Addressing

def highField (byte : UInt8) : ℕ := byte.toNat / 64

def middleField (byte : UInt8) : ℕ := byte.toNat / 8 % 8

def lowField (byte : UInt8) : ℕ := byte.toNat % 8

variable (byte : UInt8)

theorem highField_lt : highField byte < 4 := by
  have hbyte := byte.toNat_lt
  unfold highField
  omega

def signed (width : ℕ) (value : ℤ) : ℤ :=
  if value % 2 ^ width < 2 ^ (width - 1) then value % 2 ^ width
  else value % 2 ^ width - 2 ^ width

def dword (bytes : ℕ → UInt8) (offset : ℕ) : ℕ :=
  (bytes offset).toNat + (bytes (offset + 1)).toNat * 2 ^ 8 +
    (bytes (offset + 2)).toNat * 2 ^ 16 + (bytes (offset + 3)).toNat * 2 ^ 24

theorem dword_lt (bytes : ℕ → UInt8) (offset : ℕ) :
    dword bytes offset < 2 ^ 32 := by
  have h0 := (bytes offset).toNat_lt
  have h1 := (bytes (offset + 1)).toNat_lt
  have h2 := (bytes (offset + 2)).toNat_lt
  have h3 := (bytes (offset + 3)).toNat_lt
  unfold dword
  omega

theorem signed_emod (width : ℕ) (value : ℤ) :
    signed width value % 2 ^ width = value % 2 ^ width := by
  unfold signed
  split
  · exact Int.emod_emod_of_dvd _ (dvd_refl _)
  · rw [Int.sub_emod, Int.emod_self, sub_zero]
    rw [Int.emod_emod_of_dvd _ (dvd_refl _),
      Int.emod_emod_of_dvd _ (dvd_refl _)]

structure Address where
  base : Option ℕ
  index : Option (ℕ × ℕ)
  displacement : ℤ
  relative : Bool
deriving DecidableEq, Repr

namespace Address

variable (registers : ℕ → ℤ) (next : ℤ)

def sum (address : Address) : ℤ :=
  address.base.elim 0 registers +
    address.index.elim 0 (fun index => registers index.1 * index.2) +
    address.displacement + if address.relative then next else 0

def effective (width : ℕ) (address : Address) : ℤ :=
  address.sum registers next % 2 ^ width

end Address

inductive Operand where
  | register (number : ℕ)
  | memory (address : Address)
deriving DecidableEq, Repr

structure Decoded where
  reg : ℕ
  operand : Operand
  length : ℕ
deriving DecidableEq, Repr

def extend (extension : Bool) (field : ℕ) : ℕ :=
  if extension then field + 8 else field

def modDisplacement (mod : ℕ) (bytes : ℕ → UInt8) (offset : ℕ) : ℤ × ℕ :=
  if mod = 1 then (signed 8 (bytes offset).toNat, 1)
  else if mod = 2 then (signed 32 (dword bytes offset), 4)
  else (0, 0)

def sibIndex (rexX : Bool) (sib : UInt8) : Option (ℕ × ℕ) :=
  if extend rexX (middleField sib) = 4 then none
  else some (extend rexX (middleField sib), 2 ^ highField sib)

def decodeAddress (mode64 rexX rexB : Bool) (mod rm : ℕ)
    (bytes : ℕ → UInt8) (offset : ℕ) : Address × ℕ :=
  if rm = 4 then
    if mod = 0 ∧ lowField (bytes offset) = 5 then
      ({ base := none
         index := sibIndex rexX (bytes offset)
         displacement := signed 32 (dword bytes (offset + 1))
         relative := false }, 5)
    else
      ({ base := some (extend rexB (lowField (bytes offset)))
         index := sibIndex rexX (bytes offset)
         displacement := (modDisplacement mod bytes (offset + 1)).1
         relative := false }, 1 + (modDisplacement mod bytes (offset + 1)).2)
  else if mod = 0 ∧ rm = 5 then
    ({ base := none
       index := none
       displacement := signed 32 (dword bytes offset)
       relative := mode64 }, 4)
  else
    ({ base := some (extend rexB rm)
       index := none
       displacement := (modDisplacement mod bytes offset).1
       relative := false }, (modDisplacement mod bytes offset).2)

def decode (mode64 rexR rexX rexB : Bool) (bytes : ℕ → UInt8)
    (offset : ℕ) : Decoded :=
  if highField (bytes offset) = 3 then
    { reg := extend rexR (middleField (bytes offset))
      operand := .register (extend rexB (lowField (bytes offset)))
      length := 1 }
  else
    { reg := extend rexR (middleField (bytes offset))
      operand := .memory (decodeAddress mode64 rexX rexB
        (highField (bytes offset)) (lowField (bytes offset)) bytes
        (offset + 1)).1
      length := 1 + (decodeAddress mode64 rexX rexB
        (highField (bytes offset)) (lowField (bytes offset)) bytes
        (offset + 1)).2 }

end X86Addressing
end CheatEngine
