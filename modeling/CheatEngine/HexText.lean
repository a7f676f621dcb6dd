import Mathlib.Data.Nat.Log
import Mathlib.Tactic

/-!
# Hexadecimal texts

A number as a text of at least a given count of hexadecimal digits, most
significant digit first, and the number such a text stands for.
-/

namespace CheatEngine.HexText

def hexDigit (digit : ℕ) : Char :=
  if digit < 10 then Char.ofNat (48 + digit) else Char.ofNat (55 + digit)

def hexValue (char : Char) : Option ℕ :=
  if 48 ≤ char.toNat ∧ char.toNat ≤ 57 then some (char.toNat - 48)
  else if 65 ≤ char.toNat ∧ char.toNat ≤ 70 then some (char.toNat - 55)
  else if 97 ≤ char.toNat ∧ char.toNat ≤ 102 then some (char.toNat - 87)
  else none

def hexDigits (value : ℕ) : ℕ → List Char
  | 0 => []
  | count + 1 =>
    hexDigit (value / 16 ^ count % 16) :: hexDigits value count

def digitCount (value digits : ℕ) : ℕ :=
  max digits (Nat.log2 value / 4 + 1)

def intToHex (value digits : ℕ) : List Char :=
  hexDigits value (digitCount value digits)

def parseFrom (value : ℕ) : List Char → Option ℕ
  | [] => some value
  | char :: rest => do
      let digit ← hexValue char
      parseFrom (value * 16 + digit) rest

def parseHex (text : List Char) : Option ℕ :=
  if text = [] then none else parseFrom 0 text

variable {digit : ℕ} (value : ℕ)

theorem hexValue_lt {char : Char} (hdigit : hexValue char = some digit) :
    digit < 16 := by
  unfold hexValue at hdigit
  split_ifs at hdigit <;> (injection hdigit with hdigit; omega)

theorem hexValue_hexDigit (hdigit : digit < 16) :
    hexValue (hexDigit digit) = some digit := by
  interval_cases digit <;> decide

theorem hexDigit_mem (hdigit : digit < 16) :
    hexDigit digit ∈ "0123456789ABCDEF".toList := by
  interval_cases digit <;> decide

theorem hexDigits_length (count : ℕ) :
    (hexDigits value count).length = count := by
  induction count with
  | zero => rfl
  | succ count ih => simp [hexDigits, ih]

theorem hexDigits_mem {value count : ℕ} {char : Char}
    (hchar : char ∈ hexDigits value count) :
    char ∈ "0123456789ABCDEF".toList := by
  induction count with
  | zero => simp [hexDigits] at hchar
  | succ count ih =>
    rcases List.mem_cons.mp hchar with hhead | htail
    · rw [hhead]
      exact hexDigit_mem (Nat.mod_lt _ (by decide))
    · exact ih htail

theorem parseFrom_hexDigits (count acc : ℕ) :
    parseFrom acc (hexDigits value count) =
      some (acc * 16 ^ count + value % 16 ^ count) := by
  induction count generalizing acc with
  | zero => simp [hexDigits, parseFrom, Nat.mod_one]
  | succ count ih =>
    have hdigit : value / 16 ^ count % 16 < 16 := Nat.mod_lt _ (by decide)
    simp only [hexDigits, parseFrom, hexValue_hexDigit hdigit,
      Option.bind_eq_bind, Option.bind_some]
    rw [ih, Nat.pow_succ, Nat.mod_mul]
    congr 1
    ring

theorem lt_pow_digitCount (digits : ℕ) :
    value < 16 ^ digitCount value digits := by
  have hlog : value < 2 ^ (Nat.log2 value + 1) := Nat.lt_log2_self
  have hexponent :
      Nat.log2 value + 1 ≤ 4 * digitCount value digits := by
    unfold digitCount
    omega
  calc
    value < 2 ^ (Nat.log2 value + 1) := hlog
    _ ≤ 2 ^ (4 * digitCount value digits) :=
      Nat.pow_le_pow_right (by decide) hexponent
    _ = 16 ^ digitCount value digits := by
      rw [Nat.pow_mul]

theorem intToHex_ne_nil (digits : ℕ) : intToHex value digits ≠ [] := by
  intro hnil
  have hlength := congrArg List.length hnil
  rw [intToHex, hexDigits_length, digitCount] at hlength
  simp only [List.length_nil] at hlength
  omega

theorem intToHex_mem {value digits : ℕ} {char : Char}
    (hchar : char ∈ intToHex value digits) :
    char ∈ "0123456789ABCDEF".toList :=
  hexDigits_mem hchar

theorem parseHex_intToHex (digits : ℕ) :
    parseHex (intToHex value digits) = some value := by
  rw [parseHex, if_neg (intToHex_ne_nil value digits), intToHex,
    parseFrom_hexDigits, Nat.mod_eq_of_lt (lt_pow_digitCount value digits)]
  simp

end CheatEngine.HexText
