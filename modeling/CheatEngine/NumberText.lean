import Mathlib.Tactic

/-!
# Numbers as text in the hypervisor

`itoa` writes the digits from the last one on and turns them round, `atoi`
adds up the powers of the base from the last character on.
-/

namespace CheatEngine
namespace NumberText

open List

abbrev Text := List Char

@[grind =]
def power (x : ℕ) : ℕ → ℕ
  | 0 => 1
  | y + 1 => power x y * x % 2 ^ 64

def digit (c : Char) : Option ℕ :=
  if '0' ≤ c ∧ c ≤ '9' then some (c.toNat - '0'.toNat)
  else if 'a' ≤ c ∧ c ≤ 'z' then some (10 + c.toNat - 'a'.toNat)
  else if 'A' ≤ c ∧ c ≤ 'Z' then some (10 + c.toNat - 'A'.toNat)
  else none

structure Overrides where
  base : ℕ
  start : ℕ
  negative : Bool
  input : Text

@[grind =]
def overrideChecks (base start : ℕ) (negative : Bool) : Text → Overrides
  | [] => ⟨base, start, negative, []⟩
  | '-' :: input => overrideChecks base (start + 1) (!negative) input
  | '$' :: input => overrideChecks 16 (start + 1) negative input
  | '0' :: 'x' :: input => overrideChecks 16 (start + 2) negative input
  | input => ⟨base, start, negative, input⟩

/-- The characters from the last one on, with the result as an
`unsigned long long`; the sign is turned with every digit. -/
@[grind =]
def atoiLoop (base start : ℕ) (negative : Bool) : Text → ℕ → ℤ → ℤ × ℤ
  | [], _, result => (result, 0)
  | char :: rest, j, result =>
    match digit char with
    | none => (result, start + rest.length)
    | some c =>
      if c ≥ base then (result, start + rest.length)
      else
        let result := (result + c * power base j) % 2 ^ 64
        atoiLoop base start negative rest (j + 1)
          (if negative then Int.bmod (-result) (2 ^ 32) % 2 ^ 64
          else result)

def atoi (input : Text) (base : ℕ) : ℤ × ℤ :=
  if base < 2 ∨ 36 < base then (0, -1)
  else
    let checked := overrideChecks base 0 false input
    atoiLoop checked.base checked.start checked.negative
      checked.input.reverse 0 0

def digitChar (t : ℕ) : Char :=
  if t ≤ 9 then Char.ofNat ('0'.toNat + t)
  else Char.ofNat ('a'.toNat + t - 10)

@[grind =]
def tempbuf (base : ℕ) : ℕ → ℕ → Text
  | 0, _ => []
  | room + 1, value =>
    if value > 0 then
      digitChar (value % base) :: tempbuf base room (value / base)
    else []

def itoa (value : UInt32) (base : ℕ) (output : Text) (maxsize : ℕ) :
    ℤ × Text :=
  if base < 2 ∨ 36 < base then (-1, output)
  else if value = 0 ∧ 1 < maxsize then (2, ['0'])
  else
    let digits := tempbuf base maxsize value.toNat
    (digits.length,
      if digits.length < maxsize then digits.reverse
      else digits.reverse.take (maxsize - 1))

/-- The wanted size is not below the length of the string. -/
def appendzero (string : Text) (wantedsize maxstringsize : ℕ) : Text :=
  let zerostoadd := wantedsize - string.length
  if zerostoadd + string.length ≥ maxstringsize then string
  else
    (List.replicate zerostoadd '0' ++ string).take (maxstringsize - 1)

/-! ## Digits -/

def shown (base value : ℕ) : List ℕ :=
  if value = 0 then [0] else Nat.digits base value

/-- What the digits at an even distance from the end stand for. -/
@[grind =]
def turnedDigits (base : ℕ) : List ℕ → ℕ
  | [] => 0
  | d :: digits =>
    (if digits.length % 2 = 1 then d else 0) +
      base * turnedDigits base digits

theorem digit_digitChar {t : ℕ} (ht : t < 36) :
    digit (digitChar t) = some t := by
  revert t
  decide

theorem digitChar_ne {t : ℕ} (ht : t < 36) :
    digitChar t ≠ '-' ∧ digitChar t ≠ '$' ∧
      (digitChar t = '0' → t = 0) ∧ (digitChar t = 'x' ↔ t = 33) := by
  revert t
  decide

theorem power_eq (x y : ℕ) : power x y = x ^ y % 2 ^ 64 := by
  induction y with
  | zero => rfl
  | succ y ih => rw [power, ih, Nat.mod_mul_mod, pow_succ x]

theorem power_modEq (x y : ℕ) : (power x y : ℤ) ≡ x ^ y [ZMOD 2 ^ 64] := by
  rw [power_eq]
  push_cast
  exact Int.mod_modEq _ _

theorem bmod_congr {a b : ℤ} (hmod : a ≡ b [ZMOD 2 ^ 32]) :
    Int.bmod a (2 ^ 32) = Int.bmod b (2 ^ 32) := by
  have hcast : a % ((2 ^ 32 : ℕ) : ℤ) = b % ((2 ^ 32 : ℕ) : ℤ) := hmod
  rw [← Int.emod_bmod a, hcast, Int.emod_bmod]

theorem bmod_modEq (a : ℤ) : Int.bmod a (2 ^ 32) ≡ a [ZMOD 2 ^ 32] :=
  Int.bmod_emod (m := 2 ^ 32)

section

variable {base value : ℕ}

theorem tempbuf_eq (hbase : 2 ≤ base) {room : ℕ}
    (hroom : (Nat.digits base value).length ≤ room) :
    tempbuf base room value = (Nat.digits base value).map digitChar := by
  induction room generalizing value with
  | zero =>
    rw [length_eq_zero_iff.mp (Nat.le_zero.mp hroom)]
    rfl
  | succ room ih =>
    rw [tempbuf]
    split_ifs with hpos
    · rw [Nat.digits_def' hbase hpos] at hroom ⊢
      rw [ih (Nat.le_of_succ_le_succ hroom), map_cons]
    · rw [Nat.eq_zero_of_not_pos hpos]
      simp

theorem shown_lt (hbase : 2 ≤ base) : ∀ d ∈ shown base value, d < base := by
  intro d hd
  rw [shown] at hd
  split_ifs at hd with hzero
  · rw [mem_singleton.mp hd]
    omega
  · exact Nat.digits_lt_base hbase hd

theorem ofDigits_shown : Nat.ofDigits base (shown base value) = value := by
  rw [shown]
  split_ifs with hzero
  · simp [hzero]
  · exact Nat.ofDigits_digits base value

theorem shown_ne_nil : shown base value ≠ [] := by
  rw [shown]
  split_ifs with hzero
  · simp
  · exact Nat.digits_ne_nil_iff_ne_zero.mpr hzero

theorem itoa_eq {word : UInt32} {output : Text} {maxsize : ℕ}
    (hbase : 2 ≤ base ∧ base ≤ 36)
    (hroom : (shown base word.toNat).length < maxsize) :
    (itoa word base output maxsize).2 =
      (shown base word.toNat).reverse.map digitChar := by
  rw [itoa, if_neg (by omega)]
  by_cases hzero : word = 0
  · subst hzero
    rw [if_pos ⟨rfl, hroom⟩]
    rfl
  · have hpos : word.toNat ≠ 0 := fun h =>
      hzero (UInt32.toNat_inj.mp h)
    rw [shown, if_neg hpos] at hroom ⊢
    rw [if_neg fun h => hzero h.1, tempbuf_eq hbase.1 hroom.le, map_reverse]
    simp only [length_map, if_pos hroom]

theorem turnedDigits_eq_zero_iff (hbase : 0 < base) (digits : List ℕ) :
    turnedDigits base digits = 0 ↔
      ∀ i < digits.length, (digits.length - i) % 2 = 0 →
        digits.getD i 0 = 0 := by
  induction digits with
  | nil => simp [turnedDigits]
  | cons d digits ih =>
    rw [turnedDigits, Nat.add_eq_zero_iff, Nat.mul_eq_zero,
      or_iff_right hbase.ne', ih, length_cons]
    constructor
    · rintro ⟨hd, hrest⟩ i hi heven
      cases i with
      | zero => exact (if_pos (by omega)).symm.trans hd
      | succ i => exact hrest i (by omega) (by omega)
    · refine fun hall => ⟨?_, fun i hi heven =>
        hall (i + 1) (by omega) (by omega)⟩
      split_ifs with hodd
      · exact hall 0 (by omega) (by omega)
      · rfl

theorem turnedDigits_lt (hbase : 0 < base) {digits : List ℕ}
    (hne : digits ≠ []) (hlast : digits.getLast hne ≠ 0) :
    turnedDigits base digits < Nat.ofDigits base digits := by
  induction digits with
  | nil => exact absurd rfl hne
  | cons d digits ih =>
    rw [turnedDigits, Nat.ofDigits_cons]
    cases digits with
    | nil =>
      have hd : d ≠ 0 := hlast
      simp [turnedDigits]
      omega
    | cons next digits =>
      have hrest := ih (cons_ne_nil _ _)
        (by rwa [getLast_cons] at hlast)
      have hmul := Nat.mul_lt_mul_of_pos_left hrest hbase
      split_ifs <;> omega

/-- Only zero has a last digit of zero. -/
theorem turnedDigits_shown (hbase : 2 ≤ base) :
    turnedDigits base (shown base value) < value ∨
      value = 0 ∧ turnedDigits base (shown base value) = 0 := by
  by_cases hzero : value = 0
  · subst hzero
    exact Or.inr ⟨rfl, by simp [shown, turnedDigits]⟩
  · have hlt := turnedDigits_lt (Nat.lt_of_lt_of_le Nat.two_pos hbase)
      (Nat.digits_ne_nil_iff_ne_zero.mpr hzero)
      (Nat.getLast_digit_ne_zero base hzero)
    rw [Nat.ofDigits_digits] at hlt
    rw [shown, if_neg hzero]
    exact Or.inl hlt

end

/-- What the text is when every character is a digit of the base. -/
def Reads (base : ℕ) (chars : Text) (digits : List ℕ) : Prop :=
  chars.map digit = digits.map some ∧ ∀ d ∈ digits, d < base

theorem reads_digitChar {base : ℕ} (hbase : base ≤ 36) {digits : List ℕ}
    (hdigits : ∀ d ∈ digits, d < base) :
    Reads base (digits.map digitChar) digits := by
  refine ⟨?_, hdigits⟩
  rw [map_map]
  exact map_congr_left fun d hd =>
    digit_digitChar ((hdigits d hd).trans_le hbase)

section

variable {base start : ℕ}

theorem atoiLoop_cons {char : Char} {rest : Text} {digits : List ℕ} {d : ℕ}
    (hread : Reads base (char :: rest) (d :: digits)) (negative : Bool)
    (j : ℕ) (result : ℤ) :
    Reads base rest digits ∧
      atoiLoop base start negative (char :: rest) j result =
        atoiLoop base start negative rest (j + 1)
          (if negative then
            Int.bmod (-((result + d * power base j) % 2 ^ 64)) (2 ^ 32) %
              2 ^ 64
          else (result + d * power base j) % 2 ^ 64) := by
  obtain ⟨hmap, hdigits⟩ := hread
  rw [map_cons, map_cons, List.cons.injEq] at hmap
  have hd := hdigits d mem_cons_self
  refine ⟨⟨hmap.2, fun e he => hdigits e (mem_cons_of_mem d he)⟩, ?_⟩
  rw [atoiLoop, hmap.1]
  simp only [ge_iff_le, if_neg (not_le.mpr hd)]

theorem atoiLoop_reads {chars : Text} {digits : List ℕ}
    (hread : Reads base chars digits) (j : ℕ) (result : ℤ)
    (hresult : result % 2 ^ 64 = result) :
    atoiLoop base start false chars j result =
      ((result + base ^ j * Nat.ofDigits base digits) % 2 ^ 64, 0) := by
  induction digits generalizing chars j result with
  | nil =>
    rw [map_eq_nil_iff.mp hread.1, atoiLoop, Nat.ofDigits_nil,
      Nat.cast_zero, mul_zero, add_zero, hresult]
  | cons d digits ih =>
    cases chars with
    | nil => cases hread.1
    | cons char rest =>
      obtain ⟨hrest, hstep⟩ := atoiLoop_cons hread false j result
      rw [hstep, if_neg Bool.false_ne_true, ih hrest _ _ (Int.emod_emod ..),
        Nat.ofDigits_cons]
      refine congrArg (·, 0) (Int.ModEq.eq ?_)
      have hsum : (result + d * power base j) % 2 ^ 64 ≡
          result + d * base ^ j [ZMOD 2 ^ 64] :=
        (Int.mod_modEq _ _).trans
          (((power_modEq base j).mul_left d).add_left result)
      have hvalue : result + d * base ^ j + base ^ (j + 1) *
          Nat.ofDigits base digits = result + base ^ j *
            ((d + base * Nat.ofDigits base digits : ℕ) : ℤ) := by
        push_cast
        ring
      exact hvalue ▸ hsum.add_right _

/-- Every digit that is read turns the sign of the ones before it. -/
theorem atoiLoop_negative {chars : Text} {digits : List ℕ}
    (hread : Reads base chars digits) (j : ℕ) (sum : ℤ) :
    atoiLoop base start true chars j (Int.bmod sum (2 ^ 32) % 2 ^ 64) =
      (Int.bmod ((-1) ^ digits.length * sum + base ^ j *
        (2 * turnedDigits base digits - Nat.ofDigits base digits))
          (2 ^ 32) % 2 ^ 64, 0) := by
  induction digits generalizing chars j sum with
  | nil =>
    rw [map_eq_nil_iff.mp hread.1, atoiLoop]
    simp [turnedDigits]
  | cons d digits ih =>
    cases chars with
    | nil => cases hread.1
    | cons char rest =>
      obtain ⟨hrest, hstep⟩ := atoiLoop_cons hread true j
        (Int.bmod sum (2 ^ 32) % 2 ^ 64)
      have hword : Int.bmod (-((Int.bmod sum (2 ^ 32) % 2 ^ 64 +
          d * power base j) % 2 ^ 64)) (2 ^ 32) =
          Int.bmod (-(sum + d * base ^ j)) (2 ^ 32) := by
        have hdvd : (2 ^ 32 : ℤ) ∣ 2 ^ 64 := by norm_num
        apply bmod_congr
        refine (((Int.mod_modEq _ _).of_dvd hdvd).trans ?_).neg
        exact (((Int.mod_modEq _ _).of_dvd hdvd).trans (bmod_modEq sum)).add
          (((power_modEq base j).of_dvd hdvd).mul_left d)
      rw [hstep, if_pos rfl, hword, ih hrest]
      congr 3
      rw [length_cons, turnedDigits, Nat.ofDigits_cons, pow_succ, pow_succ]
      rcases Nat.mod_two_eq_zero_or_one digits.length with heven | hodd
      · rw [(Nat.even_iff.mpr heven).neg_one_pow, if_neg (by omega)]
        push_cast
        ring
      · rw [(Nat.odd_iff.mpr hodd).neg_one_pow, if_pos hodd]
        push_cast
        ring

theorem reads_of_atoiLoop (hstart : 0 < start) {negative : Bool}
    {chars : Text} {j : ℕ} {result : ℤ}
    (herror : (atoiLoop base start negative chars j result).2 = 0) :
    ∃ digits : List ℕ, Reads base chars digits := by
  induction chars generalizing j result with
  | nil => exact ⟨[], rfl, by simp⟩
  | cons char rest ih =>
    rw [atoiLoop] at herror
    cases hdigit : digit char with
    | none =>
      simp only [hdigit] at herror
      omega
    | some d =>
      simp only [hdigit] at herror
      split_ifs at herror with hlarge
      · simp only at herror
        omega
      all_goals
        obtain ⟨digits, hmap, hdigits⟩ := ih herror
        refine ⟨d :: digits, by simp [hdigit, hmap], fun e he => ?_⟩
        rcases mem_cons.mp he with rfl | he
        · exact not_le.mp hlarge
        · exact hdigits e he

end

/-! ## What stands before the digits -/

section

variable {base start : ℕ} {negative : Bool}

theorem overrideChecks_self {input : Text}
    (hdigits : ∀ c ∈ input, c ≠ '-' ∧ c ≠ '$')
    (hplain : ∀ rest, input ≠ '0' :: 'x' :: rest) :
    overrideChecks base start negative input =
      ⟨base, start, negative, input⟩ := by
  fun_cases overrideChecks base start negative input with
  | case1 => rfl
  | case2 input => exact absurd rfl (hdigits '-' mem_cons_self).1
  | case3 input => exact absurd rfl (hdigits '$' mem_cons_self).2
  | case4 input => exact absurd rfl (hplain input)
  | case5 => rfl

theorem overrideChecks_minus (n : ℕ) (input : Text) :
    overrideChecks base start negative (List.replicate n '-' ++ input) =
      overrideChecks base (start + n) (negative ^^ (n % 2 = 1)) input := by
  induction n generalizing start negative with
  | zero => simp
  | succ n ih =>
    rw [replicate_succ, cons_append, overrideChecks, ih,
      Nat.add_right_comm, Nat.add_assoc]
    congr 1
    rcases Nat.mod_two_eq_zero_or_one n with hn | hn <;>
      simp [Nat.add_mod, hn]

theorem overrideChecks_spec {input : Text} (hdigits : ∀ c ∈ input, c ≠ '-') :
    ((overrideChecks base start negative input).base = base ∨
      (overrideChecks base start negative input).base = 16) ∧
    start ≤ (overrideChecks base start negative input).start ∧
    (overrideChecks base start negative input).negative = negative ∧
    (overrideChecks base start negative input).input.length ≤
      input.length := by
  fun_induction overrideChecks base start negative input with
  | case1 => simp
  | case2 base start negative input ih =>
    exact absurd rfl (hdigits '-' mem_cons_self)
  | case3 base start negative input ih =>
    obtain ⟨hbase, hstart, hneg, hlength⟩ := ih fun c hc =>
      hdigits c (mem_cons_of_mem _ hc)
    exact ⟨Or.inr (or_self_iff.mp hbase), by omega, hneg,
      hlength.trans (Nat.le_succ _)⟩
  | case4 base start negative input ih =>
    obtain ⟨hbase, hstart, hneg, hlength⟩ := ih fun c hc =>
      hdigits c (mem_cons_of_mem _ (mem_cons_of_mem _ hc))
    exact ⟨Or.inr (or_self_iff.mp hbase), by omega, hneg,
      hlength.trans ((Nat.le_succ _).trans (Nat.le_succ _))⟩
  | case5 => simp

def textOf (digits : List ℕ) : Text := digits.reverse.map digitChar

variable {digits : List ℕ} {value : ℕ}

theorem textOf_mem (hdigits : ∀ d ∈ digits, d < 36) :
    ∀ c ∈ textOf digits, c ≠ '-' ∧ c ≠ '$' := by
  intro c hc
  obtain ⟨d, hd, rfl⟩ := mem_map.mp hc
  have hne := digitChar_ne (hdigits d (mem_reverse.mp hd))
  exact ⟨hne.1, hne.2.1⟩

theorem atoi_textOf (hbase : 2 ≤ base ∧ base ≤ 36)
    (hdigits : ∀ d ∈ digits, d < base)
    (hplain : ∀ rest, textOf digits ≠ '0' :: 'x' :: rest)
    (hword : Nat.ofDigits base digits < 2 ^ 64) :
    atoi (textOf digits) base = (↑(Nat.ofDigits base digits), 0) := by
  have hread : Reads base (textOf digits).reverse digits := by
    rw [textOf, ← map_reverse, reverse_reverse]
    exact reads_digitChar hbase.2 hdigits
  rw [atoi, if_neg (by omega), overrideChecks_self
    (textOf_mem fun d hd => (hdigits d hd).trans_le hbase.2) hplain]
  simp only
  rw [atoiLoop_reads hread 0 0 rfl]
  congr 1
  rw [pow_zero, one_mul, zero_add]
  exact Int.emod_eq_of_lt (by positivity) (by exact_mod_cast hword)

theorem shown_reverse {rest : List ℕ}
    (hzero : (shown base value).reverse = 0 :: rest) : rest = [] := by
  rw [shown] at hzero
  split_ifs at hzero with hvalue
  · cases hzero
    rfl
  · have hlast : (Nat.digits base value).reverse.head (by simp [hzero]) ≠
        0 := by
      rw [head_reverse]
      exact Nat.getLast_digit_ne_zero base hvalue
    simp [hzero] at hlast

theorem textOf_shown_ne (hbase : 2 ≤ base ∧ base ≤ 36) (rest : Text) :
    textOf (shown base value) ≠ '0' :: 'x' :: rest := by
  intro htext
  cases hreverse : (shown base value).reverse with
  | nil => exact shown_ne_nil (reverse_eq_nil_iff.mp hreverse)
  | cons d digits =>
    rw [textOf, hreverse, map_cons, List.cons.injEq] at htext
    have hd : d < base := shown_lt hbase.1 d
      (mem_reverse.mp (hreverse ▸ mem_cons_self))
    obtain rfl := (digitChar_ne (hd.trans_le hbase.2)).2.2.1 htext.1
    rw [shown_reverse hreverse] at htext
    cases htext.2

/-- One zero in front of the digit x reads as the start of base 16. -/
theorem atoi_hexadecimal (hbase : 2 ≤ base ∧ base ≤ 36) {front : List ℕ}
    (hfront : ∀ d ∈ front, d < 36) (hsmall : base ^ front.length < 2 ^ 64)
    (hlarge : 16 ≤ base) (hvalue : base ^ front.length ≤ value) :
    atoi ('0' :: 'x' :: textOf front) base ≠ (↑value, 0) := by
  rw [atoi, if_neg (by omega), overrideChecks]
  obtain ⟨hsixteen, hstart, hneg, hlength⟩ :=
    @overrideChecks_spec 16 (0 + 2) false _ fun c hc =>
      (textOf_mem hfront c hc).1
  generalize overrideChecks 16 (0 + 2) false (textOf front) = checked at *
  simp only [or_self_iff.mp hsixteen, hneg]
  intro hright
  have hpos : 0 < checked.start := by omega
  obtain ⟨digits, hread⟩ := reads_of_atoiLoop hpos (congrArg Prod.snd hright)
  have hcount : digits.length = checked.input.length := by
    have hmap := congrArg List.length hread.1
    simpa using hmap.symm
  have hlt : Nat.ofDigits 16 digits < base ^ front.length :=
    calc Nat.ofDigits 16 digits < 16 ^ digits.length :=
          Nat.ofDigits_lt_base_pow_length (by decide) hread.2
      _ ≤ 16 ^ front.length :=
          Nat.pow_le_pow_right (by decide) (by
            simpa [hcount, textOf] using hlength)
      _ ≤ base ^ front.length := Nat.pow_le_pow_left hlarge _
  rw [atoiLoop_reads hread 0 0 rfl, Prod.mk.injEq, pow_zero, one_mul,
    zero_add, Int.emod_eq_of_lt (by positivity)
      (by exact_mod_cast hlt.trans hsmall)] at hright
  have hvalues : Nat.ofDigits 16 digits = value := by
    exact_mod_cast hright.1
  omega

theorem atoi_minus (hbase : 2 ≤ base ∧ base ≤ 36) (hvalue : value ≤ 2 ^ 31)
    {minus : ℕ} (hodd : minus % 2 = 1) :
    atoi (List.replicate minus '-' ++ textOf (shown base value)) base =
        ((-value : ℤ) % 2 ^ 64, 0) ↔
      turnedDigits base (shown base value) = 0 := by
  have hdigits := @shown_lt base value hbase.1
  have hread : Reads base (textOf (shown base value)).reverse
      (shown base value) := by
    rw [textOf, ← map_reverse, reverse_reverse]
    exact reads_digitChar hbase.2 hdigits
  rw [atoi, if_neg (by omega), overrideChecks_minus, overrideChecks_self
    (textOf_mem fun d hd => (hdigits d hd).trans_le hbase.2)
    (textOf_shown_ne hbase)]
  simp only [hodd, decide_true, Bool.false_xor]
  have hloop := @atoiLoop_negative base (0 + minus) _ _ hread 0 0
  rw [show Int.bmod 0 (2 ^ 32) % 2 ^ 64 = 0 by decide] at hloop
  rw [hloop, ofDigits_shown, pow_zero, one_mul, mul_zero, zero_add,
    Prod.mk.injEq, and_iff_left rfl]
  have hturned := @turnedDigits_shown base value hbase.1
  generalize turnedDigits base (shown base value) = turned at hturned
  constructor
  · intro hsame
    have hmod := congrArg (· % (2 ^ 32 : ℤ)) hsame
    simp only [Int.emod_emod_of_dvd _ (by norm_num : (2 ^ 32 : ℤ) ∣ 2 ^ 64)]
      at hmod
    rw [show _ % (2 ^ 32 : ℤ) = _ from bmod_modEq _] at hmod
    omega
  · intro hzero
    rw [hzero, Nat.cast_zero, mul_zero, zero_sub,
      Int.bmod_eq_of_le (by omega) (by omega)]

theorem appendzero_textOf {wantedsize maxsize : ℕ}
    (hlength : digits.length ≤ wantedsize) (hroom : wantedsize < maxsize) :
    appendzero (textOf digits) wantedsize maxsize =
      textOf (digits ++ List.replicate (wantedsize - digits.length) 0) := by
  have hsize : (textOf digits).length = digits.length := by
    simp [textOf]
  simp only [appendzero, hsize]
  rw [if_neg (by omega), take_of_length_le (by
    simp only [length_append, length_replicate, hsize]
    omega)]
  simp [textOf, show digitChar 0 = '0' from rfl]

theorem textOf_concat (digits : List ℕ) (d : ℕ) :
    textOf (digits ++ [d]) = digitChar d :: textOf digits := by
  simp [textOf]

theorem textOf_padded_ne (hbase : 2 ≤ base ∧ base ≤ 36) {zeros : ℕ}
    (hplain : ¬ (zeros = 1 ∧ (shown base value).getLast? = some 33))
    (rest : Text) :
    textOf (shown base value ++ List.replicate zeros 0) ≠
      '0' :: 'x' :: rest := by
  intro htext
  match zeros with
  | 0 =>
    rw [replicate_zero, append_nil] at htext
    exact textOf_shown_ne hbase rest htext
  | 1 =>
    rw [replicate_one, textOf_concat, List.cons.injEq] at htext
    refine hplain ⟨rfl, ?_⟩
    cases hreverse : (shown base value).reverse with
    | nil => exact absurd (reverse_eq_nil_iff.mp hreverse) shown_ne_nil
    | cons d digits =>
      rw [textOf, hreverse, map_cons, List.cons.injEq] at htext
      have hd : d < base := shown_lt hbase.1 d
        (mem_reverse.mp (hreverse ▸ mem_cons_self))
      rw [getLast?_eq_head?_reverse, hreverse, head?_cons,
        (digitChar_ne (hd.trans_le hbase.2)).2.2.2.mp htext.2.1]
  | zeros + 2 =>
    rw [replicate_succ', ← append_assoc, textOf_concat,
      replicate_succ', ← append_assoc, textOf_concat] at htext
    exact absurd (List.cons.inj (List.cons.inj htext).2).1 (by decide)

theorem atoi_padded (hbase : 2 ≤ base ∧ base ≤ 36) {value zeros : ℕ}
    (hword : value < 2 ^ 32) :
    atoi (textOf (shown base value ++ List.replicate zeros 0)) base =
        (↑value, 0) ↔
      ¬ (zeros = 1 ∧ (shown base value).getLast? = some 33) := by
  constructor
  · rintro hright ⟨rfl, hlast⟩
    obtain ⟨front, hfront⟩ := getLast?_eq_some_iff.mp hlast
    have hdigits := @shown_lt base value hbase.1
    rw [hfront] at hdigits
    have hx : 33 < base := hdigits 33 (by simp)
    have hvalue : Nat.ofDigits base (front ++ [33]) = value := by
      rw [← hfront, ofDigits_shown]
    rw [Nat.ofDigits_append, Nat.ofDigits_singleton] at hvalue
    rw [hfront, replicate_one, textOf_concat, textOf_concat] at hright
    refine atoi_hexadecimal hbase (fun d hd => ?_) (by omega) (by omega)
      (by omega) hright
    exact (hdigits d (mem_append_left _ hd)).trans_le hbase.2
  · intro hplain
    have hvalue : Nat.ofDigits base
        (shown base value ++ List.replicate zeros 0) = value := by
      rw [Nat.ofDigits_append_replicate_zero, ofDigits_shown]
    rw [atoi_textOf hbase ?_ (textOf_padded_ne hbase hplain) (by omega),
      hvalue]
    intro d hd
    rcases mem_append.mp hd with hshown | hzero
    · exact shown_lt hbase.1 d hshown
    · rw [eq_of_mem_replicate hzero]
      omega

/-- The text reads back as the number; padded with zeros, unless one zero
comes to stand before the digit x; behind an odd number of signs, up to
`2 ^ 31`, when every second digit is a zero. -/
theorem atoi_itoa_iff (hbase : 2 ≤ base ∧ base ≤ 36) (value : UInt32)
    (output : Text) {maxsize : ℕ}
    (hroom : (shown base value.toNat).length < maxsize) :
    atoi (itoa value base output maxsize).2 base = (↑value.toNat, 0) ∧
    (∀ wantedsize, (shown base value.toNat).length ≤ wantedsize →
      wantedsize < maxsize →
      (atoi (appendzero (itoa value base output maxsize).2 wantedsize
          maxsize) base = (↑value.toNat, 0) ↔
        ¬ (wantedsize = (shown base value.toNat).length + 1 ∧
          (shown base value.toNat).getLast? = some 33))) ∧
    (value.toNat ≤ 2 ^ 31 → ∀ minus, minus % 2 = 1 →
      (atoi (List.replicate minus '-' ++
          (itoa value base output maxsize).2) base =
          ((-value.toNat : ℤ) % 2 ^ 64, 0) ↔
        ∀ i < (shown base value.toNat).length,
          ((shown base value.toNat).length - i) % 2 = 0 →
            (shown base value.toNat).getD i 0 = 0)) := by
  have hword : value.toNat < 2 ^ 32 := value.toNat_lt
  have htext : (itoa value base output maxsize).2 =
      textOf (shown base value.toNat) := itoa_eq hbase hroom
  rw [htext]
  refine ⟨?_, fun wantedsize hlength hlt => ?_, fun hle minus hodd => ?_⟩
  · have hplain := (@atoi_padded base hbase value.toNat 0 hword).mpr
      fun h => Nat.zero_ne_one h.1
    rwa [replicate_zero, append_nil] at hplain
  · rw [appendzero_textOf hlength hlt, atoi_padded hbase hword,
      Nat.sub_eq_iff_eq_add' hlength]
  · rw [atoi_minus hbase hle hodd, turnedDigits_eq_zero_iff (by omega)]

theorem atoi_itoa_iff_ten : atoi (itoa 12 10 [] 8).2 10 = (12, 0) :=
  (atoi_itoa_iff (by decide) 12 [] (by
    change (shown 10 12).length < 8
    rw [shown, if_neg (by decide)]
    norm_num)).1

end

/-- `-12` reads as `-8`: the sign is turned after each of the digits. -/
theorem not_atoi_minus_twelve :
    ¬ ∀ (value : UInt32) (base minus : ℕ), 2 ≤ base ∧ base ≤ 36 →
      value.toNat ≤ 2 ^ 31 → minus % 2 = 1 →
      (atoi (List.replicate minus '-' ++ (itoa value base [] 64).2)
        base).1 = (-value.toNat : ℤ) % 2 ^ 64 := by
  intro hright
  have hone := hright 12 10 1 (by decide) (by decide) (by decide)
  exact absurd hone (by decide)

end NumberText
end CheatEngine
