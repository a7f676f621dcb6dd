import CheatEngine.ByteMemory

/-!
# The custom Base85 encoding

Four bytes are a `dword` and become five digits.  At the end one, two or
three bytes are filled up with zero bytes, and as many digits are dropped
again by putting the terminator before them.  The decoder fills up the
missing digits with the largest one.
-/

namespace CheatEngine.Base85

open List ByteMemory

def customBase85 : List Char :=
  ("0123456789" ++ "ABCDEFGHIJKLMNOPQRSTUVWXYZ" ++
    "abcdefghijklmnopqrstuvwxyz" ++
    "!#$%()*+,-./:;=?@[]^_\x7b\x7d").toList

def charOf (digit : ℕ) : Char :=
  customBase85.getD digit '0'

def pos (c : Char) : ℤ :=
  if c ∈ customBase85 then customBase85.idxOf c + 1 else 0

/-- What a `dword` variable keeps of a value. -/
def dword (value : ℤ) : ℕ :=
  (value % 2 ^ 32).toNat

def groupOf (a : ℕ) : List Char :=
  [charOf (a / 85 / 85 / 85 / 85 % 85), charOf (a / 85 / 85 / 85 % 85),
    charOf (a / 85 / 85 % 85), charOf (a / 85 % 85), charOf (a % 85)]

def tuple (b0 b1 b2 b3 : UInt8) : ℕ :=
  b0.toNat <<< 24 ||| b1.toNat <<< 16 ||| b2.toNat <<< 8 ||| b3.toNat

/-- The loop over the 4-tuples: where which characters are written, and
where `outputStringBase85` points to at the end. -/
def encodeLoop : List UInt8 → ℕ → List (ℕ × List Char) × ℕ
  | b0 :: b1 :: b2 :: b3 :: rest, outputStringBase85 =>
    let result := encodeLoop rest (outputStringBase85 + 5)
    ((outputStringBase85, groupOf (tuple b0 b1 b2 b3)) :: result.1,
      result.2)
  | [b0, b1, b2], outputStringBase85 =>
    ([(outputStringBase85, groupOf (tuple b0 b1 b2 0))],
      outputStringBase85 + 5)
  | [b0, b1], outputStringBase85 =>
    ([(outputStringBase85, groupOf (tuple b0 b1 0 0))],
      outputStringBase85 + 5)
  | [b0], outputStringBase85 =>
    ([(outputStringBase85, groupOf (tuple b0 0 0 0))],
      outputStringBase85 + 5)
  | [], outputStringBase85 => ([], outputStringBase85)

def BinToBase85 (BinValue : List UInt8) : List (ℕ × List Char) :=
  let result := encodeLoop BinValue 0
  result.1 ++
    [(result.2 - (4 - BinValue.length % 4) % 4, [Char.ofNat 0])]

def writeAll (writes : List (ℕ × List Char)) (memory : ℕ → Char) :
    ℕ → Char :=
  writes.foldl (fun before write => store before write.1 write.2) memory

def stringIn (memory : ℕ → Char) (size : ℕ) : List Char :=
  (load memory 0 size).takeWhile fun c => c ≠ Char.ofNat 0

def outputSize (BinarySize : ℕ) : ℕ :=
  BinarySize / 4 * 5 + 5

def byteOf (a shift : ℕ) : UInt8 :=
  UInt8.ofNat (a >>> shift &&& 0xff)

def join2 (c0 c1 : Char) : ℕ :=
  dword (dword ((pos c0 - 1) * 85 * 85 * 85 * 85) +
    (pos c1 - 1) * 85 * 85 * 85)

def join3 (c0 c1 c2 : Char) : ℕ :=
  dword (join2 c0 c1 + (pos c2 - 1) * 85 * 85)

def join4 (c0 c1 c2 c3 : Char) : ℕ :=
  dword (join3 c0 c1 c2 + (pos c3 - 1) * 85)

def join5 (c0 c1 c2 c3 c4 : Char) : ℕ :=
  dword (join4 c0 c1 c2 c3 + (pos c4 - 1))

/-- The loop over the 5-tuples, and the bytes of what is left after it. -/
def Base85ToBin : List Char → List UInt8
  | c0 :: c1 :: c2 :: c3 :: c4 :: rest =>
    let a := join5 c0 c1 c2 c3 c4
    byteOf a 24 :: byteOf a 16 :: byteOf a 8 :: byteOf a 0 ::
      Base85ToBin rest
  | [c0, c1, c2, c3] =>
    let a := dword (join4 c0 c1 c2 c3 + 84)
    [byteOf a 24, byteOf a 16, byteOf a 8]
  | [c0, c1, c2] =>
    let a := dword (join3 c0 c1 c2 + 84 * 85 + 84)
    [byteOf a 24, byteOf a 16]
  | [c0, c1] =>
    let a := dword (join2 c0 c1 + 84 * 85 * 85 + 84 * 85 + 84)
    [byteOf a 24]
  | [_] => []
  | [] => []

def binarySize (size : ℕ) : ℕ :=
  if size % 5 > 1 then size / 5 * 4 + size % 5 - 1 else size / 5 * 4

theorem customBase85_codes :
    customBase85.map Char.toNat =
      List.range' 48 10 ++ List.range' 65 26 ++ List.range' 97 26 ++
        [33, 35, 36, 37, 40, 41, 42, 43, 44, 45, 46, 47, 58, 59, 61, 63, 64,
          91, 93, 94, 95, 123, 125] := by
  decide

theorem customBase85_length : customBase85.length = 85 := by
  rw [← length_map Char.toNat, customBase85_codes]
  rfl

theorem customBase85_nodup : customBase85.Nodup := by
  apply List.Nodup.of_map Char.toNat
  rw [customBase85_codes]
  decide

theorem terminator_notMem : Char.ofNat 0 ∉ customBase85 := by
  intro hmem
  have hcode := mem_map_of_mem (f := Char.toNat) hmem
  rw [customBase85_codes] at hcode
  revert hcode
  decide

variable {digit : ℕ} (bytes : List UInt8) (outputStringBase85 : ℕ)

theorem charOf_eq (hlt : digit < customBase85.length) :
    charOf digit = customBase85[digit] := by
  rw [charOf, getD_eq_getElem?_getD, getElem?_eq_getElem hlt, Option.getD_some]

theorem charOf_mem (hdigit : digit < 85) : charOf digit ∈ customBase85 := by
  have hlt : digit < customBase85.length := by
    rw [customBase85_length]
    exact hdigit
  rw [charOf_eq hlt]
  exact getElem_mem hlt

@[simp]
theorem pos_charOf (hdigit : digit < 85) : pos (charOf digit) - 1 = digit := by
  have hlt : digit < customBase85.length := by
    rw [customBase85_length]
    exact hdigit
  rw [pos, if_pos (charOf_mem hdigit), charOf_eq hlt,
    customBase85_nodup.idxOf_getElem digit hlt]
  ring

theorem dword_of_lt {value : ℕ} (hlt : value < 2 ^ 32) :
    dword value = value := by
  unfold dword
  omega

theorem tuple_eq (b0 b1 b2 b3 : UInt8) :
    tuple b0 b1 b2 b3 = b0.toNat * 2 ^ 24 + b1.toNat * 2 ^ 16 +
      b2.toNat * 2 ^ 8 + b3.toNat := by
  have h1 := b1.toNat_lt
  have h2 := b2.toNat_lt
  have h3 := b3.toNat_lt
  have hlow : b2.toNat <<< 8 ||| b3.toNat = b2.toNat <<< 8 + b3.toNat :=
    (Nat.shiftLeft_add_eq_or_of_lt h3 _).symm
  have hmiddle : b1.toNat <<< 16 ||| (b2.toNat <<< 8 ||| b3.toNat) =
      b1.toNat <<< 16 + (b2.toNat <<< 8 + b3.toNat) := by
    rw [hlow, ← Nat.shiftLeft_add_eq_or_of_lt]
    rw [Nat.shiftLeft_eq]
    omega
  rw [tuple, Nat.or_assoc, Nat.or_assoc, hmiddle,
    ← Nat.shiftLeft_add_eq_or_of_lt]
  · simp only [Nat.shiftLeft_eq]
    omega
  · simp only [Nat.shiftLeft_eq]
    omega

theorem tuple_lt (b0 b1 b2 b3 : UInt8) : tuple b0 b1 b2 b3 < 2 ^ 32 := by
  have h0 := b0.toNat_lt
  have h1 := b1.toNat_lt
  have h2 := b2.toNat_lt
  have h3 := b3.toNat_lt
  rw [tuple_eq]
  omega

theorem byteOf_eq (a shift : ℕ) :
    byteOf a shift = UInt8.ofNat (a / 2 ^ shift % 256) := by
  unfold byteOf
  rw [Nat.shiftRight_eq_div_pow]
  congr 1
  exact Nat.and_two_pow_sub_one_eq_mod _ 8

theorem byteOf_of_eq {a shift : ℕ} {b : UInt8}
    (hvalue : a / 2 ^ shift % 256 = b.toNat) : byteOf a shift = b := by
  rw [byteOf_eq, hvalue, UInt8.ofNat_toNat]

/-- One more digit: a `dword` that has the digits of `value / 85`, and then
those of `value`. -/
theorem dword_add_digit (value place : ℕ) (hlt : value * place < 2 ^ 32) :
    dword (((value / 85 * (85 * place) : ℕ) : ℤ) +
      ((value % 85 * place : ℕ) : ℤ)) = value * place := by
  have hvalue : value / 85 * (85 * place) + value % 85 * place =
      value * place := by
    rw [← Nat.mul_assoc, ← Nat.add_mul, Nat.div_add_mod']
  rw [← Nat.cast_add, hvalue, dword_of_lt hlt]

theorem pos_charOf_mod (value : ℕ) :
    pos (charOf (value % 85)) - 1 = ((value % 85 : ℕ) : ℤ) :=
  pos_charOf (Nat.mod_lt value (by norm_num))

theorem div_mul_lt {a : ℕ} (hlt : a < 2 ^ 32) (place : ℕ) :
    a / place * place < 2 ^ 32 :=
  (Nat.div_mul_le_self a place).trans_lt hlt

variable {a : ℕ}

theorem join2_groupOf (hlt : a < 2 ^ 32) :
    join2 (charOf (a / 85 / 85 / 85 / 85 % 85))
        (charOf (a / 85 / 85 / 85 % 85)) = a / 85 / 85 / 85 * 614125 := by
  have hthird : a / 85 / 85 / 85 = a / 614125 := by
    rw [Nat.div_div_eq_div_mul, Nat.div_div_eq_div_mul]
  have hfourth : a / 85 / 85 / 85 / 85 = a / 52200625 := by
    rw [hthird, Nat.div_div_eq_div_mul]
  have hdigit : a / 52200625 % 85 = a / 52200625 :=
    Nat.mod_eq_of_lt (by omega)
  have hfirst : dword ((a / 52200625 : ℕ) * 85 * 85 * 85 * 85) =
      a / 52200625 * 52200625 := by
    rw [← dword_of_lt (div_mul_lt hlt 52200625)]
    congr 1
    push_cast
    ring
  unfold join2
  rw [pos_charOf_mod, pos_charOf_mod, hfourth, hdigit, hfirst]
  have hdiv : a / 52200625 = a / 85 / 85 / 85 / 85 := hfourth.symm
  have hroom : a / 85 / 85 / 85 * 614125 < 2 ^ 32 := by
    rw [hthird]
    exact div_mul_lt hlt _
  rw [hdiv, ← dword_add_digit _ _ hroom]
  congr 1
  push_cast
  ring

theorem join3_groupOf (hlt : a < 2 ^ 32) :
    join3 (charOf (a / 85 / 85 / 85 / 85 % 85))
        (charOf (a / 85 / 85 / 85 % 85)) (charOf (a / 85 / 85 % 85)) =
      a / 85 / 85 * 7225 := by
  have hroom : a / 85 / 85 * 7225 < 2 ^ 32 := by
    rw [Nat.div_div_eq_div_mul]
    exact div_mul_lt hlt _
  unfold join3
  rw [join2_groupOf hlt, pos_charOf_mod, ← dword_add_digit _ _ hroom]
  congr 1
  push_cast
  ring

theorem join4_groupOf (hlt : a < 2 ^ 32) :
    join4 (charOf (a / 85 / 85 / 85 / 85 % 85))
        (charOf (a / 85 / 85 / 85 % 85)) (charOf (a / 85 / 85 % 85))
        (charOf (a / 85 % 85)) = a / 85 * 85 := by
  unfold join4
  rw [join3_groupOf hlt, pos_charOf_mod,
    ← dword_add_digit _ _ (div_mul_lt hlt 85)]
  congr 1

theorem join5_groupOf (hlt : a < 2 ^ 32) :
    join5 (charOf (a / 85 / 85 / 85 / 85 % 85))
        (charOf (a / 85 / 85 / 85 % 85)) (charOf (a / 85 / 85 % 85))
        (charOf (a / 85 % 85)) (charOf (a % 85)) = a := by
  have hroom : a * 1 < 2 ^ 32 := by
    rw [Nat.mul_one]
    exact hlt
  have hlast := dword_add_digit a 1 hroom
  rw [Nat.mul_one, Nat.mul_one, Nat.mul_one] at hlast
  unfold join5
  rw [join4_groupOf hlt, pos_charOf_mod]
  exact hlast

theorem filled_div {place shift : ℕ} (hpos : 0 < place)
    (hplace : place ≤ 2 ^ shift) (hzero : 2 ^ shift ∣ a) :
    (a / place * place + (place - 1)) / 2 ^ shift = a / 2 ^ shift := by
  have hdigits := Nat.div_add_mod' a place
  have hrest := Nat.mod_lt a hpos
  obtain ⟨quotient, rfl⟩ := hzero
  have hcomm : quotient * 2 ^ shift = 2 ^ shift * quotient :=
    Nat.mul_comm _ _
  rw [Nat.mul_div_cancel_left _ (Nat.two_pow_pos shift)]
  apply Nat.div_eq_of_lt_le
  · omega
  · rw [Nat.add_one_mul]
    omega

theorem byteOf_filled (place shift : ℕ) (hlt : a < 2 ^ 32) (hpos : 0 < place)
    (hplace : place ≤ 2 ^ shift) (hzero : 2 ^ shift ∣ a)
    (hshift : shift ≤ 32) {byteShift : ℕ} (hbyte : shift ≤ byteShift) :
    byteOf (dword (((a / place * place : ℕ) : ℤ) +
      ((place - 1 : ℕ) : ℤ))) byteShift = byteOf a byteShift := by
  have hdiv := filled_div hpos hplace hzero
  have hfilled : a / place * place + (place - 1) < 2 ^ 32 := by
    have hpow : 2 ^ 32 = 2 ^ (32 - shift) * 2 ^ shift := by
      rw [← pow_add, Nat.sub_add_cancel hshift]
    rw [hpow] at hlt ⊢
    rw [← Nat.div_lt_iff_lt_mul (Nat.two_pow_pos shift), hdiv,
      Nat.div_lt_iff_lt_mul (Nat.two_pow_pos shift)]
    exact hlt
  have hsplit : 2 ^ byteShift = 2 ^ shift * 2 ^ (byteShift - shift) := by
    rw [← pow_add, Nat.add_sub_cancel' hbyte]
  rw [← Nat.cast_add, dword_of_lt hfilled, byteOf_eq, byteOf_eq, hsplit,
    ← Nat.div_div_eq_div_mul, hdiv, Nat.div_div_eq_div_mul]

theorem byteOf_tuple (b0 b1 b2 b3 : UInt8) :
    byteOf (tuple b0 b1 b2 b3) 24 = b0 ∧ byteOf (tuple b0 b1 b2 b3) 16 = b1 ∧
      byteOf (tuple b0 b1 b2 b3) 8 = b2 ∧
      byteOf (tuple b0 b1 b2 b3) 0 = b3 := by
  have h0 := b0.toNat_lt
  have h1 := b1.toNat_lt
  have h2 := b2.toNat_lt
  have h3 := b3.toNat_lt
  have hvalue := tuple_eq b0 b1 b2 b3
  refine ⟨?_, ?_, ?_, ?_⟩ <;> apply byteOf_of_eq <;> omega

def textOf : List UInt8 → List Char
  | b0 :: b1 :: b2 :: b3 :: rest =>
    groupOf (tuple b0 b1 b2 b3) ++ textOf rest
  | [b0, b1, b2] => (groupOf (tuple b0 b1 b2 0)).take 4
  | [b0, b1] => (groupOf (tuple b0 b1 0 0)).take 3
  | [b0] => (groupOf (tuple b0 0 0 0)).take 2
  | [] => []

theorem Base85ToBin_textOf : Base85ToBin (textOf bytes) = bytes := by
  induction bytes using textOf.induct with
  | case1 b0 b1 b2 b3 rest ih =>
    obtain ⟨h0, h1, h2, h3⟩ := byteOf_tuple b0 b1 b2 b3
    have hjoin := join5_groupOf (tuple_lt b0 b1 b2 b3)
    rw [textOf, groupOf]
    simp only [cons_append, nil_append, Base85ToBin]
    rw [hjoin, h0, h1, h2, h3, ih]
  | case2 b0 b1 b2 =>
    have hlt := tuple_lt b0 b1 b2 0
    obtain ⟨h0, h1, h2, _⟩ := byteOf_tuple b0 b1 b2 0
    have hzero : 2 ^ 8 ∣ tuple b0 b1 b2 0 := by
      rw [tuple_eq, UInt8.toNat_zero]
      omega
    rw [textOf, groupOf]
    simp only [List.take, Base85ToBin]
    rw [join4_groupOf hlt]
    have hfilled : ∀ byteShift, 8 ≤ byteShift →
        byteOf (dword (((tuple b0 b1 b2 0 / 85 * 85 : ℕ) : ℤ) + 84))
          byteShift = byteOf (tuple b0 b1 b2 0) byteShift :=
      fun byteShift => byteOf_filled 85 8 hlt (by norm_num)
        (by norm_num) hzero (by norm_num)
    rw [hfilled 24 (by norm_num), hfilled 16 (by norm_num),
      hfilled 8 (by norm_num), h0, h1, h2]
  | case3 b0 b1 =>
    have hlt := tuple_lt b0 b1 0 0
    obtain ⟨h0, h1, _, _⟩ := byteOf_tuple b0 b1 0 0
    have hzero : 2 ^ 16 ∣ tuple b0 b1 0 0 := by
      rw [tuple_eq, UInt8.toNat_zero]
      omega
    rw [textOf, groupOf]
    simp only [List.take, Base85ToBin]
    rw [join3_groupOf hlt, Nat.div_div_eq_div_mul, add_assoc]
    have hfilled : ∀ byteShift, 16 ≤ byteShift →
        byteOf (dword (((tuple b0 b1 0 0 / 7225 * 7225 : ℕ) : ℤ) +
          (84 * 85 + 84))) byteShift = byteOf (tuple b0 b1 0 0) byteShift :=
      fun byteShift => byteOf_filled 7225 16 hlt (by norm_num)
        (by norm_num) hzero (by norm_num)
    rw [hfilled 24 (by norm_num), hfilled 16 (by norm_num), h0, h1]
  | case4 b0 =>
    have hlt := tuple_lt b0 0 0 0
    obtain ⟨h0, _, _, _⟩ := byteOf_tuple b0 0 0 0
    have hzero : 2 ^ 24 ∣ tuple b0 0 0 0 := by
      rw [tuple_eq, UInt8.toNat_zero]
      omega
    rw [textOf, groupOf]
    simp only [List.take, Base85ToBin]
    rw [join2_groupOf hlt, Nat.div_div_eq_div_mul,
      Nat.div_div_eq_div_mul, add_assoc, add_assoc]
    have hfilled : byteOf (dword (((tuple b0 0 0 0 / 614125 * 614125 : ℕ) :
        ℤ) + (84 * 85 * 85 + (84 * 85 + 84)))) 24 =
          byteOf (tuple b0 0 0 0) 24 :=
      byteOf_filled 614125 24 hlt (by norm_num) (by norm_num) hzero
        (by norm_num) (le_refl _)
    rw [hfilled, h0]
  | case5 => rfl

/-! ## The text in the buffer -/

def charsOf : List UInt8 → List Char
  | b0 :: b1 :: b2 :: b3 :: rest =>
    groupOf (tuple b0 b1 b2 b3) ++ charsOf rest
  | [b0, b1, b2] => groupOf (tuple b0 b1 b2 0)
  | [b0, b1] => groupOf (tuple b0 b1 0 0)
  | [b0] => groupOf (tuple b0 0 0 0)
  | [] => []

@[simp]
theorem length_groupOf (a : ℕ) : (groupOf a).length = 5 :=
  rfl

theorem mem_groupOf {a : ℕ} {c : Char} (hmem : c ∈ groupOf a) :
    c ∈ customBase85 := by
  have hdigit : ∀ value : ℕ, charOf (value % 85) ∈ customBase85 :=
    fun value => charOf_mem (Nat.mod_lt value (by norm_num))
  simp only [groupOf, mem_cons, not_mem_nil, or_false] at hmem
  rcases hmem with hc | hc | hc | hc | hc <;> rw [hc] <;> exact hdigit _

theorem length_charsOf :
    (charsOf bytes).length = (bytes.length + 3) / 4 * 5 := by
  induction bytes using charsOf.induct with
  | case1 b0 b1 b2 b3 rest ih =>
    rw [charsOf, length_append, length_groupOf, ih]
    simp only [length_cons]
    omega
  | case2 b0 b1 b2 => simp [charsOf]
  | case3 b0 b1 => simp [charsOf]
  | case4 b0 => simp [charsOf]
  | case5 => rfl

theorem take_charsOf :
    (charsOf bytes).take ((charsOf bytes).length -
      (4 - bytes.length % 4) % 4) = textOf bytes := by
  induction bytes using charsOf.induct with
  | case1 b0 b1 b2 b3 rest ih =>
    have hsame : (b0 :: b1 :: b2 :: b3 :: rest).length % 4 =
        rest.length % 4 := by
      simp only [length_cons]
      omega
    have hroom : (4 - rest.length % 4) % 4 ≤ (charsOf rest).length := by
      rw [length_charsOf]
      omega
    rw [hsame, charsOf, textOf, length_append, length_groupOf,
      Nat.add_sub_assoc hroom, take_append, length_groupOf,
      Nat.add_sub_cancel_left, ih]
    congr 1
    apply take_of_length_le
    rw [length_groupOf]
    omega
  | case2 b0 b1 b2 => rfl
  | case3 b0 b1 => rfl
  | case4 b0 => rfl
  | case5 => rfl

theorem writeAll_append (writes more : List (ℕ × List Char))
    (memory : ℕ → Char) :
    writeAll (writes ++ more) memory =
      writeAll more (writeAll writes memory) :=
  foldl_append

theorem encodeLoop_end :
    (encodeLoop bytes outputStringBase85).2 =
      outputStringBase85 + (charsOf bytes).length := by
  induction bytes, outputStringBase85 using encodeLoop.induct with
  | case1 outputStringBase85 b0 b1 b2 b3 rest ih =>
    rw [encodeLoop, charsOf, length_append, length_groupOf, ih]
    omega
  | case2 outputStringBase85 b0 b1 b2 => rfl
  | case3 outputStringBase85 b0 b1 => rfl
  | case4 outputStringBase85 b0 => rfl
  | case5 outputStringBase85 => rfl

theorem encodeLoop_writeAll (memory : ℕ → Char) :
    writeAll (encodeLoop bytes outputStringBase85).1 memory =
      store memory outputStringBase85 (charsOf bytes) := by
  induction bytes, outputStringBase85 using encodeLoop.induct
    generalizing memory with
  | case1 outputStringBase85 b0 b1 b2 b3 rest ih =>
    rw [encodeLoop, charsOf, ← store_append]
    exact ih _
  | case2 outputStringBase85 b0 b1 b2 => rfl
  | case3 outputStringBase85 b0 b1 => rfl
  | case4 outputStringBase85 b0 => rfl
  | case5 outputStringBase85 =>
    funext address
    simp [encodeLoop, writeAll, charsOf, store]

theorem encodeLoop_mem :
    ∀ write ∈ (encodeLoop bytes outputStringBase85).1,
      write.1 + write.2.length ≤ outputStringBase85 + (charsOf bytes).length ∧
      ∀ c ∈ write.2, c ∈ customBase85 := by
  induction bytes, outputStringBase85 using encodeLoop.induct with
  | case1 outputStringBase85 b0 b1 b2 b3 rest ih =>
    intro write hmem
    rw [charsOf, length_append, length_groupOf]
    rcases mem_cons.mp hmem with hfirst | hlater
    · rw [hfirst]
      refine ⟨?_, fun c hc => mem_groupOf hc⟩
      dsimp only
      rw [length_groupOf]
      omega
    · obtain ⟨hend, hchars⟩ := ih write hlater
      exact ⟨by omega, hchars⟩
  | case2 outputStringBase85 b0 b1 b2 =>
    intro write hmem
    rw [mem_singleton.mp hmem]
    exact ⟨le_refl _, fun c hc => mem_groupOf hc⟩
  | case3 outputStringBase85 b0 b1 =>
    intro write hmem
    rw [mem_singleton.mp hmem]
    exact ⟨le_refl _, fun c hc => mem_groupOf hc⟩
  | case4 outputStringBase85 b0 =>
    intro write hmem
    rw [mem_singleton.mp hmem]
    exact ⟨le_refl _, fun c hc => mem_groupOf hc⟩
  | case5 outputStringBase85 =>
    intro write hmem
    exact absurd hmem not_mem_nil

theorem textOf_mem {bytes : List UInt8} {c : Char}
    (hmem : c ∈ textOf bytes) : c ∈ customBase85 := by
  induction bytes using textOf.induct with
  | case1 b0 b1 b2 b3 rest ih =>
    rw [textOf] at hmem
    rcases mem_append.mp hmem with hgroup | hrest
    · exact mem_groupOf hgroup
    · exact ih hrest
  | case2 b0 b1 b2 => exact mem_groupOf (mem_of_mem_take hmem)
  | case3 b0 b1 => exact mem_groupOf (mem_of_mem_take hmem)
  | case4 b0 => exact mem_groupOf (mem_of_mem_take hmem)
  | case5 => exact absurd hmem not_mem_nil

theorem stringIn_writeAll (memory : ℕ → Char) :
    stringIn (writeAll (BinToBase85 bytes) memory)
      (outputSize bytes.length) = textOf bytes := by
  have hlength := length_charsOf bytes
  set cut := (charsOf bytes).length - (4 - bytes.length % 4) % 4 with hcut
  have hle : cut ≤ (charsOf bytes).length := Nat.sub_le _ _
  have hmemory : writeAll (BinToBase85 bytes) memory =
      store (store memory 0 (charsOf bytes)) cut [Char.ofNat 0] := by
    unfold BinToBase85
    dsimp only
    rw [writeAll_append, encodeLoop_writeAll, encodeLoop_end, Nat.zero_add]
    rfl
  have hsize : outputSize bytes.length =
      cut + (1 + (outputSize bytes.length - cut - 1)) := by
    unfold outputSize
    omega
  have htext : load (store (store memory 0 (charsOf bytes)) cut
      [Char.ofNat 0]) 0 cut = textOf bytes := by
    rw [← take_charsOf, ← hcut, ← load_store_take memory 0 hle]
    apply load_congr
    intro index hindex
    apply store_of_not_covers
    unfold Covers
    omega
  have hend : load (store (store memory 0 (charsOf bytes)) cut
      [Char.ofNat 0]) (0 + cut) 1 = [Char.ofNat 0] := by
    rw [Nat.zero_add]
    exact load_store_take _ _ (le_refl 1)
  unfold stringIn
  rw [hmemory, hsize, load_add, load_add, htext, hend, takeWhile_append_of_pos]
  · simp
  · intro c hc
    have hne : c ≠ Char.ofNat 0 := by
      rintro rfl
      exact terminator_notMem (textOf_mem hc)
    simpa using hne

theorem length_textOf :
    (textOf bytes).length =
      (bytes.length + 3) / 4 * 5 - (4 - bytes.length % 4) % 4 := by
  rw [← take_charsOf, length_take, length_charsOf]
  omega

theorem binarySize_length (size : ℕ) :
    binarySize ((size + 3) / 4 * 5 - (4 - size % 4) % 4) = size := by
  have hsplit := Nat.div_add_mod size 4
  have hrest : size % 4 = 0 ∨ size % 4 = 1 ∨ size % 4 = 2 ∨
      size % 4 = 3 := by
    omega
  unfold binarySize
  rcases hrest with hrest | hrest | hrest | hrest
  · have hgroups : (size + 3) / 4 = size / 4 := by omega
    rw [hrest, hgroups, if_neg (by omega)]
    omega
  · have hgroups : (size + 3) / 4 = size / 4 + 1 := by omega
    rw [hrest, hgroups, if_pos (by omega)]
    omega
  · have hgroups : (size + 3) / 4 = size / 4 + 1 := by omega
    rw [hrest, hgroups, if_pos (by omega)]
    omega
  · have hgroups : (size + 3) / 4 = size / 4 + 1 := by omega
    rw [hrest, hgroups, if_pos (by omega)]
    omega

end CheatEngine.Base85
