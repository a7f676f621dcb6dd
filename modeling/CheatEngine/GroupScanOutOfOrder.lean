import CheatEngine.GroupScan

/-!
# The offsets of a group scan out of order

`compareblock_outoforder` gives each element the lowest offset at which it
matches and that no earlier element has.  It does not look back: when an
element finds nothing left, another choice for the earlier ones is not tried.
-/

namespace CheatEngine
namespace GroupScan

open List

namespace Element

def MatchesAt (element : Element) (group : Group) (memory : Memory)
    (address : ℤ) : Prop :=
  match element.vartype with
  | .vtByte => readNumber memory address 1 = element.valuei % 2 ^ 8
  | .vtWord => readNumber memory address 2 = element.valuei % 2 ^ 16
  | .vtDWord => readNumber memory address 4 = element.valuei % 2 ^ 32
  | .vtQWord => readNumber memory address 8 = element.valuei % 2 ^ 64
  | .vtSingle => element.accepts (bytesAt memory address 4) = true ∧
      group.farSingle (bytesAt memory address 4) = false
  | .vtDouble => element.accepts (bytesAt memory address 8) = true ∧
      group.farDouble (bytesAt memory address 8) = false
  | .vtString => ∀ index : ℕ, ∀ hindex : index < element.value.length,
      upperCase (memory (address + index)) = element.value[index]
  | .vtUnicodeString => ∀ index : ℕ,
      ∀ hindex : index < element.widevalue.length,
        wideChar memory (address + 2 * index) = element.widevalue[index]
  | .vtCustom =>
    element.accepts (bytesAt memory address element.bytesize.toNat) = true

/-- The alignment of the type.  Values of eight bytes and custom types are
aligned to four. -/
def alignment (element : Element) (group : Group) : ℕ :=
  match element.vartype with
  | .vtByte | .vtString | .vtUnicodeString => 1
  | .vtWord => group.align 2
  | _ => group.align 4

/-- The element matches at the offset and lies inside of the block. -/
def Candidate (element : Element) (group : Group) (memory : Memory)
    (buf : ℤ) (offset : ℕ) : Prop :=
  offset % element.alignment group = 0 ∧ offset < group.blocksize ∧
    offset + element.reads ≤ group.blocksize ∧
    element.MatchesAt group memory (buf + offset)

end Element

namespace Group

variable (group : Group) (memory : Memory) (buf : ℤ)

/-- Each element has the lowest offset at which it matches and that no earlier
element has. -/
def FirstFit : List Element → List ℕ → List ℕ → Prop
  | [], _, offsets => offsets = []
  | element :: rest, taken, offsets => ∃ offset later,
      offsets = offset :: later ∧
      element.Candidate group memory buf offset ∧ offset ∉ taken ∧
      (∀ lower < offset, element.Candidate group memory buf lower →
        lower ∈ taken) ∧
      FirstFit rest (taken ++ [offset]) later

/-- All elements match at different offsets, one of them at the start. -/
def Placement (offsets : List ℕ) : Prop :=
  List.Forall₂ (fun element offset => element.Candidate group memory buf
    offset) group.elements offsets ∧ offsets.Nodup ∧ 0 ∈ offsets

def SeparateOrEqual (element other : Element) : Prop :=
  (∀ offset, element.Candidate group memory buf offset ↔
    other.Candidate group memory buf offset) ∨
  ∀ offset, ¬ (element.Candidate group memory buf offset ∧
    other.Candidate group memory buf offset)

/-- No string matches over the end of the block, and no custom type in its
last two offsets, which the scan leaves out. -/
def EndsClear : Prop :=
  ∀ element ∈ group.elements,
    match element.vartype with
    | .vtString | .vtUnicodeString => ∀ offset < group.blocksize,
        element.MatchesAt group memory (buf + offset) →
          offset + element.reads ≤ group.blocksize
    | .vtCustom => 0 < element.bytesize ∧ ∀ offset < group.blocksize,
        element.MatchesAt group memory (buf + offset) →
          offset + element.reads ≤ group.blocksize →
            offset + element.reads + 2 ≤ group.blocksize
    | _ => True

/-- Only strings follow a string, or what the tests read has no lower case
letters. -/
def CaseClear (elements : List Element) : Prop :=
  (elements.Pairwise (fun element other =>
      element.vartype = .vtString → other.vartype = .vtString) ∧
    ∀ element ∈ elements, element.vartype ≠ .vtUnicodeString) ∨
  ∀ element ∈ elements, ∀ offset : ℕ,
    offset < group.blocksize + element.reads →
      upperCase (memory (buf + offset)) = memory (buf + offset)

end Group

/-! ## The lowest offset -/

/-- The first number from `start` on with the property, if there is one. -/
def NextOf (Candidate : ℕ → Prop) (start : ℕ) : Option ℕ → Prop
  | none => ∀ j, start ≤ j → ¬ Candidate j
  | some o => start ≤ o ∧ Candidate o ∧ ∀ j, start ≤ j → j < o → ¬ Candidate j

theorem scan_next {Known : Memory → Prop} {Matches : ℕ → Prop}
    {test : Memory → ℕ → Memory × Bool} {bound align : ℕ}
    (htest : ∀ memory i, Known memory → i < bound →
      ((test memory i).2 = true ↔ Matches i) ∧ Known (test memory i).1)
    (halign : 0 < align) {fuel start : ℕ} (hfuel : bound ≤ start + fuel)
    {memory : Memory} (hknown : Known memory) :
    Known (scan test bound align fuel memory start).1 ∧
      NextOf (fun j => j % align = start % align ∧ j < bound ∧ Matches j) start
        (scan test bound align fuel memory start).2 := by
  induction fuel generalizing start memory with
  | zero => exact ⟨hknown, fun j hj ⟨_, hlt, _⟩ => by omega⟩
  | succ fuel ih =>
    rw [scan]
    split
    · rename_i hlt
      obtain ⟨hdecides, hafter⟩ := htest memory start hknown hlt
      generalize test memory start = outcome at hdecides hafter ⊢
      obtain ⟨after, result⟩ := outcome
      dsimp only at hdecides hafter
      cases result with
      | true =>
        exact ⟨hafter, le_rfl, ⟨rfl, hlt, hdecides.mp rfl⟩,
          fun j hj hless => absurd hj hless.not_ge⟩
      | false =>
        have hnot : ¬ Matches start := fun hmatch =>
          absurd (hdecides.mpr hmatch) (by decide)
        have hskip : ∀ j, start ≤ j → j % align = start % align →
            Matches j → start + align ≤ j := by
          intro j hj hmod hmatch
          have hne : j ≠ start := by
            rintro rfl
            exact hnot hmatch
          by_contra hless
          have hsub : (j - start) % align = 0 :=
            Nat.sub_mod_eq_zero_of_mod_eq hmod
          rw [Nat.mod_eq_of_lt (by omega)] at hsub
          omega
        obtain ⟨hlast, hnext⟩ := @ih (start + align) (by omega) after hafter
        refine ⟨hlast, ?_⟩
        dsimp only
        generalize (scan test bound align fuel after (start + align)).2 =
          found at hnext ⊢
        have hmod : (start + align) % align = start % align :=
          Nat.add_mod_right _ _
        cases found with
        | none =>
          intro j hj hcandidate
          refine hnext j (hskip j hj hcandidate.1 hcandidate.2.2) ?_
          rw [hmod]
          exact hcandidate
        | some o =>
          obtain ⟨hle, hcandidate, hfirst⟩ := hnext
          rw [hmod] at hcandidate
          refine ⟨by omega, hcandidate, fun j hj hless hother => ?_⟩
          refine hfirst j (hskip j hj hother.1 hother.2.2) hless ?_
          rw [hmod]
          exact hother
    · rename_i hge
      exact ⟨hknown, fun j hj ⟨_, hlt, _⟩ => by omega⟩

theorem NextOf.congr {First Second : ℕ → Prop} {start : ℕ} {found : Option ℕ}
    (hnext : NextOf First start found)
    (hiff : ∀ j, start ≤ j → (First j ↔ Second j)) :
    NextOf Second start found := by
  cases found with
  | none => exact fun j hj hsecond => hnext j hj ((hiff j hj).mpr hsecond)
  | some o =>
    obtain ⟨hle, hcandidate, hfirst⟩ := hnext
    exact ⟨hle, (hiff o hle).mp hcandidate, fun j hj hless hsecond =>
      hfirst j hj hless ((hiff j hj).mpr hsecond)⟩

theorem NextOf.of_aligned {Candidate : ℕ → Prop} {size start aligned : ℕ}
    {found : Option ℕ} (hle : start ≤ aligned)
    (hskip : ∀ j, start ≤ j → j < aligned → j % size ≠ 0)
    (hmod : ∀ j, Candidate j → j % size = 0)
    (hnext : NextOf Candidate aligned found) :
    NextOf Candidate start found := by
  have hafter : ∀ j, start ≤ j → Candidate j → aligned ≤ j := by
    intro j hj hcandidate
    by_contra hless
    exact hskip j hj (by omega) (hmod j hcandidate)
  cases found with
  | none =>
    exact fun j hj hcandidate =>
      hnext j (hafter j hj hcandidate) hcandidate
  | some o =>
    obtain ⟨hge, hcandidate, hfirst⟩ := hnext
    exact ⟨hle.trans hge, hcandidate, fun j hj hless hother =>
      hfirst j (hafter j hj hother) hless hother⟩

section

variable {group : Group} {element : Element} {memory current : Memory}
  {buf : ℤ}

theorem Group.align_pos (group : Group) {size : ℕ} (hsize : 0 < size) :
    0 < group.align size := by
  unfold Group.align
  split <;> omega

theorem Group.alignOffset_spec (group : Group) {size start : ℕ}
    (hsize : 0 < size) :
    start ≤ group.alignOffset size start ∧
      group.alignOffset size start % group.align size = 0 ∧
      ∀ j, start ≤ j → j < group.alignOffset size start →
        j % group.align size ≠ 0 := by
  unfold Group.alignOffset Group.align
  split
  · have hdiv := Nat.div_add_mod (start + (size - 1)) size
    have hlt := Nat.mod_lt (start + (size - 1)) hsize
    rw [Nat.mul_comm] at hdiv
    refine ⟨by omega, Nat.mul_mod_left _ _, fun j hj hless hmod => ?_⟩
    obtain ⟨c, rfl⟩ := Nat.dvd_of_mod_eq_zero hmod
    rw [Nat.mul_comm (_ / _)] at hless
    have hc : c < (start + (size - 1)) / size :=
      Nat.lt_of_mul_lt_mul_left hless
    have hstep : size * (c + 1) ≤ (start + (size - 1)) / size * size := by
      rw [Nat.mul_comm]
      exact Nat.mul_le_mul_right size hc
    rw [Nat.mul_succ] at hstep
    omega
  · refine ⟨le_rfl, Nat.mod_one _, fun j hj hless => by omega⟩

/-- What is known of the buffer when the element is looked for. -/
structure Known (group : Group) (element : Element) (memory : Memory)
    (buf : ℤ) (current : Memory) : Prop where
  raised : Raised memory current
  same : element.vartype ≠ .vtString → ∀ offset : ℕ,
    offset < group.blocksize + element.reads →
      current (buf + offset) = memory (buf + offset)

theorem Known.valueScan (hknown : Known group element memory buf current)
    (hvar : element.vartype ≠ .vtString) {accepts : List UInt8 → Bool}
    {count bound size start : ℕ} (hsize : 0 < size)
    (hbound : bound ≤ group.blocksize) (hcount : count ≤ element.reads)
    (hiff : ∀ j, j % group.align size = 0 ∧ j < bound ∧
        accepts (bytesAt memory (buf + j) count) = true ↔
      element.Candidate group memory buf j) :
    Known group element memory buf (group.valueScan current buf
        (group.alignOffset size start) accepts count bound
        (group.align size)).1 ∧
      NextOf (element.Candidate group memory buf) start
        (group.valueScan current buf (group.alignOffset size start) accepts
          count bound (group.align size)).2 := by
  obtain ⟨hle, hmod, hskip⟩ := @Group.alignOffset_spec group size start hsize
  unfold Group.valueScan
  obtain ⟨hafter, hnext⟩ := @scan_next (Known group element memory buf)
    (fun j => accepts (bytesAt memory (buf + j) count) = true)
    (fun memory i => (memory, accepts (bytesAt memory (buf + i) count)))
    bound (group.align size) (by
      intro current i hcurrent hlt
      refine ⟨?_, hcurrent⟩
      have hbytes : bytesAt current (buf + i) count =
          bytesAt memory (buf + i) count := by
        refine map_congr_left fun index hindex => ?_
        have hless := mem_range.mp hindex
        have hsame := hcurrent.same hvar (i + index) (by omega)
        push_cast at hsame
        rw [← Int.add_assoc] at hsame
        exact hsame
      rw [hbytes]) (group.align_pos hsize) (group.blocksize + 1)
    (group.alignOffset size start) (by omega) current hknown
  rw [hmod] at hnext
  exact ⟨hafter, (hnext.of_aligned hle hskip fun j hcandidate =>
    hcandidate.1).congr fun j _ => hiff j⟩

theorem Known.string (hknown : Known group element memory buf current)
    (hvar : element.vartype = .vtString) (start : ℕ) :
    Known group element memory buf
        (group.StringScan element current buf start).1 ∧
      NextOf (fun j => j < group.blocksize ∧
          element.MatchesAt group memory (buf + j)) start
        (group.StringScan element current buf start).2 := by
  obtain ⟨hafter, hnext⟩ := @scan_next (Known group element memory buf)
    (fun j => element.MatchesAt group memory (buf + j))
    (fun memory i => testString memory (buf + i) element.value)
    group.blocksize 1 (by
      intro current i hcurrent hlt
      have hraised := testString_raised current (buf + i) element.value
      refine ⟨?_, hcurrent.raised.trans hraised, fun hother =>
        absurd hvar hother⟩
      unfold Element.MatchesAt
      rw [hvar, testString_iff]
      simp only [hcurrent.raised.upperCase_eq]) Nat.one_pos
    (group.blocksize + 1) start (by omega) current hknown
  refine ⟨hafter, hnext.congr fun j _ => ?_⟩
  rw [Nat.mod_one, Nat.mod_one]
  exact and_iff_right rfl

theorem Known.wideString (hknown : Known group element memory buf current)
    (hvar : element.vartype = .vtUnicodeString)
    (hcase : ∀ offset : ℕ, offset < group.blocksize + element.reads →
      upperCase (memory (buf + offset)) = memory (buf + offset)) (start : ℕ) :
    Known group element memory buf
        (group.WideStringScan element current buf start).1 ∧
      NextOf (fun j => j < group.blocksize ∧
          element.MatchesAt group memory (buf + j)) start
        (group.WideStringScan element current buf start).2 := by
  have hreads : element.reads = 2 * element.widevalue.length := by
    unfold Element.reads
    rw [hvar]
  obtain ⟨hafter, hnext⟩ := @scan_next (Known group element memory buf)
    (fun j => element.MatchesAt group memory (buf + j))
    (fun memory i => testWideString memory (buf + i) element.widevalue)
    group.blocksize 1 (by
      intro current i hcurrent hlt
      have hraised := hcurrent.raised.trans
        (testWideString_raised current (buf + i) element.widevalue)
      refine ⟨?_, hraised, fun _ offset hoffset =>
        hraised.eq_of_upperCase_eq (hcase offset hoffset)⟩
      have hsame : ∀ offset : ℕ, offset < group.blocksize + element.reads →
          current (buf + offset) = memory (buf + offset) := fun offset hless =>
        hcurrent.raised.eq_of_upperCase_eq (hcase offset hless)
      have hchar : ∀ index : ℕ, index < element.widevalue.length →
          wideChar current (buf + i + 2 * index) =
            wideChar memory (buf + i + 2 * index) := by
        intro index hindex
        have hlow := hsame (i + 2 * index) (by omega)
        have hhigh := hsame (i + 2 * index + 1) (by omega)
        push_cast at hlow hhigh
        rw [← Int.add_assoc] at hlow
        rw [← Int.add_assoc, ← Int.add_assoc] at hhigh
        unfold wideChar
        rw [hlow, hhigh]
      unfold Element.MatchesAt
      rw [hvar, testWideString_iff]
      exact forall_congr' fun index => forall_congr' fun hindex => by
        rw [hchar index hindex]) Nat.one_pos
    (group.blocksize + 1) start (by omega) current hknown
  refine ⟨hafter, hnext.congr fun j _ => ?_⟩
  rw [Nat.mod_one, Nat.mod_one]
  exact and_iff_right rfl

theorem Group.alignOffset_one (group : Group) (start : ℕ) :
    group.alignOffset 1 start = start := by
  unfold Group.alignOffset
  split
  · rw [Nat.div_one, Nat.mul_one, Nat.sub_self, Nat.add_zero]
  · rfl

theorem Group.align_one (group : Group) : group.align 1 = 1 := by
  unfold Group.align
  split <;> rfl

theorem Known.nextOffset (hknown : Known group element memory buf current)
    (hmem : element ∈ group.elements) (hends : group.EndsClear memory buf)
    (hcase : element.vartype = .vtUnicodeString → ∀ offset : ℕ,
      offset < group.blocksize + element.reads →
        upperCase (memory (buf + offset)) = memory (buf + offset))
    (start : ℕ) :
    Known group element memory buf
        (group.nextOffset element current buf start).1 ∧
      NextOf (element.Candidate group memory buf) start
        (group.nextOffset element current buf start).2 := by
  have hend := hends element hmem
  unfold Group.nextOffset
  cases hvar : element.vartype with
  | vtByte =>
    have hscan := @Known.valueScan group element memory current buf hknown
      (by rw [hvar]; decide)
      (fun bytes => numberOf bytes == element.valuei % 2 ^ 8) 1
      group.blocksize 1 start Nat.one_pos le_rfl
      (by simp [Element.reads, hvar]) fun j => by
        simp only [Element.Candidate, Element.alignment, Element.reads,
          Element.MatchesAt, hvar, group.align_one, readNumber, beq_iff_eq]
        omega
    rw [group.alignOffset_one, group.align_one] at hscan
    exact hscan
  | vtWord =>
    refine hknown.valueScan (by rw [hvar]; decide) (by decide) (by omega)
      (by simp [Element.reads, hvar]) fun j => ?_
    simp only [Element.Candidate, Element.alignment, Element.reads,
      Element.MatchesAt, hvar, readNumber, beq_iff_eq]
    omega
  | vtDWord | vtQWord =>
    refine hknown.valueScan (by rw [hvar]; decide) (by decide) (by omega)
      (by simp [Element.reads, hvar]) fun j => ?_
    simp only [Element.Candidate, Element.alignment, Element.reads,
      Element.MatchesAt, hvar, readNumber, beq_iff_eq]
    omega
  | vtSingle | vtDouble =>
    refine hknown.valueScan (by rw [hvar]; decide) (by decide) (by omega)
      (by simp [Element.reads, hvar]) fun j => ?_
    simp only [Element.Candidate, Element.alignment, Element.reads,
      Element.MatchesAt, hvar, Bool.and_eq_true, Bool.not_eq_true']
    rw [← @and_assoc (j < group.blocksize)]
    refine and_congr_right fun _ => and_congr_left fun _ => ?_
    omega
  | vtCustom =>
    simp only [hvar] at hend
    obtain ⟨hpos, hinside⟩ := hend
    have hreads : element.reads = element.bytesize.toNat := by
      simp only [Element.reads, hvar]
    refine hknown.valueScan (by rw [hvar]; decide) (by decide) (by omega)
      hreads.ge fun j => ?_
    unfold Element.Candidate Element.alignment
    simp only [hvar]
    refine and_congr_right fun _ => ?_
    have hmatch : element.MatchesAt group memory (buf + j) ↔
        element.accepts (bytesAt memory (buf + j) element.bytesize.toNat) =
          true := by
      simp only [Element.MatchesAt, hvar]
    rw [← hmatch]
    constructor
    · rintro ⟨hlt, haccepts⟩
      exact ⟨by omega, by omega, haccepts⟩
    · rintro ⟨hlt, hle, haccepts⟩
      have hspace := hinside j hlt haccepts hle
      exact ⟨by omega, haccepts⟩
  | vtString =>
    simp only [hvar] at hend
    obtain ⟨hafter, hnext⟩ := hknown.string hvar start
    refine ⟨hafter, hnext.congr fun j _ => ?_⟩
    unfold Element.Candidate Element.alignment
    rw [hvar]
    dsimp only
    have hinside := hend j
    rw [Nat.mod_one]
    tauto
  | vtUnicodeString =>
    simp only [hvar] at hend
    obtain ⟨hafter, hnext⟩ := hknown.wideString hvar (hcase hvar) start
    refine ⟨hafter, hnext.congr fun j _ => ?_⟩
    unfold Element.Candidate Element.alignment
    rw [hvar]
    dsimp only
    have hinside := hend j
    rw [Nat.mod_one]
    tauto

theorem Known.freeOffset (hknown : Known group element memory buf current)
    (hmem : element ∈ group.elements) (hends : group.EndsClear memory buf)
    (hcase : element.vartype = .vtUnicodeString → ∀ offset : ℕ,
      offset < group.blocksize + element.reads →
        upperCase (memory (buf + offset)) = memory (buf + offset))
    (taken : List ℕ) {fuel start : ℕ}
    (hfuel : group.blocksize ≤ start + fuel) :
    Known group element memory buf
        (group.freeOffset element buf taken fuel current start).1 ∧
      NextOf (fun j => element.Candidate group memory buf j ∧ j ∉ taken) start
        (group.freeOffset element buf taken fuel current start).2 := by
  induction fuel generalizing start current with
  | zero => exact ⟨hknown, fun j hj ⟨⟨_, hlt, _⟩, _⟩ => by omega⟩
  | succ fuel ih =>
    obtain ⟨hafter, hnext⟩ := hknown.nextOffset hmem hends hcase start
    rw [Group.freeOffset]
    generalize group.nextOffset element current buf start = outcome
      at hafter hnext ⊢
    obtain ⟨after, found⟩ := outcome
    dsimp only at hafter hnext
    cases found with
    | none => exact ⟨hafter, fun j hj hfree => hnext j hj hfree.1⟩
    | some o =>
      obtain ⟨hle, hcandidate, hfirst⟩ := hnext
      dsimp only
      split
      · rename_i htaken
        have hlt := hcandidate.2.1
        obtain ⟨hlast, hlater⟩ := @ih after hafter (o + 1) (by omega)
        have hskip : ∀ j, start ≤ j →
            element.Candidate group memory buf j ∧ j ∉ taken →
              o + 1 ≤ j := by
          intro j hj hfree
          by_contra hless
          rcases Nat.lt_or_ge j o with hbefore | hge
          · exact hfirst j hj hbefore hfree.1
          · obtain rfl : j = o := by omega
            exact hfree.2 htaken
        refine ⟨hlast, ?_⟩
        generalize (group.freeOffset element buf taken fuel after
          (o + 1)).2 = result at hlater ⊢
        cases result with
        | none => exact fun j hj hfree => hlater j (hskip j hj hfree) hfree
        | some p =>
          obtain ⟨hp, hfree, hlow⟩ := hlater
          exact ⟨by omega, hfree, fun j hj hless hother =>
            hlow j (hskip j hj hother) hless hother⟩
      · rename_i hfree
        exact ⟨hafter, hle, ⟨hcandidate, hfree⟩, fun j hj hless hother =>
          hfirst j hj hless hother.1⟩

theorem scan_pure {test : Memory → ℕ → Memory × Bool}
    (htest : ∀ memory i, (test memory i).1 = memory)
    (bound align fuel : ℕ) (memory : Memory) (i : ℕ) :
    (scan test bound align fuel memory i).1 = memory := by
  induction fuel generalizing i with
  | zero => rfl
  | succ fuel ih =>
    have hfirst := htest memory i
    rw [scan]
    split
    · generalize test memory i = outcome at hfirst ⊢
      obtain ⟨after, result⟩ := outcome
      dsimp only at hfirst
      subst hfirst
      cases result with
      | true => rfl
      | false => exact ih _
    · rfl

theorem freeOffset_pure (hstring : element.vartype ≠ .vtString)
    (hwide : element.vartype ≠ .vtUnicodeString) (taken : List ℕ)
    (fuel start : ℕ) :
    (group.freeOffset element buf taken fuel memory start).1 = memory := by
  induction fuel generalizing start with
  | zero => rfl
  | succ fuel ih =>
    have hpure : (group.nextOffset element memory buf start).1 = memory := by
      unfold Group.nextOffset
      split
      case h_7 hvar => exact absurd hvar hstring
      case h_8 hvar => exact absurd hvar hwide
      all_goals exact scan_pure (fun _ _ => rfl) _ _ _ _ _
    rw [Group.freeOffset]
    generalize group.nextOffset element memory buf start = outcome at hpure ⊢
    obtain ⟨after, found⟩ := outcome
    dsimp only at hpure
    subst hpure
    cases found with
    | none => rfl
    | some o =>
      dsimp only
      split
      · exact ih _
      · rfl

theorem placeFrom_spec {elements : List Element}
    (hmem : ∀ element ∈ elements, element ∈ group.elements)
    (hends : group.EndsClear memory buf)
    (hcase : group.CaseClear memory buf elements)
    (hknown : ∀ element ∈ elements, Known group element memory buf current)
    (taken : List ℕ) :
    ((∃ later, group.FirstFit memory buf elements taken later) →
        (group.placeFrom buf elements taken current).2.2 = true) ∧
      ((group.placeFrom buf elements taken current).2.2 = true →
        ∃ later, (group.placeFrom buf elements taken current).2.1 =
            taken ++ later ∧
          group.FirstFit memory buf elements taken later) := by
  induction elements generalizing taken current with
  | nil =>
    exact ⟨fun _ => rfl, fun _ => ⟨[], (append_nil _).symm, rfl⟩⟩
  | cons element rest ih =>
    rw [forall_mem_cons] at hmem hknown
    have hwide : element.vartype = .vtUnicodeString → ∀ offset : ℕ,
        offset < group.blocksize + element.reads →
          upperCase (memory (buf + offset)) = memory (buf + offset) := by
      intro hvar
      rcases hcase with ⟨-, hnone⟩ | hlower
      · exact absurd hvar (hnone element (mem_cons_self ..))
      · exact hlower element (mem_cons_self ..)
    have hrest : group.CaseClear memory buf rest := by
      rcases hcase with ⟨hlast, hnone⟩ | hlower
      · exact .inl ⟨(pairwise_cons.mp hlast).2, fun other hother =>
          hnone other (mem_cons_of_mem _ hother)⟩
      · exact .inr fun other hother =>
          hlower other (mem_cons_of_mem _ hother)
    obtain ⟨hafter, hnext⟩ := @Known.freeOffset _ _ _ _ _ hknown.1 hmem.1
      hends hwide taken (group.blocksize + 1) 0 (by omega)
    have hpure := @freeOffset_pure group element current buf
    have hlater : ∀ other ∈ rest, Known group other memory buf
        (group.freeOffset element buf taken (group.blocksize + 1) current
          0).1 := by
      intro other hother
      refine ⟨hafter.raised, fun hvar offset hoffset => ?_⟩
      rcases hcase with ⟨hlast, hnone⟩ | hlower
      · have hstring : element.vartype ≠ .vtString := fun hfirst =>
          hvar ((pairwise_cons.mp hlast).1 other hother hfirst)
        rw [hpure hstring (hnone element (mem_cons_self ..))]
        exact (hknown.2 other hother).same hvar offset hoffset
      · exact hafter.raised.eq_of_upperCase_eq
          (hlower other (mem_cons_of_mem _ hother) offset hoffset)
    rw [Group.placeFrom]
    generalize group.freeOffset element buf taken (group.blocksize + 1)
      current 0 = outcome at hnext hlater ⊢
    obtain ⟨after, found⟩ := outcome
    dsimp only at hnext hlater
    cases found with
    | none =>
      refine ⟨?_, fun hfalse => by cases hfalse⟩
      rintro ⟨_, offset, -, -, hcandidate, hfree, -⟩
      exact absurd ⟨hcandidate, hfree⟩ (hnext offset (Nat.zero_le _))
    | some offset =>
      obtain ⟨-, ⟨hcandidate, hfree⟩, hfirst⟩ := hnext
      have hlow : ∀ lower < offset,
          element.Candidate group memory buf lower → lower ∈ taken := by
        intro lower hless hother
        by_contra hnot
        exact hfirst lower (Nat.zero_le _) hless ⟨hother, hnot⟩
      obtain ⟨hfound, hplaced⟩ := ih hmem.2 hrest hlater (taken ++ [offset])
      constructor
      · rintro ⟨_, other, later, -, hother, hotherFree, hotherLow, hfit⟩
        have hsame : other = offset := by
          rcases Nat.lt_trichotomy other offset with hless | heq | hmore
          · exact absurd (hlow other hless hother) hotherFree
          · exact heq
          · exact absurd (hotherLow offset hmore hcandidate) hfree
        subst hsame
        exact hfound ⟨later, hfit⟩
      · intro htrue
        obtain ⟨later, heq, hfit⟩ := hplaced htrue
        refine ⟨offset :: later, ?_, offset, later, rfl, hcandidate,
          hfree, hlow, hfit⟩
        rw [heq, append_assoc, singleton_append]

end

/-! ## First fits and placements -/

section

variable {group : Group} {memory : Memory} {buf : ℤ}
  {elements : List Element} {taken offsets : List ℕ}

section

variable (hfit : group.FirstFit memory buf elements taken offsets)

include hfit

theorem Group.FirstFit.candidates :
    List.Forall₂ (fun element offset => element.Candidate group memory buf
      offset) elements offsets := by
  induction elements generalizing taken offsets with
  | nil =>
    subst hfit
    exact .nil
  | cons element rest ih =>
    obtain ⟨offset, later, rfl, hcandidate, -, -, hrest⟩ := hfit
    exact .cons hcandidate (ih hrest)

theorem Group.FirstFit.nodup (htaken : taken.Nodup) :
    (taken ++ offsets).Nodup := by
  induction elements generalizing taken offsets with
  | nil =>
    subst hfit
    rw [append_nil]
    exact htaken
  | cons element rest ih =>
    obtain ⟨offset, later, rfl, -, hfree, -, hrest⟩ := hfit
    have hmore : (taken ++ [offset]).Nodup :=
      nodup_append.mpr ⟨htaken, nodup_singleton _, by
        rintro other hother _ hsame rfl
        exact hfree (mem_singleton.mp hsame ▸ hother)⟩
    have hall := ih hrest hmore
    rwa [append_assoc, singleton_append] at hall

theorem Group.FirstFit.zero_mem {element : Element}
    (hmem : element ∈ elements)
    (hzero : element.Candidate group memory buf 0) :
    0 ∈ taken ∨ 0 ∈ offsets := by
  induction elements generalizing taken offsets with
  | nil => cases hmem
  | cons head rest ih =>
    obtain ⟨offset, later, rfl, -, -, hlow, hrest⟩ := hfit
    rcases mem_cons.mp hmem with rfl | hlater
    · rcases Nat.eq_zero_or_pos offset with rfl | hpos
      · exact .inr (mem_cons_self ..)
      · exact .inl (hlow 0 hpos hzero)
    · rcases ih hrest hlater with hbefore | hafter
      · rcases mem_append.mp hbefore with hold | hnew
        · exact .inl hold
        · obtain rfl := mem_singleton.mp hnew
          exact .inr (mem_cons_self ..)
      · exact .inr (mem_cons_of_mem _ hafter)

end

theorem count_eq (element : Element)
    (hsep : ∀ other ∈ elements, group.SeparateOrEqual memory buf element other)
    (hcandidates : List.Forall₂ (fun element offset =>
      element.Candidate group memory buf offset) elements offsets) :
    open Classical in
    offsets.countP (fun offset =>
        decide (element.Candidate group memory buf offset)) =
      elements.countP (fun other => decide (∀ offset,
        element.Candidate group memory buf offset ↔
          other.Candidate group memory buf offset)) := by
  classical
  induction hcandidates with
  | nil => rfl
  | @cons other offset rest later hother hrest ih =>
    rw [forall_mem_cons] at hsep
    have hiff : element.Candidate group memory buf offset ↔
        ∀ offset, element.Candidate group memory buf offset ↔
          other.Candidate group memory buf offset := by
      constructor
      · intro hcandidate
        rcases hsep.1 with hsame | hapart
        · exact hsame
        · exact absurd ⟨hcandidate, hother⟩ (hapart offset)
      · exact fun hsame => (hsame offset).mpr hother
    rw [countP_cons, countP_cons, ih hsep.2]
    simp only [hiff]

/-- Where candidates are shared by all or none, a placement leaves a candidate
for the next element, whatever the choice for the earlier ones was. -/
theorem exists_free {done : List Element} {element : Element}
    {rest : List Element} {placed : List ℕ}
    (hsep : ∀ other ∈ done, group.SeparateOrEqual memory buf element other)
    (htaken : List.Forall₂ (fun element offset =>
      element.Candidate group memory buf offset) done taken)
    (hplaced : List.Forall₂ (fun element offset =>
      element.Candidate group memory buf offset) (done ++ element :: rest)
      placed) (hnodup : placed.Nodup) :
    ∃ offset, element.Candidate group memory buf offset ∧
      offset ∉ taken := by
  classical
  by_contra hnone
  push Not at hnone
  have hbefore := forall₂_take done.length hplaced
  have hafter := forall₂_drop done.length hplaced
  rw [take_left] at hbefore
  rw [drop_left] at hafter
  have hsplit := take_append_drop done.length placed
  generalize placed.take done.length = before at hbefore hsplit
  generalize placed.drop done.length = later at hafter hsplit
  cases hafter with
  | @cons _ offset _ later hoffset hlater =>
    have hdistinct : (before ++ [offset]).Nodup := by
      rw [← hsplit, ← singleton_append, ← append_assoc] at hnodup
      exact (nodup_append.mp hnodup).1
    let own := fun offset =>
      decide (element.Candidate group memory buf offset)
    have hsub : (before ++ [offset]).filter own ⊆ taken.filter own := by
      intro other hother
      have hcandidate := (mem_filter.mp hother).2
      exact mem_filter.mpr
        ⟨hnone other (of_decide_eq_true hcandidate), hcandidate⟩
    have hle := ((hdistinct.filter own).subperm hsub).length_le
    have hown : own offset = true := decide_eq_true hoffset
    rw [← countP_eq_length_filter, ← countP_eq_length_filter,
      countP_append, countP_singleton, if_pos hown,
      count_eq element hsep hbefore, count_eq element hsep htaken] at hle
    omega

theorem exists_firstFit {done rest : List Element} {placed : List ℕ}
    (hsep : ∀ element ∈ done ++ rest, ∀ other ∈ done ++ rest,
      group.SeparateOrEqual memory buf element other)
    (htaken : List.Forall₂ (fun element offset =>
      element.Candidate group memory buf offset) done taken)
    (hplaced : List.Forall₂ (fun element offset =>
      element.Candidate group memory buf offset) (done ++ rest) placed)
    (hnodup : placed.Nodup) :
    ∃ later, group.FirstFit memory buf rest taken later := by
  classical
  induction rest generalizing done taken with
  | nil => exact ⟨[], rfl⟩
  | cons element rest ih =>
    have hsepElement : ∀ other ∈ done,
        group.SeparateOrEqual memory buf element other := fun other hother =>
      hsep element (mem_append_right _ (mem_cons_self ..)) other
        (mem_append_left _ hother)
    have hfree := exists_free hsepElement htaken hplaced hnodup
    obtain ⟨hcandidate, hnew⟩ := Nat.find_spec hfree
    have hlow : ∀ lower < Nat.find hfree,
        element.Candidate group memory buf lower → lower ∈ taken := by
      intro lower hless hother
      by_contra hnot
      exact Nat.find_min hfree hless ⟨hother, hnot⟩
    obtain ⟨later, hfit⟩ := @ih (taken ++ [Nat.find hfree])
      (done ++ [element])
      (by simpa only [append_assoc, singleton_append] using hsep)
      (rel_append htaken (.cons hcandidate .nil))
      (by simpa only [append_assoc, singleton_append] using hplaced)
    exact ⟨_, _, later, rfl, hcandidate, hnew, hlow, hfit⟩

theorem exists_at_start (hall : List.Forall₂ (fun element offset =>
      element.Candidate group memory buf offset) elements offsets)
    (hzero : 0 ∈ offsets) :
    ∃ element ∈ elements, element.Candidate group memory buf 0 := by
  induction hall with
  | nil => cases hzero
  | @cons element offset rest later hcandidate hrest ih =>
    rcases mem_cons.mp hzero with rfl | hlater
    · exact ⟨element, mem_cons_self .., hcandidate⟩
    · obtain ⟨other, hother, hstart⟩ := ih hlater
      exact ⟨other, mem_cons_of_mem _ hother, hstart⟩

theorem Group.FirstFit.placement
    (hfit : group.FirstFit memory buf group.elements [] offsets)
    (hzero : 0 ∈ offsets) : group.Placement memory buf offsets :=
  ⟨hfit.candidates, hfit.nodup nodup_nil, hzero⟩

theorem Group.Placement.firstFit {placed : List ℕ}
    (hsep : ∀ element ∈ group.elements, ∀ other ∈ group.elements,
      group.SeparateOrEqual memory buf element other)
    (hplaced : group.Placement memory buf placed) :
    ∃ offsets, group.FirstFit memory buf group.elements [] offsets ∧
      0 ∈ offsets := by
  obtain ⟨hall, hnodup, hzero⟩ := hplaced
  obtain ⟨offsets, hfit⟩ := @exists_firstFit group memory buf [] [] _ _ hsep
    .nil hall hnodup
  obtain ⟨element, helement, hstart⟩ := exists_at_start hall hzero
  rcases hfit.zero_mem helement hstart with hnone | hmem
  · cases hnone
  · exact ⟨offsets, hfit, hmem⟩

end

/-- Out of order, a block matches when the first fit exists and has an element
at the start, and the offsets that are kept are then the first fit, which is a
placement.  Where two elements match at the same offsets or at no common one,
a block matches when there is any placement. -/
theorem compareblock_outoforder_iff {group : Group} {memory : Memory}
    {buf : ℤ} (hmode : group.outoforder = true)
    (hends : group.EndsClear memory buf)
    (hcase : group.CaseClear memory buf group.elements) :
    ((group.compareblock_outoforder memory buf).2.2 = true ↔
      ∃ offsets, group.FirstFit memory buf group.elements [] offsets ∧
        0 ∈ offsets) ∧
    ((group.compareblock_outoforder memory buf).2.2 = true →
      group.FirstFit memory buf group.elements []
          (group.compareblock_outoforder memory buf).2.1 ∧
        group.Placement memory buf
          (group.compareblock_outoforder memory buf).2.1) ∧
    ((∀ element ∈ group.elements, ∀ other ∈ group.elements,
        group.SeparateOrEqual memory buf element other) →
      ((group.compareblock_outoforder memory buf).2.2 = true ↔
        ∃ offsets, group.Placement memory buf offsets)) := by
  have hknown : ∀ element ∈ group.elements,
      Known group element memory buf memory := fun element _ =>
    ⟨Raised.refl memory, fun _ _ _ => rfl⟩
  obtain ⟨hfound, hkept⟩ := placeFrom_spec (fun _ hmem => hmem) hends hcase
    hknown []
  have hresult : (group.compareblock_outoforder memory buf).2.2 = true ↔
      (group.placeFrom buf group.elements [] memory).2.2 = true ∧
        0 ∈ (group.placeFrom buf group.elements [] memory).2.1 := by
    unfold Group.compareblock_outoforder
    simp [hmode]
  have hoffsets : (group.compareblock_outoforder memory buf).2.1 =
      (group.placeFrom buf group.elements [] memory).2.1 := rfl
  have hfits : (group.placeFrom buf group.elements [] memory).2.2 = true →
      group.FirstFit memory buf group.elements []
        (group.placeFrom buf group.elements [] memory).2.1 := by
    intro htrue
    obtain ⟨later, heq, hfit⟩ := hkept htrue
    rw [heq]
    exact hfit
  have hfirst : (group.compareblock_outoforder memory buf).2.2 = true ↔
      ∃ offsets, group.FirstFit memory buf group.elements [] offsets ∧
        0 ∈ offsets := by
    rw [hresult]
    constructor
    · rintro ⟨htrue, hzero⟩
      exact ⟨_, hfits htrue, hzero⟩
    · rintro ⟨offsets, hfit, hzero⟩
      have htrue := hfound ⟨offsets, hfit⟩
      obtain ⟨element, helement, hstart⟩ :=
        exists_at_start hfit.candidates hzero
      exact ⟨htrue, ((hfits htrue).zero_mem helement hstart).resolve_left
        not_mem_nil⟩
  refine ⟨hfirst, fun htrue => ?_, fun hsep => ⟨fun htrue => ?_, ?_⟩⟩
  · obtain ⟨hplaced, hzero⟩ := hresult.mp htrue
    rw [hoffsets]
    exact ⟨hfits hplaced, (hfits hplaced).placement hzero⟩
  · obtain ⟨offsets, hfit, hzero⟩ := hfirst.mp htrue
    exact ⟨offsets, hfit.placement hzero⟩
  · rintro ⟨offsets, hplaced⟩
    exact hfirst.mpr (hplaced.firstFit hsep)

theorem byte_value_le : false = false → VariableType.vtByte = .vtString →
    (([] : List UInt8).length : ℤ) ≤ 1 := by
  decide

theorem byte_widevalue_le :
    false = false → VariableType.vtByte = .vtUnicodeString →
      2 * (([] : List ℕ).length : ℤ) ≤ 1 := by
  decide

def byteAndDword : Group where
  elements :=
    [{ wildcard := false, vartype := .vtByte, valuei := 1,
       accepts := fun _ => false, value := [], widevalue := [], bytesize := 1,
       value_le := byte_value_le, widevalue_le := byte_widevalue_le },
     { wildcard := false, vartype := .vtDWord, valuei := 257,
       accepts := fun _ => false, value := [], widevalue := [], bytesize := 4,
       value_le := by decide, widevalue_le := by decide }]
  blocksize := 4
  outoforder := true
  outoforder_aligned := false
  floatscanWithoutExponents := false
  wildcards := by decide

def ones : Memory :=
  fun address => if address = 0 ∨ address = 1 then 1 else 0

theorem compareblock_outoforder_byteAndDword :
    (byteAndDword.compareblock_outoforder ones 0).2.2 = true ↔
      ∃ offsets, byteAndDword.FirstFit ones 0 byteAndDword.elements []
        offsets ∧ 0 ∈ offsets := by
  refine (compareblock_outoforder_iff rfl ?_ (.inl (by decide))).1
  intro element hmem
  rcases mem_cons.mp hmem with rfl | hlater
  · trivial
  · rcases mem_cons.mp hlater with rfl | hnone
    · trivial
    · cases hnone

def Group.TypePlacement (group : Group) (memory : Memory) (buf : ℤ)
    (offsets : List ℕ) : Prop :=
  List.Forall₂ (fun element offset => element.Candidate group memory buf
    offset) group.elements offsets ∧
    (group.elements.zip offsets).Pairwise (fun first second =>
      first.1.vartype = second.1.vartype → first.2 ≠ second.2) ∧
    0 ∈ offsets

theorem not_compareblock_outoforder_iff :
    ¬ ((byteAndDword.compareblock_outoforder ones 0).2.2 = true ↔
      ∃ offsets, byteAndDword.TypePlacement ones 0 offsets) := by
  have hfalse : (byteAndDword.compareblock_outoforder ones 0).2.2 = false := by
    decide
  have hbyte : byteAndDword.elements[0].Candidate byteAndDword ones 0 1 := by
    refine ⟨by decide, by decide, by decide, ?_⟩
    change readNumber ones (0 + 1) 1 = 1 % 2 ^ 8
    decide
  have hdword : byteAndDword.elements[1].Candidate byteAndDword ones 0 0 := by
    refine ⟨by decide, by decide, by decide, ?_⟩
    change readNumber ones (0 + 0) 4 = 257 % 2 ^ 32
    decide
  intro hiff
  have htrue := hiff.mpr ⟨[1, 0], .cons hbyte (.cons hdword .nil), by decide,
    by decide⟩
  rw [hfalse] at htrue
  cases htrue

end GroupScan
end CheatEngine
