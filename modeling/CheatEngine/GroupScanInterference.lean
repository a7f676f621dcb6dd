import CheatEngine.GroupScan

/-!
# Blocks that overlap in one buffer

`FirstScanmem` tests one block after the other in the same buffer.  The tests
of strings leave upper case letters behind, which the tests of later blocks
read.  Tests of strings do not notice this, all other tests can.

A test is also able to read behind its block: in order when the block is
smaller than its elements, out of order when a string starts near the end.
-/

namespace CheatEngine
namespace GroupScan

open List

/-! ## The tests of strings in two buffers -/

section

variable {memory other : Memory} {buf : ℤ}

/-- The `count` bytes from `buf` on differ in case only. -/
def SameCase (memory other : Memory) (buf : ℤ) (count : ℕ) : Prop :=
  ∀ index : ℕ, index < count →
    upperCase (memory (buf + index)) = upperCase (other (buf + index))

theorem raiseCase_congr {address : ℤ} (hbuf : upperCase (memory buf) =
      upperCase (other buf)) (hsame : memory address = other address) :
    raiseCase memory buf address = raiseCase other buf address := by
  by_cases heq : address = buf
  · rw [heq, raiseCase_self, raiseCase_self, hbuf]
  · rw [raiseCase_of_ne heq, raiseCase_of_ne heq, hsame]

/-- The test ends in the first `count` bytes. -/
def EndsIn (memory : Memory) (buf : ℤ) (ts : List UInt8) (count : ℕ) : Prop :=
  ts.length ≤ count ∨ ∃ index : ℕ, ∃ hindex : index < ts.length,
    index < count ∧ upperCase (memory (buf + index)) ≠ ts[index]

theorem testString_congr {ts : List UInt8} {count : ℕ}
    (hsame : SameCase memory other buf count)
    (hends : EndsIn memory buf ts count) :
    (testString memory buf ts).2 = (testString other buf ts).2 ∧
      ∀ address, memory address = other address →
        (testString memory buf ts).1 address =
          (testString other buf ts).1 address := by
  induction ts generalizing memory other buf count with
  | nil => exact ⟨rfl, fun _ heq => heq⟩
  | cons char ts ih =>
    have hpos : 0 < count := by
      rcases hends with hle | ⟨index, -, hlt, -⟩
      · exact (Nat.succ_pos _).trans_le hle
      · exact (Nat.zero_le _).trans_lt hlt
    have hfirst : upperCase (memory buf) = upperCase (other buf) := by
      simpa using hsame 0 hpos
    rw [testString, testString, raiseCase_self, raiseCase_self, hfirst]
    split
    · exact ⟨rfl, fun _ => raiseCase_congr hfirst⟩
    · rename_i hchar
      have hlater : SameCase (raiseCase memory buf) (raiseCase other buf)
          (buf + 1) (count - 1) := by
        intro index hindex
        rw [raiseCase_next, raiseCase_next]
        exact hsame (index + 1) (by omega)
      have hrest : EndsIn (raiseCase memory buf) (buf + 1) ts
          (count - 1) := by
        rcases hends with hle | ⟨index, hindex, hlt, hne⟩
        · left
          rw [length_cons] at hle
          omega
        · cases index with
          | zero =>
            refine absurd ?_ hchar
            rw [← hfirst]
            simpa using hne.symm
          | succ index =>
            right
            refine ⟨index, Nat.lt_of_succ_lt_succ hindex, by omega, ?_⟩
            rw [raiseCase_next]
            exact hne
      obtain ⟨hresult, hafter⟩ := ih hlater hrest
      exact ⟨hresult, fun address heq =>
        hafter address (raiseCase_congr hfirst heq)⟩

/-- The low bytes differ in case only and the high bytes are the same. -/
def SameWide (memory other : Memory) (buf : ℤ) (count : ℕ) : Prop :=
  ∀ index : ℕ,
    (2 * index < count → upperCase (memory (buf + 2 * index)) =
      upperCase (other (buf + 2 * index))) ∧
    (2 * index + 1 < count → memory (buf + 2 * index + 1) =
      other (buf + 2 * index + 1))

def WideEndsIn (memory : Memory) (buf : ℤ) (ts : List ℕ) (count : ℕ) :
    Prop :=
  2 * ts.length ≤ count ∨ ∃ index : ℕ, ∃ hindex : index < ts.length,
    (2 * index < count ∧
      (upperCase (memory (buf + 2 * index))).toNat ≠ ts[index] % 256) ∨
    (2 * index + 1 < count ∧
      (memory (buf + 2 * index + 1)).toNat ≠ ts[index] / 256)

theorem wideChar_mod (memory : Memory) (address : ℤ) :
    wideChar memory address % 256 = (upperCase (memory address)).toNat := by
  have hlt := (upperCase (memory address)).toNat_lt
  unfold wideChar
  omega

theorem wideChar_div (memory : Memory) (address : ℤ) :
    wideChar memory address / 256 = (memory (address + 1)).toNat := by
  have hlt := (upperCase (memory address)).toNat_lt
  unfold wideChar
  omega

theorem testWideString_congr {ts : List ℕ} {count : ℕ}
    (hsame : SameWide memory other buf count)
    (hends : WideEndsIn memory buf ts count) :
    (testWideString memory buf ts).2 = (testWideString other buf ts).2 ∧
      ∀ address, memory address = other address →
        (testWideString memory buf ts).1 address =
          (testWideString other buf ts).1 address := by
  induction ts generalizing memory other buf count with
  | nil => exact ⟨rfl, fun _ heq => heq⟩
  | cons char ts ih =>
    have hpos : 0 < count := by
      rcases hends with hle | ⟨index, -, ⟨hlt, -⟩ | ⟨hlt, -⟩⟩
      · rw [length_cons] at hle
        omega
      · omega
      · omega
    have hfirst : upperCase (memory buf) = upperCase (other buf) := by
      simpa using (hsame 0).1 hpos
    rw [testWideString, testWideString, readNumber_raiseCase,
      readNumber_raiseCase]
    by_cases hone : count = 1
    · have hlow : (upperCase (memory buf)).toNat ≠ char % 256 := by
        rcases hends with hle | ⟨index, hindex, ⟨hlt, hne⟩ | ⟨hlt, -⟩⟩
        · rw [length_cons] at hle
          omega
        · have hzero : index = 0 := by omega
          subst hzero
          simpa using hne
        · omega
      have hneq : ∀ memory : Memory,
          (upperCase (memory buf)).toNat ≠ char % 256 →
            char ≠ wideChar memory buf := by
        rintro memory hne rfl
        exact hne (wideChar_mod memory buf).symm
      rw [if_pos (hneq memory hlow), if_pos (hneq other (hfirst ▸ hlow))]
      exact ⟨rfl, fun _ => raiseCase_congr hfirst⟩
    · have hhigh : memory (buf + 1) = other (buf + 1) := by
        simpa using (hsame 0).2 (by omega)
      have hchar : wideChar memory buf = wideChar other buf := by
        unfold wideChar
        rw [hfirst, hhigh]
      rw [hchar]
      split
      · exact ⟨rfl, fun _ => raiseCase_congr hfirst⟩
      · rename_i heq
        have hlater : SameWide (raiseCase memory buf) (raiseCase other buf)
            (buf + 2) (count - 2) := by
          intro index
          rw [raiseCase_nextWide, raiseCase_nextWide, raiseCase_nextHigh,
            raiseCase_nextHigh]
          obtain ⟨hlow, hup⟩ := hsame (index + 1)
          exact ⟨fun hlt => hlow (by omega), fun hlt => hup (by omega)⟩
        have hrest : WideEndsIn (raiseCase memory buf) (buf + 2) ts
            (count - 2) := by
          rcases hends with hle | ⟨index, hindex, hne⟩
          · left
            rw [length_cons] at hle
            omega
          · cases index with
            | zero =>
              have hsplit : char = wideChar memory buf := by
                rw [hchar]
                exact not_not.mp heq
              rcases hne with ⟨-, hne⟩ | ⟨-, hne⟩
              · refine absurd ?_ hne
                simp [hsplit, wideChar_mod]
              · refine absurd ?_ hne
                simp [hsplit, wideChar_div]
            | succ index =>
              right
              refine ⟨index, Nat.lt_of_succ_lt_succ hindex, ?_⟩
              rw [raiseCase_nextWide, raiseCase_nextHigh]
              rcases hne with ⟨hlt, hne⟩ | ⟨hlt, hne⟩
              · exact .inl ⟨by omega, hne⟩
              · exact .inr ⟨by omega, hne⟩
        obtain ⟨hresult, hafter⟩ := ih hlater hrest
        exact ⟨hresult, fun address heq =>
          hafter address (raiseCase_congr hfirst heq)⟩

end

/-! ## Blocks in order -/

section

variable {memory other : Memory} {element : Element} {newvalue : ℤ}

theorem bytesAt_congr {address : ℤ} {count : ℕ}
    (hsame : ∀ index : ℕ, index < count →
      memory (address + index) = other (address + index)) :
    bytesAt memory address count = bytesAt other address count :=
  map_congr_left fun index hindex =>
    hsame index (mem_range.mp hindex)

namespace Element

/-- The bytes that are compared with upper case letters are the same up to
case, the others are the same. -/
def Alike (element : Element) (memory other : Memory) (newvalue : ℤ) : Prop :=
  match element.vartype with
  | .vtString => SameCase memory other newvalue element.value.length
  | .vtUnicodeString =>
    SameWide memory other newvalue (2 * element.widevalue.length)
  | _ => ∀ index : ℕ, index < element.reads →
      memory (newvalue + index) = other (newvalue + index)

theorem compare_congr
    (halike : element.wildcard = false → element.Alike memory other newvalue) :
    (element.compare memory newvalue).2 = (element.compare other newvalue).2 ∧
      ∀ address, memory address = other address →
        (element.compare memory newvalue).1 address =
          (element.compare other newvalue).1 address := by
  unfold compare
  cases hwild : element.wildcard with
  | true =>
    cases element.vartype <;> simp
  | false =>
    have hsame := halike hwild
    unfold Alike reads at hsame
    cases hvar : element.vartype with
    | vtString =>
      simp only [hvar] at hsame
      simp only [Bool.false_eq_true, if_false]
      exact testString_congr hsame (.inl le_rfl)
    | vtUnicodeString =>
      simp only [hvar] at hsame
      simp only [Bool.false_eq_true, if_false]
      exact testWideString_congr hsame (.inl le_rfl)
    | _ =>
      simp only [hvar] at hsame
      have hbytes := bytesAt_congr hsame
      refine ⟨?_, fun _ heq => heq⟩
      simp only [readNumber, hbytes]

/-- No byte that is not compared with upper case letters is changed. -/
def Unchanged (element : Element) (original current : Memory)
    (newvalue : ℤ) : Prop :=
  match element.vartype with
  | .vtString => True
  | .vtUnicodeString => ∀ index : ℕ, index < element.widevalue.length →
      current (newvalue + 2 * index + 1) = original (newvalue + 2 * index + 1)
  | _ => ∀ index : ℕ, index < element.reads →
      current (newvalue + index) = original (newvalue + index)

end Element

/-- Every element that is reached lies in the block, and no byte that matters
to it is changed. -/
def UndisturbedFrom (base stop : ℤ) :
    List Element → ℤ → Memory → Memory → Prop
  | [], _, _, _ => True
  | element :: rest, newvalue, original, current =>
    (element.wildcard = false → base ≤ newvalue ∧
      newvalue + element.reads ≤ stop ∧
      element.Unchanged original current newvalue) ∧
    ((element.compare original newvalue).2 = true →
      UndisturbedFrom base stop rest (newvalue + element.size)
        (element.compare original newvalue).1
        (element.compare current newvalue).1)

variable {base stop : ℤ} {elements : List Element} {original current : Memory}

theorem Element.Unchanged.alike
    (hunchanged : element.Unchanged original current newvalue)
    (hcase : ∀ address, upperCase (current address) =
      upperCase (original address)) :
    element.Alike original current newvalue := by
  unfold Element.Unchanged at hunchanged
  unfold Element.Alike
  cases hvar : element.vartype with
  | vtString => exact fun _ _ => (hcase _).symm
  | vtUnicodeString =>
    simp only [hvar] at hunchanged
    exact fun index => ⟨fun _ => (hcase _).symm,
      fun hlt => (hunchanged index (by omega)).symm⟩
  | _ =>
    simp only [hvar] at hunchanged
    exact fun index hindex => (hunchanged index hindex).symm

theorem compareFrom_undisturbed
    (hclear : UndisturbedFrom base stop elements newvalue original current)
    (hcase : ∀ address, upperCase (current address) =
      upperCase (original address)) :
    (compareFrom elements current newvalue).2 =
      (compareFrom elements original newvalue).2 := by
  induction elements generalizing newvalue original current with
  | nil => rfl
  | cons element rest ih =>
    obtain ⟨hreads, hrest⟩ := hclear
    have hresult := (Element.compare_congr fun hwild =>
      (hreads hwild).2.2.alike hcase).1
    have hnext : ∀ address,
        upperCase ((element.compare current newvalue).1 address) =
          upperCase ((element.compare original newvalue).1 address) := by
      intro address
      rw [(element.compare_raised current newvalue).upperCase_eq,
        (element.compare_raised original newvalue).upperCase_eq, hcase address]
    have hlater := fun htrue => ih (hrest htrue) hnext
    rw [compareFrom, compareFrom]
    generalize element.compare original newvalue = first at hresult hlater ⊢
    generalize element.compare current newvalue = second at hresult hlater ⊢
    obtain ⟨after, result⟩ := first
    obtain ⟨after', result'⟩ := second
    dsimp only at hresult hlater
    subst hresult
    cases result with
    | false => rfl
    | true => exact hlater rfl

theorem compareFrom_block
    (hclear : UndisturbedFrom base stop elements newvalue memory current)
    (hblock : ∀ address, base ≤ address → address < stop →
      memory address = other address) :
    (compareFrom elements memory newvalue).2 =
      (compareFrom elements other newvalue).2 := by
  induction elements generalizing newvalue memory other current with
  | nil => rfl
  | cons element rest ih =>
    obtain ⟨hreads, hrest⟩ := hclear
    have halike : element.wildcard = false →
        element.Alike memory other newvalue := by
      intro hwild
      obtain ⟨hbase, hstop, -⟩ := hreads hwild
      unfold Element.reads at hstop
      unfold Element.Alike Element.reads
      cases hvar : element.vartype <;> simp only [hvar] at hstop <;>
        dsimp only
      case vtString =>
        intro index hindex
        rw [hblock _ (by omega) (by omega)]
      case vtUnicodeString =>
        push_cast at hstop
        intro index
        refine ⟨fun hlt => ?_, fun hlt => hblock _ (by omega) (by omega)⟩
        rw [hblock _ (by omega) (by omega)]
      all_goals
        intro index hindex
        exact hblock _ (by omega) (by omega)
    obtain ⟨hresult, hafter⟩ := Element.compare_congr halike
    have hlater := fun htrue => ih (hrest htrue)
      fun address hbase hstop => hafter address (hblock address hbase hstop)
    rw [compareFrom, compareFrom]
    generalize element.compare memory newvalue = first at hresult hlater ⊢
    generalize element.compare other newvalue = second at hresult hlater ⊢
    obtain ⟨after, result⟩ := first
    obtain ⟨after', result'⟩ := second
    dsimp only at hresult hlater
    subst hresult
    cases result with
    | false => rfl
    | true => exact hlater rfl

end

/-! ## Blocks out of order -/

section

theorem le_of_scan {test : Memory → ℕ → Memory × Bool}
    {bound align fuel i last : ℕ} {memory : Memory}
    (hlast : last ∈ (scan test bound align fuel memory i).2) : i ≤ last := by
  induction fuel generalizing i memory with
  | zero => cases hlast
  | succ fuel ih =>
    rw [scan] at hlast
    split at hlast
    · split at hlast
      · exact (Option.some.inj hlast).le
      · exact (Nat.le_add_right _ _).trans (ih hlast)
    · cases hlast

theorem scan_congr {Related : Memory → Memory → Prop} {Reached : ℕ → Prop}
    {test : Memory → ℕ → Memory × Bool} {bound align : ℕ}
    (htest : ∀ memory other i, Related memory other → i < bound → Reached i →
      (test memory i).2 = (test other i).2 ∧
        Related (test memory i).1 (test other i).1)
    {fuel i : ℕ} {memory other : Memory} (hrelated : Related memory other)
    (hreached : ∀ j, (∀ last ∈ (scan test bound align fuel memory i).2,
      j ≤ last) → Reached j) :
    (scan test bound align fuel memory i).2 =
        (scan test bound align fuel other i).2 ∧
      Related (scan test bound align fuel memory i).1
        (scan test bound align fuel other i).1 := by
  induction fuel generalizing i memory other with
  | zero => exact ⟨rfl, hrelated⟩
  | succ fuel ih =>
    have hself := hreached i fun _ => le_of_scan
    rw [scan] at hreached
    rw [scan, scan]
    by_cases hbound : i < bound
    · obtain ⟨hresult, hafter⟩ := htest memory other i hrelated hbound hself
      rw [if_pos hbound] at hreached
      rw [if_pos hbound, if_pos hbound]
      generalize test memory i = first at hresult hafter hreached ⊢
      generalize test other i = second at hresult hafter ⊢
      obtain ⟨after, result⟩ := first
      obtain ⟨after', result'⟩ := second
      dsimp only at hresult hafter
      subst hresult
      cases result with
      | true => exact ⟨rfl, hafter⟩
      | false => exact ih hafter hreached
    · rw [if_neg hbound, if_neg hbound]
      exact ⟨rfl, hrelated⟩

variable {group : Group} {element : Element} {buf : ℤ}

/-- Two buffers at the same block.  The first one has at most changed to upper
case what was read into the buffer. -/
structure Related (group : Group) (original : Memory) (buf : ℤ)
    (memory other : Memory) : Prop where
  same : (∃ element ∈ group.elements, element.vartype ≠ .vtString) →
    ∀ index : ℕ, index < group.blocksize →
      memory (buf + index) = other (buf + index)
  sameCase : SameCase memory other buf group.blocksize
  raised : Raised original memory

def Element.EndsInside (element : Element) (blocksize : ℕ) (memory : Memory)
    (buf : ℤ) (offset : ℕ) : Prop :=
  match element.vartype with
  | .vtString => EndsIn memory (buf + offset) element.value
      (blocksize - offset)
  | .vtUnicodeString => 2 * element.widevalue.length ≤ blocksize - offset ∨
      ∃ index : ℕ, ∃ hindex : index < element.widevalue.length,
        (2 * index < blocksize - offset ∧
          (upperCase (memory (buf + offset + 2 * index))).toNat ≠
            element.widevalue[index] % 256) ∨
        (2 * index + 1 < blocksize - offset ∧
          (memory (buf + offset + 2 * index + 1)).toNat ≠
            element.widevalue[index] / 256 ∧
          (upperCase (memory (buf + offset + 2 * index + 1))).toNat ≠
            element.widevalue[index] / 256)
  | _ => True

variable {original memory other : Memory}

theorem Related.valueScan
    (hrelated : Related group original buf memory other)
    (hmem : element ∈ group.elements) (hvar : element.vartype ≠ .vtString)
    {accepts : List UInt8 → Bool} {count bound align startoffset : ℕ}
    (hbound : ∀ i index : ℕ, i < bound → index < count →
      i + index < group.blocksize) :
    (group.valueScan memory buf startoffset accepts count bound align).2 =
        (group.valueScan other buf startoffset accepts count bound align).2 ∧
      Related group original buf
        (group.valueScan memory buf startoffset accepts count bound align).1
        (group.valueScan other buf startoffset accepts count bound
          align).1 := by
  refine scan_congr (fun memory other i hrelated hlt _ => ?_) hrelated
    fun _ _ => trivial
  have hbytes : bytesAt memory (buf + i) count =
      bytesAt other (buf + i) count := by
    refine bytesAt_congr fun index hindex => ?_
    have hsame := hrelated.same ⟨element, hmem, hvar⟩ (i + index)
      (hbound i index hlt hindex)
    push_cast at hsame
    rw [← Int.add_assoc] at hsame
    exact hsame
  exact ⟨congrArg accepts hbytes, hrelated⟩

section

variable (hrelated : Related group original buf memory other)

include hrelated

theorem Related.string (hvar : element.vartype = .vtString) {offset : ℕ}
    (hends : element.EndsInside group.blocksize original buf offset) :
    (testString memory (buf + offset) element.value).2 =
        (testString other (buf + offset) element.value).2 ∧
      Related group original buf
        (testString memory (buf + offset) element.value).1
        (testString other (buf + offset) element.value).1 := by
  unfold Element.EndsInside at hends
  rw [hvar] at hends
  dsimp only at hends
  have hsame : SameCase memory other (buf + offset)
      (group.blocksize - offset) := by
    intro index hindex
    have hcase := hrelated.sameCase (offset + index) (by omega)
    push_cast at hcase
    rw [← Int.add_assoc] at hcase
    exact hcase
  have hendsNow : EndsIn memory (buf + offset) element.value
      (group.blocksize - offset) := by
    rcases hends with hle | ⟨index, hindex, hlt, hne⟩
    · exact .inl hle
    · exact .inr ⟨index, hindex, hlt, by rwa [hrelated.raised.upperCase_eq]⟩
  obtain ⟨hresult, hafter⟩ := testString_congr hsame hendsNow
  refine ⟨hresult, fun hexact index hindex => hafter _
    (hrelated.same hexact index hindex), fun index hindex => ?_,
    hrelated.raised.trans (testString_raised memory _ _)⟩
  rw [(testString_raised memory _ _).upperCase_eq,
    (testString_raised other _ _).upperCase_eq]
  exact hrelated.sameCase index hindex

theorem Related.wideString (hmem : element ∈ group.elements)
    (hvar : element.vartype = .vtUnicodeString) {offset : ℕ}
    (hends : element.EndsInside group.blocksize original buf offset) :
    (testWideString memory (buf + offset) element.widevalue).2 =
        (testWideString other (buf + offset) element.widevalue).2 ∧
      Related group original buf
        (testWideString memory (buf + offset) element.widevalue).1
        (testWideString other (buf + offset) element.widevalue).1 := by
  unfold Element.EndsInside at hends
  rw [hvar] at hends
  dsimp only at hends
  have hexact : ∀ index : ℕ, offset + index < group.blocksize →
      memory (buf + offset + index) = other (buf + offset + index) := by
    intro index hindex
    have heq := hrelated.same ⟨element, hmem, by rw [hvar]; decide⟩ _ hindex
    push_cast at heq
    rw [← Int.add_assoc] at heq
    exact heq
  have hsame : SameWide memory other (buf + offset)
      (group.blocksize - offset) := by
    intro index
    constructor
    · intro hlt
      have heq := hexact (2 * index) (by omega)
      push_cast at heq
      rw [heq]
    · intro hlt
      have heq := hexact (2 * index + 1) (by omega)
      push_cast at heq
      rw [← Int.add_assoc] at heq
      exact heq
  have hendsNow : WideEndsIn memory (buf + offset) element.widevalue
      (group.blocksize - offset) := by
    rcases hends with hle | ⟨index, hindex, ⟨hlt, hne⟩ | ⟨hlt, hne, hup⟩⟩
    · exact .inl hle
    · refine .inr ⟨index, hindex, .inl ⟨hlt, ?_⟩⟩
      rwa [hrelated.raised.upperCase_eq]
    · refine .inr ⟨index, hindex, .inr ⟨hlt, ?_⟩⟩
      rcases hrelated.raised (buf + offset + 2 * index + 1) with
        hkept | hraised
      · rwa [hkept]
      · rwa [hraised]
  obtain ⟨hresult, hafter⟩ := testWideString_congr hsame hendsNow
  refine ⟨hresult, fun hother index hindex => hafter _
    (hrelated.same hother index hindex), fun index hindex => ?_,
    hrelated.raised.trans (testWideString_raised memory _ _)⟩
  rw [(testWideString_raised memory _ _).upperCase_eq,
    (testWideString_raised other _ _).upperCase_eq]
  exact hrelated.sameCase index hindex

theorem Related.nextOffset (hmem : element ∈ group.elements)
    {startoffset : ℕ} (hends : ∀ offset < group.blocksize,
      (∀ last ∈ (group.nextOffset element memory buf startoffset).2,
        offset ≤ last) →
      element.EndsInside group.blocksize original buf offset) :
    (group.nextOffset element memory buf startoffset).2 =
        (group.nextOffset element other buf startoffset).2 ∧
      Related group original buf
        (group.nextOffset element memory buf startoffset).1
        (group.nextOffset element other buf startoffset).1 := by
  unfold Group.nextOffset at hends ⊢
  cases hvar : element.vartype with
  | vtString =>
    rw [hvar] at hends
    exact scan_congr (fun memory other i hrelated hlt hreached =>
      hrelated.string hvar (hreached hlt)) hrelated
      fun j hlast hlt => hends j hlt hlast
  | vtUnicodeString =>
    rw [hvar] at hends
    exact scan_congr (fun memory other i hrelated hlt hreached =>
      hrelated.wideString hmem hvar (hreached hlt)) hrelated
      fun j hlast hlt => hends j hlt hlast
  | vtByte | vtWord | vtDWord | vtQWord | vtSingle | vtDouble =>
    exact hrelated.valueScan hmem (by rw [hvar]; decide) (by omega)
  | vtCustom =>
    exact hrelated.valueScan hmem (by rw [hvar]; decide) (by omega)

end

theorem le_of_nextOffset {startoffset offset : ℕ}
    (hoffset : offset ∈
      (group.nextOffset element memory buf startoffset).2) :
    startoffset ≤ offset := by
  unfold Group.nextOffset at hoffset
  cases hvar : element.vartype with
  | vtByte | vtString | vtUnicodeString =>
    rw [hvar] at hoffset
    exact le_of_scan hoffset
  | vtWord | vtDWord | vtQWord | vtSingle | vtDouble | vtCustom =>
    rw [hvar] at hoffset
    have hle := le_of_scan hoffset
    unfold Group.alignOffset at hle
    split at hle <;> omega

theorem le_of_freeOffset {taken : List ℕ} {fuel currentoffset last : ℕ}
    (hlast : last ∈
      (group.freeOffset element buf taken fuel memory currentoffset).2) :
    ∃ offset ∈ (group.nextOffset element memory buf currentoffset).2,
      offset ≤ last := by
  induction fuel generalizing memory currentoffset with
  | zero => cases hlast
  | succ fuel ih =>
    rw [Group.freeOffset] at hlast
    split at hlast
    · cases hlast
    · rename_i offset hnext
      refine ⟨offset, congrArg Prod.snd hnext, ?_⟩
      split at hlast
      · obtain ⟨found, hfound, hle⟩ := ih hlast
        have hlater := le_of_nextOffset hfound
        omega
      · exact (Option.some.inj hlast).le

theorem Related.freeOffset
    (hrelated : Related group original buf memory other)
    (hmem : element ∈ group.elements) {taken : List ℕ}
    {fuel currentoffset : ℕ} (hends : ∀ offset < group.blocksize,
      (∀ last ∈ (group.freeOffset element buf taken fuel memory
        currentoffset).2, offset ≤ last) →
      element.EndsInside group.blocksize original buf offset) :
    (group.freeOffset element buf taken fuel memory currentoffset).2 =
        (group.freeOffset element buf taken fuel other currentoffset).2 ∧
      Related group original buf
        (group.freeOffset element buf taken fuel memory currentoffset).1
        (group.freeOffset element buf taken fuel other currentoffset).1 := by
  induction fuel generalizing memory other currentoffset with
  | zero => exact ⟨rfl, hrelated⟩
  | succ fuel ih =>
    obtain ⟨hresult, hafter⟩ := hrelated.nextOffset hmem fun offset hlt hle =>
      hends offset hlt fun last hlast => by
        obtain ⟨found, hfound, hlater⟩ := le_of_freeOffset hlast
        exact (hle found hfound).trans hlater
    rw [Group.freeOffset] at hends
    rw [Group.freeOffset, Group.freeOffset]
    generalize group.nextOffset element memory buf currentoffset = first
      at hresult hafter hends ⊢
    generalize group.nextOffset element other buf currentoffset = second
      at hresult hafter ⊢
    obtain ⟨after, result⟩ := first
    obtain ⟨after', result'⟩ := second
    dsimp only at hresult hafter
    subst hresult
    cases result with
    | none => exact ⟨rfl, hafter⟩
    | some offset =>
      dsimp only at hends ⊢
      split
      · rename_i htaken
        rw [if_pos htaken] at hends
        exact ih hafter hends
      · exact ⟨rfl, hafter⟩

/-- The string tests that place the elements from one on, each up to the
offset that the element gets, do not run over the end of the block. -/
def TestsEndInside (group : Group) (original : Memory) (buf : ℤ) :
    List Element → List ℕ → Memory → Prop
  | [], _, _ => True
  | element :: rest, taken, memory =>
    let result := group.freeOffset element buf taken (group.blocksize + 1)
      memory 0
    (∀ offset < group.blocksize, (∀ last ∈ result.2, offset ≤ last) →
      element.EndsInside group.blocksize original buf offset) ∧
      ∀ last ∈ result.2,
        TestsEndInside group original buf rest (taken ++ [last]) result.1

theorem Related.placeFrom {elements : List Element}
    (hrelated : Related group original buf memory other)
    (hmem : ∀ element ∈ elements, element ∈ group.elements) {taken : List ℕ}
    (hends : TestsEndInside group original buf elements taken memory) :
    (group.placeFrom buf elements taken memory).2 =
      (group.placeFrom buf elements taken other).2 := by
  induction elements generalizing memory other taken with
  | nil => rfl
  | cons element rest ih =>
    rw [forall_mem_cons] at hmem
    obtain ⟨hfirst, hrest⟩ := hends
    obtain ⟨hresult, hafter⟩ := hrelated.freeOffset hmem.1 hfirst
    rw [Group.placeFrom, Group.placeFrom]
    generalize group.freeOffset element buf taken (group.blocksize + 1)
      memory 0 = first at hresult hafter hrest ⊢
    generalize group.freeOffset element buf taken (group.blocksize + 1)
      other 0 = second at hresult hafter ⊢
    obtain ⟨after, result⟩ := first
    obtain ⟨after', result'⟩ := second
    dsimp only at hresult hafter
    subst hresult
    cases result with
    | none => rfl
    | some offset => exact ih hafter hmem.2 (hrest offset rfl)

theorem Related.compareblock_outoforder
    (hrelated : Related group original buf memory other)
    (hends : TestsEndInside group original buf group.elements [] memory) :
    (group.compareblock_outoforder memory buf).2 =
      (group.compareblock_outoforder other buf).2 := by
  have hplaced := hrelated.placeFrom (fun _ hmem => hmem) hends
  unfold Group.compareblock_outoforder
  simp only [hplaced]

end

/-! ## All blocks of a buffer -/

namespace Group

variable (group : Group)

/-- The block at the address is tested as if it was the first one, and the
tests do not depend on what is outside of it. -/
def Undisturbed (original current : Memory) (address : ℤ) : Prop :=
  if group.outoforder then
    ((∃ element ∈ group.elements, element.vartype ≠ .vtString) →
      ∀ index : ℕ, index < group.blocksize →
        current (address + index) = original (address + index)) ∧
    TestsEndInside group original address group.elements [] original
  else
    UndisturbedFrom address (address + group.blocksize) group.elements
      address original current

variable {group} {original current other : Memory} {address : ℤ}

theorem Undisturbed.result_eq
    (hclear : group.Undisturbed original current address)
    (hraised : Raised original current) :
    (group.CheckRoutine current address).2 =
      (group.CheckRoutine original address).2 := by
  unfold Undisturbed at hclear
  unfold CheckRoutine
  split at hclear
  · rename_i hmode
    obtain ⟨hexact, hends⟩ := hclear
    have hrelated : Related group original address original current :=
      ⟨fun hother index hindex => (hexact hother index hindex).symm,
        fun index _ => (hraised.upperCase_eq _).symm, Raised.refl original⟩
    rw [if_pos hmode, if_pos hmode]
    dsimp only
    rw [hrelated.compareblock_outoforder hends]
  · rename_i hmode
    rw [if_neg hmode, if_neg hmode]
    exact compareFrom_undisturbed hclear hraised.upperCase_eq

theorem Undisturbed.block_eq
    (hclear : group.Undisturbed original current address)
    (hblock : ∀ index : ℕ, index < group.blocksize →
      original (address + index) = other (address + index)) :
    (group.CheckRoutine original address).2 =
      (group.CheckRoutine other address).2 := by
  unfold Undisturbed at hclear
  unfold CheckRoutine
  split at hclear
  · rename_i hmode
    have hrelated : Related group original address original other :=
      ⟨fun _ => hblock, fun index hindex => by rw [hblock index hindex],
        Raised.refl original⟩
    rw [if_pos hmode, if_pos hmode]
    dsimp only
    rw [hrelated.compareblock_outoforder hclear.2]
  · rename_i hmode
    rw [if_neg hmode, if_neg hmode]
    refine compareFrom_block hclear fun other hbase hstop => ?_
    have heq := hblock (other - address).toNat (by omega)
    rw [Int.toNat_of_nonneg (by omega), add_sub_cancel] at heq
    exact heq

end Group

/-- The addresses that `FirstScanmem` finds, `count` blocks from `p` on. -/
def FirstScanmem (group : Group) (inverseScan : Bool) (stepsize : ℤ) :
    ℕ → ℤ → Memory → List ℤ
  | 0, _, _ => []
  | count + 1, p, buffer =>
    let result := group.CheckRoutine buffer p
    let later := FirstScanmem group inverseScan stepsize count
      (p + stepsize) result.1
    if result.2 ^^ inverseScan then p :: later else later

def bufferAfter (group : Group) (stepsize : ℤ) : ℕ → ℤ → Memory → Memory
  | 0, _, buffer => buffer
  | count + 1, p, buffer =>
    bufferAfter group stepsize count (p + stepsize)
      (group.CheckRoutine buffer p).1

section

variable {group : Group} {inverseScan : Bool} {stepsize : ℤ}

theorem bufferAfter_raised (count : ℕ) (p : ℤ) (buffer : Memory) :
    Raised buffer (bufferAfter group stepsize count p buffer) := by
  induction count generalizing p buffer with
  | zero => exact Raised.refl buffer
  | succ count ih =>
    exact (group.CheckRoutine_raised buffer p).trans (ih _ _)

theorem le_of_mem_FirstScanmem (hstep : 0 < stepsize) {count : ℕ} {p : ℤ}
    {buffer : Memory} {address : ℤ}
    (hmem : address ∈ FirstScanmem group inverseScan stepsize count p buffer) :
    p ≤ address := by
  induction count generalizing p buffer with
  | zero => cases hmem
  | succ count ih =>
    rw [FirstScanmem] at hmem
    split at hmem
    · rcases mem_cons.mp hmem with rfl | hlater
      · exact le_rfl
      · have hle := ih hlater
        omega
    · have hle := ih hmem
      omega

theorem mem_FirstScanmem_iff (hstep : 0 < stepsize) {count index : ℕ}
    (hindex : index < count) (p : ℤ) (buffer : Memory) :
    p + index * stepsize ∈
        FirstScanmem group inverseScan stepsize count p buffer ↔
      ((group.CheckRoutine (bufferAfter group stepsize index p buffer)
        (p + index * stepsize)).2 ^^ inverseScan) = true := by
  induction count generalizing index p buffer with
  | zero => omega
  | succ count ih =>
    rw [FirstScanmem]
    cases index with
    | zero =>
      rw [bufferAfter, Nat.cast_zero, zero_mul, add_zero]
      split
      · rename_i hfound
        exact iff_of_true (mem_cons_self ..) hfound
      · rename_i hother
        refine iff_of_false (fun hmem => ?_) hother
        have hle := le_of_mem_FirstScanmem hstep hmem
        omega
    | succ index =>
      have hnext : p + (index + 1 : ℕ) * stepsize =
          p + stepsize + index * stepsize := by
        push_cast
        ring
      have hpos : 0 ≤ (index : ℤ) * stepsize := by positivity
      have hne : p + stepsize + index * stepsize ≠ p := by omega
      rw [hnext, bufferAfter, ← ih (Nat.lt_of_succ_lt_succ hindex)]
      split
      · rw [mem_cons, or_iff_right hne]
      · rfl

end

/-- What is read into a buffer, and the blocks in it. -/
structure BufferScan where
  memory : Memory
  first : ℤ
  count : ℕ

namespace BufferScan

variable (scan : BufferScan) (group : Group) (inverseScan : Bool)
  (stepsize : ℤ)

def found : List ℤ :=
  FirstScanmem group inverseScan stepsize scan.count scan.first scan.memory

def bufferAt (index : ℕ) : Memory :=
  bufferAfter group stepsize index scan.first scan.memory

end BufferScan

/-- Two scans that have the same bytes in the block at an address, each with
any bytes and any blocks before it, find the address both or neither, when the
tests of the block are not disturbed. -/
theorem found_iff {group : Group} {inverseScan : Bool} {stepsize : ℤ}
    (hstep : 0 < stepsize) {scan other : BufferScan} {index place : ℕ}
    {address : ℤ} (hindex : index < scan.count) (hplace : place < other.count)
    (hscan : address = scan.first + index * stepsize)
    (hother : address = other.first + place * stepsize)
    (hblock : ∀ offset : ℕ, offset < group.blocksize →
      scan.memory (address + offset) = other.memory (address + offset))
    (hclear : group.Undisturbed scan.memory
      (scan.bufferAt group stepsize index) address)
    (hclear' : group.Undisturbed other.memory
      (other.bufferAt group stepsize place) address) :
    address ∈ scan.found group inverseScan stepsize ↔
      address ∈ other.found group inverseScan stepsize := by
  unfold BufferScan.bufferAt at hclear hclear'
  have hresult := hclear.result_eq (bufferAfter_raised _ _ _)
  have hresult' := hclear'.result_eq (bufferAfter_raised _ _ _)
  have hsame := hclear.block_eq hblock
  have hleft := @mem_FirstScanmem_iff group inverseScan _ hstep _ _ hindex
    scan.first scan.memory
  have hright := @mem_FirstScanmem_iff group inverseScan _ hstep _ _ hplace
    other.first other.memory
  rw [← hscan, hresult] at hleft
  rw [← hother, hresult', ← hsame] at hright
  exact hleft.trans hright.symm

def byteAndString : Group where
  elements :=
    [{ wildcard := false, vartype := .vtByte, valuei := 97,
       accepts := fun _ => false, value := [], widevalue := [], bytesize := 1,
       value_le := by decide, widevalue_le := by decide },
     { wildcard := false, vartype := .vtString, valuei := 0,
       accepts := fun _ => false, value := [65], widevalue := [],
       bytesize := 1, value_le := by decide, widevalue_le := by decide }]
  blocksize := 2
  outoforder := false
  outoforder_aligned := false
  floatscanWithoutExponents := false
  wildcards := by decide

def fromZero (byte : UInt8) : BufferScan where
  memory := fun address => if address = 0 then byte else 97
  first := 0
  count := 2

def fromOne : BufferScan where
  memory := fun _ => 97
  first := 1
  count := 1

theorem found_byteAndString :
    (1 : ℤ) ∈ (fromZero 0).found byteAndString false 1 ↔
      (1 : ℤ) ∈ fromOne.found byteAndString false 1 := by
  have hclear : ∀ original current : Memory, current 1 = original 1 →
      byteAndString.Undisturbed original current 1 := by
    intro original current hsame
    rw [Group.Undisturbed, if_neg (by decide)]
    refine ⟨fun _ => ⟨by decide, by decide, ?_⟩, fun _ =>
      ⟨fun _ => ⟨by decide, by decide, trivial⟩, fun _ => trivial⟩⟩
    intro index hindex
    obtain rfl : index = 0 := Nat.lt_one_iff.mp hindex
    exact hsame
  exact @found_iff byteAndString false 1 (by decide) (fromZero 0) fromOne 1 0
    1 (by decide) (by decide) (by decide) (by decide) (by decide)
    (hclear _ _ (by decide)) (hclear _ _ (by decide))

theorem not_found_iff :
    ¬ ((1 : ℤ) ∈ (fromZero 97).found byteAndString false 1 ↔
      (1 : ℤ) ∈ fromOne.found byteAndString false 1) := by
  decide

end GroupScan
end CheatEngine
