import Mathlib.Tactic

/-!
# The index of the mnemonics

The table of the assembler is found through the first two letters.  The index
of every first letter is filled at start-up, with an index of its own for the
second letters.
-/

namespace CheatEngine
namespace MnemonicIndex

def scan (hit stop : ℕ → Prop) [DecidablePred hit] [DecidablePred stop]
    (lo hi : ℕ) : Option ℕ :=
  ((List.range' lo (hi + 1 - lo)).find? fun k => hit k ∨ stop k).filter
    fun k => hit k

section

variable {hit stop : ℕ → Prop} [DecidablePred hit] [DecidablePred stop]
  {lo hi k : ℕ}

theorem scan_eq_some_iff :
    scan hit stop lo hi = some k ↔
      (lo ≤ k ∧ k ≤ hi) ∧ hit k ∧
        ∀ j, lo ≤ j → j < k → ¬ hit j ∧ ¬ stop j := by
  simp only [scan, Option.filter_eq_some_iff, List.find?_range'_eq_some,
    decide_eq_true_eq, List.mem_range'_1, Bool.not_eq_true',
    decide_eq_false_iff_not, not_or]
  constructor
  · rintro ⟨⟨-, hrange, hbefore⟩, hhit⟩
    exact ⟨⟨hrange.1, by omega⟩, hhit, hbefore⟩
  · rintro ⟨hrange, hhit, hbefore⟩
    exact ⟨⟨Or.inl hhit, ⟨hrange.1, by omega⟩, hbefore⟩, hhit⟩

theorem exists_scan (hlo : lo ≤ k) (hhi : k ≤ hi) (hhit : hit k)
    (hstop : ∀ j, lo ≤ j → j < k → ¬ stop j) :
    ∃ j ≤ k, scan hit stop lo hi = some j := by
  have hexists : ∃ j, lo ≤ j ∧ hit j := ⟨k, hlo, hhit⟩
  have hle := Nat.find_min' hexists ⟨hlo, hhit⟩
  obtain ⟨hfirst, hfound⟩ := Nat.find_spec hexists
  refine ⟨Nat.find hexists, hle, scan_eq_some_iff.mpr
    ⟨⟨hfirst, hle.trans hhi⟩, hfound, fun j hj hlt => ?_⟩⟩
  exact ⟨fun h => Nat.find_min hexists hlt ⟨hj, h⟩,
    hstop j hj (hlt.trans_le hle)⟩

theorem scan_start {first : ℕ} (hle : first ≤ lo)
    (hbelow : ∀ j, first ≤ j → j < lo → ¬ hit j ∧ ¬ stop j) :
    scan hit stop lo hi = scan hit stop first hi := by
  ext k
  simp only [scan_eq_some_iff]
  constructor
  · rintro ⟨hrange, hhit, hbefore⟩
    refine ⟨⟨hle.trans hrange.1, hrange.2⟩, hhit, fun j hfirst hlt => ?_⟩
    rcases lt_or_ge j lo with hlow | hhigh
    · exact hbelow j hfirst hlow
    · exact hbefore j hhigh hlt
  · rintro ⟨hrange, hhit, hbefore⟩
    refine ⟨⟨?_, hrange.2⟩, hhit, fun j hlo hlt =>
      hbefore j (hle.trans hlo) hlt⟩
    by_contra hlow
    exact (hbelow k hrange.1 (not_le.mp hlow)).1 hhit

end

/-! ## Filling an index -/

/-- -1 is `none`. -/
structure TIndex where
  startentry : Option ℕ
  NextEntry : Option ℕ

structure Filling where
  index : ℕ → TIndex
  lastindex : Option ℕ
  lastentry : ℕ

def setNextEntry (index : ℕ → TIndex) (entry : ℕ) :
    Option ℕ → ℕ → TIndex
  | none => index
  | some lastindex =>
    Function.update index lastindex
      { index lastindex with NextEntry := some entry }

def fill (start : ℕ → ℕ → Option ℕ) (lastentry : ℕ) : ℕ → Filling
  | 0 => ⟨fun _ => ⟨none, none⟩, none, lastentry⟩
  | i + 1 =>
    let filling := fill start lastentry i
    match start filling.lastentry i with
    | none => filling
    | some entry =>
      ⟨Function.update (setNextEntry filling.index entry
        filling.lastindex) i ⟨some entry, none⟩, some i, entry⟩

/-- The next entry of `i` is the first start behind it. -/
inductive IsNext (starts : ℕ → Option ℕ) (i n : ℕ) : Option ℕ → Prop
  | last (hbehind : ∀ j, i < j → j < n → starts j = none) :
      IsNext starts i n none
  | before (j entry : ℕ) (hrange : i < j ∧ j < n)
      (hstart : starts j = some entry)
      (hbetween : ∀ k, i < k → k < j → starts k = none) :
      IsNext starts i n (some entry)

structure Filled (starts : ℕ → Option ℕ) (first n : ℕ)
    (filling : Filling) : Prop where
  startentry : ∀ i, (filling.index i).startentry =
    if i < n then starts i else none
  empty : filling.lastindex = none →
    filling.lastentry = first ∧ ∀ j < n, starts j = none
  last : ∀ i, filling.lastindex = some i →
    i < n ∧ starts i = some filling.lastentry ∧
      (filling.index i).NextEntry = none ∧
      ∀ j, i < j → j < n → starts j = none
  next : ∀ i < n, starts i ≠ none →
    IsNext starts i n (filling.index i).NextEntry

section

variable {starts : ℕ → Option ℕ} {first n : ℕ}

theorem isNext_succ_none {i : ℕ} {next : Option ℕ}
    (hnone : starts n = none) (hnext : IsNext starts i n next) :
    IsNext starts i (n + 1) next := by
  cases hnext with
  | last hbehind =>
    refine .last fun j hlow hhigh => ?_
    rcases Nat.lt_succ_iff_lt_or_eq.mp hhigh with hlt | rfl
    · exact hbehind j hlow hlt
    · exact hnone
  | before j entry hrange hstart hbetween =>
    exact .before j entry ⟨hrange.1, Nat.lt_succ_of_lt hrange.2⟩ hstart
      hbetween

theorem Filled.succ_none {filling : Filling}
    (hfilled : Filled starts first n filling) (hnone : starts n = none) :
    Filled starts first (n + 1) filling := by
  have hall : ∀ {i}, (∀ j, i < j → j < n → starts j = none) →
      ∀ j, i < j → j < n + 1 → starts j = none := by
    intro i hbelow j hlow hhigh
    rcases Nat.lt_succ_iff_lt_or_eq.mp hhigh with hlt | rfl
    · exact hbelow j hlow hlt
    · exact hnone
  constructor
  · intro i
    rw [hfilled.startentry]
    rcases lt_trichotomy i n with hlt | rfl | hgt
    · rw [if_pos hlt, if_pos (Nat.lt_succ_of_lt hlt)]
    · rw [if_neg (lt_irrefl i), if_pos (Nat.lt_succ_self i), hnone]
    · rw [if_neg (by omega), if_neg (by omega)]
  · intro hlast
    refine ⟨(hfilled.empty hlast).1, fun j hlt => ?_⟩
    rcases Nat.lt_succ_iff_lt_or_eq.mp hlt with hbelow | rfl
    · exact (hfilled.empty hlast).2 j hbelow
    · exact hnone
  · intro i hlast
    obtain ⟨hlt, hstart, hnext, hbehind⟩ := hfilled.last i hlast
    exact ⟨Nat.lt_succ_of_lt hlt, hstart, hnext, hall hbehind⟩
  · intro i hlt hstart
    rcases Nat.lt_succ_iff_lt_or_eq.mp hlt with hbelow | rfl
    · exact isNext_succ_none hnone (hfilled.next i hbelow hstart)
    · exact absurd hnone hstart

theorem Filled.succ_some {filling : Filling} {entry : ℕ}
    (hfilled : Filled starts first n filling) (hsome : starts n = some entry) :
    Filled starts first (n + 1)
      ⟨Function.update (setNextEntry filling.index entry
        filling.lastindex) n ⟨some entry, none⟩, some n, entry⟩ := by
  have hkept : ∀ i, (setNextEntry filling.index entry filling.lastindex
      i).startentry = (filling.index i).startentry := by
    intro i
    cases hlast : filling.lastindex with
    | none => rfl
    | some l =>
      by_cases hl : i = l
      · subst hl
        simp [setNextEntry]
      · simp [setNextEntry, hl]
  constructor
  · intro i
    rcases eq_or_ne i n with rfl | hne
    · simp [hsome]
    · simp only [Function.update_of_ne hne, hkept, hfilled.startentry]
      rcases lt_or_gt_of_ne hne with hlt | hgt
      · rw [if_pos hlt, if_pos (Nat.lt_succ_of_lt hlt)]
      · rw [if_neg (by omega), if_neg (by omega)]
  · exact fun hlast => absurd hlast (Option.some_ne_none n)
  · rintro i ⟨⟩
    exact ⟨Nat.lt_succ_self n, hsome, by simp, fun j hlow hhigh => by omega⟩
  · intro i hlt hstart
    rcases Nat.lt_succ_iff_lt_or_eq.mp hlt with hbelow | rfl
    · simp only [Function.update_of_ne hbelow.ne]
      cases hlast : filling.lastindex with
      | none =>
        exact absurd ((hfilled.empty hlast).2 i hbelow) hstart
      | some l =>
        obtain ⟨hl, hlstart, -, hbehind⟩ := hfilled.last l hlast
        rcases eq_or_ne i l with rfl | hne
        · simp only [setNextEntry, Function.update_self]
          exact .before n entry ⟨hbelow, Nat.lt_succ_self n⟩ hsome hbehind
        · simp only [setNextEntry, Function.update_of_ne hne]
          have hnext := hfilled.next i hbelow hstart
          generalize (filling.index i).NextEntry = next at hnext
          cases hnext with
          | last hnone =>
            rcases lt_or_gt_of_ne hne with hil | hli
            · rw [hnone l hil hl] at hlstart
              cases hlstart
            · exact absurd (hbehind i hli hbelow) hstart
          | before j later hrange hj hbetween =>
            exact .before j later ⟨hrange.1, Nat.lt_succ_of_lt hrange.2⟩ hj
              hbetween
    · simp only [Function.update_self]
      exact .last fun j hlow hhigh => by omega

/-- The scans may rely on what was filled before them. -/
theorem filled_fill {start : ℕ → ℕ → Option ℕ}
    (hstart : ∀ i filling, Filled starts first i filling →
      start filling.lastentry i = starts i) :
    Filled starts first n (fill start first n) := by
  induction n with
  | zero =>
    refine ⟨fun i => ?_, fun _ => ⟨rfl, fun j hlt => absurd hlt
      (Nat.not_lt_zero j)⟩, ?_, fun i hlt => absurd hlt (Nat.not_lt_zero i)⟩
    · rw [if_neg (Nat.not_lt_zero i)]
      rfl
    · exact fun i hlast => by cases hlast
  | succ n ih =>
    simp only [fill, hstart n _ ih]
    cases hentry : starts n with
    | none => exact ih.succ_none hentry
    | some entry => exact ih.succ_some hentry

end

abbrev Text := List Char

def first (mnemonic : Text) : ℕ := (mnemonic.getD 0 (Char.ofNat 0)).toNat

/-- Behind a text of one letter there is a zero. -/
def second (mnemonic : Text) : ℕ := (mnemonic.getD 1 (Char.ofNat 0)).toNat

def letter (i : ℕ) : ℕ := 'A'.toNat + i

def IsLetter (ord : ℕ) : Prop := letter 0 ≤ ord ∧ ord ≤ letter 25

instance (ord : ℕ) : Decidable (IsLetter ord) :=
  inferInstanceAs (Decidable (_ ∧ _))

structure Opcodes where
  opcodecount : ℕ
  mnemonic : ℕ → Text
  isLetter_first : ∀ k, 1 ≤ k → k ≤ opcodecount →
    IsLetter (first (mnemonic k))
  uppercase : ∀ k, (mnemonic k).map Char.toUpper = mnemonic k

section

variable (opcodes : Opcodes)

def startentry (lastentry i : ℕ) : Option ℕ :=
  scan (fun j => first (opcodes.mnemonic j) = letter i)
    (fun j => first (opcodes.mnemonic j) > letter i) lastentry
    opcodes.opcodecount

def firstIndex : ℕ → TIndex :=
  let index := (fill (startentry opcodes) 1 26).index
  if (index 25).startentry = none then index
  else Function.update index 25
    { index 25 with NextEntry := some opcodes.opcodecount }

def NextEntry (i : ℕ) : ℕ :=
  (firstIndex opcodes i).NextEntry.getD (opcodes.opcodecount + 1)

def subentry (start next j : ℕ) : Option ℕ :=
  scan (fun k => second (opcodes.mnemonic k) = letter j) (fun _ => False)
    start (next - 1)

def SubIndex (start next : ℕ) : ℕ → TIndex :=
  (fill (fun _ => subentry opcodes start next) 1 26).index

def bestindex (opcode : Text) : Option (ℕ × ℕ) :=
  let index1 := first opcode - letter 0
  (firstIndex opcodes index1).startentry.bind fun start =>
    let next := NextEntry opcodes index1
    if IsLetter (second opcode) then
      let index := SubIndex opcodes start next (second opcode - letter 0)
      index.startentry.map fun minindex =>
        (minindex, index.NextEntry.getD next)
    else some (start, next)

def searchOpcode (opcode : Text) : Option ℕ :=
  if IsLetter (first opcode) then
    (bestindex opcodes opcode).bind fun (minindex, maxindex) =>
      scan (fun i => opcodes.mnemonic i = opcode)
        (fun i => first (opcodes.mnemonic i) ≠ first opcode) minindex
        (min maxindex opcodes.opcodecount)
  else none

def GetOpcodesIndex (opcode : Text) : Option ℕ :=
  searchOpcode opcodes (opcode.map Char.toUpper)

end

section

variable {opcodes : Opcodes}

def firstStart (opcodes : Opcodes) (i : ℕ) : Option ℕ :=
  startentry opcodes 1 i

variable {i k : ℕ} {opcode : Text}

theorem firstStart_eq_some_iff :
    firstStart opcodes i = some k ↔
      (1 ≤ k ∧ k ≤ opcodes.opcodecount) ∧
        first (opcodes.mnemonic k) = letter i ∧
        ∀ j, 1 ≤ j → j < k → first (opcodes.mnemonic j) < letter i := by
  refine scan_eq_some_iff.trans (and_congr_right fun _ =>
    and_congr_right fun _ => ?_)
  exact forall₃_congr fun j _ _ => by omega

theorem filled_first (opcodes : Opcodes) :
    Filled (firstStart opcodes) 1 26
      (fill (startentry opcodes) 1 26) := by
  apply filled_fill
  intro i filling hfilled
  cases hlast : filling.lastindex with
  | none => rw [(hfilled.empty hlast).1, firstStart]
  | some l =>
    obtain ⟨hlt, hstart, -, -⟩ := hfilled.last l hlast
    obtain ⟨hrange, hletter, hbefore⟩ := firstStart_eq_some_iff.mp hstart
    have hless : letter l < letter i := Nat.add_lt_add_left hlt _
    refine scan_start hrange.1 fun j hfirst hbelow => ?_
    have hj := hbefore j hfirst hbelow
    constructor <;> omega

theorem firstIndex_startentry (hlt : i < 26) :
    (firstIndex opcodes i).startentry = firstStart opcodes i := by
  have hstart := (filled_first opcodes).startentry
  simp only [firstIndex]
  split_ifs with hlast
  · rw [hstart, if_pos hlt]
  · rcases eq_or_ne i 25 with rfl | hne
    · simp only [Function.update_self]
      rw [hstart, if_pos hlt]
    · rw [Function.update_of_ne hne, hstart, if_pos hlt]

theorem nextEntry_cases {i : ℕ} (hlt : i < 25)
    (hstart : firstStart opcodes i ≠ none) :
    (∃ j, (i < j ∧ j < 26) ∧
      firstStart opcodes j = some (NextEntry opcodes i) ∧
      ∀ k, i < k → k < j → firstStart opcodes k = none) ∨
    NextEntry opcodes i = opcodes.opcodecount + 1 ∧
      ∀ j, i < j → j < 26 → firstStart opcodes j = none := by
  have hnext := (filled_first opcodes).next i (by omega) hstart
  have hindex : firstIndex opcodes i =
      (fill (startentry opcodes) 1 26).index i := by
    simp only [firstIndex]
    split_ifs with hlast
    · rfl
    · rw [Function.update_of_ne hlt.ne]
  rw [NextEntry, hindex]
  generalize ((fill (startentry opcodes) 1 26).index i).NextEntry = entry
    at hnext
  cases hnext with
  | last hbehind => exact Or.inr ⟨rfl, hbehind⟩
  | before j entry hrange hj hbetween =>
    exact Or.inl ⟨j, hrange, hj, hbetween⟩

theorem nextEntry_Z (hstart : firstStart opcodes 25 ≠ none) :
    NextEntry opcodes 25 = opcodes.opcodecount := by
  have hindex := (filled_first opcodes).startentry 25
  rw [if_pos (by decide)] at hindex
  rw [NextEntry, firstIndex]
  simp only
  rw [if_neg (hindex ▸ hstart)]
  simp

theorem filled_second (opcodes : Opcodes) (start next : ℕ) :
    Filled (subentry opcodes start next) 1 26
      (fill (fun _ => subentry opcodes start next) 1 26) :=
  filled_fill fun _ _ _ => rfl


def firstPosition (opcodes : Opcodes) (opcode : Text) : Option ℕ :=
  (List.range' 1 opcodes.opcodecount).find? fun k =>
    opcodes.mnemonic k = opcode

structure Contiguous (opcodes : Opcodes) : Prop where
  firstLetters : ∀ i j k, 1 ≤ i → i < j → j < k → k ≤ opcodes.opcodecount →
    first (opcodes.mnemonic i) = first (opcodes.mnemonic k) →
    first (opcodes.mnemonic j) = first (opcodes.mnemonic i)
  secondLetters : ∀ i j k, 1 ≤ i → i < j → j < k → k ≤ opcodes.opcodecount →
    first (opcodes.mnemonic i) = first (opcodes.mnemonic k) →
    IsLetter (second (opcodes.mnemonic i)) →
    second (opcodes.mnemonic i) = second (opcodes.mnemonic k) →
    second (opcodes.mnemonic j) = second (opcodes.mnemonic i)

def FirstAscending (opcodes : Opcodes) : Prop :=
  ∀ j k, 1 ≤ j → j < k → k ≤ opcodes.opcodecount →
    first (opcodes.mnemonic j) ≤ first (opcodes.mnemonic k)

def SecondAscending (opcodes : Opcodes) : Prop :=
  ∀ j k, 1 ≤ j → j < k → k ≤ opcodes.opcodecount →
    first (opcodes.mnemonic j) = first (opcodes.mnemonic k) →
    IsLetter (second (opcodes.mnemonic j)) →
    IsLetter (second (opcodes.mnemonic k)) →
    second (opcodes.mnemonic j) ≤ second (opcodes.mnemonic k)

/-- The first with Z and its second letter, at the end of the table. -/
def LastOfZ (opcodes : Opcodes) (opcode : Text) : Prop :=
  1 ≤ opcodes.opcodecount ∧
    opcodes.mnemonic opcodes.opcodecount = opcode ∧
    first opcode = letter 25 ∧ IsLetter (second opcode) ∧
    ∀ k, 1 ≤ k → k < opcodes.opcodecount →
      first (opcodes.mnemonic k) = letter 25 →
      second (opcodes.mnemonic k) ≠ second opcode

theorem firstPosition_eq_some_iff :
    firstPosition opcodes opcode = some k ↔
      (1 ≤ k ∧ k ≤ opcodes.opcodecount) ∧ opcodes.mnemonic k = opcode ∧
        ∀ j, 1 ≤ j → j < k → opcodes.mnemonic j ≠ opcode := by
  simp only [firstPosition, List.find?_range'_eq_some, decide_eq_true_eq,
    List.mem_range'_1, Bool.not_eq_true', decide_eq_false_iff_not]
  constructor
  · rintro ⟨hhit, hrange, hbefore⟩
    exact ⟨⟨hrange.1, by omega⟩, hhit, hbefore⟩
  · rintro ⟨hrange, hhit, hbefore⟩
    exact ⟨hhit, ⟨hrange.1, by omega⟩, hbefore⟩

theorem exists_firstPosition (hlow : 1 ≤ k) (hhigh : k ≤ opcodes.opcodecount) :
    ∃ p ≤ k, firstPosition opcodes (opcodes.mnemonic k) = some p := by
  obtain ⟨p, hle, hscan⟩ := @exists_scan
    (fun j => opcodes.mnemonic j = opcodes.mnemonic k) (fun _ => False) _ _
    _ _ _ hlow hhigh rfl (by simp)
  obtain ⟨hrange, hhit, hbefore⟩ := scan_eq_some_iff.mp hscan
  exact ⟨p, hle, firstPosition_eq_some_iff.mpr
    ⟨hrange, hhit, fun j hj hlt => (hbefore j hj hlt).1⟩⟩

theorem exists_letter {ord : ℕ} (hletter : IsLetter ord) :
    ∃ i < 26, letter i = ord ∧ ord - letter 0 = i := by
  obtain ⟨hlow, hhigh⟩ := hletter
  unfold letter at *
  exact ⟨ord - ('A'.toNat + 0), by omega, by omega, rfl⟩

theorem letter_inj {j : ℕ} (hsame : letter i = letter j) : i = j :=
  Nat.add_left_cancel hsame

theorem firstStart_le (hfirst : FirstAscending opcodes) (hlow : 1 ≤ k)
    (hhigh : k ≤ opcodes.opcodecount)
    (hletter : first (opcodes.mnemonic k) = letter i) :
    ∃ start ≤ k, firstStart opcodes i = some start := by
  refine exists_scan hlow hhigh hletter fun j hj hlt => ?_
  have hle := hfirst j k hj hlt hhigh
  omega

variable {start : ℕ}

theorem le_nextEntry (hfirst : FirstAscending opcodes) (hlt : i < 26)
    (hstart : firstStart opcodes i = some start)
    (hhigh : k ≤ opcodes.opcodecount)
    (hletter : first (opcodes.mnemonic k) = letter i) :
    k ≤ NextEntry opcodes i ∧ (k = NextEntry opcodes i →
      i = 25 ∧ k = opcodes.opcodecount) := by
  have hsome : firstStart opcodes i ≠ none := by simp [hstart]
  rcases eq_or_ne i 25 with rfl | hne
  · rw [nextEntry_Z hsome]
    exact ⟨hhigh, fun heq => ⟨rfl, heq⟩⟩
  · rcases nextEntry_cases (by omega) hsome with
      ⟨j, hj, hnext, -⟩ | ⟨hend, -⟩
    · obtain ⟨hrange, hnextLetter, -⟩ := firstStart_eq_some_iff.mp hnext
      have hless : letter i < letter j := Nat.add_lt_add_left hj.1 _
      have hbelow : k < NextEntry opcodes i := by
        by_contra hge
        rcases eq_or_lt_of_le (not_lt.mp hge) with heq | hgt
        · rw [heq] at hnextLetter
          omega
        · have hle := hfirst _ k hrange.1 hgt hhigh
          omega
      exact ⟨hbelow.le, fun heq => absurd heq hbelow.ne⟩
    · omega

theorem first_of_lt_nextEntry (hfirst : FirstAscending opcodes)
    (hlt : i < 26) (hstart : firstStart opcodes i = some start)
    (hlow : start ≤ k) (hhigh : k ≤ opcodes.opcodecount)
    (hnext : k < NextEntry opcodes i) :
    first (opcodes.mnemonic k) = letter i := by
  have hsome : firstStart opcodes i ≠ none := by simp [hstart]
  obtain ⟨hrange, hletter, -⟩ := firstStart_eq_some_iff.mp hstart
  rcases eq_or_lt_of_le hlow with rfl | hgt
  · exact hletter
  have hle := hfirst start k hrange.1 hgt hhigh
  obtain ⟨l, hl, hkl, -⟩ := exists_letter
    (opcodes.isLetter_first k (hrange.1.trans hlow) hhigh)
  obtain ⟨s, -, hs⟩ :=
    firstStart_le hfirst (hrange.1.trans hlow) hhigh hkl.symm
  rcases lt_trichotomy l i with hless | rfl | hless
  · have hletters : letter l < letter i := Nat.add_lt_add_left hless _
    omega
  · exact hkl.symm
  · exfalso
    rcases nextEntry_cases (by omega) hsome with
      ⟨j, hj, hentry, hbetween⟩ | ⟨-, hbehind⟩
    · rcases lt_or_ge l j with hlj | hjl
      · rw [hbetween l hless hlj] at hs
        cases hs
      · have hbefore := (firstStart_eq_some_iff.mp hentry).2.2 k
          (hrange.1.trans hlow) hnext
        have hletters : letter j ≤ letter l := Nat.add_le_add_left hjl _
        omega
    · rw [hbehind l hless hl] at hs
      cases hs

theorem subentry_eq_some_iff {next j : ℕ} (hnext : 1 ≤ next) :
    subentry opcodes start next j = some k ↔
      (start ≤ k ∧ k < next) ∧ second (opcodes.mnemonic k) = letter j ∧
        ∀ l, start ≤ l → l < k →
          second (opcodes.mnemonic l) ≠ letter j := by
  refine scan_eq_some_iff.trans ?_
  simp only [not_false_eq_true, and_true, Nat.le_sub_one_iff_lt hnext]

theorem maxindex_cases {next j : ℕ} (hj : j < 26)
    (hsome : subentry opcodes start next j ≠ none) :
    ((SubIndex opcodes start next j).NextEntry.getD next = next ∧
      ∀ l, j < l → l < 26 → subentry opcodes start next l = none) ∨
    ∃ l, (j < l ∧ l < 26) ∧
      subentry opcodes start next l =
        some ((SubIndex opcodes start next j).NextEntry.getD next) ∧
      ∀ m, j < m → m < l → subentry opcodes start next m = none := by
  have hnext : IsNext (subentry opcodes start next) j 26
      (SubIndex opcodes start next j).NextEntry :=
    (filled_second opcodes start next).next j hj hsome
  generalize (SubIndex opcodes start next j).NextEntry = entry at hnext
  cases hnext with
  | last hbehind => exact Or.inl ⟨rfl, hbehind⟩
  | before l entry hrange hl hbetween =>
    exact Or.inr ⟨l, hrange, hl, hbetween⟩

theorem bestindex_eq_some_iff {minindex maxindex : ℕ} (hi : i < 26)
    (hletter : first opcode = letter i) :
    bestindex opcodes opcode = some (minindex, maxindex) ↔
      ∃ start, firstStart opcodes i = some start ∧
        if IsLetter (second opcode) then
          subentry opcodes start (NextEntry opcodes i)
            (second opcode - letter 0) = some minindex ∧
          (SubIndex opcodes start (NextEntry opcodes i)
            (second opcode - letter 0)).NextEntry.getD
              (NextEntry opcodes i) = maxindex
        else start = minindex ∧ NextEntry opcodes i = maxindex := by
  have hindex : first opcode - letter 0 = i := by
    rw [hletter, letter, letter]
    omega
  simp only [bestindex, hindex, firstIndex_startentry hi,
    Option.bind_eq_some_iff]
  refine exists_congr fun start => and_congr_right fun _ => ?_
  by_cases hsecond : IsLetter (second opcode)
  · obtain ⟨j, hj, -, hsecondIndex⟩ := exists_letter hsecond
    have hstart := (filled_second opcodes start
      (NextEntry opcodes i)).startentry j
    rw [if_pos hj] at hstart
    simp only [if_pos hsecond, hsecondIndex, SubIndex, hstart,
      Option.map_eq_some_iff, Prod.mk.injEq]
    constructor
    · rintro ⟨entry, hentry, rfl, hmax⟩
      exact ⟨hentry, hmax⟩
    · rintro ⟨hentry, hmax⟩
      exact ⟨minindex, hentry, rfl, hmax⟩
  · simp only [if_neg hsecond, Option.some.injEq, Prod.mk.injEq]

theorem searchOpcode_eq_some_iff :
    searchOpcode opcodes opcode = some k ↔
      IsLetter (first opcode) ∧ ∃ minindex maxindex,
        bestindex opcodes opcode = some (minindex, maxindex) ∧
        scan (fun i => opcodes.mnemonic i = opcode)
          (fun i => first (opcodes.mnemonic i) ≠ first opcode) minindex
          (min maxindex opcodes.opcodecount) = some k := by
  rw [searchOpcode]
  split_ifs with hletter
  · simp [Option.bind_eq_some_iff, hletter]
  · simp [hletter]

theorem searchOpcode_mem (hsearch : searchOpcode opcodes opcode = some k) :
    ∃ i < 26, first opcode = letter i ∧ ∃ start ≤ k,
      firstStart opcodes i = some start ∧ k ≤ opcodes.opcodecount ∧
      opcodes.mnemonic k = opcode := by
  obtain ⟨hletter, minindex, maxindex, hbest, hscan⟩ :=
    searchOpcode_eq_some_iff.mp hsearch
  obtain ⟨i, hi, hfirst, -⟩ := exists_letter hletter
  obtain ⟨start, hstart, hrange⟩ :=
    (bestindex_eq_some_iff hi hfirst.symm).mp hbest
  obtain ⟨hk, hhit, -⟩ := scan_eq_some_iff.mp hscan
  have hmin : start ≤ minindex := by
    split_ifs at hrange with hsecond
    · exact (scan_eq_some_iff.mp hrange.1).1.1
    · exact hrange.1.le
  exact ⟨i, hi, hfirst.symm, start, hmin.trans hk.1, hstart,
    hk.2.trans (min_le_right _ _), hhit⟩

theorem searchOpcode_eq_none (hnone : firstPosition opcodes opcode = none) :
    searchOpcode opcodes opcode = none := by
  rw [Option.eq_none_iff_forall_ne_some]
  intro k hsearch
  obtain ⟨i, -, -, start, hle, hstart, hhigh, rfl⟩ :=
    searchOpcode_mem hsearch
  have hlow := (firstStart_eq_some_iff.mp hstart).1.1
  obtain ⟨p, -, hp⟩ := exists_firstPosition (hlow.trans hle) hhigh
  rw [hnone] at hp
  cases hp

theorem searchOpcode_of_ascending (hfirst : FirstAscending opcodes)
    (hsecond : SecondAscending opcodes) (hlast : ¬ LastOfZ opcodes opcode) :
    searchOpcode opcodes opcode = firstPosition opcodes opcode := by
  cases hposition : firstPosition opcodes opcode with
  | none => exact searchOpcode_eq_none hposition
  | some p =>
    obtain ⟨⟨hlow, hhigh⟩, rfl, hbefore⟩ :=
      firstPosition_eq_some_iff.mp hposition
    have hp := opcodes.isLetter_first p hlow hhigh
    obtain ⟨i, hi, hletter, -⟩ := exists_letter hp
    obtain ⟨start, hle, hstart⟩ :=
      firstStart_le hfirst hlow hhigh hletter.symm
    obtain ⟨hstartRange, hstartLetter, -⟩ :=
      firstStart_eq_some_iff.mp hstart
    obtain ⟨hnext, hend⟩ :=
      le_nextEntry hfirst hi hstart hhigh hletter.symm
    have hrow : ∀ l, start ≤ l → l ≤ p →
        first (opcodes.mnemonic l) = first (opcodes.mnemonic p) := by
      intro l hstartl hlp
      rcases eq_or_lt_of_le hlp with rfl | hlt
      · rfl
      rcases eq_or_lt_of_le hstartl with rfl | hgt
      · exact hstartLetter.trans hletter
      have hbelow := hfirst start l hstartRange.1 hgt (hlp.trans hhigh)
      have habove := hfirst l p (hstartRange.1.trans hstartl) hlt hhigh
      omega
    rw [searchOpcode_eq_some_iff]
    refine ⟨hp, ?_⟩
    have hscan : ∀ minindex maxindex, start ≤ minindex → minindex ≤ p →
        p ≤ maxindex →
        scan (fun i => opcodes.mnemonic i = opcodes.mnemonic p)
          (fun i => first (opcodes.mnemonic i) ≠
            first (opcodes.mnemonic p)) minindex
          (min maxindex opcodes.opcodecount) = some p := by
      intro minindex maxindex hmin hminp hmax
      refine scan_eq_some_iff.mpr ⟨⟨hminp, le_min hmax hhigh⟩, rfl, ?_⟩
      intro j hj hlt
      exact ⟨hbefore j (hstartRange.1.trans (hmin.trans hj)) hlt,
        not_not.mpr (hrow j (hmin.trans hj) hlt.le)⟩
    by_cases hsecondp : IsLetter (second (opcodes.mnemonic p))
    · obtain ⟨j, hj, hsecondLetter, hsecondIndex⟩ := exists_letter hsecondp
      have hpos : 1 ≤ NextEntry opcodes i := hlow.trans hnext
      have hentry : ∃ minindex ≤ p, subentry opcodes start
          (NextEntry opcodes i) j = some minindex := by
        rcases eq_or_lt_of_le hnext with heq | hlt
        · obtain ⟨rfl, hpcount⟩ := hend heq
          by_contra hmissing
          refine hlast ⟨hlow.trans hhigh, by rw [← hpcount],
            hletter.symm, hsecondp, ?_⟩
          intro k hk hkn hkZ hksecond
          obtain ⟨s, hs, hsstart⟩ := firstStart_le hfirst hk hkn.le hkZ
          rw [hstart] at hsstart
          cases hsstart
          obtain ⟨minindex, hmin, hfound⟩ := @exists_scan
            (fun k => second (opcodes.mnemonic k) = letter j)
            (fun _ => False) _ _ _ (NextEntry opcodes 25 - 1) _ hs
            (by omega) (hksecond.trans hsecondLetter.symm)
            (fun _ _ _ => not_false)
          exact hmissing ⟨minindex, by omega, hfound⟩
        · exact exists_scan hle (by omega) hsecondLetter.symm
            fun _ _ _ => not_false
      obtain ⟨minindex, hminp, hmin⟩ := hentry
      refine ⟨minindex, (SubIndex opcodes start (NextEntry opcodes i)
        j).NextEntry.getD (NextEntry opcodes i),
        (bestindex_eq_some_iff hi hletter.symm).mpr ⟨start, hstart, ?_⟩,
        hscan minindex _ ?_ hminp ?_⟩
      · rw [if_pos hsecondp, hsecondIndex]
        exact ⟨hmin, rfl⟩
      · exact ((subentry_eq_some_iff hpos).mp hmin).1.1
      · have hsome : subentry opcodes start (NextEntry opcodes i) j ≠
            none := by
          simp [hmin]
        rcases maxindex_cases hj hsome with ⟨hmax, -⟩ | ⟨l, hrange, hl, -⟩
        · rw [hmax]
          exact hnext
        · obtain ⟨hlrange, hlsecond, -⟩ :=
            (subentry_eq_some_iff hpos).mp hl
          by_contra hbelow
          have hlt := not_le.mp hbelow
          have hle := hsecond _ p (hstartRange.1.trans hlrange.1) hlt hhigh
            (hrow _ hlrange.1 hlt.le)
            (hlsecond ▸ ⟨Nat.add_le_add_left (Nat.zero_le l) _,
              Nat.add_le_add_left (by omega) _⟩) hsecondp
          have hless : letter j < letter l := Nat.add_lt_add_left hrange.1 _
          omega
    · refine ⟨start, _, (bestindex_eq_some_iff hi hletter.symm).mpr
        ⟨start, hstart, ?_⟩, hscan start _ le_rfl hle hnext⟩
      rw [if_neg hsecondp]
      exact ⟨rfl, rfl⟩

theorem searchOpcode_of_last (hfirst : FirstAscending opcodes)
    (hlast : LastOfZ opcodes opcode) :
    searchOpcode opcodes opcode ≠ firstPosition opcodes opcode := by
  obtain ⟨hcount, rfl, hZ, hsecondp, hbefore⟩ := hlast
  obtain ⟨p, -, hp⟩ := exists_firstPosition hcount le_rfl
  rw [hp]
  intro hsearch
  obtain ⟨-, minindex, maxindex, hbest, -⟩ :=
    searchOpcode_eq_some_iff.mp hsearch
  obtain ⟨start, hstart, hrange⟩ :=
    (bestindex_eq_some_iff (by decide) hZ).mp hbest
  rw [if_pos hsecondp, nextEntry_Z (by simp [hstart])] at hrange
  obtain ⟨j, hj, hsecondLetter, hsecondIndex⟩ := exists_letter hsecondp
  rw [hsecondIndex] at hrange
  obtain ⟨hmin, hminsecond, -⟩ :=
    (subentry_eq_some_iff hcount).mp hrange.1
  obtain ⟨hstartRange, hstartLetter, -⟩ := firstStart_eq_some_iff.mp hstart
  have hrowZ : first (opcodes.mnemonic minindex) = letter 25 := by
    rcases eq_or_lt_of_le hmin.1 with rfl | hlt
    · exact hstartLetter
    · have hle := hfirst start minindex hstartRange.1 hlt hmin.2.le
      have hletter := (opcodes.isLetter_first minindex
        (hstartRange.1.trans hmin.1) hmin.2.le).2
      omega
  exact hbefore minindex (hstartRange.1.trans hmin.1) hmin.2 hrowZ
    (hminsecond.trans hsecondLetter)

section

variable (hright : ∀ k, 1 ≤ k → k ≤ opcodes.opcodecount →
  searchOpcode opcodes (opcodes.mnemonic k) =
    firstPosition opcodes (opcodes.mnemonic k))

include hright

theorem firstAscending_of_right (hcontiguous : Contiguous opcodes) :
    FirstAscending opcodes := by
  intro j k hlow hlt hhigh
  by_contra hgreater
  obtain ⟨p, -, hp⟩ := exists_firstPosition (hlow.trans hlt.le) hhigh
  have hsearch := (hright k (hlow.trans hlt.le) hhigh).trans hp
  obtain ⟨i, -, hletter, start, -, hstart, -⟩ := searchOpcode_mem hsearch
  obtain ⟨hrange, hstartLetter, hbefore⟩ := firstStart_eq_some_iff.mp hstart
  have hle : start ≤ j := by
    by_contra hbelow
    have hless := hbefore j hlow (not_le.mp hbelow)
    omega
  rcases eq_or_lt_of_le hle with rfl | hgt
  · omega
  · have hsame := hcontiguous.firstLetters start j k hrange.1 hgt hlt hhigh
      (hstartLetter.trans hletter.symm)
    omega

theorem le_maxindex_of_right {i j start x : ℕ} (hi : i < 26)
    (hj : j < 26) (hstart : firstStart opcodes i = some start)
    (hx : subentry opcodes start (NextEntry opcodes i) j = some x)
    (hxcount : x ≤ opcodes.opcodecount)
    (hxletter : first (opcodes.mnemonic x) = letter i) :
    x ≤ (SubIndex opcodes start (NextEntry opcodes i) j).NextEntry.getD
      (NextEntry opcodes i) := by
  obtain ⟨⟨hstartx, -⟩, hsecond, -⟩ := scan_eq_some_iff.mp hx
  have hlow := (firstStart_eq_some_iff.mp hstart).1.1.trans hstartx
  obtain ⟨p, hle, hp⟩ := exists_firstPosition hlow hxcount
  obtain ⟨-, minindex, maxindex, hbest, hscan⟩ :=
    searchOpcode_eq_some_iff.mp ((hright x hlow hxcount).trans hp)
  obtain ⟨s, hs, hrange⟩ := (bestindex_eq_some_iff hi hxletter).mp hbest
  have hindex : second (opcodes.mnemonic x) - letter 0 = j := by
    rw [hsecond, letter, letter]
    omega
  rw [hstart] at hs
  cases hs
  rw [if_pos (hsecond ▸ ⟨Nat.add_le_add_left (Nat.zero_le j) _,
    Nat.add_le_add_left (by omega) _⟩), hindex, hx] at hrange
  obtain ⟨hmin, hmax⟩ := hrange
  cases hmin
  have hpx := (scan_eq_some_iff.mp hscan).1
  rw [hmax]
  exact hpx.1.trans (hpx.2.trans (min_le_left _ _))

theorem subentry_lt_of_right {i start : ℕ} (hi : i < 26)
    (hstart : firstStart opcodes i = some start)
    (hrow : ∀ j < 26, ∀ x, subentry opcodes start (NextEntry opcodes i) j =
      some x → x ≤ opcodes.opcodecount ∧
        first (opcodes.mnemonic x) = letter i) (distance : ℕ) {j l x y : ℕ}
    (hdistance : l = j + 1 + distance) (hl : l < 26)
    (hx : subentry opcodes start (NextEntry opcodes i) j = some x)
    (hy : subentry opcodes start (NextEntry opcodes i) l = some y) :
    x < y := by
  induction distance using Nat.strong_induction_on generalizing j x with
  | h distance ih =>
    have hj : j < 26 := by omega
    have hsome : subentry opcodes start (NextEntry opcodes i) j ≠ none := by
      simp [hx]
    have hle := le_maxindex_of_right hright hi hj hstart hx
      (hrow j hj x hx).1 (hrow j hj x hx).2
    rcases maxindex_cases hj hsome with
      ⟨-, hbehind⟩ | ⟨m, hm, hmax, hbetween⟩
    · rw [hbehind l (by omega) hl] at hy
      cases hy
    · generalize (SubIndex opcodes start (NextEntry opcodes i)
        j).NextEntry.getD (NextEntry opcodes i) = z at hle hmax
      have hml : m ≤ l := by
        by_contra hlm
        rw [hbetween l (by omega) (not_le.mp hlm)] at hy
        cases hy
      have hne : x ≠ z := by
        rintro rfl
        have hsame := (scan_eq_some_iff.mp hx).2.1.symm.trans
          (scan_eq_some_iff.mp hmax).2.1
        exact hm.1.ne (letter_inj hsame)
      rcases eq_or_lt_of_le hml with rfl | hlt
      · rw [hmax] at hy
        cases hy
        omega
      · have hzy := ih (l - m - 1) (by omega) (by omega) hmax
        omega

theorem secondAscending_of_right (hcontiguous : Contiguous opcodes)
    (hfirst : FirstAscending opcodes) : SecondAscending opcodes := by
  intro j k hlow hlt hhigh hsame hj hk
  by_contra hgreater
  have hklow := hlow.trans hlt.le
  obtain ⟨i, hi, hletter, -⟩ :=
    exists_letter (opcodes.isLetter_first k hklow hhigh)
  obtain ⟨start, hle, hstart⟩ := firstStart_le hfirst hlow
    (hlt.le.trans hhigh) (hsame.trans hletter.symm)
  have hstartlow := (firstStart_eq_some_iff.mp hstart).1.1
  obtain ⟨hnext, -⟩ := le_nextEntry hfirst hi hstart hhigh hletter.symm
  have hpos : 1 ≤ NextEntry opcodes i := hklow.trans hnext
  have hcount : NextEntry opcodes i ≤ opcodes.opcodecount + 1 := by
    rcases eq_or_ne i 25 with rfl | hne
    · rw [nextEntry_Z (by simp [hstart])]
      omega
    · rcases @nextEntry_cases opcodes i (by omega) (by simp [hstart]) with
        ⟨_, -, hentry, -⟩ | ⟨hend, -⟩
      · exact (firstStart_eq_some_iff.mp hentry).1.2.trans (Nat.le_succ _)
      · exact hend.le
  have hrow : ∀ j < 26, ∀ x, subentry opcodes start (NextEntry opcodes i)
      j = some x → x ≤ opcodes.opcodecount ∧
        first (opcodes.mnemonic x) = letter i := by
    intro j _ x hx
    obtain ⟨hrange, -, -⟩ := (subentry_eq_some_iff hpos).mp hx
    have hxcount : x ≤ opcodes.opcodecount := by omega
    exact ⟨hxcount, first_of_lt_nextEntry hfirst hi hstart hrange.1 hxcount
      hrange.2⟩
  obtain ⟨d, hd, hdletter, -⟩ := exists_letter hj
  obtain ⟨c, hc, hcletter, hcindex⟩ := exists_letter hk
  have hcd : c < d := by
    unfold letter at hdletter hcletter
    omega
  obtain ⟨y, hyj, hy⟩ : ∃ y ≤ j, subentry opcodes start
      (NextEntry opcodes i) d = some y :=
    exists_scan hle (by omega) hdletter.symm fun _ _ _ => not_false
  obtain ⟨p, -, hp⟩ := exists_firstPosition hklow hhigh
  obtain ⟨-, x, maxindex, hbest, -⟩ := searchOpcode_eq_some_iff.mp
    ((hright k hklow hhigh).trans hp)
  obtain ⟨s, hs, hrange⟩ := (bestindex_eq_some_iff hi hletter.symm).mp hbest
  rw [hstart] at hs
  cases hs
  rw [if_pos hk, hcindex] at hrange
  have hxy := subentry_lt_of_right hright hi hstart hrow (d - c - 1)
    (by omega) hd hrange.1 hy
  obtain ⟨hxrange, hxsecond, -⟩ :=
    (subentry_eq_some_iff hpos).mp hrange.1
  have hysecond := ((subentry_eq_some_iff hpos).mp hy).2.1
  have hagain := hcontiguous.secondLetters x y k
    (hstartlow.trans hxrange.1) hxy (by omega) hhigh
    ((hrow c hc x hrange.1).2.trans hletter)
    (hxsecond.trans hcletter ▸ hk) (hxsecond.trans hcletter)
  rw [hxsecond, hysecond] at hagain
  exact hcd.ne' (letter_inj hagain)

end

/-- Every text is found where it first stands exactly when the letters
ascend and the last mnemonic is not the first with Z and its second letter;
where they ascend, that one is all that is lost. -/
theorem getOpcodesIndex_iff (hcontiguous : Contiguous opcodes) :
    ((∀ opcode : Text, GetOpcodesIndex opcodes opcode =
        firstPosition opcodes (opcode.map Char.toUpper)) ↔
      (FirstAscending opcodes ∧ SecondAscending opcodes) ∧
        ∀ opcode : Text, ¬ LastOfZ opcodes (opcode.map Char.toUpper)) ∧
    (FirstAscending opcodes ∧ SecondAscending opcodes →
      ∀ opcode : Text, GetOpcodesIndex opcodes opcode =
          firstPosition opcodes (opcode.map Char.toUpper) ↔
        ¬ LastOfZ opcodes (opcode.map Char.toUpper)) := by
  have hone : FirstAscending opcodes ∧ SecondAscending opcodes →
      ∀ opcode : Text, GetOpcodesIndex opcodes opcode =
          firstPosition opcodes (opcode.map Char.toUpper) ↔
        ¬ LastOfZ opcodes (opcode.map Char.toUpper) := by
    intro hascending opcode
    refine ⟨fun hright hlast => ?_, fun hlast => ?_⟩
    · exact searchOpcode_of_last hascending.1 hlast hright
    · exact searchOpcode_of_ascending hascending.1 hascending.2 hlast
  refine ⟨⟨fun hright => ?_, fun hall opcode => ?_⟩, hone⟩
  · have hmnemonics : ∀ k, 1 ≤ k → k ≤ opcodes.opcodecount →
        searchOpcode opcodes (opcodes.mnemonic k) =
          firstPosition opcodes (opcodes.mnemonic k) := by
      intro k _ _
      have hk := hright (opcodes.mnemonic k)
      rwa [GetOpcodesIndex, opcodes.uppercase k] at hk
    have hfirst := firstAscending_of_right hmnemonics hcontiguous
    have hascending := And.intro hfirst
      (secondAscending_of_right hmnemonics hcontiguous hfirst)
    exact ⟨hascending, fun opcode =>
      (hone hascending opcode).mp (hright opcode)⟩
  · exact (hone hall.1 opcode).mpr (hall.2 opcode)

end

def twoMnemonics : Opcodes where
  opcodecount := 2
  mnemonic k := if k ≤ 1 then "AAA".toList else "ZERO".toList
  isLetter_first k _ _ := by
    split_ifs <;> decide
  uppercase k := by
    split_ifs <;> decide

theorem contiguous_twoMnemonics : Contiguous twoMnemonics :=
  ⟨fun _ _ _ hlow hij hjk hhigh => by
      have hcount : twoMnemonics.opcodecount = 2 := rfl
      omega,
    fun _ _ _ hlow hij hjk hhigh => by
      have hcount : twoMnemonics.opcodecount = 2 := rfl
      omega⟩

theorem getOpcodesIndex_iff_two :
    (∀ opcode : Text, GetOpcodesIndex twoMnemonics opcode =
        firstPosition twoMnemonics (opcode.map Char.toUpper)) ↔
      (FirstAscending twoMnemonics ∧ SecondAscending twoMnemonics) ∧
        ∀ opcode : Text, ¬ LastOfZ twoMnemonics (opcode.map Char.toUpper) :=
  (getOpcodesIndex_iff contiguous_twoMnemonics).1

/-- The last mnemonic is the only one with Z and E. -/
theorem not_getOpcodesIndex_last :
    ¬ ∀ opcodes : Opcodes, Contiguous opcodes → ∀ opcode : Text,
      GetOpcodesIndex opcodes opcode =
        firstPosition opcodes (opcode.map Char.toUpper) := by
  intro hright
  have hlast : LastOfZ twoMnemonics "ZERO".toList := by
    refine ⟨by decide, rfl, by decide, by decide, fun k hlow hhigh => ?_⟩
    have hk : k = 1 := by
      have hcount : twoMnemonics.opcodecount = 2 := rfl
      omega
    subst hk
    decide
  have hfirst : FirstAscending twoMnemonics := by
    intro j k hlow hlt hhigh
    have hcount : twoMnemonics.opcodecount = 2 := rfl
    obtain rfl : j = 1 := by omega
    obtain rfl : k = 2 := by omega
    decide
  exact searchOpcode_of_last hfirst hlast
    (hright twoMnemonics contiguous_twoMnemonics "ZERO".toList)

end MnemonicIndex
end CheatEngine
