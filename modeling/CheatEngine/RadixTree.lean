import Mathlib.Tactic

/-!
# Sixteen-way radix trees

A table of depth `n` has `n` levels of inner tables and one level of leaves;
the path of a key is given by its `n + 1` lowest hexadecimal digits, the most
significant one first.  Keys that agree in these digits share a leaf.
-/

namespace CheatEngine.RadixTree

open List

/-- A table that is not allocated yet is `nil`. -/
inductive Table (α : Type) : ℕ → Type
  | nil {n : ℕ} : Table α n
  | leaves (slots : Fin 16 → Option α) : Table α 0
  | tables {n : ℕ} (slots : Fin 16 → Table α n) : Table α (n + 1)

def digit (level key : ℕ) : Fin 16 :=
  ⟨key / 16 ^ level % 16, Nat.mod_lt _ (by decide)⟩

variable {α : Type}

def Table.leafSlots : Table α 0 → Fin 16 → Option α
  | .nil => fun _ => none
  | .leaves slots => slots

def Table.tableSlots {n : ℕ} : Table α (n + 1) → Fin 16 → Table α n
  | .nil => fun _ => .nil
  | .tables slots => slots

def find : (n : ℕ) → Table α n → ℕ → Option α
  | 0, table, key => table.leafSlots (digit 0 key)
  | n + 1, table, key => find n (table.tableSlots (digit (n + 1) key)) key

def alter (f : Option α → α) : (n : ℕ) → Table α n → ℕ → Table α n
  | 0, table, key =>
    .leaves (Function.update table.leafSlots (digit 0 key)
      (some (f (table.leafSlots (digit 0 key)))))
  | n + 1, table, key =>
    .tables (Function.update table.tableSlots (digit (n + 1) key)
      (alter f n (table.tableSlots (digit (n + 1) key)) key))

def toList : (n : ℕ) → Table α n → List α
  | 0, table => (List.finRange 16).filterMap table.leafSlots
  | _ + 1, .nil => []
  | n + 1, .tables slots => (List.finRange 16).flatMap fun entry =>
    toList n (slots entry)

theorem digit_eq_iff (level key other : ℕ) :
    digit level key = digit level other ↔
      key / 16 ^ level % 16 = other / 16 ^ level % 16 := by
  simp [digit]

variable (n : ℕ) (table : Table α n)

theorem mod_eq_iff_digits (key other : ℕ) :
    key % 16 ^ (n + 1) = other % 16 ^ (n + 1) ↔
      ∀ level ≤ n, digit level key = digit level other := by
  induction n with
  | zero => simp [digit]
  | succ n ih =>
    have hkey : key % 16 ^ (n + 1 + 1) =
        key % 16 ^ (n + 1) + 16 ^ (n + 1) * (key / 16 ^ (n + 1) % 16) := by
      rw [pow_succ (16 : ℕ) (n + 1), Nat.mod_mul]
    have hother : other % 16 ^ (n + 1 + 1) =
        other % 16 ^ (n + 1) +
          16 ^ (n + 1) * (other / 16 ^ (n + 1) % 16) := by
      rw [pow_succ (16 : ℕ) (n + 1), Nat.mod_mul]
    have hpositive : 0 < 16 ^ (n + 1) := by positivity
    constructor
    · intro hsame
      have hlow : key % 16 ^ (n + 1) = other % 16 ^ (n + 1) := by
        have hdvd : 16 ^ (n + 1) ∣ 16 ^ (n + 1 + 1) := pow_dvd_pow 16 (by omega)
        calc
          key % 16 ^ (n + 1) = key % 16 ^ (n + 1 + 1) % 16 ^ (n + 1) :=
            (Nat.mod_mod_of_dvd key hdvd).symm
          _ = other % 16 ^ (n + 1 + 1) % 16 ^ (n + 1) := by rw [hsame]
          _ = other % 16 ^ (n + 1) := Nat.mod_mod_of_dvd other hdvd
      have hhigh : key / 16 ^ (n + 1) % 16 = other / 16 ^ (n + 1) % 16 := by
        rw [hkey, hother, hlow] at hsame
        exact Nat.eq_of_mul_eq_mul_left hpositive (Nat.add_left_cancel hsame)
      intro level hlevel
      rcases Nat.lt_or_ge level (n + 1) with hless | hlast
      · exact ih.mp hlow level (by omega)
      · have hlevelEq : level = n + 1 := by omega
        subst level
        exact (digit_eq_iff _ _ _).mpr hhigh
    · intro hdigits
      have hlow : key % 16 ^ (n + 1) = other % 16 ^ (n + 1) :=
        ih.mpr fun level hlevel => hdigits level (by omega)
      have hhigh := (digit_eq_iff _ _ _).mp (hdigits (n + 1) le_rfl)
      rw [hkey, hother, hlow, hhigh]

theorem find_congr {key other : ℕ}
    (hsame : ∀ level ≤ n, digit level key = digit level other) :
    find n table key = find n table other := by
  induction n with
  | zero => simp only [find, hsame 0 le_rfl]
  | succ n ih =>
    simp only [find, hsame (n + 1) le_rfl]
    apply ih
    intro level hlevel
    exact hsame level (by omega)

@[simp] theorem find_nil (key : ℕ) : find n (.nil : Table α n) key = none := by
  induction n with
  | zero => rfl
  | succ n ih => exact ih

theorem find_alter_self (f : Option α → α) (n : ℕ) (table : Table α n)
    (key : ℕ) :
    find n (alter f n table key) key = some (f (find n table key)) := by
  induction n with
  | zero => simp [find, alter, Table.leafSlots]
  | succ n ih => simp [find, alter, Table.tableSlots, ih]

theorem find_alter_of_ne (f : Option α → α) (n : ℕ) (table : Table α n)
    {key other : ℕ}
    (hdiffers : ∃ level ≤ n, digit level other ≠ digit level key) :
    find n (alter f n table key) other = find n table other := by
  induction n with
  | zero =>
    obtain ⟨level, hlevel, hdigit⟩ := hdiffers
    have hzero : level = 0 := by omega
    subst level
    simp only [find, alter, Table.leafSlots, Function.update_of_ne hdigit]
  | succ n ih =>
    simp only [find, alter, Table.tableSlots]
    by_cases hhead : digit (n + 1) other = digit (n + 1) key
    · have hbelow : ∃ level ≤ n, digit level other ≠ digit level key := by
        obtain ⟨level, hlevel, hdigit⟩ := hdiffers
        have hne : level ≠ n + 1 := by
          rintro rfl
          exact hdigit hhead
        exact ⟨level, by omega, hdigit⟩
      rw [hhead, Function.update_self]
      exact ih _ hbelow
    · rw [Function.update_of_ne hhead]

/-! ## The leaves with their keys -/

/-- The leaves in the order of `toList`, each with the key of its path. -/
def entries : (n : ℕ) → Table α n → List (ℕ × α)
  | 0, table => (List.finRange 16).filterMap fun entry =>
    (table.leafSlots entry).map fun leaf => (entry.val, leaf)
  | _ + 1, .nil => []
  | n + 1, .tables slots => (List.finRange 16).flatMap fun entry =>
    (entries n (slots entry)).map fun pair =>
      (16 ^ (n + 1) * entry.val + pair.1, pair.2)

@[simp] theorem toList_nil : toList n (.nil : Table α n) = [] := by
  cases n <;> rfl

@[simp] theorem entries_nil : entries n (.nil : Table α n) = [] := by
  cases n <;> rfl

theorem toList_succ (table : Table α (n + 1)) :
    toList (n + 1) table = (List.finRange 16).flatMap fun entry =>
      toList n (table.tableSlots entry) := by
  cases table with
  | nil => simp [Table.tableSlots]
  | tables slots => rfl

theorem entries_succ (table : Table α (n + 1)) :
    entries (n + 1) table = (List.finRange 16).flatMap fun entry =>
      (entries n (table.tableSlots entry)).map fun pair =>
        (16 ^ (n + 1) * entry.val + pair.1, pair.2) := by
  cases table with
  | nil => simp [Table.tableSlots]
  | tables slots => rfl

theorem toList_eq_entries :
    toList n table = (entries n table).map Prod.snd := by
  induction n with
  | zero =>
    simp only [toList, entries, map_filterMap, Option.map_map]
    congr 1
    funext entry
    cases table.leafSlots entry <;> rfl
  | succ n ih =>
    simp only [toList_succ, entries_succ, map_flatMap, ih, map_map]
    rfl

theorem digit_lead {n rest : ℕ} (entry : Fin 16)
    (hrest : rest < 16 ^ (n + 1)) :
    digit (n + 1) (16 ^ (n + 1) * entry.val + rest) = entry := by
  have hpositive : 0 < 16 ^ (n + 1) := by positivity
  apply Fin.ext
  simp only [digit]
  rw [Nat.mul_add_div hpositive, Nat.div_eq_of_lt hrest, Nat.add_zero]
  exact Nat.mod_eq_of_lt entry.isLt

theorem find_lead {n rest : ℕ} (table : Table α (n + 1)) (entry : Fin 16)
    (hrest : rest < 16 ^ (n + 1)) :
    find (n + 1) table (16 ^ (n + 1) * entry.val + rest) =
      find n (table.tableSlots entry) rest := by
  simp only [find, digit_lead entry hrest]
  apply find_congr
  apply (mod_eq_iff_digits n _ _).mp
  rw [Nat.mul_add_mod]

theorem mem_entries (key : ℕ) (leaf : α) :
    (key, leaf) ∈ entries n table ↔
      key < 16 ^ (n + 1) ∧ find n table key = some leaf := by
  induction n generalizing key with
  | zero =>
    simp only [entries, mem_filterMap, mem_finRange, true_and,
      Option.map_eq_some_iff, find]
    constructor
    · rintro ⟨entry, found, hfound, hpair⟩
      cases hpair
      have hdigit : digit 0 entry.val = entry := by
        apply Fin.ext
        simp [digit, Nat.mod_eq_of_lt entry.isLt]
      exact ⟨by simp, by rw [hdigit]; exact hfound⟩
    · rintro ⟨hkey, hfound⟩
      refine ⟨digit 0 key, leaf, hfound, ?_⟩
      simp only [digit, Nat.pow_zero, Nat.div_one]
      rw [Nat.mod_eq_of_lt (by simpa using hkey)]
  | succ n ih =>
    have hpositive : 0 < 16 ^ (n + 1) := by positivity
    have hpow : 16 ^ (n + 1 + 1) = 16 ^ (n + 1) * 16 := pow_succ _ _
    simp only [entries_succ, mem_flatMap, mem_finRange, true_and, mem_map]
    constructor
    · rintro ⟨entry, ⟨rest, found⟩, hmem, hpair⟩
      cases hpair
      obtain ⟨hrest, hfound⟩ := (ih _ rest).mp hmem
      constructor
      · have hbound : 16 ^ (n + 1) * entry.val ≤ 16 ^ (n + 1) * 15 :=
          Nat.mul_le_mul_left _ (by omega)
        dsimp only at hrest ⊢
        omega
      · exact (find_lead table entry hrest).trans hfound
    · rintro ⟨hkey, hfound⟩
      have hrest : key % 16 ^ (n + 1) < 16 ^ (n + 1) :=
        Nat.mod_lt _ hpositive
      have hquotient : key / 16 ^ (n + 1) < 16 := by
        apply Nat.div_lt_of_lt_mul
        rw [← hpow]
        exact hkey
      have hkeyEq : 16 ^ (n + 1) * (digit (n + 1) key).val +
          key % 16 ^ (n + 1) = key := by
        simp only [digit, Nat.mod_eq_of_lt hquotient]
        exact Nat.div_add_mod _ _
      refine ⟨digit (n + 1) key, (key % 16 ^ (n + 1), leaf), ?_, ?_⟩
      · apply (ih _ _).mpr
        refine ⟨hrest, ?_⟩
        rw [← find_lead table _ hrest, hkeyEq]
        exact hfound
      · simp only [hkeyEq]

theorem entries_sorted :
    (entries n table).Pairwise fun first second => first.1 < second.1 := by
  induction n with
  | zero =>
    rw [entries, pairwise_filterMap]
    apply (pairwise_lt_finRange 16).imp
    intro first second hlt left hleft right hright
    obtain ⟨_, _, rfl⟩ := Option.map_eq_some_iff.mp hleft
    obtain ⟨_, _, rfl⟩ := Option.map_eq_some_iff.mp hright
    exact hlt
  | succ n ih =>
    rw [entries_succ, pairwise_flatMap]
    constructor
    · intro entry _
      rw [pairwise_map]
      apply (ih _).imp
      intro first second hlt
      exact Nat.add_lt_add_left hlt _
    · apply (pairwise_lt_finRange 16).imp
      intro first second hlt left hleft right hright
      obtain ⟨⟨rest, leaf⟩, hmem, rfl⟩ := mem_map.mp hleft
      obtain ⟨pair, _, rfl⟩ := mem_map.mp hright
      have hrest : rest < 16 ^ (n + 1) :=
        ((mem_entries n _ rest leaf).mp hmem).1
      have hstep : 16 ^ (n + 1) * first.val + 16 ^ (n + 1) ≤
          16 ^ (n + 1) * second.val := by
        rw [← Nat.mul_succ]
        exact Nat.mul_le_mul_left _ hlt
      dsimp only
      omega

end CheatEngine.RadixTree
