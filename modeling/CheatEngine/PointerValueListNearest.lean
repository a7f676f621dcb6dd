import CheatEngine.PointerValueListExact
import CheatEngine.PointerValueListSearch
import Mathlib.Data.List.TakeWhile

/-!
# The nearest pointer value

What the descent of `findPointerValue` ends at: the entry with the greatest
value that is not above `stopvalue`, or the first entry of the map when every
value is.
-/

namespace CheatEngine.PointerValueList

open List RadixTree

/-- The entry with the greatest value up to the bound. -/
structure IsNearest (linked : List PointerList) (bound : UInt64)
    (entry : PointerList) : Prop where
  mem : entry ∈ linked
  le : entry.pointervalue ≤ bound
  greatest : ∀ other ∈ linked, other.pointervalue ≤ bound →
    other.pointervalue ≤ entry.pointervalue

def Ascending (linked : List PointerList) : Prop :=
  linked.Pairwise fun first second =>
    first.pointervalue < second.pointervalue

theorem takeWhile_append_cons {α : Type*} {p : α → Bool} {before after : List α}
    {a : α} (hbefore : ∀ other ∈ before, p other = true) (ha : p a = true)
    (hafter : ∀ other ∈ after, p other = false) :
    (before ++ a :: after).takeWhile p = before ++ [a] := by
  rw [takeWhile_append_of_pos hbefore, takeWhile_cons_of_pos ha]
  congr 2
  cases after with
  | nil => rfl
  | cons other rest =>
    exact takeWhile_cons_of_neg (by simp [hafter other])

section

variable {linked : List PointerList} {bound : UInt64} {entry : PointerList}

theorem previousChain_eq {before after : List PointerList}
    (hascending : Ascending (before ++ entry :: after)) :
    previousChain (before ++ entry :: after) entry =
      entry :: before.reverse := by
  obtain ⟨-, hrest, hcross⟩ := pairwise_append.mp hascending
  rw [previousChain, takeWhile_append_cons, reverse_append]
  · rfl
  · intro other hother
    exact decide_eq_true (UInt64.le_of_lt (hcross other hother entry (by simp)))
  · simp
  · intro other hother
    have hlt := (pairwise_cons.mp hrest).1 other hother
    exact decide_eq_false (UInt64.not_le.mpr hlt)

section

variable (hascending : Ascending linked) (hentry : entry ∈ linked)

include hascending hentry

theorem head?_previousChain :
    (previousChain linked entry).head? = some entry := by
  obtain ⟨before, after, rfl⟩ := append_of_mem hentry
  rw [previousChain_eq hascending]
  rfl

theorem settle_of_le (hle : entry.pointervalue ≤ bound) :
    settle linked bound entry = some entry := by
  obtain ⟨before, after, rfl⟩ := append_of_mem hentry
  rw [settle, previousChain_eq hascending, find?_cons_of_pos]
  exact decide_eq_true hle

theorem settle_of_lt (hlt : bound < entry.pointervalue)
    (hbelow : ∃ other ∈ linked, other.pointervalue ≤ bound) :
    ∃ found, settle linked bound entry = some found ∧
      IsNearest linked bound found := by
  obtain ⟨before, after, rfl⟩ := append_of_mem hentry
  have hall : ∀ other ∈ before ++ entry :: after,
      other.pointervalue ≤ bound → other ∈ before := by
    intro other hother hle
    obtain ⟨-, hrest, -⟩ := pairwise_append.mp hascending
    rcases mem_append.mp hother with hbefore | hafter
    · exact hbefore
    · rcases mem_cons.mp hafter with rfl | hmem
      · exact absurd hle (UInt64.not_le.mpr hlt)
      · have hgreater := (pairwise_cons.mp hrest).1 other hmem
        exact absurd hle (UInt64.not_le.mpr (UInt64.lt_trans hlt hgreater))
  rw [settle, previousChain_eq hascending, find?_cons_of_neg (by
    simpa using hlt)]
  cases hfind : before.reverse.find? fun other =>
      other.pointervalue ≤ bound with
  | none =>
    obtain ⟨other, hother, hle⟩ := hbelow
    have hnone := find?_eq_none.mp hfind other
      (mem_reverse.mpr (hall other hother hle))
    exact absurd (decide_eq_true hle) hnone
  | some found =>
    obtain ⟨hfound, bigger, smaller, hsplit, hbigger⟩ :=
      find?_eq_some_iff_append.mp hfind
    have hdescending : before.reverse.Pairwise fun first second =>
        second.pointervalue < first.pointervalue :=
      pairwise_reverse.mpr (pairwise_append.mp hascending).1
    refine ⟨found, rfl, ?_, of_decide_eq_true hfound, ?_⟩
    · have hmem : found ∈ before.reverse := mem_of_find?_eq_some hfind
      exact mem_append_left _ (mem_reverse.mp hmem)
    · intro other hother hle
      have hmem := mem_reverse.mpr (hall other hother hle)
      rw [hsplit] at hmem hdescending
      rcases mem_append.mp hmem with hbig | hsmall
      · have hnot := hbigger other hbig
        simp [hle] at hnot
      · rcases mem_cons.mp hsmall with rfl | hrest
        · exact UInt64.le_refl _
        · have hright := (pairwise_append.mp hdescending).2.1
          exact UInt64.le_of_lt ((pairwise_cons.mp hright).1 other hrest)

end

theorem settle_of_all_lt
    (hall : ∀ other ∈ linked, bound < other.pointervalue) :
    settle linked bound entry = linked.head? := by
  have hnone : ((previousChain linked entry).find? fun other =>
      other.pointervalue ≤ bound) = none := by
    rw [find?_eq_none]
    intro other hother
    have hmem := mem_reverse.mp hother
    have hlt := hall other ((takeWhile_sublist _).subset hmem)
    simpa using hlt
  rw [settle, hnone]

theorem settle_isSome (hlinked : linked ≠ []) :
    (settle linked bound entry).isSome := by
  unfold settle
  split
  · rfl
  · exact isSome_head?.mpr hlinked

end

def slotLeaves : (n : ℕ) → Table PointerList n → Fin 16 → List PointerList
  | 0, table, i => (table.leafSlots i).toList
  | n + 1, table, i => toList n (table.tableSlots i)

variable {linked : List PointerList} {bound : UInt64} {found : PointerList}
  (n : ℕ) (table : Table PointerList n)

theorem toList_eq_flatMap :
    toList n table = (List.finRange 16).flatMap (slotLeaves n table) := by
  cases n with
  | zero => rw [toList, filterMap_eq_flatMap_toList]; rfl
  | succ n => exact toList_succ n table

/-- The leaves in the order in which `findClosestPointer` looks for one. -/
def leavesAround (n : ℕ) (table : Table PointerList n) (entrynr : ℤ) :
    List PointerList :=
  (slotsAround entrynr).flatMap fun i =>
    if entrynr < i.val then slotLeaves n table i
    else (slotLeaves n table i).reverse

theorem leavesAround_bottom : leavesAround n table (-1) = toList n table := by
  have hslots : slotsAround (-1) = List.finRange 16 := by decide
  rw [leavesAround, hslots, toList_eq_flatMap]
  apply flatMap_congr
  intro i _
  rw [if_pos (by omega)]

theorem leavesAround_top :
    leavesAround n table 16 = (toList n table).reverse := by
  have hslots : slotsAround 16 = (List.finRange 16).reverse := by decide
  rw [leavesAround, hslots, toList_eq_flatMap, reverse_flatMap]
  apply flatMap_congr
  intro i _
  rw [if_neg (by omega)]
  rfl

theorem findSome?_head?_bind {α β γ : Type*} (l : List α) (f : α → List β)
    (g : β → Option γ) (hg : ∀ b, (g b).isSome) :
    l.findSome? (fun a => (f a).head?.bind g) =
      (l.flatMap f).head?.bind g := by
  induction l with
  | nil => rfl
  | cons a rest ih =>
    rw [findSome?_cons, flatMap_cons]
    cases hf : f a with
    | nil => simpa using ih
    | cons b bs =>
      obtain ⟨c, hc⟩ := Option.isSome_iff_exists.mp (hg b)
      simp [hc]

theorem findClosestPointer_eq (hlinked : linked ≠ []) (n : ℕ)
    (table : Table PointerList n) (entrynr : ℤ) :
    findClosestPointer linked bound n table entrynr =
      (leavesAround n table entrynr).head?.bind (settle linked bound) := by
  induction n generalizing entrynr with
  | zero =>
    rw [leavesAround, ← findSome?_head?_bind _ _ _ fun _ =>
      settle_isSome hlinked, findClosestPointer]
    congr 1
    funext i
    simp only [slotLeaves]
    cases table.leafSlots i <;> simp
  | succ n ih =>
    rw [leavesAround, ← findSome?_head?_bind _ _ _ fun _ =>
      settle_isSome hlinked, findClosestPointer]
    congr 1
    funext i
    simp only [slotLeaves]
    have hdeeper : findClosestPointer linked bound n (table.tableSlots i)
        (if entrynr < i.val then -1 else 16) =
          (if entrynr < i.val then toList n (table.tableSlots i)
            else (toList n (table.tableSlots i)).reverse).head?.bind
              (settle linked bound) := by
      rw [ih]
      split
      · rw [leavesAround_bottom]
      · rw [leavesAround_top]
    cases hslot : table.tableSlots i with
    | nil => simp
    | leaves slots => rw [← hslot, ← hdeeper, hslot]
    | tables slots => rw [← hslot, ← hdeeper, hslot]

def leavesAbove (n : ℕ) (table : Table PointerList n) (d : Fin 16) :
    List PointerList :=
  ((List.finRange 16).filter (d < ·)).flatMap (slotLeaves n table)

def leavesBelow (n : ℕ) (table : Table PointerList n) (d : Fin 16) :
    List PointerList :=
  ((List.finRange 16).filter (· < d)).flatMap (slotLeaves n table)

theorem leavesAround_slot (d : Fin 16) :
    leavesAround n table d.val =
      leavesAbove n table d ++ (leavesBelow n table d).reverse := by
  rw [leavesAround, slotsAround, flatMap_append, leavesAbove,
    leavesBelow, reverse_flatMap]
  congr 1
  · simp only [Int.ofNat_lt, Fin.val_fin_lt]
    apply flatMap_congr
    intro i hi
    rw [if_pos (by simpa using hi)]
  · simp only [Int.ofNat_lt, Fin.val_fin_lt]
    apply flatMap_congr
    intro i hi
    have hlt : i < d := by simpa using hi
    rw [if_neg (not_lt.mpr hlt.le)]
    rfl

theorem toList_split (d : Fin 16) :
    toList n table = leavesBelow n table d ++
      (slotLeaves n table d ++ leavesAbove n table d) := by
  have hslots : ∀ d : Fin 16, List.finRange 16 =
      (List.finRange 16).filter (· < d) ++
        d :: (List.finRange 16).filter (d < ·) := by decide
  rw [toList_eq_flatMap, leavesBelow, leavesAbove, ← flatMap_cons,
    ← flatMap_append, ← hslots d]

/-! ## The descent -/

/-- What the search ends at: the nearest entry, or the first one of a map
whose values are all above the bound. -/
def Closest (linked : List PointerList) (bound : UInt64)
    (entry : PointerList) : Prop :=
  IsNearest linked bound entry ∨
    (∀ other ∈ linked, bound < other.pointervalue) ∧
      linked.head? = some entry

/-- The leaves before a table have smaller values than the one that is looked
for, and the leaves after it have bigger ones. -/
structure Around (linked : List PointerList) (bound : UInt64)
    (before middle after : List PointerList) : Prop where
  ascending : Ascending linked
  linked_eq : linked = before ++ (middle ++ after)
  before_lt : ∀ entry ∈ before, entry.pointervalue < bound
  lt_after : ∀ entry ∈ after, bound < entry.pointervalue

section

variable {linked before middle after : List PointerList} {bound : UInt64}
  {entry : PointerList}

theorem settle_closest (hascending : Ascending linked)
    (hentry : entry ∈ linked) (hlt : bound < entry.pointervalue) :
    ∃ found, settle linked bound entry = some found ∧
      Closest linked bound found := by
  by_cases hbelow : ∃ other ∈ linked, other.pointervalue ≤ bound
  · obtain ⟨found, hfound, hnearest⟩ := settle_of_lt hascending hentry hlt hbelow
    exact ⟨found, hfound, .inl hnearest⟩
  · push Not at hbelow
    have hall : ∀ other ∈ linked, bound < other.pointervalue :=
      fun other hother => UInt64.not_le.mp (hbelow other hother)
    obtain ⟨first, hfirst⟩ := Option.isSome_iff_exists.mp
      (isSome_head?.mpr (ne_nil_of_mem hentry))
    exact ⟨first, (settle_of_all_lt hall).trans hfirst, .inr ⟨hall, hfirst⟩⟩

theorem Around.isNearest (haround : Around linked bound before middle after)
    {smaller : List PointerList} (hmiddle : middle = smaller ++ [entry])
    (hle : entry.pointervalue ≤ bound) : IsNearest linked bound entry := by
  have hlinked := haround.linked_eq
  have hascending := haround.ascending
  rw [hmiddle, append_assoc, ← append_assoc, singleton_append] at hlinked
  rw [hlinked] at hascending ⊢
  refine ⟨by simp, hle, ?_⟩
  intro other hother hotherLe
  rcases mem_append.mp hother with hsmall | hlast
  · exact UInt64.le_of_lt ((pairwise_append.mp hascending).2.2 other
      hsmall entry (by simp))
  · rcases mem_cons.mp hlast with rfl | hafter
    · exact UInt64.le_refl _
    · exact absurd hotherLe (UInt64.not_le.mpr (haround.lt_after other hafter))

variable {n : ℕ} {table : Table PointerList n}

theorem findClosestPointer_closest {d : Fin 16}
    (haround : Around linked bound before (toList n table) after)
    (hmissing : slotLeaves n table d = []) (hfilled : toList n table ≠ [])
    (hbelow : ∀ entry ∈ leavesBelow n table d, entry.pointervalue < bound)
    (habove : ∀ entry ∈ leavesAbove n table d, bound < entry.pointervalue) :
    ∃ found, findClosestPointer linked bound n table d.val = some found ∧
      Closest linked bound found := by
  have hsplit := toList_split n table d
  rw [hmissing, nil_append] at hsplit
  have hlinked : linked ≠ [] := by
    rw [haround.linked_eq]
    simp [hfilled]
  rw [findClosestPointer_eq hlinked, leavesAround_slot]
  cases habovs : leavesAbove n table d with
  | cons first rest =>
    rw [cons_append, head?_cons, Option.bind_some]
    have hmem : first ∈ leavesAbove n table d := by simp [habovs]
    apply settle_closest haround.ascending _ (habove first hmem)
    rw [haround.linked_eq, hsplit]
    simp [hmem]
  | nil =>
    rw [habovs, append_nil] at hsplit
    obtain ⟨smaller, last, hlast⟩ :=
      eq_nil_or_concat' (leavesBelow n table d) |>.resolve_left
        (hsplit ▸ hfilled)
    have hle : last.pointervalue ≤ bound :=
      UInt64.le_of_lt (hbelow last (by simp [hlast]))
    have hnearest := haround.isNearest (hsplit.trans hlast) hle
    refine ⟨last, ?_, .inl hnearest⟩
    rw [hlast, nil_append, reverse_append, reverse_singleton,
      singleton_append, head?_cons, Option.bind_some]
    exact settle_of_le haround.ascending hnearest.mem hle

theorem isNearest_of_eq (hentry : entry ∈ linked)
    (hvalue : entry.pointervalue = bound) : IsNearest linked bound entry where
  mem := hentry
  le := hvalue ▸ UInt64.le_refl _
  greatest := fun _ _ hle => hvalue ▸ hle

theorem mem_slotLeaves {i : Fin 16} (hentry : entry ∈ slotLeaves n table i) :
    ∃ rest < 16 ^ n, (16 ^ n * i.val + rest, entry) ∈ entries n table := by
  cases n with
  | zero =>
    refine ⟨0, by decide, ?_⟩
    rw [entries, mem_filterMap]
    refine ⟨i, mem_finRange i, ?_⟩
    rw [Option.map_eq_some_iff]
    exact ⟨entry, Option.mem_toList.mp hentry, by simp⟩
  | succ n =>
    rw [slotLeaves, toList_eq_entries, mem_map] at hentry
    obtain ⟨⟨rest, leaf⟩, hmem, rfl⟩ := hentry
    refine ⟨rest, ((mem_entries n _ rest leaf).mp hmem).1, ?_⟩
    rw [entries_succ, mem_flatMap]
    exact ⟨i, mem_finRange i, mem_map.mpr ⟨_, hmem, rfl⟩⟩

def OnPath (value n : ℕ) (table : Table PointerList n) : Prop :=
  ∀ pair ∈ entries n table, pair.2.pointervalue.toNat =
    value / 16 ^ (n + 1) * 16 ^ (n + 1) + pair.1

theorem eq_digits (value n : ℕ) :
    value = value / 16 ^ (n + 1) * 16 ^ (n + 1) +
      (16 ^ n * (digit n value).val + value % 16 ^ n) := by
  have hlow := Nat.div_add_mod value (16 ^ n)
  have hhigh := Nat.div_add_mod (value / 16 ^ n) 16
  have hdiv : value / 16 ^ (n + 1) = value / 16 ^ n / 16 := by
    rw [pow_succ, Nat.div_div_eq_div_mul]
  rw [hdiv, pow_succ, digit]
  calc
    value = 16 ^ n * (value / 16 ^ n) + value % 16 ^ n := hlow.symm
    _ = 16 ^ n * (16 * (value / 16 ^ n / 16) + value / 16 ^ n % 16) +
        value % 16 ^ n := by rw [hhigh]
    _ = _ := by ring

theorem OnPath.lt_of_below (hpath : OnPath bound.toNat n table)
    (hentry : entry ∈ leavesBelow n table (digit n bound.toNat)) :
    entry.pointervalue < bound := by
  obtain ⟨i, hi, hmem⟩ := mem_flatMap.mp hentry
  have hlt : i < digit n bound.toNat := by simpa using hi
  obtain ⟨rest, hrest, hpair⟩ := mem_slotLeaves hmem
  have hvalue := hpath _ hpair
  have hbound := eq_digits bound.toNat n
  have hstep : 16 ^ n * i.val + 16 ^ n ≤
      16 ^ n * (digit n bound.toNat).val := by
    rw [← Nat.mul_succ]
    exact Nat.mul_le_mul_left _ hlt
  rw [UInt64.lt_iff_toNat_lt]
  dsimp only at hvalue
  omega

theorem OnPath.lt_of_above (hpath : OnPath bound.toNat n table)
    (hentry : entry ∈ leavesAbove n table (digit n bound.toNat)) :
    bound < entry.pointervalue := by
  obtain ⟨i, hi, hmem⟩ := mem_flatMap.mp hentry
  have hlt : digit n bound.toNat < i := by simpa using hi
  obtain ⟨rest, -, hpair⟩ := mem_slotLeaves hmem
  have hvalue := hpath _ hpair
  have hbound := eq_digits bound.toNat n
  have hlow : bound.toNat % 16 ^ n < 16 ^ n := Nat.mod_lt _ (by positivity)
  have hstep : 16 ^ n * (digit n bound.toNat).val + 16 ^ n ≤
      16 ^ n * i.val := by
    rw [← Nat.mul_succ]
    exact Nat.mul_le_mul_left _ hlt
  rw [UInt64.lt_iff_toNat_lt]
  dsimp only at hvalue
  omega

theorem OnPath.slot {table : Table PointerList (n + 1)}
    (hpath : OnPath bound.toNat (n + 1) table) :
    OnPath bound.toNat n
      (table.tableSlots (digit (n + 1) bound.toNat)) := by
  intro pair hpair
  have hmem : (16 ^ (n + 1) * (digit (n + 1) bound.toNat).val + pair.1,
      pair.2) ∈ entries (n + 1) table := by
    rw [entries_succ, mem_flatMap]
    exact ⟨_, mem_finRange _, mem_map.mpr ⟨pair, hpair, rfl⟩⟩
  have hvalue := hpath _ hmem
  have hbound := eq_digits bound.toNat (n + 1)
  have hlow := Nat.div_add_mod bound.toNat (16 ^ (n + 1))
  rw [hvalue]
  dsimp only
  rw [← Nat.add_assoc]
  congr 1
  rw [Nat.mul_comm (bound.toNat / 16 ^ (n + 1))]
  omega

def Filled : (n : ℕ) → Table PointerList n → Prop
  | 0, _ => True
  | n + 1, table => ∀ i, table.tableSlots i = .nil ∨
      toList n (table.tableSlots i) ≠ [] ∧ Filled n (table.tableSlots i)

section

variable (haround : Around linked bound before (toList n table) after)
  (hpath : OnPath bound.toNat n table)

include haround hpath

theorem Around.slot :
    Around linked bound
      (before ++ leavesBelow n table (digit n bound.toNat))
      (slotLeaves n table (digit n bound.toNat))
      (leavesAbove n table (digit n bound.toNat) ++ after) where
  ascending := haround.ascending
  linked_eq := by
    rw [haround.linked_eq, toList_split n table (digit n bound.toNat)]
    simp only [append_assoc]
  before_lt := by
    intro entry hentry
    rcases mem_append.mp hentry with hbefore | hbelow
    · exact haround.before_lt entry hbefore
    · exact hpath.lt_of_below hbelow
  lt_after := by
    intro entry hentry
    rcases mem_append.mp hentry with habove | hafter
    · exact hpath.lt_of_above habove
    · exact haround.lt_after entry hafter

theorem findOrClosest_closest (hallocated : Filled n table)
    (hfilled : toList n table ≠ []) :
    ∃ found, findOrClosest linked bound n table = some found ∧
      Closest linked bound found := by
  induction n generalizing before after with
  | zero =>
    rw [findOrClosest]
    cases hslot : table.leafSlots (digit 0 bound.toNat) with
    | none =>
      have hmissing : slotLeaves 0 table (digit 0 bound.toNat) = [] := by
        rw [slotLeaves, hslot]
        rfl
      exact findClosestPointer_closest haround hmissing hfilled
        (fun _ => hpath.lt_of_below) fun _ => hpath.lt_of_above
    | some leaf =>
      have hleaf : leaf ∈ slotLeaves 0 table (digit 0 bound.toNat) := by
        rw [slotLeaves, hslot]
        simp
      obtain ⟨rest, hrest, hpair⟩ := mem_slotLeaves hleaf
      have hvalue := hpath _ hpair
      have hbound := eq_digits bound.toNat 0
      have hmem : leaf ∈ linked := by
        rw [(haround.slot hpath).linked_eq]
        simp [hleaf]
      refine ⟨leaf, rfl, .inl (isNearest_of_eq hmem ?_)⟩
      rw [← UInt64.toNat_inj]
      dsimp only at hvalue
      omega
  | succ n ih =>
    rw [findOrClosest]
    have hslotFilled := hallocated (digit (n + 1) bound.toNat)
    have hdeeper : toList n
        (table.tableSlots (digit (n + 1) bound.toNat)) ≠ [] →
        ∃ found, findOrClosest linked bound n
            (table.tableSlots (digit (n + 1) bound.toNat)) = some found ∧
          Closest linked bound found := by
      intro hnonempty
      have hbelow := hslotFilled.resolve_left
        fun hnil => hnonempty (by rw [hnil, toList_nil])
      exact ih (haround.slot hpath) hpath.slot hbelow.2 hnonempty
    cases hslot : table.tableSlots (digit (n + 1) bound.toNat) with
    | nil =>
      have hmissing : slotLeaves (n + 1) table
          (digit (n + 1) bound.toNat) = [] := by
        rw [slotLeaves, hslot, toList_nil]
      exact findClosestPointer_closest haround hmissing hfilled
        (fun _ => hpath.lt_of_below) fun _ => hpath.lt_of_above
    | leaves slots =>
      rw [hslot] at hdeeper hslotFilled
      exact hdeeper (hslotFilled.resolve_left (by simp)).1
    | tables slots =>
      rw [hslot] at hdeeper hslotFilled
      exact hdeeper (hslotFilled.resolve_left (by simp)).1

end

end

/-- The tree after any number of calls of `findoraddpointervalue`; the caller
may add addresses to the entry it gets, and the values have as many digits as
the tree has levels. -/
inductive Built {maxlevel : ℕ} : Table PointerList maxlevel → Prop
  | nil : Built .nil
  | add {table : Table PointerList maxlevel} {pointervalue : UInt64}
      {change : PointerList → PointerList} (htable : Built table)
      (hvalue : pointervalue.toNat < 16 ^ (maxlevel + 1))
      (hchange : ∀ entry, (change entry).pointervalue = entry.pointervalue) :
      Built (findoraddpointervalue pointervalue change table)

section

variable {maxlevel : ℕ} {table : Table PointerList maxlevel}

theorem toList_alter_ne_nil (f : Option PointerList → PointerList) (n : ℕ)
    (table : Table PointerList n) (key : ℕ) :
    toList n (alter f n table key) ≠ [] := by
  have hpositive : 0 < 16 ^ (n + 1) := by positivity
  have hdigits : ∀ level ≤ n,
      digit level (key % 16 ^ (n + 1)) = digit level key := by
    apply (mod_eq_iff_digits n _ _).mp
    rw [Nat.mod_mod]
  have hfind : find n (alter f n table key) (key % 16 ^ (n + 1)) =
      some (f (find n table key)) := by
    rw [find_congr n _ hdigits, find_alter_self]
  have hmem := (mem_entries n _ _ _).mpr ⟨Nat.mod_lt _ hpositive, hfind⟩
  rw [toList_eq_entries]
  exact ne_nil_of_mem (mem_map_of_mem hmem)

theorem filled_nil (n : ℕ) : Filled n (.nil : Table PointerList n) := by
  cases n with
  | zero => trivial
  | succ n => exact fun _ => .inl rfl

theorem Filled.alter {n : ℕ} {table : Table PointerList n}
    (hfilled : Filled n table) (f : Option PointerList → PointerList)
    (key : ℕ) : Filled n (alter f n table key) := by
  induction n with
  | zero => trivial
  | succ n ih =>
    intro i
    change Function.update table.tableSlots _ _ i = _ ∨
      toList n (Function.update table.tableSlots _ _ i) ≠ [] ∧
        Filled n (Function.update table.tableSlots _ _ i)
    by_cases hi : i = digit (n + 1) key
    · right
      rw [hi, Function.update_self]
      refine ⟨toList_alter_ne_nil _ _ _ _, ih ?_⟩
      rcases hfilled (digit (n + 1) key) with hnil | hslot
      · rw [hnil]
        exact filled_nil n
      · exact hslot.2
    · rw [Function.update_of_ne hi]
      exact hfilled i

theorem Built.placed (hbuilt : Built table) : Placed table := by
  induction hbuilt with
  | nil => exact placed_nil
  | add htable hvalue hchange ih =>
    exact ih.findoraddpointervalue hchange hvalue

theorem Built.filled (hbuilt : Built table) : Filled maxlevel table := by
  induction hbuilt with
  | nil => exact filled_nil maxlevel
  | add htable hvalue hchange ih => exact ih.alter _ _

theorem Placed.ascending (hplaced : Placed table) :
    Ascending (toList maxlevel table) := by
  rw [Ascending, toList_eq_entries, pairwise_map]
  apply (entries_sorted maxlevel table).imp_of_mem
  intro first second hfirst hsecond hlt
  rw [UInt64.lt_iff_toNat_lt, hplaced.pointervalue_eq hfirst,
    hplaced.pointervalue_eq hsecond]
  exact hlt

end

/-- What the handler is when the scan begins: `fillLinkedList` has raised
unless the tree has an entry. -/
structure BuiltHandler extends Handler where
  built : Built level0list
  nonempty : toHandler.linkedList ≠ []

theorem BuiltHandler.findOrClosest_closest (handler : BuiltHandler)
    (hbound : bound.toNat < 16 ^ (handler.maxlevel + 1)) :
    ∃ found, findOrClosest handler.linkedList bound handler.maxlevel
        handler.level0list = some found ∧
      Closest handler.linkedList bound found := by
  have haround : Around handler.linkedList bound []
      (toList handler.maxlevel handler.level0list) [] :=
    { ascending := handler.built.placed.ascending
      linked_eq := by rw [append_nil, nil_append]; rfl
      before_lt := by simp
      lt_after := by simp }
  apply PointerValueList.findOrClosest_closest haround _ handler.built.filled
    handler.nonempty
  intro pair hpair
  rw [handler.built.placed.pointervalue_eq hpair, Nat.div_eq_of_lt hbound,
    Nat.zero_mul, Nat.zero_add]

theorem settle_mem {entry : PointerList}
    (hfound : settle linked bound entry = some found) : found ∈ linked := by
  unfold settle at hfound
  split at hfound
  · rename_i other hfind
    cases hfound
    exact (takeWhile_sublist _).subset
      (mem_reverse.mp (mem_of_find?_eq_some hfind))
  · exact mem_of_mem_head? hfound

theorem findClosestPointer_mem (hlinked : linked ≠ []) {n : ℕ}
    {table : Table PointerList n} {entrynr : ℤ}
    (hfound : findClosestPointer linked bound n table entrynr = some found) :
    found ∈ linked := by
  rw [findClosestPointer_eq hlinked] at hfound
  obtain ⟨entry, -, hsettle⟩ := Option.bind_eq_some_iff.mp hfound
  exact settle_mem hsettle

theorem findOrClosest_mem (hlinked : linked ≠ []) {n : ℕ}
    {table : Table PointerList n}
    (hsubset : ∀ entry ∈ toList n table, entry ∈ linked)
    (hfound : findOrClosest linked bound n table = some found) :
    found ∈ linked := by
  induction n with
  | zero =>
    rw [findOrClosest] at hfound
    split at hfound
    · rename_i leaf hleaf
      cases hfound
      apply hsubset
      rw [toList, mem_filterMap]
      exact ⟨_, mem_finRange _, hleaf⟩
    · exact findClosestPointer_mem hlinked hfound
  | succ n ih =>
    rw [findOrClosest] at hfound
    split at hfound
    · exact findClosestPointer_mem hlinked hfound
    · apply ih _ hfound
      intro entry hentry
      apply hsubset
      rw [toList_succ, mem_flatMap]
      exact ⟨_, mem_finRange _, hentry⟩

theorem mem_findPointerValue {handler : Handler}
    {startvalue stopvalue : UInt64} {plist : PointerList}
    (hplist : plist ∈ handler.findPointerValue startvalue stopvalue) :
    plist ∈ handler.linkedList := by
  rw [Handler.findPointerValue] at hplist
  split at hplist
  · simp at hplist
  · split at hplist
    · simp at hplist
    · exact (takeWhile_sublist _).subset (mem_reverse.mp hplist)

/-- With a value up to `stopvalue` in the map, the chain that is returned has
no bigger ones. -/
theorem BuiltHandler.findPointerValue_le (handler : BuiltHandler)
    {startvalue stopvalue : UInt64}
    (hbelow : ∃ entry ∈ handler.linkedList, entry.pointervalue ≤ stopvalue)
    {plist : PointerList}
    (hplist : plist ∈ handler.findPointerValue startvalue stopvalue) :
    plist ∈ handler.linkedList ∧ plist.pointervalue ≤ stopvalue := by
  cases hfound : findOrClosest handler.linkedList stopvalue handler.maxlevel
      handler.level0list with
  | none => simp [Handler.findPointerValue, hfound] at hplist
  | some found =>
    have hmem : found ∈ handler.linkedList :=
      findOrClosest_mem handler.nonempty (fun _ hentry => hentry) hfound
    have hle : found.pointervalue ≤ stopvalue := by
      by_cases hstop : stopvalue.toNat < 16 ^ (handler.maxlevel + 1)
      · obtain ⟨closest, hclosest, hnearest | ⟨hall, -⟩⟩ :=
          handler.findOrClosest_closest hstop
        · rw [hfound] at hclosest
          cases hclosest
          exact hnearest.le
        · obtain ⟨other, hother, hotherLe⟩ := hbelow
          exact absurd hotherLe (UInt64.not_le.mpr (hall other hother))
      · have hsmall := ((handler.built.placed.mem_toList_iff found).mp hmem).1
        rw [UInt64.le_iff_toNat_le]
        omega
    have hmemChain := hplist
    have hchain : plist ∈ previousChain handler.linkedList found := by
      rw [Handler.findPointerValue, hfound] at hplist
      dsimp only at hplist
      split at hplist
      · simp at hplist
      · exact hplist
    have hwhile := mem_reverse.mp hchain
    have hplistLe : plist.pointervalue ≤ found.pointervalue := by
      simpa using mem_takeWhile_imp hwhile
    exact ⟨mem_findPointerValue hmemChain, UInt64.le_trans hplistLe hle⟩

def Handler.stopvalueAfter (handler : Handler) (stopvalue : UInt64) :
    UInt64 :=
  ((findOrClosest handler.linkedList stopvalue handler.maxlevel
    handler.level0list).map PointerList.pointervalue).getD stopvalue

/-- The entry with the greatest value in the range, with `stopvalue` set to it,
or `nil` if the range has none. -/
def FindsGreatest (handler : Handler) (startvalue stopvalue : UInt64) :
    Prop :=
  match (handler.findPointerValue startvalue stopvalue).head? with
  | some entry => IsNearest handler.linkedList stopvalue entry ∧
      startvalue ≤ entry.pointervalue ∧
      handler.stopvalueAfter stopvalue = entry.pointervalue
  | none => ∀ entry ∈ handler.linkedList,
      ¬ (startvalue ≤ entry.pointervalue ∧ entry.pointervalue ≤ stopvalue)

theorem findPointerValue_finds_iff (handler : BuiltHandler)
    {startvalue stopvalue : UInt64} (horder : startvalue ≤ stopvalue)
    (hstop : stopvalue.toNat < 16 ^ (handler.maxlevel + 1)) :
    FindsGreatest handler.toHandler startvalue stopvalue ↔
      ∃ entry ∈ handler.linkedList, entry.pointervalue ≤ stopvalue := by
  obtain ⟨found, hfound, hclosest⟩ := handler.findOrClosest_closest hstop
  have hafter : handler.stopvalueAfter stopvalue = found.pointervalue := by
    rw [Handler.stopvalueAfter, hfound]
    rfl
  have hmem : found ∈ handler.linkedList := by
    rcases hclosest with hnearest | ⟨-, hfirst⟩
    · exact hnearest.mem
    · exact mem_of_mem_head? hfirst
  have hhead : (handler.findPointerValue startvalue stopvalue).head? =
      if found.pointervalue < startvalue then none else some found := by
    rw [Handler.findPointerValue, hfound]
    dsimp only
    split
    · rfl
    · exact head?_previousChain handler.built.placed.ascending hmem
  unfold FindsGreatest
  rw [hhead]
  rcases hclosest with hnearest | ⟨hall, -⟩
  · have hright : ∃ entry ∈ handler.linkedList,
        entry.pointervalue ≤ stopvalue := ⟨found, hmem, hnearest.le⟩
    simp only [hright, iff_true]
    by_cases hlow : found.pointervalue < startvalue
    · rw [if_pos hlow]
      rintro other hother ⟨hstart, hle⟩
      have hgreatest := hnearest.greatest other hother hle
      exact UInt64.not_le.mpr hlow (UInt64.le_trans hstart hgreatest)
    · rw [if_neg hlow]
      exact ⟨hnearest, UInt64.not_lt.mp hlow, hafter⟩
  · have hnone : ¬ ∃ entry ∈ handler.linkedList,
        entry.pointervalue ≤ stopvalue := by
      rintro ⟨other, hother, hle⟩
      exact UInt64.not_le.mpr (hall other hother) hle
    have hhigh := UInt64.lt_of_le_of_lt horder (hall found hmem)
    rw [if_neg (UInt64.not_lt.mpr (UInt64.le_of_lt hhigh))]
    constructor
    · rintro ⟨hnearest, -⟩
      exact absurd ⟨found, hmem, hnearest.le⟩ hnone
    · intro hbelow
      exact absurd hbelow hnone

def oneValueTable : Table PointerList 7 :=
  findoraddpointervalue 0x20 id .nil

theorem toList_oneValueTable :
    toList 7 oneValueTable = [newPointerList 0x20] := by
  decide

def oneValueHandler : BuiltHandler where
  maxlevel := 7
  level0list := oneValueTable
  count := 0
  modulelist := []
  specificBaseAsStaticOnly := false
  basestart := 0
  basestop := 0
  built := .add .nil (by decide) fun _ => rfl
  nonempty := by
    change toList 7 oneValueTable ≠ []
    rw [toList_oneValueTable]
    simp

/-- Of the values that begin as $1111 does the next digit is always another
one. -/
def scatteredHandler : BuiltHandler where
  toHandler := { oneValueHandler.toHandler with
    level0list := findoraddpointervalue 0x1200f id
      (findoraddpointervalue 0x1040 id
        (findoraddpointervalue 0x1234 id oneValueTable)) }
  built := .add (.add (.add oneValueHandler.built (by decide) fun _ => rfl)
    (by decide) fun _ => rfl) (by decide) fun _ => rfl
  nonempty := toList_alter_ne_nil _ 7 _ _

theorem findPointerValue_finds_scattered :
    FindsGreatest scatteredHandler.toHandler 0x30 0x1111 :=
  (findPointerValue_finds_iff scatteredHandler (by decide) (by decide)).mpr
    ⟨newPointerList 0x1040, by decide, by decide⟩

theorem findPointerValue_above_range :
    (oneValueHandler.findPointerValue 0 0x10).head? =
        some (newPointerList 0x20) ∧
      ¬ FindsGreatest oneValueHandler.toHandler 0 0x10 := by
  have hhead : (oneValueHandler.findPointerValue 0 0x10).head? =
      some (newPointerList 0x20) := by
    decide
  refine ⟨hhead, ?_⟩
  unfold FindsGreatest
  rw [hhead]
  rintro ⟨hnearest, -⟩
  exact absurd hnearest.le (by decide)

end CheatEngine.PointerValueList
