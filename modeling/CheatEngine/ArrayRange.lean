import Mathlib.Tactic

/-!
# Ranges of arrays

An array is rearranged in a range when its entries outside the range stay and
those inside come from inside.  In-place sorting by parts rests on this: what
holds of all entries of a part still holds after the part is rearranged.
Positions are integers, since an index that goes down may pass the first
entry.
-/

namespace CheatEngine.ArrayRange

variable {α : Type*} [Inhabited α]

def entryAt (xs : Array α) (k : ℤ) : α :=
  xs.getD k.toNat default

structure Rearranges (lo hi : ℤ) (before after : Array α) : Prop where
  perm : after.Perm before
  outside : ∀ k, 0 ≤ k → ¬ (lo ≤ k ∧ k ≤ hi) →
    entryAt after k = entryAt before k
  inside : ∀ k, lo ≤ k → k ≤ hi →
    ∃ m, lo ≤ m ∧ m ≤ hi ∧ entryAt after k = entryAt before m

variable {lo hi : ℤ} {first second third : Array α}

theorem Rearranges.refl (lo hi : ℤ) (xs : Array α) :
    Rearranges lo hi xs xs where
  perm := .refl xs
  outside := fun _ _ _ => rfl
  inside := fun k hlo hhi => ⟨k, hlo, hhi, rfl⟩

theorem Rearranges.trans (hfirst : Rearranges lo hi first second)
    (hsecond : Rearranges lo hi second third) :
    Rearranges lo hi first third where
  perm := hsecond.perm.trans hfirst.perm
  outside := fun k hk hout =>
    (hsecond.outside k hk hout).trans (hfirst.outside k hk hout)
  inside := by
    intro k hlo hhi
    obtain ⟨m, hmlo, hmhi, hm⟩ := hsecond.inside k hlo hhi
    obtain ⟨l, hllo, hlhi, hl⟩ := hfirst.inside m hmlo hmhi
    exact ⟨l, hllo, hlhi, hm.trans hl⟩

theorem Rearranges.mono {lower upper : ℤ} (hlower : lower ≤ lo)
    (hupper : hi ≤ upper) (hpositive : 0 ≤ lower)
    (hrearranges : Rearranges lo hi first second) :
    Rearranges lower upper first second where
  perm := hrearranges.perm
  outside := fun k hk hout =>
    hrearranges.outside k hk fun hin => hout ⟨by omega, by omega⟩
  inside := by
    intro k hlo hhi
    by_cases hin : lo ≤ k ∧ k ≤ hi
    · obtain ⟨m, hmlo, hmhi, hm⟩ := hrearranges.inside k hin.1 hin.2
      exact ⟨m, by omega, by omega, hm⟩
    · exact ⟨k, hlo, hhi, hrearranges.outside k (by omega) hin⟩

theorem Rearranges.size_eq (hrearranges : Rearranges lo hi first second) :
    second.size = first.size :=
  hrearranges.perm.size_eq

theorem Rearranges.forall_inside
    (hrearranges : Rearranges lo hi first second) (property : α → Prop)
    (hall : ∀ k, lo ≤ k → k ≤ hi → property (entryAt first k)) :
    ∀ k, lo ≤ k → k ≤ hi → property (entryAt second k) := by
  intro k hlo hhi
  obtain ⟨m, hmlo, hmhi, hm⟩ := hrearranges.inside k hlo hhi
  rw [hm]
  exact hall m hmlo hmhi

variable {xs : Array α}

theorem entryAt_of_lt {k : ℤ} (hk : 0 ≤ k) (hsize : k < xs.size) :
    entryAt xs k = xs[k.toNat] := by
  rw [entryAt, Array.getD_eq_getD_getElem?, Array.getElem?_eq_getElem,
    Option.getD_some]

theorem entryAt_of_ge {k : ℤ} (hsize : xs.size ≤ k) :
    entryAt xs k = default := by
  rw [entryAt, Array.getD_eq_getD_getElem?, Array.getElem?_eq_none (by omega),
    Option.getD_none]

theorem entryAt_swap {i j k : ℤ} (hi : 0 ≤ i) (hj : 0 ≤ j) (hk : 0 ≤ k)
    (hiSize : i < xs.size) (hjSize : j < xs.size) :
    entryAt (xs.swapIfInBounds i.toNat j.toNat) k =
      if k = i then entryAt xs j
      else if k = j then entryAt xs i
      else entryAt xs k := by
  by_cases hsize : k < xs.size
  · have hki : k.toNat = i.toNat ↔ k = i := by omega
    have hkj : k.toNat = j.toNat ↔ k = j := by omega
    rw [entryAt_of_lt hk (by simpa using hsize), entryAt_of_lt hk hsize,
      entryAt_of_lt hi hiSize, entryAt_of_lt hj hjSize,
      Array.getElem_swapIfInBounds]
    simp only [hki, hkj]
    split
    · rename_i hsame
      rw [if_pos hsame.1]
    · rename_i hdiffers
      have hne : k ≠ i := fun heq => hdiffers ⟨heq, by omega⟩
      rw [if_neg hne]
      split
      · rename_i hsame
        rw [if_pos hsame.1]
      · rename_i hother
        have hne' : k ≠ j := fun heq => hother ⟨heq, by omega⟩
        rw [if_neg hne']
  · rw [entryAt_of_ge (by simp; omega), if_neg (by omega), if_neg (by omega),
      entryAt_of_ge (by omega)]

theorem rearranges_swap {i j : ℤ} (hlo : 0 ≤ lo) (hleft : lo ≤ i ∧ i ≤ hi)
    (hright : lo ≤ j ∧ j ≤ hi) (hsize : hi < xs.size) :
    Rearranges lo hi xs (xs.swapIfInBounds i.toNat j.toNat) where
  perm := by
    rw [Array.swapIfInBounds_def, dif_pos (by omega), dif_pos (by omega)]
    exact Array.swap_perm _ _
  outside := by
    intro k hk hout
    rw [entryAt_swap (by omega) (by omega) hk (by omega) (by omega),
      if_neg (by omega), if_neg (by omega)]
  inside := by
    intro k hklo hkhi
    rw [entryAt_swap (by omega) (by omega) (by omega) (by omega) (by omega)]
    by_cases hki : k = i
    · exact ⟨j, hright.1, hright.2, by rw [if_pos hki]⟩
    · by_cases hkj : k = j
      · exact ⟨i, hleft.1, hleft.2, by rw [if_neg hki, if_pos hkj]⟩
      · exact ⟨k, hklo, hkhi, by rw [if_neg hki, if_neg hkj]⟩

end CheatEngine.ArrayRange
