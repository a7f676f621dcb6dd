import Mathlib.Tactic
import Mathlib.Order.Interval.Finset.Nat

/-!
# Extents that share no byte

An extent is a range of bytes given by its start and its length.  A list of
extents is packed into a range when they are disjoint and inside it; an
allocator cuts up one of the extents and leaves the others alone, and the
total of a packed list cannot exceed the range.
-/

namespace CheatEngine
namespace ExtentPacking

structure Extent where
  start : ℕ
  length : ℕ
deriving DecidableEq, Repr

namespace Extent

def bytes (extent : Extent) : Finset ℕ :=
  Finset.Ico extent.start (extent.start + extent.length)

@[simp] theorem card_bytes (extent : Extent) :
    extent.bytes.card = extent.length := by
  simp [bytes]

theorem bytes_subset {inner outer : Extent}
    (hstart : outer.start ≤ inner.start)
    (hstop : inner.start + inner.length ≤ outer.start + outer.length) :
    inner.bytes ⊆ outer.bytes :=
  Finset.Ico_subset_Ico hstart hstop

theorem disjoint_of_le {first second : Extent}
    (hle : first.start + first.length ≤ second.start) :
    Disjoint first.bytes second.bytes :=
  Finset.Ico_disjoint_Ico_consecutive _ _ _ |>.mono_right
    (Finset.Ico_subset_Ico hle le_rfl)

theorem start_mem_bytes {extent : Extent} (hlength : 0 < extent.length) :
    extent.start ∈ extent.bytes :=
  Finset.mem_Ico.mpr ⟨le_rfl, by omega⟩

end Extent

def Apart (first second : Extent) : Prop :=
  Disjoint first.bytes second.bytes

theorem Apart.symm {first second : Extent} (hapart : Apart first second) :
    Apart second first :=
  Disjoint.symm hapart

structure Packed (range : Extent) (extents : List Extent) : Prop where
  apart : extents.Pairwise Apart
  inside : ∀ extent ∈ extents, extent.bytes ⊆ range.bytes

namespace Packed

variable {range extent : Extent} {extents rest pieces : List Extent}

theorem perm (hpacked : Packed range extents)
    (hperm : extents.Perm rest) : Packed range rest where
  apart := (hperm.pairwise_iff Apart.symm).mp hpacked.apart
  inside := fun extent hextent =>
    hpacked.inside extent (hperm.mem_iff.mpr hextent)

theorem sublist (hpacked : Packed range extents)
    (hsublist : rest.Sublist extents) : Packed range rest where
  apart := hpacked.apart.sublist hsublist
  inside := fun extent hextent =>
    hpacked.inside extent (hsublist.subset hextent)

theorem cut (hpacked : Packed range (extent :: rest))
    (hinside : ∀ piece ∈ pieces, piece.bytes ⊆ extent.bytes)
    (hapart : pieces.Pairwise Apart) : Packed range (pieces ++ rest) := by
  obtain ⟨hfirst, hrest⟩ := List.pairwise_cons.mp hpacked.apart
  constructor
  · refine List.pairwise_append.mpr ⟨hapart, hrest, ?_⟩
    intro piece hpiece other hother
    exact Disjoint.mono_left (hinside piece hpiece) (hfirst other hother)
  · intro other hother
    rcases List.mem_append.mp hother with hpiece | hmem
    · exact (hinside other hpiece).trans
        (hpacked.inside extent List.mem_cons_self)
    · exact hpacked.inside other (List.mem_cons_of_mem extent hmem)

theorem sum_card_le {sets : List (Finset ℕ)} {whole : Finset ℕ}
    (hapart : sets.Pairwise Disjoint) (hinside : ∀ set ∈ sets, set ⊆ whole) :
    (sets.map Finset.card).sum ≤ whole.card := by
  induction sets generalizing whole with
  | nil => simp
  | cons set rest ih =>
    obtain ⟨hfirst, hrest⟩ := List.pairwise_cons.mp hapart
    have hset : set ⊆ whole := hinside set List.mem_cons_self
    have hremaining : ∀ other ∈ rest, other ⊆ whole \ set := by
      intro other hother
      exact Finset.subset_sdiff.mpr
        ⟨hinside other (List.mem_cons_of_mem set hother),
          (hfirst other hother).symm⟩
    have hle := ih hrest hremaining
    have hcard := Finset.card_sdiff_add_card_eq_card hset
    simp only [List.map_cons, List.sum_cons]
    omega

theorem total_le (hpacked : Packed range extents) :
    (extents.map Extent.length).sum ≤ range.length := by
  have hsets : (extents.map Extent.bytes).Pairwise Disjoint :=
    List.pairwise_map.mpr hpacked.apart
  have hinside : ∀ set ∈ extents.map Extent.bytes, set ⊆ range.bytes := by
    intro set hset
    obtain ⟨extent, hextent, rfl⟩ := List.mem_map.mp hset
    exact hpacked.inside extent hextent
  have hle := sum_card_le hsets hinside
  rw [List.map_map, Extent.card_bytes] at hle
  have hcards : extents.map (Finset.card ∘ Extent.bytes) =
      extents.map Extent.length :=
    List.map_congr_left fun extent _ => extent.card_bytes
  rwa [hcards] at hle

end Packed

end ExtentPacking
end CheatEngine
