import Mathlib.Tactic

/-!
# The nearest node of a search tree

A binary tree is searched for a key: the answer is a node with that key, or
else the last node on the path of the search.  Whatever the shape of the tree,
the second one is a neighbour of the key in the order of the tree.
-/

namespace CheatEngine
namespace SearchTree

open List

inductive Tree (Data : Type*)
  | nil
  | node (left : Tree Data) (data : Data) (right : Tree Data)
deriving DecidableEq, Repr

variable {Data Key : Type*} [LinearOrder Key]

namespace Tree

def inorder : Tree Data → List Data
  | nil => []
  | node left data right => left.inorder ++ data :: right.inorder

def findNearest (keyOf : Data → Key) (key : Key) : Tree Data → Option Data
  | nil => none
  | node left data right =>
    if key = keyOf data then
      some data
    else if key < keyOf data then
      (left.findNearest keyOf key).or (some data)
    else
      (right.findNearest keyOf key).or (some data)

end Tree

/-- A place of a sorted list where a key was found, or next to which it would
have to be. -/
structure Nearest (keyOf : Data → Key) (key : Key) (nodes left : List Data)
    (data : Data) (right : List Data) : Prop where
  split : nodes = left ++ data :: right
  below : keyOf data < key → ∀ other ∈ right, key < keyOf other
  above : key < keyOf data → ∀ other ∈ left, keyOf other < key

variable {keyOf : Data → Key} {key : Key}

theorem Tree.findNearest_eq_none_iff {tree : Tree Data} :
    tree.findNearest keyOf key = none ↔ tree = .nil := by
  cases tree with
  | nil => simp [Tree.findNearest]
  | node left data right =>
    simp only [Tree.findNearest, reduceCtorEq, iff_false]
    split
    · exact Option.some_ne_none data
    · split <;> simp

theorem Nearest.ofLeft {nodes before after rest : List Data}
    {data root : Data} (hnearest : Nearest keyOf key nodes before data after)
    (hroot : key < keyOf root)
    (hrest : ∀ other ∈ rest, keyOf root ≤ keyOf other) :
    Nearest keyOf key (nodes ++ root :: rest) before data
      (after ++ root :: rest) where
  split := by rw [hnearest.split, append_assoc, cons_append]
  below := by
    intro hbelow other hother
    rcases mem_append.mp hother with hafter | hlater
    · exact hnearest.below hbelow other hafter
    · rcases mem_cons.mp hlater with rfl | hmem
      · exact hroot
      · exact hroot.trans_le (hrest other hmem)
  above := hnearest.above

theorem Nearest.ofRight {nodes before after rest : List Data}
    {data root : Data} (hnearest : Nearest keyOf key nodes before data after)
    (hroot : keyOf root < key)
    (hrest : ∀ other ∈ rest, keyOf other ≤ keyOf root) :
    Nearest keyOf key (rest ++ root :: nodes) (rest ++ root :: before) data
      after where
  split := by rw [hnearest.split, append_assoc, cons_append]
  below := hnearest.below
  above := by
    intro habove other hother
    rcases mem_append.mp hother with hearlier | hbefore
    · exact (hrest other hearlier).trans_lt hroot
    · rcases mem_cons.mp hbefore with rfl | hmem
      · exact hroot
      · exact hnearest.above habove other hmem

/-- The search of a sorted tree ends next to the key, in every shape that the
tree may have. -/
theorem Tree.findNearest_nearest {tree : Tree Data} {data : Data}
    (hsorted : tree.inorder.Pairwise fun first second =>
      keyOf first ≤ keyOf second)
    (hfound : tree.findNearest keyOf key = some data) :
    ∃ left right, Nearest keyOf key tree.inorder left data right := by
  induction tree with
  | nil => cases hfound
  | node left root right ihLeft ihRight =>
    simp only [Tree.inorder] at hsorted ⊢
    obtain ⟨hleft, hcons, hcross⟩ := pairwise_append.mp hsorted
    obtain ⟨hrootRight, hright⟩ := pairwise_cons.mp hcons
    have hleftRoot : ∀ other ∈ left.inorder, keyOf other ≤ keyOf root :=
      fun other hother => hcross other hother root mem_cons_self
    simp only [Tree.findNearest] at hfound
    split at hfound
    · rename_i hequal
      cases hfound
      refine ⟨left.inorder, right.inorder, rfl, ?_, ?_⟩
      · intro hbelow
        exact absurd hequal hbelow.ne'
      · intro habove
        exact absurd hequal habove.ne
    · rename_i hne
      split at hfound
      · rename_i hlt
        cases hnode : left.findNearest keyOf key with
        | some found =>
          rw [hnode] at hfound
          cases hfound
          obtain ⟨before, after, hnearest⟩ := ihLeft hleft hnode
          exact ⟨before, after ++ root :: right.inorder,
            hnearest.ofLeft hlt hrootRight⟩
        | none =>
          rw [hnode] at hfound
          cases hfound
          rw [Tree.findNearest_eq_none_iff.mp hnode]
          refine ⟨[], right.inorder, rfl, ?_, ?_⟩
          · intro hbelow
            exact absurd hbelow hlt.asymm
          · intro _ other hother
            cases hother
      · rename_i hnot
        have hgt : keyOf root < key :=
          lt_of_le_of_ne (not_lt.mp hnot) (Ne.symm hne)
        cases hnode : right.findNearest keyOf key with
        | some found =>
          rw [hnode] at hfound
          cases hfound
          obtain ⟨before, after, hnearest⟩ := ihRight hright hnode
          exact ⟨left.inorder ++ root :: before, after,
            hnearest.ofRight hgt hleftRoot⟩
        | none =>
          rw [hnode] at hfound
          cases hfound
          rw [Tree.findNearest_eq_none_iff.mp hnode]
          refine ⟨left.inorder, [], rfl, ?_, ?_⟩
          · intro _ other hother
            cases hother
          · intro habove
            exact absurd habove hgt.asymm

end SearchTree
end CheatEngine
