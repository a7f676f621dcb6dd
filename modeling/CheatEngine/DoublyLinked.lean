import Mathlib.Tactic

/-!
# Doubly linked lists

The links of a list of nodes, given by the two functions that read the
`previous` and the `next` field of a node.  A segment of a list is described
together with the node before it and the node after it, so that a list can be
taken apart at any place and a node put in there.
-/

namespace CheatEngine.DoublyLinked

open List

variable {Node : Type*}

/-- The nodes are linked to one another in this order, the first of them to
`before` and the last to `after`. -/
def Linked (previous next : Node → Option Node) :
    Option Node → List Node → Option Node → Prop
  | _, [], _ => True
  | before, node :: rest, after =>
    previous node = before ∧ next node = rest.head?.or after ∧
      Linked previous next (some node) rest after

variable {previous next previous' next' : Node → Option Node}
  {before after before' after' : Option Node} {node : Node}
  {nodes left right : List Node}

theorem getLast?_cons_or (node : Node) (nodes : List Node)
    (before : Option Node) :
    (node :: nodes).getLast?.or before =
      nodes.getLast?.or (some node) := by
  cases nodes with
  | nil => rfl
  | cons second rest => simp [getLast?_cons]

theorem linked_append :
    Linked previous next before (left ++ right) after ↔
      Linked previous next before left (right.head?.or after) ∧
        Linked previous next (left.getLast?.or before) right after := by
  induction left generalizing before with
  | nil => simp [Linked]
  | cons node rest ih =>
    rw [cons_append, Linked, Linked, ih, getLast?_cons_or,
      head?_append, Option.or_assoc]
    tauto

section

variable (hlinked : Linked previous next before nodes after)

include hlinked

theorem Linked.congr
    (hprevious : ∀ node ∈ nodes, previous' node = previous node)
    (hnext : ∀ node ∈ nodes, next' node = next node) :
    Linked previous' next' before nodes after := by
  induction nodes generalizing before with
  | nil => trivial
  | cons node rest ih =>
    obtain ⟨hbefore, hafter, hrest⟩ := hlinked
    refine ⟨?_, ?_, ih hrest ?_ ?_⟩
    · rw [hprevious node mem_cons_self, hbefore]
    · rw [hnext node mem_cons_self, hafter]
    · intro other hother
      exact hprevious other (mem_cons_of_mem node hother)
    · intro other hother
      exact hnext other (mem_cons_of_mem node hother)

theorem Linked.setNext (hnodup : nodes.Nodup)
    (hprevious : ∀ node ∈ nodes, previous' node = previous node)
    (hnext : ∀ node ∈ nodes, node ∉ nodes.getLast? → next' node = next node)
    (hlast : ∀ node ∈ nodes.getLast?, next' node = after') :
    Linked previous' next' before nodes after' := by
  induction nodes generalizing before with
  | nil => trivial
  | cons node rest ih =>
    obtain ⟨hbefore, hafter, hrest⟩ := hlinked
    obtain ⟨hfresh, hrestNodup⟩ := nodup_cons.mp hnodup
    have hfirst : previous' node = before := by
      rw [hprevious node mem_cons_self, hbefore]
    cases rest with
    | nil => exact ⟨hfirst, hlast node rfl, trivial⟩
    | cons second others =>
      have hlastEq : (node :: second :: others).getLast? =
          (second :: others).getLast? := getLast?_cons_cons
      have hnot : node ∉ (node :: second :: others).getLast? := by
        rw [hlastEq]
        intro hmem
        exact hfresh (mem_of_getLast? hmem)
      refine ⟨hfirst, ?_, ih hrest hrestNodup ?_ ?_ ?_⟩
      · rw [hnext node mem_cons_self hnot, hafter]
        rfl
      · intro other hother
        exact hprevious other (mem_cons_of_mem node hother)
      · intro other hother hnotLast
        apply hnext other (mem_cons_of_mem node hother)
        rw [hlastEq]
        exact hnotLast
      · intro other hother
        apply hlast other
        rw [hlastEq]
        exact hother

theorem Linked.setPrevious (hnodup : nodes.Nodup)
    (hprevious : ∀ node ∈ nodes, node ∉ nodes.head? →
      previous' node = previous node)
    (hfirst : ∀ node ∈ nodes.head?, previous' node = before')
    (hnext : ∀ node ∈ nodes, next' node = next node) :
    Linked previous' next' before' nodes after := by
  cases nodes with
  | nil => trivial
  | cons node rest =>
    obtain ⟨-, hafter, hrest⟩ := hlinked
    obtain ⟨hfresh, -⟩ := nodup_cons.mp hnodup
    refine ⟨hfirst node rfl, ?_, hrest.congr ?_ ?_⟩
    · rw [hnext node mem_cons_self, hafter]
    · intro other hother
      apply hprevious other (mem_cons_of_mem node hother)
      intro hmem
      have hequal : node = other := Option.some.inj hmem
      exact hfresh (hequal ▸ hother)
    · intro other hother
      exact hnext other (mem_cons_of_mem node hother)

end

theorem Linked.insert
    (hlinked : Linked previous next none (left ++ right) none)
    (hnodup : (left ++ right).Nodup)
    (hnodePrevious : previous' node = left.getLast?)
    (hnodeNext : next' node = right.head?)
    (hlast : ∀ other ∈ left.getLast?, next' other = some node)
    (hhead : ∀ other ∈ right.head?, previous' other = some node)
    (hprevious : ∀ other ∈ left ++ right, other ∉ right.head? →
      previous' other = previous other)
    (hnext : ∀ other ∈ left ++ right, other ∉ left.getLast? →
      next' other = next other) :
    Linked previous' next' none (left ++ node :: right) none := by
  obtain ⟨hleft, hright⟩ := linked_append.mp hlinked
  obtain ⟨hleftNodup, hrightNodup, hdisjoint⟩ :=
    nodup_append.mp hnodup
  apply linked_append.mpr
  constructor
  · apply hleft.setNext hleftNodup
    · intro other hother
      apply hprevious other (mem_append_left right hother)
      intro hmem
      exact hdisjoint other hother other (mem_of_mem_head? hmem) rfl
    · intro other hother hnot
      exact hnext other (mem_append_left right hother) hnot
    · intro other hother
      exact hlast other hother
  · refine ⟨?_, ?_, hright.setPrevious hrightNodup ?_ ?_ ?_⟩
    · rw [hnodePrevious, Option.or_none]
    · rw [hnodeNext, Option.or_none]
    · intro other hother hnot
      exact hprevious other (mem_append_right left hother) hnot
    · intro other hother
      exact hhead other hother
    · intro other hother
      apply hnext other (mem_append_right left hother)
      intro hmem
      exact hdisjoint other (mem_of_getLast? hmem) other hother rfl

theorem Linked.next_mem (hlinked : Linked previous next before nodes after)
    (hnode : node ∈ nodes) {other : Node} (hother : next node = some other) :
    other ∈ nodes ∨ after = some other := by
  induction nodes generalizing before with
  | nil => cases hnode
  | cons first rest ih =>
    obtain ⟨-, hafter, hrest⟩ := hlinked
    rcases mem_cons.mp hnode with rfl | hmem
    · rw [hafter] at hother
      cases rest with
      | nil => exact Or.inr hother
      | cons second others =>
        have hequal : second = other := Option.some.inj hother
        exact Or.inl (hequal ▸ mem_cons_of_mem _ mem_cons_self)
    · rcases ih hrest hmem with hfound | hfound
      · exact Or.inl (mem_cons_of_mem first hfound)
      · exact Or.inr hfound

theorem Linked.previous_mem
    (hlinked : Linked previous next before nodes after)
    (hnode : node ∈ nodes) {other : Node}
    (hother : previous node = some other) :
    other ∈ nodes ∨ before = some other := by
  induction nodes generalizing before with
  | nil => cases hnode
  | cons first rest ih =>
    obtain ⟨hbefore, -, hrest⟩ := hlinked
    rcases mem_cons.mp hnode with rfl | hmem
    · exact Or.inr (hbefore.symm.trans hother)
    · rcases ih hrest hmem with hfound | hfound
      · exact Or.inl (mem_cons_of_mem first hfound)
      · have hequal : first = other := Option.some.inj hfound
        exact Or.inl (hequal ▸ mem_cons_self)

end CheatEngine.DoublyLinked
