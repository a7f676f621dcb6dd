import Mathlib.Tactic

/-!
# Pointer paths

A path is a list of offsets in the order in which they are followed: the
pointer at an address is read and the next offset is added to it, until no
offset is left.  `Leads` says where a path ends, `follow` computes it and
`reached` collects the addresses on the way.
-/

namespace CheatEngine.PointerPaths

variable {Address Offset : Type*} (add : Address → Offset → Address)
  (memory : Address → Option Address)

inductive Leads : List Offset → Address → Address → Prop
  | here (address : Address) : Leads [] address address
  | step {offset : Offset} {offsets : List Offset}
      {base pointer target : Address} (hpointer : memory base = some pointer)
      (hrest : Leads offsets (add pointer offset) target) :
      Leads (offset :: offsets) base target

def follow : List Offset → Address → Option Address
  | [], address => some address
  | offset :: offsets, address =>
    (memory address).bind fun pointer => follow offsets (add pointer offset)

def reached : List Offset → Address → List Address
  | [], _ => []
  | offset :: offsets, address =>
    (memory address).elim [] fun pointer =>
      add pointer offset :: reached offsets (add pointer offset)

variable {add memory}

variable {offsets : List Offset}

theorem leads_iff_follow {base target : Address} :
    Leads add memory offsets base target ↔
      follow add memory offsets base = some target := by
  induction offsets generalizing base with
  | nil =>
    constructor
    · rintro ⟨⟩
      rfl
    · intro hfollow
      cases hfollow
      exact .here _
  | cons offset offsets ih =>
    constructor
    · rintro (_ | ⟨hpointer, hrest⟩)
      rw [follow, hpointer, Option.bind_some]
      exact ih.mp hrest
    · intro hfollow
      obtain ⟨pointer, hpointer, hrest⟩ := Option.bind_eq_some_iff.mp hfollow
      exact .step hpointer (ih.mpr hrest)

theorem reached_cons {offset : Offset} {base pointer : Address}
    (hpointer : memory base = some pointer) :
    reached add memory (offset :: offsets) base =
      add pointer offset :: reached add memory offsets (add pointer offset) := by
  rw [reached, hpointer, Option.elim_some]

theorem Leads.length_reached {base target : Address}
    (hleads : Leads add memory offsets base target) :
    (reached add memory offsets base).length = offsets.length := by
  induction hleads with
  | here => rfl
  | step hpointer _ ih =>
    rw [reached_cons hpointer, List.length_cons, List.length_cons, ih]

end CheatEngine.PointerPaths
