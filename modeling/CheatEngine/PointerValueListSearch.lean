import CheatEngine.PointerValueList

/-!
# Searching the reverse pointer map

`findPointerValue` looks for the entry of a value and takes a close one when
there is none.  The scan goes on from the entry it finds through the
`previous` links, so an entry is represented here by the chain that begins with
it.
-/

namespace CheatEngine.PointerValueList

open RadixTree

/-- The linked list of `fillLinkedList` in its order. -/
def Handler.linkedList (handler : Handler) : List PointerList :=
  toList handler.maxlevel handler.level0list

def previousChain (linked : List PointerList) (entry : PointerList) :
    List PointerList :=
  (linked.takeWhile fun other =>
    other.pointervalue ≤ entry.pointervalue).reverse

/-- Goes back while the value is too big, and takes `firstPointerValue` when
every value is. -/
def settle (linked : List PointerList) (maxvalue : UInt64)
    (entry : PointerList) : Option PointerList :=
  match (previousChain linked entry).find? fun other =>
      other.pointervalue ≤ maxvalue with
  | some found => some found
  | none => linked.head?

/-- The slots above `entrynr` from small to big, and those below from big to
small. -/
def slotsAround (entrynr : ℤ) : List (Fin 16) :=
  ((List.finRange 16).filter fun i => entrynr < i.val) ++
    ((List.finRange 16).filter fun i => (i.val : ℤ) < entrynr).reverse

/-- A deeper table that is entered from above or from below is searched from
its own end, entry -1 or $10. -/
def findClosestPointer (linked : List PointerList) (maxvalue : UInt64) :
    (n : ℕ) → Table PointerList n → ℤ → Option PointerList
  | 0, addresslist, entrynr =>
    (slotsAround entrynr).findSome? fun i =>
      (addresslist.leafSlots i).bind (settle linked maxvalue)
  | n + 1, addresslist, entrynr =>
    (slotsAround entrynr).findSome? fun i =>
      match addresslist.tableSlots i with
      | .nil => none
      | next => findClosestPointer linked maxvalue n next
          (if entrynr < i.val then -1 else 16)

def findOrClosest (linked : List PointerList) (stopvalue : UInt64) :
    (n : ℕ) → Table PointerList n → Option PointerList
  | 0, currentarray =>
    match currentarray.leafSlots (digit 0 stopvalue.toNat) with
    | some entry => some entry
    | none => findClosestPointer linked stopvalue 0 currentarray
        (digit 0 stopvalue.toNat).val
  | n + 1, currentarray =>
    match currentarray.tableSlots (digit (n + 1) stopvalue.toNat) with
    | .nil => findClosestPointer linked stopvalue (n + 1) currentarray
        (digit (n + 1) stopvalue.toNat).val
    | next => findOrClosest linked stopvalue n next

/-- The chain of the entry that is found, empty for `nil`; the new `stopvalue`
is the value of its first entry.  A handler has at least one entry, so there is
always a close one. -/
def Handler.findPointerValue (handler : Handler)
    (startvalue stopvalue : UInt64) : List PointerList :=
  match findOrClosest handler.linkedList stopvalue handler.maxlevel
      handler.level0list with
  | none => []
  | some entry =>
    if entry.pointervalue < startvalue then []
    else previousChain handler.linkedList entry

end CheatEngine.PointerValueList
